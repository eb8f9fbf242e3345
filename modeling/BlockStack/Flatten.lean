import BlockStack.Record
import BlockStack.Resource

/-!
# BlockStack.Flatten

The rows of a loaded resource, the way back from `BlockStack.Load`.

* `Resource.rows`: a row for each layer, depth first, and behind it in the other table the rows of
  its volumes by number.
-/

namespace BlockStack

def LayerNode.row (key : ResourceKey) (node : LayerNode) : LayerRow where
  id := node.id
  parent := node.parent
  kind := node.kind.name
  suffix := node.suffix
  owner := key
  suspended := node.suspended
  replication :=
    match node.payload with
    | .replication settings => some settings
    | _ => none

def VolumeData.payload : VolumeData → VolumePayload
  | .replication metaDiskPath => .replication metaDiskPath
  | .encryption backingDevice isOpen => .encryption backingDevice isOpen
  | .remoteAttach => .remoteAttach
  | .storage volume =>
    .storage volume.provider.name volume.pool volume.present volume.attributes.toFields

def VolumeLeaf.row (layer : LayerId) (leaf : VolumeLeaf) : VolumeRow where
  layer := layer
  number := leaf.number
  expectedSizeKib := leaf.expectedSizeKib
  facts := leaf.facts
  payload := leaf.data.payload

/-- The rows of some nodes, in their order. -/
def rowsOfNodes (key : ResourceKey) (nodes : List LayerNode) : Rows where
  layers := nodes.map (·.row key)
  volumes := nodes.flatMap (fun node => node.volumes.values.map (·.row node.id))

def Resource.rows (resource : Resource) : Rows :=
  rowsOfNodes resource.key (resource.tree.preOrder.filterMap resource.tree.get?)

/-- The rows of all resources of a graph, in the order of their keys. -/
def Graph.rowsOf (resources : List Resource) : Rows :=
  resources.foldl (fun rows resource => rows.append resource.rows) {}

end BlockStack
