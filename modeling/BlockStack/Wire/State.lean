import BlockStack.Flatten
import BlockStack.Load
import BlockStack.Metrics
import BlockStack.Wire.Record

/-!
# BlockStack.Wire.State

The JSON form in which the state of the controller is shown. These forms are written and never
read back.

* `LayerTree.toJson`, `Resource.toJson`, `Graph.toMembers`: what was loaded.
* `MergeSummary.toJson`, `Metrics.toJson`: what merges did.
-/

namespace BlockStack

open Json

def Attributes.toJson : Attributes → Json
  | .none => obj [("family", str "none")]
  | .lvm volumeGroup thinPool =>
    obj [("family", str "lvm"), ("volume_group", ofOption str volumeGroup),
      ("thin_pool", ofOption str thinPool)]
  | .zfs zpool extentSizeKib =>
    obj [("family", str "zfs"), ("zpool", ofOption str zpool),
      ("extent_size_kib", ofOption ofUInt64 extentSizeKib)]
  | .file backingFile => obj [("family", str "file"), ("backing_file", ofOption str backingFile)]
  | .spdk lvolStore => obj [("family", str "spdk"), ("lvol_store", ofOption str lvolStore)]

/-- The data of a volume that belongs to its kind of layer. -/
def VolumeData.toJson : VolumeData → Json
  | .replication metaDiskPath => obj [("meta_disk_path", ofOption str metaDiskPath)]
  | .encryption backingDevice isOpen =>
    obj [("backing_device", ofOption str backingDevice), ("opened", bool isOpen)]
  | .remoteAttach => obj []
  | .storage volume =>
    obj [("provider", str volume.provider.name), ("storage_pool", str volume.pool),
      ("attributes", volume.attributes.toJson), ("exists", bool volume.present),
      ("size_state", ofOption (fun s => str s.display) volume.sizeState)]

def VolumeLeaf.toJson (leaf : VolumeLeaf) : Json :=
  obj ([("volume_number", ofUInt32 leaf.number),
    ("expected_size_kib", ofUInt64 leaf.expectedSizeKib)] ++
    leaf.facts.toMembers ++
    [("kind", str leaf.data.kind.name), ("data", leaf.data.toJson)])

def layersJson (ids : List LayerId) : Json := arr (ids.map ofUInt64)

def LayerNode.toJson (node : LayerNode) : Json :=
  obj [("id", ofUInt64 node.id), ("parent", ofOption ofUInt64 node.parent),
    ("children", layersJson node.children), ("suffix", str node.suffix),
    ("suspended", bool node.suspended), ("kind", str node.kind.name),
    ("replication",
      match node.payload with
      | .replication settings => settings.toJson
      | _ => null),
    ("volumes", arr (node.volumes.values.map VolumeLeaf.toJson))]

def LayerTree.toJson (tree : LayerTree) : Json :=
  obj [("nodes", arr (tree.nodes.map LayerNode.toJson)), ("roots", layersJson tree.roots),
    ("pre_order", layersJson tree.preOrder)]

def Metadata.toJson (metadata : Metadata) : Json :=
  obj [("layer_stack", arr (metadata.layerStack.map (fun k => str k.name))),
    ("diskless", bool metadata.diskless),
    ("volume_numbers", arr (metadata.volumeNumbers.keys.map ofUInt32))]

def Resource.toMembers (resource : Resource) : List (String × Json) :=
  [("key", str resource.key.text), ("definition", str resource.definition.name),
    ("tree", resource.tree.toJson), ("metadata", resource.metadata.toJson)]

def Resource.toJson (resource : Resource) : Json := obj resource.toMembers

def Rows.toJson (rows : Rows) : Json :=
  obj [("layers", arr (rows.layers.map LayerRow.toJson)),
    ("volumes", arr (rows.volumes.map VolumeRow.toJson))]

/-- The members that describe a graph, its resources written by `write`. -/
def Graph.toMembers (write : Resource → Json) (graph : Graph) : List (String × Json) :=
  [("definitions", arr (graph.definitions.values.map ResourceDefinition.toJson)),
    ("resources", arr (graph.resources.values.map write)),
    ("storage_pools", arr (graph.pools.values.map StoragePool.toJson)),
    ("passes", arr (graph.passes.map layersJson)),
    ("layer_count", nat graph.layerCount),
    ("pass_of", arr (graph.resources.values.flatMap (fun r =>
      r.tree.preOrder.map (fun id => arr [ofUInt64 id, ofOption nat (graph.passOf? id)]))))]

def MergeSummary.toJson (summary : MergeSummary) : Json :=
  obj [("merged_volumes", nat summary.merged), ("tolerated_absences", nat summary.tolerated),
    ("changed_fields", nat summary.changed),
    ("drift", arr (summary.drift.map (fun d =>
      obj [("identifier", str d.identifier), ("state", str d.state.name),
        ("expected_kib", ofUInt64 d.expectedKib), ("actual_kib", ofUInt64 d.actualKib)])))]

/-- Counters, with the number of merges that were tried. -/
def Metrics.toJson (metrics : Metrics) : Json :=
  obj [("loaded_resources", ofUInt64 metrics.loadedResources),
    ("loaded_layers", ofUInt64 metrics.loadedLayers),
    ("merges_applied", ofUInt64 metrics.applied),
    ("merges_rejected", ofUInt64 metrics.rejected),
    ("merges_failed", ofUInt64 metrics.failed),
    ("tolerated_absences", ofUInt64 metrics.toleratedAbsences),
    ("changed_fields", ofUInt64 metrics.changedFields),
    ("drift_warnings", ofUInt64 metrics.driftWarnings),
    ("total_merges", ofUInt64 metrics.total),
    ("touched", bool metrics.touched)]

end BlockStack
