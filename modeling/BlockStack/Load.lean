import BlockStack.Record
import BlockStack.Resource

/-!
# BlockStack.Load

Building the layer forests of all resources from persisted rows.

Rows are attached in passes: first the rows without a parent, then the rows whose parent was
attached in the pass before, so a row always finds its parent in place. The first row that does not
fit ends the load.

* `Graph`: the loaded forests with the catalog's definitions and pools.
* `Graph.attach`: check one row with its volumes and attach it.
* `Graph.ofDocument`: the whole load.
* `leftoverFault`: why rows are left over when no pass finds any more: a parent that no row has, or
  a cycle of parent links.
-/

namespace BlockStack

/-- Everything that was loaded. -/
structure Graph where
  definitions : SortedMap String ResourceDefinition := .empty
  resources : SortedMap ResourceKey Resource := .empty
  pools : SortedMap PoolKey StoragePool := .empty
  /-- The layers attached by each pass. -/
  passes : List (List LayerId) := []
  /-- The resource of every attached layer. -/
  owners : List (LayerId × ResourceKey) := []
  deriving DecidableEq, Repr, Inhabited

/-- A load that was ended by a fault, after some whole passes. -/
structure LoadFailure where
  fault : Fault
  passes : List (List LayerId) := []
  deriving DecidableEq, Repr

namespace Graph

def layerCount (graph : Graph) : Nat := graph.owners.length

def ownerOf? (graph : Graph) (id : LayerId) : Option ResourceKey :=
  (graph.owners.find? (fun e => e.1 = id)).map (·.2)

/-- The pass that attached a layer, counted from zero. -/
def passOf? (graph : Graph) (id : LayerId) : Option Nat :=
  graph.passes.findIdx? (fun pass => pass.contains id)

/-- Enter the resources of a catalog; each needs a definition of its name. -/
def addResources (graph : Graph) : List ResourceRow → Except Fault Graph
  | [] => .ok graph
  | row :: rest =>
    match graph.definitions.get? row.definition with
    | none => .error (.inconsistent (.unknownDefinition row.key row.definition))
    | some definition =>
      addResources
        { graph with resources := graph.resources.insert row.key { key := row.key, definition } }
        rest

def ofCatalog (catalog : Catalog) : Except Fault Graph :=
  addResources
    { definitions := .ofList (catalog.definitions.map (fun d => (d.name, d)))
      pools := .ofList (catalog.pools.map (fun p => (p.key, p))) }
    catalog.resources

end Graph

namespace LayerRow

/-- The payload of a row of a kind; a replication row needs its node settings. -/
def payload (row : LayerRow) : LayerKind → Except Fault NodePayload
  | .replication =>
    match row.replication with
    | some settings => .ok (.replication settings)
    | none => .error (.inconsistent (.noNodeData row.id))
  | .encryption => .ok .encryption
  | .remoteAttach => .ok .remoteAttach
  | .storage => .ok .storage

/-- The replication settings for the suffix of a row. -/
def definition (row : LayerRow) (resource : Resource) : Except Fault ReplicationDefinition :=
  match resource.definition.replication.get? row.suffix with
  | some definition => .ok definition
  | none => .error (.inconsistent (.noDefinition row.id row.suffix resource.definition.name))

/-- The suffix of a row has to start with the suffix of its parent. -/
def checkSuffix (row : LayerRow) (parent : Option LayerNode) : Except Fault Unit :=
  match parent with
  | some above =>
    if above.suffix.toList.isPrefixOf row.suffix.toList then .ok ()
    else .error (.inconsistent (.suffixOutside row.id row.suffix above.suffix))
  | none => .ok ()

/-- The storage data of a volume row; its pool has to be in the catalog with its provider. -/
def storageData (row : LayerRow) (pools : SortedMap PoolKey StoragePool) (volume : VolumeRow)
    (provider pool : String) (present : Bool) (fields : AttributeFields) :
    Except Fault VolumeData :=
  match ProviderKind.ofName? provider with
  | none => .error (.inconsistent (.unknownProvider volume.number row.id provider))
  | some kind =>
    match pools.get? ⟨row.owner.node, pool⟩ with
    | none => .error (.missingPool row.id row.owner.node pool)
    | some found =>
      if found.provider = kind then
        .ok (.storage {
          provider := kind
          pool := pool
          attributes := .ofFields kind fields
          present := present
          sizeState := none })
      else
        .error (.inconsistent
          (.providerDiffers volume.number row.id kind found.key found.provider))

/-- The data of a volume row on a row of kind `kind`; `known` tells which replication volumes are
defined. -/
def volumeData (row : LayerRow) (kind : LayerKind) (known : UInt32 → Bool)
    (pools : SortedMap PoolKey StoragePool) (volume : VolumeRow) : Except Fault VolumeData :=
  match kind, volume.payload with
  | .replication, .replication metaDiskPath =>
    if known volume.number then .ok (.replication metaDiskPath)
    else .error (.inconsistent (.noVolumeDefinition volume.number row.id))
  | .encryption, .encryption backingDevice isOpen => .ok (.encryption backingDevice isOpen)
  | .remoteAttach, .remoteAttach => .ok .remoteAttach
  | .storage, .storage provider pool present fields =>
    row.storageData pools volume provider pool present fields
  | _, _ => .error (.inconsistent (.foreignPayload volume.number row.id row.kind))

/-- The volumes of a row by number, each number once. -/
def volumes (row : LayerRow) (kind : LayerKind) (known : UInt32 → Bool)
    (pools : SortedMap PoolKey StoragePool) :
    List VolumeRow → SortedMap UInt32 VolumeLeaf → Except Fault (SortedMap UInt32 VolumeLeaf)
  | [], done => .ok done
  | volume :: rest, done =>
    match row.volumeData kind known pools volume with
    | .error fault => .error fault
    | .ok data =>
      if done.contains volume.number then
        .error (.inconsistent (.repeatedVolume row.id volume.number))
      else
        row.volumes kind known pools rest (done.insert volume.number {
          number := volume.number
          expectedSizeKib := volume.expectedSizeKib
          facts := volume.facts
          data := data })

def node (row : LayerRow) (kind : LayerKind) (known : UInt32 → Bool)
    (pools : SortedMap PoolKey StoragePool) (payload : NodePayload) (rows : List VolumeRow) :
    Except Fault LayerNode :=
  match row.volumes kind known pools rows .empty with
  | .error fault => .error fault
  | .ok volumes =>
    .ok { id := row.id, suffix := row.suffix, suspended := row.suspended, payload, volumes }

/-- The node of a row of a resource, checked against the resource, its parent and the pools. -/
def build (row : LayerRow) (kind : LayerKind) (resource : Resource)
    (pools : SortedMap PoolKey StoragePool) (rows : List VolumeRow) : Except Fault LayerNode :=
  match row.payload kind with
  | .error fault => .error fault
  | .ok payload =>
    match kind with
    | .replication =>
      match row.definition resource with
      | .error fault => .error fault
      | .ok definition => row.node kind definition.volumes.contains pools payload rows
    | _ =>
      match row.checkSuffix (row.parent.bind resource.tree.get?) with
      | .error fault => .error fault
      | .ok () => row.node kind (fun _ => false) pools payload rows

end LayerRow

namespace Graph

/-- A row with a parent has to have the parent's owner. -/
def checkOwner (graph : Graph) (row : LayerRow) : Except Fault Unit :=
  match row.parent with
  | none => .ok ()
  | some parent =>
    if graph.ownerOf? parent = some row.owner then .ok ()
    else .error (.inconsistent (.foreignParent row.id row.owner parent))

def insertNode (tree : LayerTree) (parent : Option UInt64) (node : LayerNode) :
    Except Fault LayerTree :=
  match parent with
  | some above => tree.insertChild above node
  | none => tree.insertRoot node

/-- Check a row with its volumes and attach it to its resource. -/
def attach (graph : Graph) (row : LayerRow) (rows : List VolumeRow) : Except Fault Graph :=
  match LayerKind.ofName? row.kind with
  | none => .error (.unknownLayerKind row.id row.kind)
  | some kind =>
    match graph.checkOwner row with
    | .error fault => .error fault
    | .ok () =>
      match graph.resources.get? row.owner with
      | none => .error (.missingOwner row.id row.owner.text)
      | some resource =>
        match row.build kind resource graph.pools rows with
        | .error fault => .error fault
        | .ok node =>
          match insertNode resource.tree row.parent node with
          | .error fault => .error fault
          | .ok tree =>
            .ok { graph with
              resources := graph.resources.insert row.owner { resource with tree }
              owners := graph.owners ++ [(row.id, row.owner)] }

/-- The volume rows of a layer, in document order. -/
def volumesOf (volumes : List VolumeRow) (id : UInt64) : List VolumeRow :=
  volumes.filter (fun volume => volume.layer = id)

def attachAll (volumes : List VolumeRow) (graph : Graph) : List LayerRow → Except Fault Graph
  | [] => .ok graph
  | row :: rest =>
    match graph.attach row (volumesOf volumes row.id) with
    | .error fault => .error fault
    | .ok next => attachAll volumes next rest

/-- Whether a row's turn has come: it has no parent, or the pass before attached its parent. -/
def isReady (previous : Option (List UInt64)) (row : LayerRow) : Bool :=
  match previous, row.parent with
  | none, parent => parent.isNone
  | some loaded, some parent => loaded.contains parent
  | some _, none => false

/-- Run passes until none finds a row, at most `fuel`; the rows left over are returned. -/
def runPasses (volumes : List VolumeRow) :
    (fuel : Nat) → Graph → Option (List UInt64) → List LayerRow →
      Except LoadFailure (Graph × List LayerRow)
  | 0, graph, _, pending => .ok (graph, pending)
  | fuel + 1, graph, previous, pending =>
    let ready := pending.filter (isReady previous)
    let rest := pending.filter (fun row => !isReady previous row)
    if ready.isEmpty then .ok (graph, rest)
    else
      match attachAll volumes graph ready with
      | .error fault => .error { fault, passes := graph.passes }
      | .ok next =>
        let pass := ready.map (·.id)
        runPasses volumes fuel { next with passes := next.passes ++ [pass] } (some pass) rest

end Graph

/-- The parent of the row with a number, among some rows. -/
def parentIn (rows : List LayerRow) (id : UInt64) : Option UInt64 :=
  (rows.find? (fun row => row.id = id)).bind (·.parent)

/-- Follow parents until one comes up again; that one lies on a cycle. -/
def findCycle (rows : List LayerRow) :
    (fuel : Nat) → (visited : List UInt64) → Option UInt64 → Fault
  | 0, _, _ => .internal "leftover layer records without a parent chain"
  | _, _, none => .internal "leftover layer records without a parent chain"
  | fuel + 1, visited, some id =>
    if visited.contains id then .inconsistent (.parentCycle id)
    else findCycle rows fuel (id :: visited) (parentIn rows id)

/-- The rows whose parent is not among the rows, with these parents. -/
def danglingLinks (rows : List LayerRow) : List (UInt64 × UInt64) :=
  rows.filterMap (fun row => row.parent.bind (fun parent =>
    if rows.any (fun other => other.id = parent) then none else some (row.id, parent)))

/-- The link with the smaller child. -/
def smallerLink (a b : UInt64 × UInt64) : UInt64 × UInt64 := if b.1 < a.1 then b else a

/-- Why rows are left over after the last pass. -/
def leftoverFault (rows : List LayerRow) : Fault :=
  match danglingLinks rows with
  | link :: links =>
    let least := links.foldl smallerLink link
    .danglingParent least.1 least.2
  | [] => findCycle rows (rows.length + 1) [] (rows.map (·.id)).min?

/-- The first number that an earlier row has already. -/
def firstRepeated (seen : List UInt64) : List LayerRow → Option UInt64
  | [] => none
  | row :: rest =>
    if seen.contains row.id then some row.id else firstRepeated (row.id :: seen) rest

/-- The smallest layer number of a volume row that no layer row has. -/
def strayVolume (layers : List LayerRow) (volumes : List VolumeRow) : Option UInt64 :=
  ((volumes.map (·.layer)).filter (fun id => !layers.any (fun row => row.id = id))).min?

namespace Graph

/-- Load a document, telling a failure together with the passes that came before it. -/
def load (doc : Document) : Except LoadFailure Graph :=
  match ofCatalog doc.catalog with
  | .error fault => .error { fault }
  | .ok graph =>
    match firstRepeated [] doc.layers with
    | some id => .error { fault := .inconsistent (.duplicateRow id) }
    | none =>
      match runPasses doc.volumes (doc.layers.length + 1) graph none doc.layers with
      | .error failure => .error failure
      | .ok (graph, leftover) =>
        if leftover.isEmpty then
          match strayVolume doc.layers doc.volumes with
          | some id =>
            .error { fault := .inconsistent (.strayVolumes id), passes := graph.passes }
          | none => .ok { graph with resources := graph.resources.mapValues (fun _ r => r.refresh) }
        else .error { fault := leftoverFault leftover, passes := graph.passes }

def ofDocument (doc : Document) : Except Fault Graph :=
  match load doc with
  | .ok graph => .ok graph
  | .error failure => .error failure.fault

end Graph
end BlockStack
