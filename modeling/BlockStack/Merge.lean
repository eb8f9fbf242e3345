import BlockStack.Report
import BlockStack.Resource

/-!
# BlockStack.Merge

Taking what a satellite reports into the layers of a resource. Reported layers are matched to
layers by kind and suffix below the same parent, reported volumes to volumes by number. Only
observed fields change, and a report that does not fit changes nothing.

* `MergeContext`: what a merge looks up: the resource, its pools, what the backend knows.
* `MergeContext.observe`: one reported volume taken into a volume.
* `MergeContext.mergeNode`: a reported layer taken into a layer.
* `MergeContext.mergeLevel`: reported layers with all layers below them.
* `Resource.merge`: the whole merge.
-/

namespace BlockStack

/-- What a backend knows of one of its objects. -/
structure ObjectFacts where
  present : Bool
  path : Option String := none
  sizeKib : UInt64 := 0
  attributes : SortedMap String String := .empty
  deriving DecidableEq, Repr, Inhabited

/-- What a backend knows of its objects, by name. -/
abbrev FactsMap := SortedMap String ObjectFacts

/-- A volume whose size in the backend differs too much from the size asked for. -/
structure Drift where
  identifier : String
  state : SizeState
  expectedKib : UInt64
  actualKib : UInt64
  deriving DecidableEq, Repr, Inhabited

/-- What a merge did: how many volumes were reported, how many were missing without harm, how many
observed fields changed, and which sizes are out of tolerance. -/
structure MergeSummary where
  merged : Nat := 0
  tolerated : Nat := 0
  changed : Nat := 0
  drift : List Drift := []
  deriving DecidableEq, Repr, Inhabited

/-- Two summaries taken together. -/
def MergeSummary.append (a b : MergeSummary) : MergeSummary where
  merged := a.merged + b.merged
  tolerated := a.tolerated + b.tolerated
  changed := a.changed + b.changed
  drift := a.drift ++ b.drift

/-- A volume that was not reported, without harm. -/
structure Absence where
  kind : LayerKind
  suffix : String
  volume : UInt32
  deriving DecidableEq, Repr, Inhabited

/-- A merge that was ended by a fault, after some absences were passed over. -/
structure Rejection where
  fault : Fault
  absences : List Absence := []
  deriving DecidableEq, Repr

/-- Whether a layer of a kind may have volumes that are not reported; a volume attached from
another node has to be there once the layer is applied. -/
def LayerKind.toleratesAbsence : LayerKind → Bool
  | replication | encryption | storage => true
  | remoteAttach => false

/-- One if two values differ, else zero. -/
def differs {α : Type} [DecidableEq α] (a b : α) : Nat := if a = b then 0 else 1

def VolumeFacts.changes (before after : VolumeFacts) : Nat :=
  differs before.devicePath after.devicePath
    + differs before.allocatedSizeKib after.allocatedSizeKib
    + differs before.usableSizeKib after.usableSizeKib
    + differs before.diskState after.diskState

/-- How many of the observed fields differ, between data of one kind. -/
def VolumeData.changes : VolumeData → VolumeData → Nat
  | replication a, replication b => differs a b
  | encryption a b, encryption c d => differs a c + differs b d
  | storage a, storage b =>
    differs a.attributes b.attributes + differs a.present b.present
      + differs a.sizeState b.sizeState
  | _, _ => 0

def VolumeLeaf.changes (before after : VolumeLeaf) : Nat :=
  before.facts.changes after.facts + before.data.changes after.data

/-- What a merge looks up. -/
structure MergeContext where
  key : ResourceKey
  definition : ResourceDefinition
  pools : SortedMap PoolKey StoragePool
  facts : FactsMap
  tolerance : UInt64

namespace MergeContext

/-- The fault of a report that names what is not there. -/
def unknown (ctx : MergeContext) (cause : Discrepancy) : Fault := .unknownObject ctx.key.text cause

/-- What the backend knows of a storage volume: whether it is there, how its size compares, and
the size itself. -/
def lookUp (ctx : MergeContext) (identifier : String) (expected : UInt64) (volume : StorageVolume) :
    Except Fault (Option (SizeState × UInt64)) :=
  if volume.provider.hasBackingObject then
    match ctx.facts.get? identifier with
    | none => .ok none
    | some facts =>
      if facts.present then
        let key : PoolKey := ⟨ctx.key.node, volume.pool⟩
        match ctx.pools.get? key with
        | none => .error (.internal s!"storage pool {key.text} is not indexed")
        | some pool =>
          .ok (some (Sizes.classify expected facts.sizeKib pool.extentSizeKib ctx.tolerance,
            facts.sizeKib))
      else .ok none
  else .ok none

/-- The provider that a reported storage volume names has to be that of the volume. -/
def checkProvider (ctx : MergeContext) (identifier : String) (volume : StorageVolume)
    (reported : ReportedVolume) : Except Fault Unit :=
  match require "provider" reported.provider with
  | .error fault => .error fault
  | .ok name =>
    match ProviderKind.ofName? name with
    | none => .error (ctx.unknown (.unknownProvider name identifier))
    | some provider =>
      if provider = volume.provider then .ok ()
      else .error (ctx.unknown (.providerDiffers identifier provider volume.provider))

/-- A volume out of tolerance, if its verdict is one that operators should see. -/
def driftOf (identifier : String) (expected : UInt64) : Option (SizeState × UInt64) → List Drift
  | some (state, actual) =>
    if state.isDrift then [{ identifier, state, expectedKib := expected, actualKib := actual }]
    else []
  | none => []

/-- A reported storage volume taken into a storage volume. -/
def observeStorage (ctx : MergeContext) (identifier : String) (expected : UInt64)
    (volume : StorageVolume) (reported : ReportedVolume) :
    Except Fault (StorageVolume × List Drift) :=
  match ctx.checkProvider identifier volume reported with
  | .error fault => .error fault
  | .ok () =>
    match ctx.lookUp identifier expected volume with
    | .error fault => .error fault
    | .ok found =>
      .ok ({ volume with
          attributes := .ofFields volume.provider reported.attributes
          present := found.isSome
          sizeState := found.map (·.1) },
        driftOf identifier expected found)

/-- A reported volume taken into the volume that a layer with a suffix has under the reported number,
by which the backend is asked. The state of the disk is no fact of a storage layer. -/
def observe (ctx : MergeContext) (suffix : String) (number : UInt32) (leaf : VolumeLeaf)
    (reported : ReportedVolume) : Except Fault (VolumeLeaf × List Drift) :=
  match leaf.data with
  | .replication _ =>
    .ok ({ leaf with facts := reported.facts, data := .replication reported.metaDiskPath }, [])
  | .encryption _ _ =>
    .ok ({ leaf with
        facts := reported.facts
        data := .encryption reported.backingDevice (reported.isOpen.getD false) }, [])
  | .remoteAttach => .ok ({ leaf with facts := reported.facts }, [])
  | .storage volume =>
    let identifier := volumeIdentifier ctx.key suffix number
    match ctx.observeStorage identifier leaf.expectedSizeKib volume reported with
    | .error fault => .error fault
    | .ok (next, drift) =>
      .ok ({ leaf with
          facts := { reported.facts with diskState := leaf.facts.diskState }
          data := .storage next }, drift)

/-- Reported volumes taken into the volumes of a layer, one after the other, each number once. -/
def mergeVolumes (ctx : MergeContext) (node : LayerNode) :
    (seen : List UInt32) → SortedMap UInt32 VolumeLeaf → MergeSummary → List ReportedVolume →
      Except Fault (SortedMap UInt32 VolumeLeaf × MergeSummary)
  | _, volumes, summary, [] => .ok (volumes, summary)
  | seen, volumes, summary, reported :: rest =>
    match require "volume_number" reported.number with
    | .error fault => .error fault
    | .ok number =>
      match volumes.get? number with
      | none => .error (ctx.unknown (.noVolume number node.kind node.suffix))
      | some leaf =>
        if seen.contains number then
          .error (ctx.unknown (.repeatedVolume number node.kind node.suffix))
        else
          match ctx.observe node.suffix number leaf reported with
          | .error fault => .error fault
          | .ok (next, drift) =>
            ctx.mergeVolumes node (number :: seen) (volumes.modify number (fun _ => next))
              (summary.append { merged := 1, changed := leaf.changes next, drift }) rest

/-- The settings that a report gives for a replication layer have to be known, and no other layer
has any. -/
def checkDefinition (ctx : MergeContext) (node : LayerNode) (reported : ReportedLayer) :
    Except Fault Unit :=
  match node.kind with
  | .replication =>
    match ctx.definition.replication.get? node.suffix with
    | none => .error (ctx.unknown (.noReplicationDefinition node.suffix))
    | some definition =>
      let volumes := (reported.replication.map (·.volumes)).getD []
      match volumes.find? (fun number => !definition.volumes.contains number) with
      | some number => .error (ctx.unknown (.noReplicationVolume number node.suffix))
      | none => .ok ()
  | kind =>
    if reported.replication.isSome then
      .error (ctx.unknown (.strayReplicationDefinition kind node.suffix))
    else .ok ()

/-- The numbers of the volumes of a layer that are not reported, in increasing order. -/
def absent (node : LayerNode) (reported : ReportedLayer) : List UInt32 :=
  node.volumes.keys.filter (fun number => !(reported.volumes.filterMap (·.number)).contains number)

/-- The volumes of a layer that are not reported, unless its kind requires them. -/
def absences (ctx : MergeContext) (node : LayerNode) (reported : ReportedLayer) :
    Except Fault (List Absence) :=
  match absent node reported with
  | [] => .ok []
  | number :: rest =>
    if node.kind.toleratesAbsence then
      .ok ((number :: rest).map (fun n => { kind := node.kind, suffix := node.suffix, volume := n }))
    else .error (.missingVolume ctx.key.text s!"{node.kind.name} '{node.suffix}'" number)

def mergeNode (ctx : MergeContext) (node : LayerNode) (reported : ReportedLayer) :
    Except Fault (LayerNode × MergeSummary × List Absence) :=
  match ctx.checkDefinition node reported with
  | .error fault => .error fault
  | .ok () =>
    match ctx.mergeVolumes node [] node.volumes {} reported.volumes with
    | .error fault => .error fault
    | .ok (volumes, summary) =>
      match ctx.absences node reported with
      | .error fault => .error fault
      | .ok missing =>
        .ok ({ node with volumes }, summary.append { tolerated := missing.length }, missing)

/-- The layer below `parent`, or at the top, with a kind and a suffix. -/
def find? (tree : LayerTree) (parent : Option LayerId) (kind : LayerKind) (suffix : String) :
    Option LayerId :=
  match parent with
  | some above => tree.findChild? above kind suffix
  | none => tree.findRoot? kind suffix

/-- Why there is no layer below `parent`, or at the top, with a kind and a suffix. -/
def notFound (parent : Option LayerId) (kind : LayerKind) (suffix : String) : Discrepancy :=
  match parent with
  | some above => .noChild kind suffix above
  | none => .noRoot kind suffix

/-- The layer that a reported layer speaks of; `taken` are those that were spoken of before. -/
def identify (ctx : MergeContext) (tree : LayerTree) (parent : Option LayerId)
    (taken : List LayerId) (reported : ReportedLayer) : Except Fault LayerId :=
  match require "kind" reported.kind with
  | .error fault => .error fault
  | .ok name =>
    match LayerKind.ofName? name with
    | none => .error (ctx.unknown (.unknownKind name))
    | some kind =>
      match require "suffix" reported.suffix with
      | .error fault => .error fault
      | .ok suffix =>
        match find? tree parent kind suffix with
        | none => .error (ctx.unknown (notFound parent kind suffix))
        | some id =>
          if taken.contains id then .error (ctx.unknown (.repeatedLayer kind suffix)) else .ok id

end MergeContext

/-- A merge under way: the layers so far, what was done, and what was passed over. -/
structure Merging where
  tree : LayerTree
  summary : MergeSummary := {}
  absences : List Absence := []
  deriving DecidableEq, Repr, Inhabited

namespace MergeContext

/-- A reported layer taken into the layer that it speaks of. -/
def mergeLayer (ctx : MergeContext) (parent : Option LayerId) (taken : List LayerId)
    (state : Merging) (reported : ReportedLayer) : Except Fault (LayerId × Merging) :=
  match ctx.identify state.tree parent taken reported with
  | .error fault => .error fault
  | .ok id =>
    match state.tree.get? id with
    | none => .error (.internal s!"layer node {id} vanished during merge")
    | some node =>
      match ctx.mergeNode node reported with
      | .error fault => .error fault
      | .ok (next, summary, absences) =>
        .ok (id, {
          tree := state.tree.modify id (fun _ => next)
          summary := state.summary.append summary
          absences := state.absences ++ absences })

/-- Reported layers below one parent taken in, one after the other, each with all below it. -/
def mergeLevel (ctx : MergeContext) (parent : Option LayerId) (taken : List LayerId)
    (state : Merging) : List ReportNode → Except Rejection Merging
  | [] => .ok state
  | .mk layer children :: rest =>
    match ctx.mergeLayer parent taken state layer with
    | .error fault => .error { fault, absences := state.absences }
    | .ok (id, merged) =>
      match ctx.mergeLevel (some id) [] merged children with
      | .error rejection => .error rejection
      | .ok next => ctx.mergeLevel parent (id :: taken) next rest

/-- A report taken into layers; the report has to speak of the resource at hand. -/
def mergeReport (ctx : MergeContext) (tree : LayerTree) (report : Report) :
    Except Rejection Merging :=
  match report.key with
  | .error fault => .error { fault }
  | .ok key =>
    if key = ctx.key then ctx.mergeLevel none [] { tree } report.roots
    else .error { fault := ctx.unknown (.otherResource key) }

/-- A report that lacks a field names an unknown object. -/
def reword (ctx : MergeContext) : Fault → Fault
  | .missingField field => ctx.unknown (.missingField field)
  | fault => fault

end MergeContext

/-- What a merge made of a resource. -/
structure Merged where
  resource : Resource
  summary : MergeSummary
  absences : List Absence := []
  deriving DecidableEq, Repr

namespace Resource

def mergeContext (resource : Resource) (pools : SortedMap PoolKey StoragePool) (facts : FactsMap)
    (tolerance : UInt64) : MergeContext where
  key := resource.key
  definition := resource.definition
  pools := pools
  facts := facts
  tolerance := tolerance

/-- Take a report into a resource. -/
def merge (resource : Resource) (pools : SortedMap PoolKey StoragePool) (facts : FactsMap)
    (tolerance : UInt64) (report : Report) : Except Rejection Merged :=
  let ctx := resource.mergeContext pools facts tolerance
  match ctx.mergeReport resource.tree report with
  | .error rejection => .error { rejection with fault := ctx.reword rejection.fault }
  | .ok merging =>
    .ok {
      resource := { resource with tree := merging.tree }.refresh
      summary := merging.summary
      absences := merging.absences }

end Resource
end BlockStack
