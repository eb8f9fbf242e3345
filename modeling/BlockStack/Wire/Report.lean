import BlockStack.Merge
import BlockStack.Wire.Record

/-!
# BlockStack.Wire.Report

The JSON form of reports and of what a backend knows. For each type `toJson` writes and `ofJson?`
reads.
-/

namespace BlockStack

open Json

namespace ReportedReplication

/-- The JSON form of reported replication settings. -/
def toJson (settings : ReportedReplication) : Json :=
  obj [
    ("port", ofOption ofUInt16 settings.port),
    ("transport", ofOption str settings.transport),
    ("peer_slots", ofOption ofUInt16 settings.peerSlots),
    ("volumes", arr (settings.volumes.map ofUInt32))]

def ofJson? (v : Json) : Option ReportedReplication :=
  match slots ["port", "transport", "peer_slots", "volumes"] v with
  | some [port, transport, peerSlots, volumes] => do
    let port ← optional asUInt16? port
    let transport ← optional asString? transport
    let peerSlots ← optional asUInt16? peerSlots
    let volumes ← withDefault [] (asList? asUInt32?) volumes
    pure { port, transport, peerSlots, volumes }
  | _ => none

end ReportedReplication

namespace ReportedVolume

def toJson (volume : ReportedVolume) : Json :=
  obj ([("volume_number", ofOption ofUInt32 volume.number)] ++
    volume.facts.toMembers ++
    memberIf "meta_disk_path" str volume.metaDiskPath ++
    memberIf "backing_device" str volume.backingDevice ++
    memberIf "opened" bool volume.isOpen ++
    memberIf "provider" str volume.provider ++
    memberIf "storage_pool" str volume.pool ++
    volume.attributes.toMembers)

/-- Read a reported volume, which stands among its attributes. -/
def ofJson? (v : Json) : Option ReportedVolume :=
  if v.isReadable then
    match memberSlots ["volume_number", "meta_disk_path", "backing_device", "opened", "provider",
        "storage_pool"] v with
    | some [number, metaDiskPath, backingDevice, isOpen, provider, pool] => do
      let number ← optional asUInt32? number
      let facts ← (memberSlots VolumeFacts.names v).bind VolumeFacts.ofSlots?
      let metaDiskPath ← optional asString? metaDiskPath
      let backingDevice ← optional asString? backingDevice
      let isOpen ← optional asBool? isOpen
      let provider ← optional asString? provider
      let pool ← optional asString? pool
      let attributes ← AttributeFields.ofMembers? v
      pure { number, facts, metaDiskPath, backingDevice, isOpen, provider, pool, attributes }
    | _ => none
  else none

end ReportedVolume

namespace ReportedLayer

/-- The members for the fields of a reported layer. -/
def toMembers (layer : ReportedLayer) : List (String × Json) :=
  [("kind", ofOption str layer.kind),
    ("suffix", ofOption str layer.suffix),
    ("suspended", ofOption bool layer.suspended),
    ("parent_id", ofOption ofUInt64 layer.parent)] ++
    memberIf "replication_definition" ReportedReplication.toJson layer.replication ++
    [("volumes", arr (layer.volumes.map ReportedVolume.toJson))]

/-- A reported layer from the values of its fields. -/
def ofSlots? : List (Option Json) → Option ReportedLayer
  | [kind, suffix, suspended, parent, replication, volumes] => do
    let kind ← optional asString? kind
    let suffix ← optional asString? suffix
    let suspended ← optional asBool? suspended
    let parent ← optional asUInt64? parent
    let replication ← optional ReportedReplication.ofJson? replication
    let volumes ← withDefault [] (asList? ReportedVolume.ofJson?) volumes
    pure { kind, suffix, suspended, parent, replication, volumes }
  | _ => none

end ReportedLayer

namespace ReportNode

mutual

def toJson : ReportNode → Json
  | mk layer children => obj (layer.toMembers ++ [("children", arr (toJsonList children))])

def toJsonList : List ReportNode → List Json
  | [] => []
  | node :: rest => toJson node :: toJsonList rest

end

/-- Read a reported node; `fuel` bounds its depth. -/
def read : (fuel : Nat) → Json → Option ReportNode
  | 0, _ => none
  | fuel + 1, v =>
    match slots ["kind", "suffix", "suspended", "parent_id", "replication_definition", "volumes",
        "children"] v with
    | some [kind, suffix, suspended, parent, replication, volumes, children] => do
      let layer ← ReportedLayer.ofSlots? [kind, suffix, suspended, parent, replication, volumes]
      let children ← withDefault [] (asList? (read fuel)) children
      pure (mk layer children)
    | _ => none

def ofJson? (v : Json) : Option ReportNode := read 128 v

end ReportNode

namespace Report

/-- The JSON form of a report; no snapshot is left out. -/
def toJson (report : Report) : Json :=
  obj ([("node_name", ofOption str report.node), ("resource_name", ofOption str report.resource)] ++
    memberIf "snapshot_name" str report.snapshot ++
    [("roots", arr (ReportNode.toJsonList report.roots))])

def ofJson? (v : Json) : Option Report :=
  match slots ["node_name", "resource_name", "snapshot_name", "roots"] v with
  | some [node, resource, snapshot, roots] => do
    let node ← optional asString? node
    let resource ← optional asString? resource
    let snapshot ← optional asString? snapshot
    let roots ← withDefault [] (asList? ReportNode.ofJson?) roots
    pure { node, resource, snapshot, roots }
  | _ => none

end Report

namespace ObjectFacts

/-- The JSON form of what a backend knows of an object. -/
def toJson (facts : ObjectFacts) : Json :=
  obj [
    ("exists", bool facts.present),
    ("path", ofOption str facts.path),
    ("size_kib", ofUInt64 facts.sizeKib),
    ("attributes", ofMap str facts.attributes)]

def ofJson? (v : Json) : Option ObjectFacts :=
  match slots ["exists", "path", "size_kib", "attributes"] v with
  | some [present, path, sizeKib, attributes] => do
    let present ← required asBool? present
    let path ← optional asString? path
    let sizeKib ← withDefault 0 asUInt64? sizeKib
    let attributes ← withDefault .empty (asMap? asString?) attributes
    pure { present, path, sizeKib, attributes }
  | _ => none

end ObjectFacts

namespace FactsMap

def toJson (facts : FactsMap) : Json := ofMap ObjectFacts.toJson facts

def ofJson? (v : Json) : Option FactsMap := asMap? ObjectFacts.ofJson? v

end FactsMap
end BlockStack
