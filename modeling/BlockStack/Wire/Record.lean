import BlockStack.Record
import BlockStack.Wire.Catalog

/-!
# BlockStack.Wire.Record

The JSON form of persisted rows and of the whole document. For each type `toJson` writes and
`ofJson?` reads.
-/

namespace BlockStack

open Json

namespace AttributeFields

def names : List String :=
  ["volume_group", "thin_pool", "zpool", "extent_size_kib", "backing_file", "lvol_store"]

/-- The members for the attributes that are present. -/
def toMembers (fields : AttributeFields) : List (String × Json) :=
  memberIf "volume_group" str fields.volumeGroup ++
    memberIf "thin_pool" str fields.thinPool ++
    memberIf "zpool" str fields.zpool ++
    memberIf "extent_size_kib" ofUInt64 fields.extentSizeKib ++
    memberIf "backing_file" str fields.backingFile ++
    memberIf "lvol_store" str fields.lvolStore

def toJson (fields : AttributeFields) : Json := obj fields.toMembers

def ofSlots? : List (Option Json) → Option AttributeFields
  | [volumeGroup, thinPool, zpool, extentSizeKib, backingFile, lvolStore] => do
    let volumeGroup ← optional asString? volumeGroup
    let thinPool ← optional asString? thinPool
    let zpool ← optional asString? zpool
    let extentSizeKib ← optional asUInt64? extentSizeKib
    let backingFile ← optional asString? backingFile
    let lvolStore ← optional asString? lvolStore
    pure { volumeGroup, thinPool, zpool, extentSizeKib, backingFile, lvolStore }
  | _ => none

def ofJson? (v : Json) : Option AttributeFields := (slots names v).bind ofSlots?

/-- Read attributes that stand among the members of another record. -/
def ofMembers? (v : Json) : Option AttributeFields := (memberSlots names v).bind ofSlots?

end AttributeFields

namespace ReplicationNode

/-- The JSON form of the replication settings of a node. -/
def toJson (settings : ReplicationNode) : Json :=
  obj [
    ("node_id", ofUInt32 settings.nodeId),
    ("peer_slots", ofUInt16 settings.peerSlots),
    ("al_stripes", ofUInt32 settings.alStripes),
    ("al_stripe_size_kib", ofUInt64 settings.alStripeSizeKib)]

def ofJson? (v : Json) : Option ReplicationNode :=
  match slots ["node_id", "peer_slots", "al_stripes", "al_stripe_size_kib"] v with
  | some [nodeId, peerSlots, alStripes, alStripeSizeKib] => do
    let nodeId ← required asUInt32? nodeId
    let peerSlots ← required asUInt16? peerSlots
    let alStripes ← required asUInt32? alStripes
    let alStripeSizeKib ← required asUInt64? alStripeSizeKib
    pure { nodeId, peerSlots, alStripes, alStripeSizeKib }
  | _ => none

end ReplicationNode

namespace LayerRow

/-- The JSON form of a layer row; no replication settings are left out. -/
def toJson (row : LayerRow) : Json :=
  obj ([
    ("id", ofUInt64 row.id),
    ("parent_id", ofOption ofUInt64 row.parent),
    ("kind", str row.kind),
    ("suffix", str row.suffix),
    ("owner", row.owner.toJson),
    ("suspended", bool row.suspended)] ++
    memberIf "replication" ReplicationNode.toJson row.replication)

def ofJson? (v : Json) : Option LayerRow :=
  match slots ["id", "parent_id", "kind", "suffix", "owner", "suspended", "replication"] v with
  | some [id, parent, kind, suffix, owner, suspended, replication] => do
    let id ← required asUInt64? id
    let parent ← optional asUInt64? parent
    let kind ← required asString? kind
    let suffix ← withDefault "" asString? suffix
    let owner ← required ResourceKey.ofJson? owner
    let suspended ← withDefault false asBool? suspended
    let replication ← optional ReplicationNode.ofJson? replication
    pure { id, parent, kind, suffix, owner, suspended, replication }
  | _ => none

end LayerRow

namespace VolumePayload

/-- The JSON form of a payload, an object that names its kind. -/
def toJson : VolumePayload → Json
  | replication metaDiskPath =>
    obj [("kind", str "REPLICATION"), ("meta_disk_path", ofOption str metaDiskPath)]
  | encryption backingDevice isOpen =>
    obj [
      ("kind", str "ENCRYPTION"),
      ("backing_device", ofOption str backingDevice),
      ("opened", bool isOpen)]
  | remoteAttach => obj [("kind", str "REMOTE_ATTACH")]
  | storage provider pool present fields =>
    obj ([
      ("kind", str "STORAGE"),
      ("provider", str provider),
      ("storage_pool", str pool),
      ("exists", bool present)] ++ fields.toMembers)

/-- The name of the kind of a payload, and the payload without it. -/
def untag : Json → Option (String × Json)
  | obj members _ =>
    match member? members "kind" with
    | some (some (str kind)) => some (kind, obj (members.filter (fun e => e.1 ≠ "kind")))
    | _ => none
  | arr (str kind :: items) => some (kind, arr items)
  | _ => none

def replicationOfJson? (v : Json) : Option VolumePayload :=
  match slots ["meta_disk_path"] v with
  | some [metaDiskPath] => (optional asString? metaDiskPath).map replication
  | _ => none

def encryptionOfJson? (v : Json) : Option VolumePayload :=
  match slots ["backing_device", "opened"] v with
  | some [backingDevice, isOpen] => do
    let backingDevice ← optional asString? backingDevice
    let isOpen ← withDefault false asBool? isOpen
    pure (encryption backingDevice isOpen)
  | _ => none

/-- Read the payload of a storage layer, which stands among its attributes. -/
def storageOfJson? (v : Json) : Option VolumePayload :=
  match memberSlots ["provider", "storage_pool", "exists"] v with
  | some [provider, pool, present] => do
    let provider ← required asString? provider
    let pool ← required asString? pool
    let present ← withDefault false asBool? present
    let fields ← AttributeFields.ofMembers? v
    pure (storage provider pool present fields)
  | _ => none

def ofJson? (v : Json) : Option VolumePayload :=
  if v.isReadable then
    match untag v with
    | some ("REPLICATION", rest) => replicationOfJson? rest
    | some ("ENCRYPTION", rest) => encryptionOfJson? rest
    | some ("REMOTE_ATTACH", rest) => (slots [] rest).map (fun _ => remoteAttach)
    | some ("STORAGE", rest) => storageOfJson? rest
    | _ => none
  else none

end VolumePayload

namespace VolumeFacts

def names : List String := ["device_path", "allocated_size_kib", "usable_size_kib", "disk_state"]

def toMembers (facts : VolumeFacts) : List (String × Json) :=
  [("device_path", ofOption str facts.devicePath),
    ("allocated_size_kib", ofOption ofUInt64 facts.allocatedSizeKib),
    ("usable_size_kib", ofOption ofUInt64 facts.usableSizeKib),
    ("disk_state", ofOption str facts.diskState)]

def ofSlots? : List (Option Json) → Option VolumeFacts
  | [devicePath, allocatedSizeKib, usableSizeKib, diskState] => do
    let devicePath ← optional asString? devicePath
    let allocatedSizeKib ← optional asUInt64? allocatedSizeKib
    let usableSizeKib ← optional asUInt64? usableSizeKib
    let diskState ← optional asString? diskState
    pure { devicePath, allocatedSizeKib, usableSizeKib, diskState }
  | _ => none

end VolumeFacts

namespace VolumeRow

def toJson (row : VolumeRow) : Json :=
  obj ([
    ("layer_id", ofUInt64 row.layer),
    ("volume_number", ofUInt32 row.number),
    ("expected_size_kib", ofUInt64 row.expectedSizeKib)] ++
    row.facts.toMembers ++
    [("payload", row.payload.toJson)])

def ofJson? (v : Json) : Option VolumeRow :=
  match slots (["layer_id", "volume_number", "expected_size_kib"] ++ VolumeFacts.names ++
      ["payload"]) v with
  | some [layer, number, expectedSizeKib, devicePath, allocated, usable, diskState, payload] => do
    let layer ← required asUInt64? layer
    let number ← required asUInt32? number
    let expectedSizeKib ← required asUInt64? expectedSizeKib
    let facts ← VolumeFacts.ofSlots? [devicePath, allocated, usable, diskState]
    let payload ← required VolumePayload.ofJson? payload
    pure { layer, number, expectedSizeKib, facts, payload }
  | _ => none

end VolumeRow

namespace Document

def toJson (doc : Document) : Json :=
  obj [
    ("catalog", doc.catalog.toJson),
    ("layers", arr (doc.layers.map LayerRow.toJson)),
    ("volumes", arr (doc.volumes.map VolumeRow.toJson))]

def ofJson? (v : Json) : Option Document :=
  match slots ["catalog", "layers", "volumes"] v with
  | some [catalog, layers, volumes] => do
    let catalog ← withDefault {} Catalog.ofJson? catalog
    let layers ← withDefault [] (asList? LayerRow.ofJson?) layers
    let volumes ← withDefault [] (asList? VolumeRow.ofJson?) volumes
    pure { catalog, layers, volumes }
  | _ => none

end Document
end BlockStack
