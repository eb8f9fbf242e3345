import BlockStack.Attributes
import BlockStack.Size
import BlockStack.SortedMap

/-!
# BlockStack.Node

The layers of a device stack and their volumes.

* `VolumeLeaf`: a volume as one layer sees it: what the controller asked for (`expectedSizeKib`),
  what the satellite observed (`VolumeFacts`) and what the kind of the layer adds (`VolumeData`).
* `LayerNode`: one layer with its place in the stack and its volumes by number.
-/

namespace BlockStack

/-- The replication settings of one node. -/
structure ReplicationNode where
  nodeId : UInt32
  peerSlots : UInt16
  alStripes : UInt32
  alStripeSizeKib : UInt64
  deriving DecidableEq, Repr, Inhabited

/-- What a layer node carries besides its volumes; its kind follows from it. -/
inductive NodePayload where
  | replication (settings : ReplicationNode)
  | encryption
  | remoteAttach
  | storage
  deriving DecidableEq, Repr, Inhabited

def NodePayload.kind : NodePayload → LayerKind
  | replication _ => .replication
  | encryption => .encryption
  | remoteAttach => .remoteAttach
  | storage => .storage

/-- What a satellite observes of a volume on any layer. -/
structure VolumeFacts where
  devicePath : Option String := none
  allocatedSizeKib : Option UInt64 := none
  usableSizeKib : Option UInt64 := none
  diskState : Option String := none
  deriving DecidableEq, Repr, Inhabited

/-- What a storage layer knows of a volume. -/
structure StorageVolume where
  provider : ProviderKind
  pool : String
  attributes : Attributes
  present : Bool
  sizeState : Option SizeState
  deriving DecidableEq, Repr, Inhabited

/-- What the kind of a layer adds to a volume. -/
inductive VolumeData where
  | replication (metaDiskPath : Option String)
  | encryption (backingDevice : Option String) (isOpen : Bool)
  | remoteAttach
  | storage (volume : StorageVolume)
  deriving DecidableEq, Repr, Inhabited

/-- The kind of layer that volume data belongs to. -/
def VolumeData.kind : VolumeData → LayerKind
  | replication _ => .replication
  | encryption _ _ => .encryption
  | remoteAttach => .remoteAttach
  | storage _ => .storage

/-- A volume as one layer sees it. -/
structure VolumeLeaf where
  number : UInt32
  expectedSizeKib : UInt64
  facts : VolumeFacts
  data : VolumeData
  deriving DecidableEq, Repr, Inhabited

/-- The storage part of a volume, on a storage layer. -/
def VolumeLeaf.storage? (leaf : VolumeLeaf) : Option StorageVolume :=
  match leaf.data with
  | .storage volume => some volume
  | _ => none

/-- Whether the volume is an object of a storage backend. -/
def VolumeLeaf.hasBackingObject (leaf : VolumeLeaf) : Bool :=
  match leaf.storage? with
  | some volume => volume.provider.hasBackingObject
  | none => false

/-- The number of a layer, unique over all resources. -/
abbrev LayerId := UInt64

/-- One layer of a device stack. -/
structure LayerNode where
  id : LayerId
  parent : Option LayerId := none
  children : List LayerId := []
  suffix : String
  suspended : Bool := false
  payload : NodePayload
  volumes : SortedMap UInt32 VolumeLeaf := .empty
  deriving DecidableEq, Repr, Inhabited

def LayerNode.kind (node : LayerNode) : LayerKind := node.payload.kind

end BlockStack
