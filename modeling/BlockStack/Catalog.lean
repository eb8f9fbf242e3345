import BlockStack.Key
import BlockStack.Kind
import BlockStack.SortedMap

/-!
# BlockStack.Catalog

The objects that layer rows refer to: resource definitions, resources and storage pools.

* `ResourceDefinition`: the settings shared by all instances of a resource, by suffix.
* `StoragePool`: a pool with its provider, extent size and capacity.
* `Catalog`: the three lists as they are persisted.
-/

namespace BlockStack

/-- The settings of one volume of a replicated resource. -/
structure ReplicationVolume where
  minor : UInt32
  deriving DecidableEq, Repr, Inhabited

/-- The replication settings shared by all instances of a resource, for one suffix. -/
structure ReplicationDefinition where
  port : UInt16
  secret : String
  transport : String
  peerSlots : UInt16
  alStripes : UInt32
  volumes : SortedMap UInt32 ReplicationVolume := .empty
  deriving DecidableEq, Repr, Inhabited

/-- The settings shared by all instances of a resource. -/
structure ResourceDefinition where
  name : String
  replication : SortedMap String ReplicationDefinition := .empty
  deriving DecidableEq, Repr, Inhabited

/-- A pool of storage on one node. -/
structure StoragePool where
  key : PoolKey
  provider : ProviderKind
  extentSizeKib : UInt64
  capacityKib : UInt64 := 0
  freeKib : UInt64 := 0
  deriving DecidableEq, Repr, Inhabited

/-- How much a pool holds and how much of it is free. -/
structure FreeSpace where
  capacityKib : UInt64
  freeKib : UInt64
  deriving DecidableEq, Repr, Inhabited

/-- The pool with its capacity and free space replaced. -/
def StoragePool.withSpace (pool : StoragePool) (space : FreeSpace) : StoragePool :=
  { pool with capacityKib := space.capacityKib, freeKib := space.freeKib }

/-- A persisted resource; its definition is given by name. -/
structure ResourceRow where
  key : ResourceKey
  definition : String
  deriving DecidableEq, Repr, Inhabited

/-- The persisted objects that layer rows refer to. -/
structure Catalog where
  definitions : List ResourceDefinition := []
  resources : List ResourceRow := []
  pools : List StoragePool := []
  deriving DecidableEq, Repr, Inhabited

end BlockStack
