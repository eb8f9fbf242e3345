import BlockStack.Catalog
import BlockStack.Json.Fields

/-!
# BlockStack.Wire.Catalog

The JSON form of keys, pools, definitions and the catalog. For each type `toJson` writes and
`ofJson?` reads.
-/

namespace BlockStack

open Json

namespace ResourceKey

/-- The JSON form of a key; no snapshot is left out. -/
def toJson (key : ResourceKey) : Json :=
  obj ([("node_name", str key.node), ("resource_name", str key.resource)] ++
    memberIf "snapshot_name" str key.snapshot)

def ofJson? (v : Json) : Option ResourceKey :=
  match slots ["node_name", "resource_name", "snapshot_name"] v with
  | some [node, resource, snapshot] => do
    let node ← required asString? node
    let resource ← required asString? resource
    let snapshot ← optional asString? snapshot
    pure { node, resource, snapshot }
  | _ => none

end ResourceKey

namespace PoolKey

def toJson (key : PoolKey) : Json :=
  obj [("node_name", str key.node), ("pool_name", str key.pool)]

def ofJson? (v : Json) : Option PoolKey :=
  match slots ["node_name", "pool_name"] v with
  | some [node, pool] => do
    let node ← required asString? node
    let pool ← required asString? pool
    pure { node, pool }
  | _ => none

end PoolKey

namespace StoragePool

def toJson (pool : StoragePool) : Json :=
  obj [
    ("key", pool.key.toJson),
    ("provider", str pool.provider.name),
    ("extent_size_kib", ofUInt64 pool.extentSizeKib),
    ("capacity_kib", ofUInt64 pool.capacityKib),
    ("free_kib", ofUInt64 pool.freeKib)]

def ofJson? (v : Json) : Option StoragePool :=
  match slots ["key", "provider", "extent_size_kib", "capacity_kib", "free_kib"] v with
  | some [key, provider, extentSizeKib, capacityKib, freeKib] => do
    let key ← required PoolKey.ofJson? key
    let provider ← required (asName? ProviderKind.ofName?) provider
    let extentSizeKib ← required asUInt64? extentSizeKib
    let capacityKib ← withDefault 0 asUInt64? capacityKib
    let freeKib ← withDefault 0 asUInt64? freeKib
    pure { key, provider, extentSizeKib, capacityKib, freeKib }
  | _ => none

end StoragePool

namespace FreeSpace

def toJson (space : FreeSpace) : Json :=
  obj [("capacity_kib", ofUInt64 space.capacityKib), ("free_kib", ofUInt64 space.freeKib)]

def ofJson? (v : Json) : Option FreeSpace :=
  match slots ["capacity_kib", "free_kib"] v with
  | some [capacityKib, freeKib] => do
    let capacityKib ← required asUInt64? capacityKib
    let freeKib ← required asUInt64? freeKib
    pure { capacityKib, freeKib }
  | _ => none

end FreeSpace

namespace ReplicationVolume

/-- The JSON form of the settings of a replicated volume. -/
def toJson (volume : ReplicationVolume) : Json := obj [("minor", ofUInt32 volume.minor)]

def ofJson? (v : Json) : Option ReplicationVolume :=
  match slots ["minor"] v with
  | some [minor] => (required asUInt32? minor).map (⟨·⟩)
  | _ => none

end ReplicationVolume

namespace ReplicationDefinition

def toJson (definition : ReplicationDefinition) : Json :=
  obj [
    ("port", ofUInt16 definition.port),
    ("secret", str definition.secret),
    ("transport", str definition.transport),
    ("peer_slots", ofUInt16 definition.peerSlots),
    ("al_stripes", ofUInt32 definition.alStripes),
    ("volumes", ofNumberedMap ReplicationVolume.toJson definition.volumes)]

def ofJson? (v : Json) : Option ReplicationDefinition :=
  match slots ["port", "secret", "transport", "peer_slots", "al_stripes", "volumes"] v with
  | some [port, secret, transport, peerSlots, alStripes, volumes] => do
    let port ← required asUInt16? port
    let secret ← required asString? secret
    let transport ← required asString? transport
    let peerSlots ← required asUInt16? peerSlots
    let alStripes ← required asUInt32? alStripes
    let volumes ← withDefault .empty (asNumberedMap? ReplicationVolume.ofJson?) volumes
    pure { port, secret, transport, peerSlots, alStripes, volumes }
  | _ => none

end ReplicationDefinition

namespace ResourceDefinition

def toJson (definition : ResourceDefinition) : Json :=
  obj [
    ("name", str definition.name),
    ("replication", ofMap ReplicationDefinition.toJson definition.replication)]

def ofJson? (v : Json) : Option ResourceDefinition :=
  match slots ["name", "replication"] v with
  | some [name, replication] => do
    let name ← required asString? name
    let replication ← withDefault .empty (asMap? ReplicationDefinition.ofJson?) replication
    pure { name, replication }
  | _ => none

end ResourceDefinition

namespace ResourceRow

def toJson (row : ResourceRow) : Json :=
  obj [("key", row.key.toJson), ("definition", str row.definition)]

def ofJson? (v : Json) : Option ResourceRow :=
  match slots ["key", "definition"] v with
  | some [key, definition] => do
    let key ← required ResourceKey.ofJson? key
    let definition ← required asString? definition
    pure { key, definition }
  | _ => none

end ResourceRow

namespace Catalog

def toJson (catalog : Catalog) : Json :=
  obj [
    ("definitions", arr (catalog.definitions.map ResourceDefinition.toJson)),
    ("resources", arr (catalog.resources.map ResourceRow.toJson)),
    ("storage_pools", arr (catalog.pools.map StoragePool.toJson))]

def ofJson? (v : Json) : Option Catalog :=
  match slots ["definitions", "resources", "storage_pools"] v with
  | some [definitions, resources, pools] => do
    let definitions ← withDefault [] (asList? ResourceDefinition.ofJson?) definitions
    let resources ← withDefault [] (asList? ResourceRow.ofJson?) resources
    let pools ← withDefault [] (asList? StoragePool.ofJson?) pools
    pure { definitions, resources, pools }
  | _ => none

end Catalog
end BlockStack
