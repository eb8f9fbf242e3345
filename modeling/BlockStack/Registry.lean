import BlockStack.Load

/-!
# BlockStack.Registry

The loaded resources and pools. They are put in once; later only resources are replaced and the
space of pools is updated.

* `Registry.install`: put a graph in.
* `Registry.find`: a resource by its key.
* `Registry.setSpace`: update the space of a pool.
-/

namespace BlockStack

/-- The loaded resources and pools. -/
structure Registry where
  loaded : Bool := false
  resources : SortedMap ResourceKey Resource := .empty
  pools : SortedMap PoolKey StoragePool := .empty
  layers : Nat := 0
  deriving DecidableEq, Repr, Inhabited

namespace Registry

/-- Put a graph in, unless there is one already. -/
def install (registry : Registry) (graph : Graph) : Except Fault Registry :=
  if registry.loaded then .error .alreadyLoaded
  else .ok {
    loaded := true
    resources := graph.resources
    pools := graph.pools
    layers := graph.layerCount }

def find (registry : Registry) (key : ResourceKey) : Except Fault Resource :=
  if registry.loaded then
    match registry.resources.get? key with
    | some resource => .ok resource
    | none => .error (.resourceNotFound key.text)
  else .error .notLoaded

def contains (registry : Registry) (key : ResourceKey) : Bool :=
  registry.loaded && registry.resources.contains key

def allPools (registry : Registry) : Except Fault (SortedMap PoolKey StoragePool) :=
  if registry.loaded then .ok registry.pools else .error .notLoaded

/-- Put a resource in the place of the one with its key. -/
def replace (registry : Registry) (resource : Resource) : Registry :=
  { registry with resources := registry.resources.modify resource.key (fun _ => resource) }

def setSpace (registry : Registry) (key : PoolKey) (space : FreeSpace) : Except Fault Registry :=
  if registry.loaded then
    if registry.pools.contains key then
      .ok { registry with pools := registry.pools.modify key (·.withSpace space) }
    else .error (.configuration s!"storage pool {key.text} is not known")
  else .error .notLoaded

end Registry
end BlockStack
