/-!
# BlockStack.Key

Names of resources and of storage pools, with their orders and texts.

* `ResourceKey`: node, resource and, for a snapshot, its name; ordered by these three, a resource
  before its snapshots.
* `PoolKey`: node and pool; ordered by these two.

Strings are ordered by code points.
-/

namespace BlockStack

open Std

/-- The name of one instance of a resource on a node, or of a snapshot of it. -/
structure ResourceKey where
  node : String
  resource : String
  snapshot : Option String := none
  deriving DecidableEq, Repr, Inhabited

namespace ResourceKey

instance : Ord ResourceKey where
  compare := compareLex (compareOn node) (compareLex (compareOn resource) (compareOn snapshot))

instance : TransOrd ResourceKey :=
  inferInstanceAs (TransCmp
    (compareLex (compareOn node) (compareLex (compareOn resource) (compareOn snapshot))))

instance : LawfulEqOrd ResourceKey where
  compare_self {a} := (inferInstance : ReflOrd ResourceKey).compare_self
  eq_of_compare {a b} h := by
    simp only [compare, compareLex_eq_eq, compareOn] at h
    obtain ⟨hn, hr, hs⟩ := h
    cases a
    cases b
    simp only [mk.injEq]
    exact ⟨LawfulEqOrd.eq_of_compare hn, LawfulEqOrd.eq_of_compare hr, LawfulEqOrd.eq_of_compare hs⟩

/-- The key as text, `node/resource` or `node/resource@snapshot`. -/
def text (k : ResourceKey) : String :=
  match k.snapshot with
  | some s => k.node ++ "/" ++ k.resource ++ "@" ++ s
  | none => k.node ++ "/" ++ k.resource

end ResourceKey

/-- The name of a storage pool on a node. -/
structure PoolKey where
  node : String
  pool : String
  deriving DecidableEq, Repr, Inhabited

namespace PoolKey

instance : Ord PoolKey where
  compare := compareLex (compareOn node) (compareOn pool)

instance : TransOrd PoolKey :=
  inferInstanceAs (TransCmp (compareLex (compareOn node) (compareOn pool)))

instance : LawfulEqOrd PoolKey where
  compare_self {a} := (inferInstance : ReflOrd PoolKey).compare_self
  eq_of_compare {a b} h := by
    simp only [compare, compareLex_eq_eq, compareOn] at h
    cases a
    cases b
    simp only [mk.injEq]
    exact ⟨LawfulEqOrd.eq_of_compare h.1, LawfulEqOrd.eq_of_compare h.2⟩

/-- The key as text, `node:pool`. -/
def text (k : PoolKey) : String := k.node ++ ":" ++ k.pool

end PoolKey
end BlockStack
