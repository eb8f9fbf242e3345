/-!
# BlockStack.SortedMap

Finite maps kept as lists of pairs with strictly increasing keys.

* `SortedMap`: the map; two maps that answer alike are equal (`SortedMap.ext_get?`).
* `SortedMap.get?`, `SortedMap.insert`, `SortedMap.modify`: look-up, insertion that replaces an
  entry with the same key, and a change of the value under a key that is present.
* `SortedMap.ofList`: the map of a list of pairs; of two pairs with one key the later one counts.
-/

namespace BlockStack

open Std

/-- A finite map from `κ` to `υ`, its entries in increasing order of their keys. -/
structure SortedMap (κ υ : Type) [Ord κ] where
  entries : List (κ × υ)
  sorted : entries.Pairwise (fun a b => compare a.1 b.1 = .lt)

namespace SortedMap

variable {κ υ ω : Type} [Ord κ]

instance [DecidableEq κ] [DecidableEq υ] : DecidableEq (SortedMap κ υ) := fun a b =>
  if h : a.entries = b.entries then
    .isTrue (by cases a; cases b; simp_all)
  else
    .isFalse (fun e => h (congrArg entries e))

instance [Repr κ] [Repr υ] : Repr (SortedMap κ υ) := ⟨fun m n => reprPrec m.entries n⟩

def empty : SortedMap κ υ := ⟨[], .nil⟩

instance : Inhabited (SortedMap κ υ) := ⟨empty⟩

instance : EmptyCollection (SortedMap κ υ) := ⟨empty⟩

def lookup (k : κ) : List (κ × υ) → Option υ
  | [] => none
  | (k', v) :: rest => if compare k k' = .eq then some v else lookup k rest

/-- Insertion at the place of the key, replacing an entry with an equal key. -/
def place (k : κ) (v : υ) : List (κ × υ) → List (κ × υ)
  | [] => [(k, v)]
  | (k', v') :: rest =>
    match compare k k' with
    | .lt => (k, v) :: (k', v') :: rest
    | .eq => (k, v) :: rest
    | .gt => (k', v') :: place k v rest

def get? (m : SortedMap κ υ) (k : κ) : Option υ := lookup k m.entries

def contains (m : SortedMap κ υ) (k : κ) : Bool := (m.get? k).isSome

/-- The keys, in increasing order. -/
def keys (m : SortedMap κ υ) : List κ := m.entries.map (·.1)

/-- The values, in the order of their keys. -/
def values (m : SortedMap κ υ) : List υ := m.entries.map (·.2)

def size (m : SortedMap κ υ) : Nat := m.entries.length

def isEmpty (m : SortedMap κ υ) : Bool := m.entries.isEmpty

/-- The same keys with values computed from key and value. -/
def mapValues (f : κ → υ → ω) (m : SortedMap κ υ) : SortedMap κ ω :=
  ⟨m.entries.map (fun e => (e.1, f e.1 e.2)), List.pairwise_map.2 m.sorted⟩

def filter (p : κ → υ → Bool) (m : SortedMap κ υ) : SortedMap κ υ :=
  ⟨m.entries.filter (fun e => p e.1 e.2), m.sorted.filter _⟩

def erase (m : SortedMap κ υ) (k : κ) : SortedMap κ υ :=
  m.filter (fun k' _ => compare k k' != .eq)

/-- Change the value under a key; a key that is absent stays absent. -/
def modify (m : SortedMap κ υ) (k : κ) (f : υ → υ) : SortedMap κ υ :=
  m.mapValues (fun k' v => if compare k k' = .eq then f v else v)

theorem mem_place {k : κ} {v : υ} {e : κ × υ} {l : List (κ × υ)} (h : e ∈ place k v l) :
    e = (k, v) ∨ e ∈ l := by
  induction l with
  | nil => simpa [place] using h
  | cons hd tl ih =>
    obtain ⟨k', v'⟩ := hd
    unfold place at h
    split at h <;> simp only [List.mem_cons] at h ⊢
    · exact h
    · cases h with
      | inl h => exact .inl h
      | inr h => exact .inr (.inr h)
    · cases h with
      | inl h => exact .inr (.inl h)
      | inr h =>
        cases ih h with
        | inl h => exact .inl h
        | inr h => exact .inr (.inr h)

section Laws

variable [TransOrd κ] [LawfulEqOrd κ]

theorem place_sorted (k : κ) (v : υ) {l : List (κ × υ)}
    (h : l.Pairwise (fun a b => compare a.1 b.1 = .lt)) :
    (place k v l).Pairwise (fun a b => compare a.1 b.1 = .lt) := by
  induction l with
  | nil => simp [place]
  | cons hd tl ih =>
    obtain ⟨k', v'⟩ := hd
    obtain ⟨hhd, htl⟩ := List.pairwise_cons.1 h
    unfold place
    split
    · rename_i hlt
      refine List.pairwise_cons.2 ⟨fun e he => ?_, h⟩
      cases List.mem_cons.1 he with
      | inl he => subst he; exact hlt
      | inr he => exact TransCmp.lt_trans hlt (hhd e he)
    · rename_i heq
      have : k = k' := LawfulEqCmp.eq_of_compare heq
      subst this
      exact List.pairwise_cons.2 ⟨fun e he => hhd e he, htl⟩
    · rename_i hgt
      refine List.pairwise_cons.2 ⟨fun e he => ?_, ih htl⟩
      cases mem_place he with
      | inl he => subst he; exact OrientedCmp.lt_of_gt hgt
      | inr he => exact hhd e he

/-- The map with `v` under `k` and all else as before. -/
def insert (m : SortedMap κ υ) (k : κ) (v : υ) : SortedMap κ υ :=
  ⟨place k v m.entries, place_sorted k v m.sorted⟩

/-- The map of a list of pairs; the later of two pairs with one key counts. -/
def ofList (l : List (κ × υ)) : SortedMap κ υ :=
  l.foldl (fun m e => m.insert e.1 e.2) empty

omit [TransOrd κ] in
theorem lookup_place_self (k : κ) (v : υ) (l : List (κ × υ)) :
    lookup k (place k v l) = some v := by
  induction l with
  | nil => simp [place, lookup, ReflCmp.compare_self]
  | cons hd tl ih =>
    obtain ⟨k', v'⟩ := hd
    unfold place
    split
    · simp [lookup, ReflCmp.compare_self]
    · simp [lookup, ReflCmp.compare_self]
    · rename_i hgt
      simp [lookup, hgt, ih]

omit [TransOrd κ] in
theorem lookup_place_of_ne {k k' : κ} (v : υ) (l : List (κ × υ)) (h : k' ≠ k) :
    lookup k' (place k v l) = lookup k' l := by
  have hne : compare k' k ≠ .eq := fun e => h (LawfulEqCmp.eq_of_compare e)
  induction l with
  | nil => simp [place, lookup, hne]
  | cons hd tl ih =>
    obtain ⟨k'', v''⟩ := hd
    unfold place
    split
    · simp [lookup, hne]
    · rename_i heq
      have : k = k'' := LawfulEqCmp.eq_of_compare heq
      subst this
      simp [lookup, hne]
    · simp [lookup, ih]

@[simp] theorem get?_insert_self (m : SortedMap κ υ) (k : κ) (v : υ) :
    (m.insert k v).get? k = some v :=
  lookup_place_self k v m.entries

theorem get?_insert_of_ne (m : SortedMap κ υ) {k k' : κ} (v : υ) (h : k' ≠ k) :
    (m.insert k v).get? k' = m.get? k' :=
  lookup_place_of_ne v m.entries h

omit [TransOrd κ] [LawfulEqOrd κ] in
theorem lookup_eq_none_of_lt {k : κ} {l : List (κ × υ)}
    (h : ∀ e ∈ l, compare k e.1 = .lt) : lookup k l = none := by
  induction l with
  | nil => rfl
  | cons hd tl ih =>
    obtain ⟨k', v'⟩ := hd
    have hlt : compare k k' = .lt := h (k', v') (.head _)
    simp only [lookup, hlt, reduceCtorEq, if_false]
    exact ih (fun e he => h e (.tail _ he))

omit [TransOrd κ] in
theorem lookup_eq_some_iff {k : κ} {v : υ} {l : List (κ × υ)}
    (h : l.Pairwise (fun a b => compare a.1 b.1 = .lt)) : lookup k l = some v ↔ (k, v) ∈ l := by
  induction l with
  | nil => simp [lookup]
  | cons hd tl ih =>
    obtain ⟨k', v'⟩ := hd
    obtain ⟨hhd, htl⟩ := List.pairwise_cons.1 h
    by_cases hk : k = k'
    · subst hk
      have hnot : (k, v) ∉ tl := fun hm => by
        have := hhd _ hm
        simp [ReflCmp.compare_self] at this
      simp [lookup, ReflCmp.compare_self, hnot, eq_comm]
    · have hne : compare k k' ≠ .eq := fun e => hk (LawfulEqCmp.eq_of_compare e)
      simp [lookup, hne, hk, ih htl]

omit [TransOrd κ] in
theorem mem_entries_iff (m : SortedMap κ υ) {k : κ} {v : υ} :
    (k, v) ∈ m.entries ↔ m.get? k = some v :=
  (lookup_eq_some_iff m.sorted).symm

theorem eq_of_lookup_eq {a b : List (κ × υ)}
    (ha : a.Pairwise (fun x y => compare x.1 y.1 = .lt))
    (hb : b.Pairwise (fun x y => compare x.1 y.1 = .lt))
    (h : ∀ k, lookup k a = lookup k b) : a = b := by
  induction a generalizing b with
  | nil =>
    cases b with
    | nil => rfl
    | cons e rest =>
      have := h e.1
      simp [lookup, ReflCmp.compare_self] at this
  | cons e rest ih =>
    cases b with
    | nil =>
      have := h e.1
      simp [lookup, ReflCmp.compare_self] at this
    | cons f rest' =>
      obtain ⟨k, v⟩ := e
      obtain ⟨k', v'⟩ := f
      obtain ⟨hhd, htl⟩ := List.pairwise_cons.1 ha
      obtain ⟨hhd', htl'⟩ := List.pairwise_cons.1 hb
      have hk : k = k' := by
        have hmem : (k, v) ∈ (k', v') :: rest' := (lookup_eq_some_iff hb).1 <| by
          rw [← h k]; simp [lookup, ReflCmp.compare_self]
        have hmem' : (k', v') ∈ (k, v) :: rest := (lookup_eq_some_iff ha).1 <| by
          rw [h k']; simp [lookup, ReflCmp.compare_self]
        cases List.mem_cons.1 hmem with
        | inl he => exact congrArg Prod.fst he
        | inr he =>
          cases List.mem_cons.1 hmem' with
          | inl he' => exact (congrArg Prod.fst he').symm
          | inr he' =>
            have := TransCmp.lt_trans (hhd _ he') (hhd' _ he)
            simp [ReflCmp.compare_self] at this
      subst hk
      have hv : v = v' := by
        have := h k
        simpa [lookup, ReflCmp.compare_self] using this
      subst hv
      refine congrArg _ (ih htl htl' fun j => ?_)
      by_cases hj : j = k
      · subst hj
        rw [lookup_eq_none_of_lt hhd, lookup_eq_none_of_lt hhd']
      · have hne : compare j k ≠ .eq := fun e => hj (LawfulEqCmp.eq_of_compare e)
        have := h j
        simpa [lookup, hne] using this

/-- Maps that give the same answer under every key are equal. -/
theorem ext_get? {m m' : SortedMap κ υ} (h : ∀ k, m.get? k = m'.get? k) : m = m' := by
  have := eq_of_lookup_eq m.sorted m'.sorted h
  cases m
  cases m'
  simp_all

end Laws

@[simp] theorem get?_empty (k : κ) : (empty : SortedMap κ υ).get? k = none := rfl

section Look

variable [LawfulEqOrd κ]

theorem lookup_map (f : κ → υ → ω) (k : κ) (l : List (κ × υ)) :
    lookup k (l.map (fun e => (e.1, f e.1 e.2))) = (lookup k l).map (f k) := by
  induction l with
  | nil => rfl
  | cons e rest ih =>
    obtain ⟨k', v⟩ := e
    by_cases hk : k = k'
    · subst hk
      simp [lookup, ReflCmp.compare_self]
    · have hne : compare k k' ≠ .eq := fun e => hk (LawfulEqCmp.eq_of_compare e)
      simpa [lookup, hne] using ih

@[simp] theorem get?_mapValues (f : κ → υ → ω) (m : SortedMap κ υ) (k : κ) :
    (m.mapValues f).get? k = (m.get? k).map (f k) :=
  lookup_map f k m.entries

@[simp] theorem get?_modify_self (m : SortedMap κ υ) (k : κ) (f : υ → υ) :
    (m.modify k f).get? k = (m.get? k).map f := by
  simp [modify, ReflCmp.compare_self]

theorem get?_modify_of_ne (m : SortedMap κ υ) {k k' : κ} (f : υ → υ) (h : k' ≠ k) :
    (m.modify k f).get? k' = m.get? k' := by
  have hne : compare k k' ≠ .eq := fun e => h (LawfulEqCmp.eq_of_compare e).symm
  simp [modify, hne]

theorem mem_keys_iff {m : SortedMap κ υ} {k : κ} : k ∈ m.keys ↔ ∃ v, m.get? k = some v := by
  simp only [keys, List.mem_map, Prod.exists, exists_and_right, exists_eq_right, mem_entries_iff]

theorem mem_values_iff {m : SortedMap κ υ} {v : υ} : v ∈ m.values ↔ ∃ k, m.get? k = some v := by
  simp only [values, List.mem_map, Prod.exists, exists_eq_right, mem_entries_iff]

theorem contains_iff {m : SortedMap κ υ} {k : κ} : m.contains k = true ↔ k ∈ m.keys := by
  rw [mem_keys_iff, contains, Option.isSome_iff_exists]

theorem nodup_keys (m : SortedMap κ υ) : m.keys.Nodup := by
  refine List.pairwise_map.2 (m.sorted.imp fun {a b} hlt heq => ?_)
  simp [heq, ReflCmp.compare_self] at hlt

end Look

@[simp] theorem keys_mapValues (f : κ → υ → ω) (m : SortedMap κ υ) :
    (m.mapValues f).keys = m.keys := by
  simp [keys, mapValues]

@[simp] theorem keys_modify (m : SortedMap κ υ) (k : κ) (f : υ → υ) :
    (m.modify k f).keys = m.keys :=
  keys_mapValues _ m

/-- Maps that have values for the same keys list the same keys. -/
theorem keys_congr [TransOrd κ] [LawfulEqOrd κ] {m : SortedMap κ υ} {m' : SortedMap κ ω}
    (h : ∀ k, (m.get? k).isSome = (m'.get? k).isSome) : m.keys = m'.keys := by
  have hunit : m.mapValues (fun _ _ => ()) = m'.mapValues (fun _ _ => ()) := by
    refine ext_get? fun k => ?_
    have hk := h k
    rw [get?_mapValues, get?_mapValues]
    cases hm : m.get? k <;> cases hm' : m'.get? k <;> simp_all
  rw [← keys_mapValues (fun _ _ => ()) m, hunit, keys_mapValues]

section Build

variable [TransOrd κ] [LawfulEqOrd κ]

theorem get?_insert [DecidableEq κ] (m : SortedMap κ υ) (k k' : κ) (v : υ) :
    (m.insert k v).get? k' = if k' = k then some v else m.get? k' := by
  split
  · rename_i h
    rw [h, get?_insert_self]
  · rename_i h
    rw [get?_insert_of_ne m v h]

theorem mem_keys_insert {m : SortedMap κ υ} {k k' : κ} {v : υ} :
    k' ∈ (m.insert k v).keys ↔ k' = k ∨ k' ∈ m.keys := by
  rw [mem_keys_iff, mem_keys_iff]
  by_cases h : k' = k
  · subst h
    simp
  · simp [get?_insert_of_ne m v h, h]

/-- Of the pairs with one key the last one counts. -/
theorem get?_ofList [DecidableEq κ] (l : List (κ × υ)) (k : κ) :
    (ofList l).get? k = ((l.filter (fun e => e.1 = k)).getLast?).map (·.2) := by
  have fold : ∀ (l : List (κ × υ)) (m : SortedMap κ υ),
      (l.foldl (fun m e => m.insert e.1 e.2) m).get? k =
        ((l.filter (fun e => e.1 = k)).getLast?.map (·.2)).or (m.get? k) := by
    intro l
    induction l with
    | nil => intro m; rfl
    | cons e rest ih =>
      intro m
      rw [List.foldl_cons, ih, get?_insert]
      by_cases hk : e.1 = k
      · cases h : (rest.filter (fun e => e.1 = k)).getLast? <;> simp [hk, List.getLast?_cons, h]
      · have hk' : ¬ k = e.1 := fun h => hk h.symm
        simp [hk, hk']
  simp [ofList, fold l empty]

/-- With one pair for each key the order does not matter. -/
theorem get?_ofList_of_nodup [DecidableEq κ] {l : List (κ × υ)} (h : (l.map (·.1)).Nodup) {k : κ}
    {v : υ} : (ofList l).get? k = some v ↔ (k, v) ∈ l := by
  rw [get?_ofList]
  induction l with
  | nil => simp
  | cons e rest ih =>
    obtain ⟨k', v'⟩ := e
    obtain ⟨hnot, hrest⟩ := List.nodup_cons.1 h
    by_cases hk : k' = k
    · subst hk
      have hnone : rest.filter (fun e => e.1 = k') = [] :=
        List.filter_eq_nil_iff.2 fun e he hek =>
          hnot (List.mem_map.2 ⟨e, he, of_decide_eq_true hek⟩)
      have hnot' : (k', v) ∉ rest := fun hm => hnot (List.mem_map.2 ⟨_, hm, rfl⟩)
      simp only [List.filter_cons, decide_true, if_true, hnone, List.getLast?_singleton,
        Option.map_some, Option.some.injEq, List.mem_cons, Prod.mk.injEq, true_and, hnot', or_false]
      exact eq_comm
    · have hk' : ¬ k = k' := fun h => hk h.symm
      simpa [hk, hk'] using ih hrest

theorem ofList_entries [DecidableEq κ] (m : SortedMap κ υ) : ofList m.entries = m := by
  refine ext_get? fun k => Option.ext fun v => ?_
  have hnodup : (m.entries.map (·.1)).Nodup := m.nodup_keys
  rw [get?_ofList_of_nodup hnodup, mem_entries_iff]

end Build

end SortedMap
end BlockStack
