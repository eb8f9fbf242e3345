import BlockStack.Proofs.Consistency
import Mathlib.Data.List.Nodup
import Mathlib.Logic.Relation

/-!
# BlockStack.Proofs.Ancestors

The rows above a row, told from the links of the rows alone, and the fault of rows that have no top.

* `LayerRow.HasAncestor`: one row stands above another; a row that stands above itself is on a cycle
  of parent links.
* `LayerRow.Ancestors`: the rows above a row, each once.
* `findCycle_eq`: the walk up the parents ends, at a row on a cycle.
* `leftoverFault_dangling`, `leftoverFault_cycle`: rows of which none is at the top are told by the
  smallest one whose parent is not among them, and otherwise by a row on a cycle.
-/

namespace BlockStack

/-! ## Ancestors -/

namespace LayerRow

/-- Among some rows, one is the parent of another. -/
def HasParent (rows : List LayerRow) (row above : LayerRow) : Prop :=
  above ∈ rows ∧ row.parent = some above.id

/-- Among some rows, one is the parent of another or stands above that parent. -/
def HasAncestor (rows : List LayerRow) : LayerRow → LayerRow → Prop :=
  Relation.TransGen (HasParent rows)

/-- A list of all ancestors of a row, each once. -/
structure Ancestors (rows : List LayerRow) (row : LayerRow) (line : List LayerRow) : Prop where
  nodup : line.Nodup
  mem_iff : ∀ above, above ∈ line ↔ HasAncestor rows row above

/-- A row names a parent that is not among some rows. -/
structure Dangles (rows : List LayerRow) (row : LayerRow) (parent : UInt64) : Prop where
  mem : row ∈ rows
  link : row.parent = some parent
  free : parent ∉ rows.map (·.id)

variable {rows line other : List LayerRow} {row above x : LayerRow}

theorem Ancestors.length_eq (h : Ancestors rows row line) (h' : Ancestors rows row other) :
    line.length = other.length := by
  have hperm : line.Perm other := (List.perm_ext_iff_of_nodup h.nodup h'.nodup).2 fun above => by
    rw [h.mem_iff, h'.mem_iff]
  exact hperm.length_eq

theorem not_hasAncestor (h : row.parent = none) : ¬ HasAncestor rows row x := by
  intro hx
  obtain ⟨above, ⟨-, hlink⟩, -⟩ := Relation.TransGen.head'_iff.1 hx
  rw [h] at hlink
  cases hlink

/-- The ancestors of a row are its parent and those of its parent, as a row has one parent only. -/
theorem hasAncestor_iff (hdistinct : (rows.map (·.id)).Nodup) (h : HasParent rows row above) :
    HasAncestor rows row x ↔ x = above ∨ HasAncestor rows above x := by
  refine (Relation.TransGen.head'_iff.trans ?_).trans Relation.reflTransGen_iff_eq_or_transGen
  constructor
  · rintro ⟨found, ⟨hmem, hlink⟩, hrest⟩
    have hid : found.id = above.id := Option.some.inj (hlink.symm.trans h.2)
    rwa [List.inj_on_of_nodup_map hdistinct hmem h.1 hid] at hrest
  · exact fun hrest => ⟨above, h, hrest⟩

theorem Ancestors.top (h : row.parent = none) : Ancestors rows row [] where
  nodup := List.nodup_nil
  mem_iff _ := by simpa using not_hasAncestor h

theorem Ancestors.under (hdistinct : (rows.map (·.id)).Nodup) (h : HasParent rows row above)
    (hline : Ancestors rows above line) (hnew : above ∉ line) :
    Ancestors rows row (above :: line) where
  nodup := List.nodup_cons.2 ⟨hnew, hline.nodup⟩
  mem_iff x := by rw [List.mem_cons, hline.mem_iff, hasAncestor_iff hdistinct h]

/-- The chain of parents of a row on a cycle does not end. -/
theorem not_rooted_of_cycle (hdistinct : (rows.map (·.id)).Nodup) (h : HasAncestor rows row row) :
    ¬ Rooted rows row := by
  intro hrooted
  induction hrooted with
  | top _ hnone => exact not_hasAncestor hnone h
  | @under row above hrow hlink habove ih =>
    have hparent : HasParent rows row above := ⟨habove.mem, hlink⟩
    -- the parent is on the cycle as well
    rcases (hasAncestor_iff hdistinct hparent).1 h with rfl | hround
    · exact ih h
    · exact ih (hround.tail hparent)

theorem Dangles.not_rooted {parent : UInt64} (h : Dangles rows row parent) : ¬ Rooted rows row := by
  rintro (⟨-, hnone⟩ | ⟨-, hlink, habove⟩)
  · rw [h.link] at hnone
    cases hnone
  · refine h.free ?_
    rw [Option.some.inj (h.link.symm.trans hlink)]
    exact List.mem_map_of_mem habove.mem

theorem HasParent.mono {all : List LayerRow} (hsub : rows ⊆ all) (h : HasParent rows row above) :
    HasParent all row above := ⟨hsub h.1, h.2⟩

end LayerRow

open LayerRow (HasParent HasAncestor Dangles)

variable {rows : List LayerRow}

/-! ## Up the parents until one comes up again -/

theorem parentIn_eq (hdistinct : (rows.map (·.id)).Nodup) {row : LayerRow} (hrow : row ∈ rows) :
    parentIn rows row.id = row.parent := by
  unfold parentIn
  cases hfind : rows.find? (fun other => other.id = row.id) with
  | none => exact absurd (List.find?_eq_none.1 hfind row hrow) (by simp)
  | some other =>
    have hsame : other.id = row.id := by simpa using List.find?_some hfind
    have hmem := List.mem_of_find?_eq_some hfind
    rw [List.inj_on_of_nodup_map hdistinct hmem hrow hsame, Option.bind_some]

/-- The walk up the parents of rows that all have theirs ends at a row on a cycle, after no more
steps than there are rows. The rows visited all have the present one above them, so this one is on
a cycle once it was visited before; and they are different, so this comes about before there are
more of them than rows. -/
theorem findCycle_eq (hdistinct : (rows.map (·.id)).Nodup)
    (hclosed : ∀ row ∈ rows, ∃ above, HasParent rows row above) {steps : Nat} :
    ∀ {visited : List UInt64} {row : LayerRow}, row ∈ rows → visited.Nodup →
      (∀ id ∈ visited, ∃ below ∈ rows, below.id = id ∧ HasAncestor rows below row) →
      rows.length < visited.length + steps →
      ∃ found, Relation.ReflTransGen (HasParent rows) row found ∧ HasAncestor rows found found ∧
        ∀ fuel, steps ≤ fuel →
          findCycle rows fuel visited (some row.id) = .inconsistent (.parentCycle found.id) := by
  induction steps with
  | zero =>
    intro visited row _ hnodup hvisited hsteps
    have hsub : visited ⊆ rows.map (·.id) := fun id hid => by
      obtain ⟨below, hbelow, rfl, -⟩ := hvisited id hid
      exact List.mem_map_of_mem hbelow
    have := hnodup.length_le_of_subset hsub
    rw [List.length_map] at this
    omega
  | succ steps ih =>
    intro visited row hrow hnodup hvisited hsteps
    by_cases hseen : row.id ∈ visited
    · -- the row comes up again, and it is its own ancestor
      obtain ⟨below, hbelow, hid, hcycle⟩ := hvisited row.id hseen
      obtain rfl := List.inj_on_of_nodup_map hdistinct hbelow hrow hid
      refine ⟨below, .refl, hcycle, fun fuel hfuel => ?_⟩
      obtain ⟨more, rfl⟩ := Nat.exists_eq_add_of_le' hfuel
      simp [findCycle, hseen]
    · obtain ⟨above, habove⟩ := hclosed row hrow
      obtain ⟨found, hreach, hcycle, hfault⟩ := ih habove.1 (List.nodup_cons.2 ⟨hseen, hnodup⟩)
        (List.forall_mem_cons.2 ⟨⟨row, hrow, rfl, .single habove⟩, fun id hid => by
          obtain ⟨below, hbelow, hbelowId, hchain⟩ := hvisited id hid
          exact ⟨below, hbelow, hbelowId, hchain.tail habove⟩⟩)
        (by simp only [List.length_cons]; omega)
      refine ⟨found, .head habove hreach, hcycle, fun fuel hfuel => ?_⟩
      obtain ⟨more, rfl⟩ := Nat.exists_eq_add_of_le' hfuel
      have hnext := hfault (more + steps) (Nat.le_add_left _ _)
      rw [← habove.2] at hnext
      simpa [findCycle, hseen, parentIn_eq hdistinct hrow] using hnext

/-! ## The fault of rows without a top -/

theorem mem_danglingLinks {id parent : UInt64} :
    (id, parent) ∈ danglingLinks rows ↔ ∃ row, Dangles rows row parent ∧ row.id = id := by
  unfold danglingLinks
  rw [List.mem_filterMap]
  constructor
  · rintro ⟨row, hrow, hlink⟩
    obtain ⟨p, hp, hpair⟩ := Option.bind_eq_some_iff.1 hlink
    split at hpair
    · cases hpair
    · rename_i hfree
      cases hpair
      exact ⟨row, ⟨hrow, hp, by simpa using hfree⟩, rfl⟩
  · rintro ⟨row, ⟨hrow, hp, hfree⟩, rfl⟩
    refine ⟨row, hrow, ?_⟩
    simpa [hp] using hfree

theorem smallerLink_le (a b : UInt64 × UInt64) :
    (smallerLink a b = a ∨ smallerLink a b = b) ∧
      (smallerLink a b).1 ≤ a.1 ∧ (smallerLink a b).1 ≤ b.1 := by
  unfold smallerLink
  split
  · rename_i hlt
    exact ⟨.inr rfl, UInt64.le_of_lt hlt, UInt64.le_refl _⟩
  · rename_i hle
    exact ⟨.inl rfl, UInt64.le_refl _, UInt64.not_lt.1 hle⟩

theorem foldl_smallerLink {links : List (UInt64 × UInt64)} : ∀ {link : UInt64 × UInt64},
    links.foldl smallerLink link ∈ link :: links ∧
      ∀ other ∈ link :: links, (links.foldl smallerLink link).1 ≤ other.1 := by
  induction links with
  | nil => simp
  | cons next rest ih =>
    intro link
    obtain ⟨hone, hleft, hright⟩ := smallerLink_le link next
    obtain ⟨hmem, hleast⟩ := @ih (smallerLink link next)
    obtain ⟨hfirst, hrest⟩ := List.forall_mem_cons.1 hleast
    refine ⟨?_, List.forall_mem_cons.2 ⟨UInt64.le_trans hfirst hleft,
      List.forall_mem_cons.2 ⟨UInt64.le_trans hfirst hright, hrest⟩⟩⟩
    rw [List.foldl_cons]
    rcases List.mem_cons.1 hmem with he | hmem
    · rw [he]
      rcases hone with he | he <;> simp [he]
    · exact List.mem_cons_of_mem _ (List.mem_cons_of_mem _ hmem)

/-- Of the rows whose parent is not among the rows the smallest one is told, with its parent. -/
theorem leftoverFault_dangling (h : ∃ row parent, Dangles rows row parent) :
    ∃ row parent, Dangles rows row parent ∧
      (∀ other p, Dangles rows other p → row.id ≤ other.id) ∧
      leftoverFault rows = .danglingParent row.id parent := by
  unfold leftoverFault
  split
  · rename_i link links hlinks
    obtain ⟨hmem, hleast⟩ := @foldl_smallerLink links link
    rw [← hlinks] at hmem hleast
    obtain ⟨row, hdangles, hid⟩ := mem_danglingLinks.1 hmem
    refine ⟨row, _, hdangles, fun other p hother => ?_, by rw [hid]⟩
    rw [hid]
    exact hleast _ (mem_danglingLinks.2 ⟨other, hother, rfl⟩)
  · rename_i hnone
    obtain ⟨row, parent, hdangles⟩ := h
    have hmem := mem_danglingLinks.2 ⟨row, hdangles, rfl⟩
    rw [hnone] at hmem
    cases hmem

/-- If all rows have their parent among the rows, a row on a cycle is told: the one that the walk up
from the smallest row comes back to. -/
theorem leftoverFault_cycle (hdistinct : (rows.map (·.id)).Nodup) (hne : rows ≠ [])
    (hclosed : ∀ row ∈ rows, ∃ above, HasParent rows row above) :
    ∃ least ∈ rows, (∀ other ∈ rows, least.id ≤ other.id) ∧
      ∃ found, Relation.ReflTransGen (HasParent rows) least found ∧ HasAncestor rows found found ∧
        leftoverFault rows = .inconsistent (.parentCycle found.id) ∧
        ∀ fuel, rows.length < fuel →
          findCycle rows fuel [] (rows.map (·.id)).min? = leftoverFault rows := by
  have hnone : danglingLinks rows = [] := by
    refine List.eq_nil_iff_forall_not_mem.2 fun link hlink => ?_
    obtain ⟨row, hdangles, -⟩ := mem_danglingLinks.1 hlink
    obtain ⟨above, hmem, hlink⟩ := hclosed row hdangles.mem
    refine hdangles.free ?_
    rw [Option.some.inj (hdangles.link.symm.trans hlink)]
    exact List.mem_map_of_mem hmem
  cases hmin : (rows.map (·.id)).min? with
  | none => exact absurd (List.min?_eq_none_iff.1 hmin) (by simpa using hne)
  | some id =>
    obtain ⟨hmem, hleast⟩ := List.min?_eq_some_iff.1 hmin
    obtain ⟨least, hrow, rfl⟩ := List.mem_map.1 hmem
    obtain ⟨found, hreach, hcycle, hwalk⟩ := @findCycle_eq rows hdistinct hclosed (rows.length + 1)
      [] least hrow List.nodup_nil (by simp) (by simp)
    have hfault : leftoverFault rows = .inconsistent (.parentCycle found.id) := by
      simp only [leftoverFault, hnone, hmin]
      exact hwalk _ (Nat.le_refl _)
    exact ⟨least, hrow, fun other hother => hleast _ (List.mem_map_of_mem hother), found, hreach,
      hcycle, hfault, fun fuel hfuel => (hwalk fuel hfuel).trans hfault.symm⟩

/-- Rows of which none is at the top are told as rows with a missing parent or on a cycle. -/
theorem leftoverFault_isLoadFault (hdistinct : (rows.map (·.id)).Nodup) (hne : rows ≠ [])
    (hparent : ∀ row ∈ rows, row.parent.isSome) : (leftoverFault rows).isLoadFault = true := by
  by_cases h : ∃ row parent, Dangles rows row parent
  · obtain ⟨row, parent, -, -, hfault⟩ := leftoverFault_dangling h
    rw [hfault]
    rfl
  · obtain ⟨-, -, -, found, -, -, hfault, -⟩ := leftoverFault_cycle hdistinct hne fun row hrow => by
      obtain ⟨p, hp⟩ := Option.isSome_iff_exists.1 (hparent row hrow)
      by_contra hnone
      refine h ⟨row, p, hrow, hp, fun hmem => hnone ?_⟩
      obtain ⟨above, habove, rfl⟩ := List.mem_map.1 hmem
      exact ⟨above, habove, hp⟩
    rw [hfault]
    rfl

end BlockStack
