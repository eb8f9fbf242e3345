import BlockStack.Proofs.Levels

/-!
# BlockStack.Proofs.Leftovers

Rows that no pass of a load reaches are explained by a fault that is true of them.

* `Unrooted`: the rows whose chain of parents does not end. Their parents are missing or among them.
* `Explained`: a fault says why the chains of some rows do not end.
* `Graph.load_unrooted`: if all other rows fit, a load attaches these and gives up on the rest.
* `Graph.leftovers_explained`: the fault of such a load explains the rest.
-/

namespace BlockStack

open LayerRow (HasParent HasAncestor Dangles)

/-- Those of some rows whose chain of parents does not end, in the same order. -/
structure Unrooted (rows left : List LayerRow) : Prop where
  sublist : left.Sublist rows
  mem_iff : ∀ row ∈ rows, row ∈ left ↔ ¬ Rooted rows row

namespace Unrooted

variable {rows left : List LayerRow} {row : LayerRow}

theorem nodup (h : Unrooted rows left) (hdistinct : (rows.map (·.id)).Nodup) :
    (left.map (·.id)).Nodup := hdistinct.sublist (h.sublist.map _)

/-- The parent of a row that is left is missing or left too. -/
theorem mem_above (h : Unrooted rows left) (hrow : row ∈ left) {above : LayerRow}
    (habove : HasParent rows row above) : above ∈ left := by
  have hmem := h.sublist.subset hrow
  refine (h.mem_iff above habove.1).2 fun hrooted => ?_
  exact (h.mem_iff row hmem).1 hrow (.under hmem habove.2 hrooted)

/-- Rows that are left name the same missing parents among themselves and among all rows. -/
theorem dangles_iff (h : Unrooted rows left) {parent : UInt64} :
    Dangles left row parent ↔ Dangles rows row parent := by
  constructor
  · rintro ⟨hrow, hlink, hfree⟩
    refine ⟨h.sublist.subset hrow, hlink, fun hmem => hfree ?_⟩
    obtain ⟨above, habove, rfl⟩ := List.mem_map.1 hmem
    exact List.mem_map_of_mem (h.mem_above hrow ⟨habove, hlink⟩)
  · intro hdangles
    refine ⟨(h.mem_iff row hdangles.mem).2 hdangles.not_rooted, hdangles.link, fun hmem => ?_⟩
    exact hdangles.free ((h.sublist.map _).subset hmem)

/-- If no parent is missing, all rows that are left have a parent among them. -/
theorem exists_parent (h : Unrooted rows left) (hnone : ¬ ∃ row parent, Dangles rows row parent)
    (hrow : row ∈ left) : ∃ above, HasParent left row above := by
  have hmem := h.sublist.subset hrow
  cases hlink : row.parent with
  | none => exact absurd (.top hmem hlink) ((h.mem_iff row hmem).1 hrow)
  | some p =>
    by_contra habove
    refine hnone ⟨row, p, hmem, hlink, fun hp => habove ?_⟩
    obtain ⟨above, hmemAbove, rfl⟩ := List.mem_map.1 hp
    exact ⟨above, h.mem_above hrow ⟨hmemAbove, hlink⟩, hlink⟩

end Unrooted

/-- A fault says why the chains of parents of some rows do not end. -/
structure Explained (rows : List LayerRow) (fault : Fault) : Prop where
  /-- If a row names a parent that no row has, the smallest such row is told, with its parent. -/
  dangling : (∃ row parent, Dangles rows row parent) → ∃ row parent, Dangles rows row parent ∧
    (∀ other p, Dangles rows other p → row.id ≤ other.id) ∧ fault = .danglingParent row.id parent
  /-- Otherwise a row is told that stands above itself. It is met on the way up from the smallest row
  whose chain does not end, be that on a cycle or below one. -/
  cyclic : (¬ ∃ row parent, Dangles rows row parent) → ∃ least found,
    (least ∈ rows ∧ ¬ Rooted rows least) ∧
    (∀ other ∈ rows, ¬ Rooted rows other → least.id ≤ other.id) ∧
    Relation.ReflTransGen (HasParent rows) least found ∧ HasAncestor rows found found ∧
    fault = .inconsistent (.parentCycle found.id)

namespace Unrooted

variable {rows left : List LayerRow}

theorem explained (h : Unrooted rows left) (hdistinct : (rows.map (·.id)).Nodup) (hne : left ≠ []) :
    Explained rows (leftoverFault left) where
  dangling hex := by
    have hleft : ∃ row parent, Dangles left row parent :=
      hex.imp fun row => Exists.imp fun parent => h.dangles_iff.2
    obtain ⟨row, parent, hdangles, hleast, hfault⟩ := leftoverFault_dangling hleft
    exact ⟨row, parent, h.dangles_iff.1 hdangles,
      fun other p hother => hleast other p (h.dangles_iff.2 hother), hfault⟩
  cyclic hnone := by
    obtain ⟨least, hmem, hleast, found, hreach, hcycle, hfault, -⟩ :=
      leftoverFault_cycle (h.nodup hdistinct) hne fun row hrow => h.exists_parent hnone hrow
    have hmono : HasParent left ≤ HasParent rows :=
      fun row above habove => habove.mono h.sublist.subset
    have hrow := h.sublist.subset hmem
    exact ⟨least, found, ⟨hrow, (h.mem_iff least hrow).1 hmem⟩,
      fun other hother hnot => hleast other ((h.mem_iff other hother).2 hnot),
      Relation.ReflTransGen.mono hmono _ _ hreach, Relation.TransGen.mono hmono _ _ hcycle, hfault⟩

/-- If no parent is missing, the walk up the parents is over after no more steps than there are rows
left, however many it may take. -/
theorem walk_ends (h : Unrooted rows left) (hdistinct : (rows.map (·.id)).Nodup) (hne : left ≠ [])
    (hnone : ¬ ∃ row parent, Dangles rows row parent) {steps : Nat} (hsteps : left.length < steps) :
    findCycle left steps [] (left.map (·.id)).min? = leftoverFault left := by
  obtain ⟨-, -, -, -, -, -, -, hwalk⟩ :=
    leftoverFault_cycle (h.nodup hdistinct) hne fun row hrow => h.exists_parent hnone hrow
  exact hwalk steps hsteps

end Unrooted

namespace Graph

variable {doc : Document}

/-! ## A load that leaves rows over -/

/-- Left over are exactly the rows whose chain of parents does not end. -/
theorem Progress.unrooted {done left : List LayerRow} {graph : Graph}
    {previous : Option (List UInt64)} (h : Progress doc done graph previous left)
    (hwaits : ∀ row ∈ left, ∃ p, row.parent = some p ∧ p ∉ done.map (·.id))
    (hsub : left.Sublist doc.layers) : Unrooted doc.layers left where
  sublist := hsub
  mem_iff row hrow := by
    refine ⟨fun hleft hrooted => h.not_leftover hwaits hrooted hleft, fun hnot => ?_⟩
    refine (List.mem_append.1 (h.split.mem_iff.2 hrow)).resolve_left fun hdone => ?_
    exact hnot (h.rooted row hdone)

/-- If all rows fit whose chain of parents ends, a load attaches these and gives up on the rest. -/
theorem load_unrooted (hdef : doc.catalog.Defined) (hdistinct : (doc.layers.map (·.id)).Nodup)
    (hfits : ∀ row, Rooted doc.layers row → Placed doc row)
    (hleft : ∃ row ∈ doc.layers, ¬ Rooted doc.layers row) :
    ∃ left passes, load doc = .error { fault := leftoverFault left, passes } ∧
      Unrooted doc.layers left ∧ left ≠ [] ∧
      ∀ row ∈ doc.layers, row.id ∈ passes.flatten ↔ Rooted doc.layers row := by
  obtain ⟨bare, hbare, hb⟩ := ofCatalog_ok hdef
  have hstart := hb.progress hdistinct
  have hpassed : Passed doc [] bare.passes none doc.layers := hb.passes ▸ .start doc
  obtain ⟨⟨final, left⟩, hrun⟩ := runPasses_complete hdef hfits (doc.layers.length + 1) hstart
  obtain ⟨done, _, hlast, hwaits⟩ := runPasses_sound hdef hstart (Nat.lt_succ_self _) hrun
  obtain ⟨done', _, hlast', htaken⟩ := runPasses_passed hdef hstart hpassed hrun
  have hun := hlast.unrooted hwaits htaken.pending
  have hne : left ≠ [] := by
    obtain ⟨row, hrow, hnot⟩ := hleft
    exact List.ne_nil_of_mem ((hun.mem_iff row hrow).2 hnot)
  have hfirst : firstRepeated [] doc.layers = none :=
    firstRepeated_eq_none_iff.2 ⟨hdistinct, by simp⟩
  have hempty : left.isEmpty = false := by simpa using hne
  refine ⟨left, final.passes, by simp [load, hbare, hfirst, hrun, hempty], hun, hne,
    fun row hrow => ?_⟩
  rw [htaken.flatten]
  constructor
  · intro hid
    obtain ⟨attached, hattached, hsame⟩ := List.mem_map.1 hid
    have hmem := hlast'.split.mem_iff.1 (List.mem_append_left _ hattached)
    exact List.inj_on_of_nodup_map hdistinct hmem hrow hsame ▸ hlast'.rooted attached hattached
  · intro hrooted
    refine List.mem_map_of_mem ((List.mem_append.1 (hlast'.split.mem_iff.2 hrow)).resolve_right ?_)
    exact fun hmem => (hun.mem_iff row hrow).1 hmem hrooted

/-- A load that cannot reach some rows, all others being in order, is refused with a fault that
explains them: the walk that looks for the cause comes to an end, and finds a parent that no row has
or a row on a cycle. -/
theorem leftovers_explained (hdef : doc.catalog.Defined)
    (hdistinct : (doc.layers.map (·.id)).Nodup)
    (hfits : ∀ row, Rooted doc.layers row → Placed doc row)
    (hleft : ∃ row ∈ doc.layers, ¬ Rooted doc.layers row) :
    ∃ left failure, load doc = .error failure ∧ ofDocument doc = .error failure.fault ∧
      (∀ row ∈ doc.layers, row.id ∈ failure.passes.flatten ↔ Rooted doc.layers row) ∧
      Unrooted doc.layers left ∧ failure.fault = leftoverFault left ∧
      Explained doc.layers failure.fault ∧
      ((¬ ∃ row parent, Dangles doc.layers row parent) → ∀ steps, left.length < steps →
        findCycle left steps [] (left.map (·.id)).min? = failure.fault) := by
  obtain ⟨left, passes, hload, hun, hne, hpasses⟩ := load_unrooted hdef hdistinct hfits hleft
  exact ⟨left, _, hload, by simp [ofDocument, hload], hpasses, hun, rfl,
    hun.explained hdistinct hne, fun hnone steps => hun.walk_ends hdistinct hne hnone⟩

/-! ## Rows around cycles -/

/-- Rows of one resource with these numbers and parents. -/
def linkedDocument (links : List (UInt64 × Option UInt64)) : Document where
  catalog := mixedDocument.catalog
  layers := links.map (fun link => encryptionRow "r" link.1 link.2)

theorem linkedDocument_defined (links : List (UInt64 × Option UInt64)) :
    (linkedDocument links).catalog.Defined := by
  change mixedDocument.catalog.Defined
  unfold Catalog.Defined
  decide

theorem linkedDocument_fits (links : List (UInt64 × Option UInt64)) :
    ∀ row, Rooted (linkedDocument links).layers row → Placed (linkedDocument links) row := by
  intro row hrooted
  have hrows : ∀ other ∈ (linkedDocument links).layers,
      other.owner = { node := "n", resource := "r" } ∧ other.suffix = "" ∧
        other.kind = LayerKind.encryption.name := by
    intro other hother
    obtain ⟨link, -, rfl⟩ := List.mem_map.1 hother
    exact ⟨rfl, rfl, rfl⟩
  obtain ⟨howner, hsuffix, hkind⟩ := hrows row hrooted.mem
  exact {
    fits := ⟨.encryption, {
      named := hkind
      owned := ⟨_, List.mem_cons_self, howner.symm⟩
      sameOwner := fun above habove _ => (hrows above habove).1.trans howner.symm
      extendsSuffix := fun _ above habove _ =>
        (hrows above habove).2.1.trans hsuffix.symm ▸ List.prefix_rfl
      replicated := fun hrep => by cases hrep }⟩
    volumes := by simp [linkedDocument, volumesOf]
    numbered := by simp [linkedDocument, volumesOf] }

/-- A root with a row below it, a cycle of two rows with another row below, and a row that is its own
parent. -/
def tangledLinks : List (UInt64 × Option UInt64) :=
  [(7, some 5), (3, some 9), (1, some 7), (9, none), (5, some 7), (8, some 8)]

/-- The same, with two rows whose parents are missing and one below such a row. -/
def brokenLinks : List (UInt64 × Option UInt64) :=
  tangledLinks ++ [(6, some 4), (12, some 11), (4, some 2)]

theorem linkedDocument_left (links : List (UInt64 × Option UInt64))
    (hdistinct : ((linkedDocument links).layers.map (·.id)).Nodup) (h : (8, some 8) ∈ links) :
    ∃ row ∈ (linkedDocument links).layers, ¬ Rooted (linkedDocument links).layers row :=
  have hmem := List.mem_map_of_mem (f := fun link => encryptionRow "r" link.1 link.2) h
  ⟨_, hmem, LayerRow.not_rooted_of_cycle hdistinct (.single ⟨hmem, rfl⟩)⟩

/-- The smallest row that is left hangs below the cycle of two, and a row of this cycle is told. Where
parents are missing, the smallest row without its parent is told, though a smaller one hangs below a
cycle. -/
theorem leftovers_explained_tangled :
    (load (linkedDocument tangledLinks) =
        .error { fault := .inconsistent (.parentCycle 7), passes := [[9], [3]] } ∧
      Explained (linkedDocument tangledLinks).layers (.inconsistent (.parentCycle 7))) ∧
    (load (linkedDocument brokenLinks) =
        .error { fault := .danglingParent 4 2, passes := [[9], [3]] } ∧
      Explained (linkedDocument brokenLinks).layers (.danglingParent 4 2)) := by
  constructor
  · have hrun : load (linkedDocument tangledLinks) =
        .error { fault := .inconsistent (.parentCycle 7), passes := [[9], [3]] } := by decide
    have hdistinct : ((linkedDocument tangledLinks).layers.map (·.id)).Nodup := by decide
    obtain ⟨_, _, hload, -, -, -, -, hexplained, -⟩ := leftovers_explained
      (linkedDocument_defined tangledLinks) hdistinct (linkedDocument_fits tangledLinks)
      (linkedDocument_left tangledLinks hdistinct (by decide))
    rw [hrun] at hload
    cases hload
    exact ⟨hrun, hexplained⟩
  · have hrun : load (linkedDocument brokenLinks) =
        .error { fault := .danglingParent 4 2, passes := [[9], [3]] } := by decide
    have hdistinct : ((linkedDocument brokenLinks).layers.map (·.id)).Nodup := by decide
    obtain ⟨_, _, hload, -, -, -, -, hexplained, -⟩ := leftovers_explained
      (linkedDocument_defined brokenLinks) hdistinct (linkedDocument_fits brokenLinks)
      (linkedDocument_left brokenLinks hdistinct (by decide))
    rw [hrun] at hload
    cases hload
    exact ⟨hrun, hexplained⟩

end Graph
end BlockStack
