import BlockStack.Proofs.Attach
import Mathlib.Data.List.Perm.Basic

/-!
# BlockStack.Proofs.Passes

The passes of a load.

* `Graph.Progress`: what holds between two passes. The rows split into those attached and those
  pending, and all rows with one parent are on one side, in the order of the document.
* `Graph.runPasses_sound`: when no pass finds any more, only rows are left over whose parent was not
  attached.
* `Graph.runPasses_complete`: passes end without a fault if all rows fit that they can reach.
-/

namespace BlockStack
namespace Graph

/-- The rows with a parent, or without one. -/
def withParent (parent : Option UInt64) (rows : List LayerRow) : List LayerRow :=
  rows.filter (fun row => row.parent = parent)

@[simp] theorem withParent_append (parent : Option UInt64) (a b : List LayerRow) :
    withParent parent (a ++ b) = withParent parent a ++ withParent parent b :=
  List.filter_append ..

theorem mem_withParent {parent : Option UInt64} {rows : List LayerRow} {row : LayerRow} :
    row ∈ withParent parent rows ↔ row ∈ rows ∧ row.parent = parent := by
  simp [withParent]

/-- Some rows are next after those attached. -/
structure Ready (doc : Document) (done ready : List LayerRow) : Prop where
  distinct : (doc.layers.map (·.id)).Nodup
  known : ∀ row ∈ done ++ ready, row ∈ doc.layers
  fresh : ((done ++ ready).map (·.id)).Nodup
  parent : ∀ row ∈ ready, ∀ p, row.parent = some p → ∃ above ∈ done, above.id = p

variable {doc : Document} {done ready pending leftover : List LayerRow} {graph next : Graph}
  {previous : Option (List UInt64)}

theorem Ready.due {row : LayerRow} {rest : List LayerRow} (h : Ready doc done (row :: rest)) :
    Due doc done row where
  distinct := h.distinct
  known r hr := h.known r (List.mem_append_left _ hr)
  mem := h.known row (List.mem_append_right _ List.mem_cons_self)
  fresh hm := by
    have := h.fresh
    rw [List.map_append, List.nodup_append] at this
    exact this.2.2 _ hm _ List.mem_cons_self rfl
  parent := h.parent row List.mem_cons_self

theorem Ready.step {row : LayerRow} {rest : List LayerRow} (h : Ready doc done (row :: rest)) :
    Ready doc (done ++ [row]) rest where
  distinct := h.distinct
  known r hr := h.known r (by simpa using hr)
  fresh := by simpa using h.fresh
  parent r hr p hp := by
    obtain ⟨above, hmem, hid⟩ := h.parent r (List.mem_cons_of_mem _ hr) p hp
    exact ⟨above, List.mem_append_left _ hmem, hid⟩

/-! ## One pass -/

theorem attachAll_ok (hdef : doc.catalog.Defined) :
    ∀ {ready done : List LayerRow} {graph : Graph}, graph.Holds doc.catalog doc.volumes done →
      Ready doc done ready → (∀ row ∈ ready, Placed doc row) →
      ∃ next, attachAll doc.volumes graph ready = .ok next := by
  intro ready
  induction ready with
  | nil => exact fun _ _ _ => ⟨_, rfl⟩
  | cons row rest ih =>
    intro done graph hg hr hp
    obtain ⟨next, hok, hnext, -⟩ := attach_ok hg hdef hr.due (hp row List.mem_cons_self)
    obtain ⟨last, hlast⟩ := ih hnext hr.step fun r hm => hp r (List.mem_cons_of_mem _ hm)
    exact ⟨last, by simp only [attachAll, hok, hlast]⟩

theorem attachAll_sound (hdef : doc.catalog.Defined) :
    ∀ {ready done : List LayerRow} {graph next : Graph}, graph.Holds doc.catalog doc.volumes done →
      Ready doc done ready → attachAll doc.volumes graph ready = .ok next →
      next.Holds doc.catalog doc.volumes (done ++ ready) ∧ ∀ row ∈ ready, Placed doc row := by
  intro ready
  induction ready with
  | nil =>
    intro done graph next hg _ h
    cases h
    exact ⟨by simpa using hg, by simp⟩
  | cons row rest ih =>
    intro done graph next hg hr h
    cases hat : graph.attach row (volumesOf doc.volumes row.id) with
    | error fault => simp [attachAll, hat] at h
    | ok mid =>
      simp only [attachAll, hat] at h
      have hplaced := attach_placed hg hdef hr.due hat
      obtain ⟨mid', hat', hmid, -⟩ := attach_ok hg hdef hr.due hplaced
      rw [hat] at hat'
      cases hat'
      obtain ⟨hnext, hrest⟩ := ih hmid hr.step h
      exact ⟨by simpa using hnext, List.forall_mem_cons.2 ⟨hplaced, hrest⟩⟩

theorem attachAll_fault {volumes : List VolumeRow} {fault : Fault} :
    ∀ {rows : List LayerRow} {graph : Graph}, attachAll volumes graph rows = .error fault →
      fault.isLoadFault = true := by
  intro rows
  induction rows with
  | nil => intro graph h; cases h
  | cons row rest ih =>
    intro graph h
    simp only [attachAll] at h
    split at h
    · rename_i hf
      cases h
      exact attach_fault hf
    · exact ih h

/-! ## Between two passes -/

/-- What holds between two passes: `done` are the rows attached so far, in this order, and
`previous` the numbers that the last pass attached. -/
structure Progress (doc : Document) (done : List LayerRow) (graph : Graph)
    (previous : Option (List UInt64)) (pending : List LayerRow) : Prop where
  distinct : (doc.layers.map (·.id)).Nodup
  split : (done ++ pending).Perm doc.layers
  groups : ∀ parent,
    (withParent parent pending = [] ∧ withParent parent done = withParent parent doc.layers) ∨
    (withParent parent done = [] ∧ withParent parent pending = withParent parent doc.layers)
  rooted : ∀ row ∈ done, Rooted doc.layers row
  placed : ∀ row ∈ done, Placed doc row
  start : previous = none → done = []
  recent : ∀ loaded, previous = some loaded → (∀ id ∈ loaded, id ∈ done.map (·.id)) ∧
    ∀ row ∈ pending, ∃ p, row.parent = some p ∧ (p ∈ done.map (·.id) → p ∈ loaded)
  holds : graph.Holds doc.catalog doc.volumes done

/-- Whether the turn of the rows with a parent has come. -/
def turn (previous : Option (List UInt64)) (parent : Option UInt64) : Bool :=
  isReady previous { id := 0, parent, kind := "", owner := default }

theorem isReady_eq (row : LayerRow) : isReady previous row = turn previous row.parent := by
  unfold turn isReady
  cases previous <;> cases row.parent <;> rfl

theorem withParent_filter (test : Option UInt64 → Bool) (parent : Option UInt64)
    (rows : List LayerRow) :
    withParent parent (rows.filter (fun row => test row.parent)) =
      if test parent then withParent parent rows else [] := by
  rw [withParent, withParent, List.filter_filter]
  split
  · rename_i h
    refine List.filter_congr fun row _ => ?_
    by_cases hp : row.parent = parent <;> simp [hp, h]
  · rename_i h
    refine List.filter_eq_nil_iff.2 fun row _ => ?_
    by_cases hp : row.parent = parent <;> simp [hp, h]

/-- A pending row whose turn has not come waits for a parent that is not attached. -/
theorem Progress.waits (h : Progress doc done graph previous pending) {row : LayerRow}
    (hrow : row ∈ pending) (hnot : isReady previous row = false) :
    ∃ p, row.parent = some p ∧ p ∉ done.map (·.id) := by
  cases hprev : previous with
  | none =>
    cases hp : row.parent with
    | none => simp [isReady, hprev, hp] at hnot
    | some p => exact ⟨p, rfl, by simp [h.start hprev]⟩
  | some loaded =>
    obtain ⟨p, hp, hloaded⟩ := (h.recent loaded hprev).2 row hrow
    refine ⟨p, hp, fun hm => ?_⟩
    simp [isReady, hprev, hp, hloaded hm] at hnot

theorem Progress.nodup (h : Progress doc done graph previous pending) :
    ((done ++ pending).map (·.id)).Nodup := ((h.split.map (·.id)).nodup_iff).2 h.distinct

theorem Progress.nodup_pending (h : Progress doc done graph previous pending) :
    (pending.map (·.id)).Nodup := h.nodup.sublist ((List.sublist_append_right _ _).map _)

theorem Progress.due (h : Progress doc done graph previous pending) :
    Ready doc done (pending.filter (isReady previous)) where
  distinct := h.distinct
  known row hrow := by
    refine h.split.mem_iff.1 (List.mem_append.2 ?_)
    exact (List.mem_append.1 hrow).imp_right fun hm => (List.mem_filter.1 hm).1
  fresh := h.nodup.sublist ((List.filter_sublist.append_left done).map _)
  parent row hrow p hp := by
    obtain ⟨-, hready⟩ := List.mem_filter.1 hrow
    cases hprev : previous with
    | none => simp [isReady, hprev, hp] at hready
    | some loaded =>
      simp only [isReady, hprev, hp, List.contains_eq_mem, decide_eq_true_eq] at hready
      simpa using (h.recent loaded hprev).1 p hready

/-- The rows whose turn has come hang below rows that were attached, up to the top. -/
theorem Progress.rooted_due (h : Progress doc done graph previous pending) :
    ∀ row ∈ pending.filter (isReady previous), Rooted doc.layers row := by
  intro row hrow
  have hmem := h.due.known row (List.mem_append_right _ hrow)
  cases hp : row.parent with
  | none => exact .top hmem hp
  | some p =>
    obtain ⟨above, habove, rfl⟩ := h.due.parent row hrow p hp
    exact .under hmem hp (h.rooted above habove)

theorem withParent_ready (parent : Option UInt64) :
    withParent parent (pending.filter (isReady previous)) =
      if turn previous parent then withParent parent pending else [] := by
  simp only [funext isReady_eq]
  exact withParent_filter (turn previous) parent pending

theorem withParent_rest (parent : Option UInt64) :
    withParent parent (pending.filter (fun row => !isReady previous row)) =
      if turn previous parent then [] else withParent parent pending := by
  simp only [isReady_eq]
  rw [withParent_filter (fun p => !turn previous p)]
  cases turn previous parent <;> rfl

theorem Holds.setPasses {catalog : Catalog} {volumes : List VolumeRow}
    (h : graph.Holds catalog volumes done) (passes : List (List LayerId)) :
    Holds catalog volumes done { graph with passes } :=
  ⟨h.definitions, h.pools, h.owners, h.absent, h.present⟩

/-- After a pass the rows whose turn had come are attached. -/
theorem Progress.pass (h : Progress doc done graph previous pending) (hdef : doc.catalog.Defined)
    (hok : attachAll doc.volumes graph (pending.filter (isReady previous)) = .ok next)
    (passes : List (List LayerId)) :
    Progress doc (done ++ pending.filter (isReady previous)) { next with passes }
      (some ((pending.filter (isReady previous)).map (·.id)))
      (pending.filter (fun row => !isReady previous row)) := by
  obtain ⟨hholds, hplaced⟩ := attachAll_sound hdef h.holds h.due hok
  exact {
    distinct := h.distinct
    split := by
      refine List.Perm.trans ?_ h.split
      rw [List.append_assoc]
      exact (List.filter_append_perm _ pending).append_left done
    groups := fun parent => by
      rw [withParent_append, withParent_ready, withParent_rest]
      rcases h.groups parent with ⟨hpend, hdone⟩ | ⟨hdone, hpend⟩
      · exact .inl ⟨by simp [hpend], by simp [hpend, hdone]⟩
      · cases turn previous parent
        · exact .inr ⟨by simp [hdone], by simp [hpend]⟩
        · exact .inl ⟨by simp, by simp [hpend, hdone]⟩
    rooted := fun row hrow => (List.mem_append.1 hrow).elim (h.rooted row) (h.rooted_due row)
    placed := fun row hrow => (List.mem_append.1 hrow).elim (h.placed row) (hplaced row)
    start := by simp
    recent := fun loaded hloaded => by
      cases hloaded
      refine ⟨fun id hid => ?_, fun row hrow => ?_⟩
      · rw [List.map_append]
        exact List.mem_append_right _ hid
      · obtain ⟨hmem, hnot⟩ := List.mem_filter.1 hrow
        obtain ⟨p, hp, hfree⟩ := h.waits hmem (by simpa using hnot)
        refine ⟨p, hp, fun hm => ?_⟩
        rw [List.map_append] at hm
        exact (List.mem_append.1 hm).resolve_left hfree
    holds := hholds.setPasses passes }

theorem filter_not_eq_self {α : Type} {test : α → Bool} {l : List α}
    (h : (l.filter test).isEmpty = true) : l.filter (fun a => !test a) = l := by
  rw [List.isEmpty_iff, List.filter_eq_nil_iff] at h
  exact List.filter_eq_self.2 fun a ha => by simpa using h a ha

theorem length_filter_not_lt {α : Type} {test : α → Bool} {l : List α}
    (h : ¬ (l.filter test).isEmpty = true) : (l.filter (fun a => !test a)).length < l.length := by
  have hpos : 0 < (l.filter test).length := by
    rw [List.length_pos_iff]
    simpa using h
  have hsum := (List.filter_append_perm test l).length_eq
  rw [List.length_append] at hsum
  omega

/-! ## All passes -/

/-- When no pass finds any more, only rows are left over whose parent was not attached. -/
theorem runPasses_sound (hdef : doc.catalog.Defined) {fuel : Nat} :
    ∀ {done pending : List LayerRow} {graph final : Graph} {previous : Option (List UInt64)},
      Progress doc done graph previous pending → pending.length < fuel →
      runPasses doc.volumes fuel graph previous pending = .ok (final, leftover) →
      ∃ done' previous', Progress doc done' final previous' leftover ∧
        ∀ row ∈ leftover, ∃ p, row.parent = some p ∧ p ∉ done'.map (·.id) := by
  induction fuel with
  | zero => intro _ _ _ _ _ _ hfuel; omega
  | succ fuel ih =>
    intro done pending graph final previous h hfuel hrun
    simp only [runPasses] at hrun
    split at hrun
    · rename_i hempty
      cases hrun
      rw [filter_not_eq_self hempty]
      refine ⟨done, previous, h, fun row hrow => h.waits hrow ?_⟩
      rw [List.isEmpty_iff, List.filter_eq_nil_iff] at hempty
      simpa using hempty row hrow
    · rename_i hempty
      split at hrun
      · cases hrun
      · rename_i next hok
        have hlt := length_filter_not_lt hempty
        exact ih (h.pass hdef hok _) (by omega) hrun

/-- Passes end without a fault if all rows fit whose chain of parents ends. -/
theorem runPasses_complete (hdef : doc.catalog.Defined)
    (hall : ∀ row, Rooted doc.layers row → Placed doc row) (fuel : Nat) :
    ∀ {done pending : List LayerRow} {graph : Graph} {previous : Option (List UInt64)},
      Progress doc done graph previous pending →
      ∃ result, runPasses doc.volumes fuel graph previous pending = .ok result := by
  induction fuel with
  | zero => exact fun _ => ⟨_, rfl⟩
  | succ fuel ih =>
    intro done pending graph previous h
    simp only [runPasses]
    split
    · exact ⟨_, rfl⟩
    · obtain ⟨next, hok⟩ := attachAll_ok hdef h.holds h.due fun row hrow =>
        hall row (h.rooted_due row hrow)
      simp only [hok]
      exact ih (h.pass hdef hok _)

theorem runPasses_fault {volumes : List VolumeRow} {failure : LoadFailure} {fuel : Nat} :
    ∀ {graph : Graph} {previous : Option (List UInt64)} {pending : List LayerRow},
      runPasses volumes fuel graph previous pending = .error failure →
      failure.fault.isLoadFault = true := by
  induction fuel with
  | zero => intro _ _ _ h; cases h
  | succ fuel ih =>
    intro graph previous pending h
    simp only [runPasses] at h
    split at h
    · cases h
    · split at h
      · rename_i hf
        cases h
        exact attachAll_fault hf
      · exact ih h

end Graph
end BlockStack
