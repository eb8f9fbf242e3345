import BlockStack.Proofs.Grouping
import Mathlib.Logic.Function.Basic

/-!
# BlockStack.Proofs.Commutation

Reports for different resources do not depend on each other.

* `View`: what reports depend on and change, apart from the order of rows of different resources.
* `View.outcome`, `View.take`: what becomes of a report, and the view after it.
* `View.outcome_take`, `View.take_comm`: reports that are apart do not see each other, and either may
  come first.
* `View.run_reordered`: any order that keeps the order of reports for one resource gives the same.
-/

namespace BlockStack

/-- What reports depend on and change: the resources that are held, the counters, the catalog and
the rows of each resource, with a tolerance and the objects of a backend that stay as they are. -/
structure View where
  tolerance : UInt64
  objects : FactsMap
  registry : Registry
  metrics : Metrics
  catalog : Catalog
  rows : ResourceKey → Rows

/-- Two reports do not name one resource. -/
def Report.Apart (a b : Report) : Prop := ∀ key, a.key = .ok key → b.key ≠ .ok key

theorem Report.Apart.symm {a b : Report} (h : a.Apart b) : b.Apart a :=
  fun key hb ha => h key ha hb

namespace View

variable {view : View} {a b : Report}

/-- The resource that a report speaks of. -/
def held (view : View) (report : Report) : Except Fault Resource :=
  match report.key with
  | .error (.missingField field) => .error (.unknownObject Service.unnamed (.missingField field))
  | .error fault => .error fault
  | .ok key => view.registry.find key

/-- What becomes of a report. -/
def outcome (view : View) (report : Report) : Except Fault Merged :=
  match view.held report with
  | .error fault => .error fault
  | .ok resource =>
    match view.registry.allPools with
    | .error fault => .error fault
    | .ok pools =>
      match resource.merge pools (Backend.known view.objects resource.identifiers) view.tolerance
        report with
      | .error rejection => .error rejection.fault
      | .ok merged => .ok merged

/-- The view after something has become of a report. -/
def absorb (view : View) : Except Fault Merged → View
  | .error fault => { view with metrics := view.metrics.recordFailure fault.faultClass }
  | .ok merged => { view with
      registry := view.registry.replace merged.resource
      metrics := view.metrics.recordMerge merged.summary
      rows := Function.update view.rows merged.resource.key merged.resource.rows }

/-- The view after a report. -/
def take (view : View) (report : Report) : View := view.absorb (view.outcome report)

/-- What becomes of some reports one after the other, and the view after them. -/
def run (view : View) : List Item → List (Nat × Except Fault MergeSummary) × View
  | [] => ([], view)
  | item :: rest =>
    let (results, last) := (view.take item.2).run rest
    ((item.1, (view.outcome item.2).map (·.summary)) :: results, last)

theorem objects_take (view : View) (report : Report) : (view.take report).objects = view.objects := by
  unfold take
  cases view.outcome report <;> rfl

theorem objects_run (items : List Item) : ∀ view : View,
    (view.run items).2.objects = view.objects := by
  induction items with
  | nil => exact fun _ => rfl
  | cons item rest ih => exact fun view => (ih (view.take item.2)).trans (view.objects_take item.2)

theorem tags_run (items : List Item) : ∀ view : View,
    (view.run items).1.map (·.1) = items.map (·.1) := by
  induction items with
  | nil => exact fun _ => rfl
  | cons item rest ih => exact fun view => congrArg (item.1 :: ·) (ih (view.take item.2))

theorem run_concat (order : List Item) (item : Item) : ∀ view : View,
    view.run (order ++ [item]) =
      ((view.run order).1 ++ [(item.1, ((view.run order).2.outcome item.2).map (·.summary))],
        (view.run order).2.take item.2) := by
  induction order with
  | nil => exact fun _ => rfl
  | cons first rest ih =>
    intro view
    simp only [run, List.cons_append, ih]

/-- What becomes of the first reports does not depend on those after them. -/
theorem run_take (items : List Item) : ∀ (n : Nat) (view : View),
    (view.run (items.take n)).1 = (view.run items).1.take n := by
  induction items with
  | nil => exact fun n _ => by rw [List.take_nil, run, List.take_nil]
  | cons item rest ih =>
    intro n view
    cases n with
    | zero => rfl
    | succ n => exact congrArg (List.cons _) (ih n (view.take item.2))

/-! ## Reports that are apart -/

theorem key_of_outcome {report : Report} {merged : Merged} (h : view.outcome report = .ok merged) :
    report.key = .ok merged.resource.key := by
  unfold outcome at h
  split at h
  · cases h
  split at h
  · cases h
  split at h
  · cases h
  · rename_i hmerge
    cases h
    exact (Resource.key_of_merge hmerge).1

theorem held_absorb {outcome : Except Fault Merged}
    (hfar : ∀ merged, outcome = .ok merged → b.key ≠ .ok merged.resource.key) :
    (view.absorb outcome).held b = view.held b := by
  unfold held
  split
  · rfl
  · rfl
  · rename_i key hkey
    cases outcome with
    | error fault => rfl
    | ok merged =>
      exact Service.find_replace fun heq => hfar merged rfl (heq ▸ hkey)

/-- Reports that are apart do not see each other. -/
theorem outcome_take (h : a.Apart b) : (view.take a).outcome b = view.outcome b := by
  have hheld : (view.take a).held b = view.held b :=
    held_absorb fun merged hmerged => h _ (key_of_outcome hmerged)
  have hrest : (view.take a).registry.allPools = view.registry.allPools ∧
      (view.take a).tolerance = view.tolerance ∧ (view.take a).objects = view.objects := by
    unfold take
    cases view.outcome a <;> exact ⟨rfl, rfl, rfl⟩
  obtain ⟨hpools, htolerance, hobjects⟩ := hrest
  simp only [outcome, hheld, hpools, htolerance, hobjects]

theorem replace_comm (registry : Registry) {x y : Resource} (hne : x.key ≠ y.key) :
    (registry.replace x).replace y = (registry.replace y).replace x := by
  have hresources : ((registry.resources.modify x.key (fun _ => x)).modify y.key (fun _ => y)) =
      (registry.resources.modify y.key (fun _ => y)).modify x.key (fun _ => x) := by
    refine SortedMap.ext_get? fun key => ?_
    by_cases hx : key = x.key
    · subst hx
      rw [SortedMap.get?_modify_of_ne _ _ hne, SortedMap.get?_modify_self,
        SortedMap.get?_modify_self, SortedMap.get?_modify_of_ne _ _ hne]
    · rw [SortedMap.get?_modify_of_ne _ _ hx]
      by_cases hy : key = y.key
      · subst hy
        rw [SortedMap.get?_modify_self, SortedMap.get?_modify_self, SortedMap.get?_modify_of_ne _ _ hx]
      · rw [SortedMap.get?_modify_of_ne _ _ hy, SortedMap.get?_modify_of_ne _ _ hy,
          SortedMap.get?_modify_of_ne _ _ hx]
  simp only [Registry.replace, hresources]

theorem recordFailure_comm (metrics : Metrics) (f g : FaultClass) :
    (metrics.recordFailure f).recordFailure g = (metrics.recordFailure g).recordFailure f := by
  cases f <;> cases g <;> rfl

theorem recordMerge_recordFailure (metrics : Metrics) (summary : MergeSummary) (f : FaultClass) :
    (metrics.recordMerge summary).recordFailure f = (metrics.recordFailure f).recordMerge summary := by
  cases f <;> rfl

theorem recordMerge_comm (metrics : Metrics) (s t : MergeSummary) :
    (metrics.recordMerge s).recordMerge t = (metrics.recordMerge t).recordMerge s := by
  have hswap : ∀ a b c : UInt64, a + b + c = a + c + b := fun a b c => by
    rw [UInt64.add_assoc, UInt64.add_comm b, ← UInt64.add_assoc]
  simp only [Metrics.recordMerge, Metrics.mk.injEq, true_and, and_true]
  exact ⟨hswap .., hswap .., hswap ..⟩

/-- What becomes of two reports may be absorbed in either order, unless both are merged into one
resource. -/
theorem absorb_comm {x y : Except Fault Merged}
    (hfar : ∀ m n, x = .ok m → y = .ok n → m.resource.key ≠ n.resource.key) :
    (view.absorb x).absorb y = (view.absorb y).absorb x := by
  cases x with
  | error f =>
    cases y with
    | error g => simp only [absorb, recordFailure_comm]
    | ok n => simp only [absorb, recordMerge_recordFailure]
  | ok m =>
    cases y with
    | error g => simp only [absorb, recordMerge_recordFailure]
    | ok n =>
      have hne := hfar m n rfl rfl
      simp only [absorb, recordMerge_comm view.metrics m.summary, replace_comm view.registry hne,
        Function.update_comm hne]

/-- Of two reports that are apart, either may come first. -/
theorem take_comm (h : a.Apart b) : (view.take a).take b = (view.take b).take a := by
  have hb : (view.take a).take b = (view.absorb (view.outcome a)).absorb (view.outcome b) := by
    rw [take, outcome_take h, take]
  have ha : (view.take b).take a = (view.absorb (view.outcome b)).absorb (view.outcome a) := by
    rw [take, outcome_take h.symm, take]
  rw [ha, hb]
  refine absorb_comm fun m n hm hn heq => h _ (key_of_outcome hm) ?_
  rw [key_of_outcome hn, heq]

/-! ## Other orders -/

/-- A report that is apart from those before it may come first. -/
theorem run_front {item : Item} {before after : List Item}
    (hfar : ∀ other ∈ before, item.2.Apart other.2) : ∀ view : View,
    (view.run (before ++ item :: after)).1.Perm (view.run (item :: (before ++ after))).1 ∧
      (view.run (before ++ item :: after)).2 = (view.run (item :: (before ++ after))).2 := by
  induction before with
  | nil => exact fun view => ⟨.refl _, rfl⟩
  | cons first rest ih =>
    intro view
    have hfirst := hfar first (List.mem_cons_self ..)
    obtain ⟨hperm, hlast⟩ := ih (fun other hother => hfar other (List.mem_cons_of_mem _ hother))
      (view.take first.2)
    simp only [run, List.cons_append] at hperm hlast ⊢
    rw [outcome_take hfirst.symm, take_comm hfirst.symm] at hperm
    rw [take_comm hfirst.symm] at hlast
    rw [outcome_take hfirst]
    exact ⟨(hperm.cons _).trans (.swap ..), hlast⟩

end View

theorem named_iff {key : ResourceKey} {item : Item} :
    named (some key) item = true ↔ item.2.key = .ok key := by
  unfold named
  cases item.2.key <;> simp [Except.toOption]

/-- What comes before the first report of another order is apart from it. -/
theorem Reordered.apart {item : Item} {before after rest : List Item}
    (h : Reordered (before ++ item :: after) (item :: rest)) (hfirst : item ∉ before) :
    ∀ other ∈ before, item.2.Apart other.2 := by
  intro other hother key hitem hsame
  have hkept := h.kept key
  rw [List.filter_cons_of_pos (named_iff.2 hitem), List.filter_append] at hkept
  have hmem : other ∈ before.filter (named (some key)) :=
    List.mem_filter.2 ⟨hother, named_iff.2 hsame⟩
  -- otherwise the first report for its resource would stand before it
  cases hbefore : before.filter (named (some key)) with
  | nil =>
    rw [hbefore] at hmem
    cases hmem
  | cons head tail =>
    rw [hbefore, List.cons_append] at hkept
    obtain ⟨rfl, -⟩ := List.cons.inj hkept
    exact hfirst (List.mem_filter.1 (hbefore ▸ List.mem_cons_self ..)).1

theorem Reordered.tail {item : Item} {before after rest : List Item}
    (h : Reordered (before ++ item :: after) (item :: rest)) (hfirst : item ∉ before) :
    Reordered (before ++ after) rest where
  perm := (List.perm_middle.symm.trans h.perm).cons_inv
  kept key := by
    have hkept := h.kept key
    rw [List.filter_append] at hkept ⊢
    by_cases hitem : named (some key) item = true
    · have hnone : before.filter (named (some key)) = [] :=
        List.filter_eq_nil_iff.2 fun other hother hnamed =>
          h.apart hfirst other hother key (named_iff.1 hitem) (named_iff.1 hnamed)
      rw [hnone, List.filter_cons_of_pos hitem, List.filter_cons_of_pos hitem] at hkept
      rw [hnone]
      exact (List.cons.inj hkept).2
    · rwa [List.filter_cons_of_neg hitem, List.filter_cons_of_neg hitem] at hkept

namespace View

/-- Any order that keeps the order of reports for one resource gives the same results, and the same
view in the end. -/
theorem run_reordered {items : List Item} : ∀ {order : List Item}, Reordered order items →
    ∀ view : View, (view.run order).1.Perm (view.run items).1 ∧
      (view.run order).2 = (view.run items).2 := by
  induction items with
  | nil =>
    intro order h view
    rw [h.perm.eq_nil]
    exact ⟨.refl _, rfl⟩
  | cons item rest ih =>
    intro order h view
    obtain ⟨before, after, rfl, hfirst⟩ :=
      List.eq_append_cons_of_mem (h.perm.mem_iff.2 (List.mem_cons_self ..))
    obtain ⟨hperm, hlast⟩ := @run_front item before after (h.apart hfirst) view
    obtain ⟨hrest, hend⟩ := ih (h.tail hfirst) (view.take item.2)
    simp only [run] at hperm hlast ⊢
    exact ⟨hperm.trans (hrest.cons _), hlast.trans hend⟩

end View
end BlockStack
