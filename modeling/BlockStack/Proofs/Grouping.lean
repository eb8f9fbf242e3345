import BlockStack.Proofs.Linearization

/-!
# BlockStack.Proofs.Grouping

A batch settles each of its reports once, and tells the results in the order of the reports.

* `Grouped`: reports by the resources that they name. `exists_grouped`: the jobs of a batch are such
  groups.
* `Reordered`: another order of reports that keeps the order of those for one resource.
* `Service.handleAll_linear`: a batch settles its reports one after the other, in such an order, and
  has a result for each report.
-/

namespace BlockStack

/-! ## Jobs of some reports -/

/-- The reports of a batch, with their places. -/
def itemsOf (reports : List Report) : List Item := reports.zipIdx.map (fun e => (e.2, e.1))

/-- Groups hold all reports, each group those with its key in their order. -/
structure Grouped (items : List Item) (groups : List (Option ResourceKey × List Item)) : Prop where
  distinct : (groups.map (·.1)).Nodup
  each : ∀ group ∈ groups, group.2 = items.filter (named group.1)
  covered : ∀ item ∈ items, item.2.key.toOption ∈ groups.map (·.1)
  total : (groups.map (·.2.length)).sum = items.length

theorem keys_addToGroup (item : Item) (groups : List (Option ResourceKey × List Item)) :
    (addToGroup item groups).map (·.1) =
      if item.2.key.toOption ∈ groups.map (·.1) then groups.map (·.1)
      else groups.map (·.1) ++ [item.2.key.toOption] := by
  induction groups with
  | nil => rfl
  | cons group rest ih =>
    unfold addToGroup
    by_cases hkey : group.1 = item.2.key.toOption
    · simp [hkey]
    · simp only [if_neg hkey, List.map_cons, ih, List.mem_cons, Ne.symm hkey, false_or]
      split <;> rfl

theorem total_addToGroup (item : Item) (groups : List (Option ResourceKey × List Item)) :
    ((addToGroup item groups).map (·.2.length)).sum = (groups.map (·.2.length)).sum + 1 := by
  induction groups with
  | nil => rfl
  | cons group rest ih =>
    unfold addToGroup
    split
    · simp only [List.map_cons, List.sum_cons, List.length_append, List.length_singleton]
      omega
    · simp only [List.map_cons, List.sum_cons, ih]
      omega

theorem mem_addToGroup {item : Item} {groups : List (Option ResourceKey × List Item)}
    (hdistinct : (groups.map (·.1)).Nodup) {group : Option ResourceKey × List Item}
    (h : group ∈ addToGroup item groups) :
    (group ∈ groups ∧ group.1 ≠ item.2.key.toOption) ∨
      (∃ before, (item.2.key.toOption, before) ∈ groups ∧
        group = (item.2.key.toOption, before ++ [item])) ∨
      (item.2.key.toOption ∉ groups.map (·.1) ∧ group = (item.2.key.toOption, [item])) := by
  induction groups with
  | nil => exact .inr (.inr ⟨nofun, List.mem_singleton.1 h⟩)
  | cons first rest ih =>
    obtain ⟨hfirst, hrest⟩ := List.nodup_cons.1 hdistinct
    unfold addToGroup at h
    split at h
    · rename_i hkey
      rcases List.mem_cons.1 h with rfl | hmem
      · exact .inr (.inl ⟨first.2, hkey ▸ List.mem_cons_self .., by rw [hkey]⟩)
      · exact .inl ⟨List.mem_cons_of_mem _ hmem,
          fun heq => hfirst (List.mem_map.2 ⟨group, hmem, heq.trans hkey.symm⟩)⟩
    · rename_i hkey
      rcases List.mem_cons.1 h with rfl | hmem
      · exact .inl ⟨List.mem_cons_self .., hkey⟩
      · rcases ih hrest hmem with ⟨hin, hne⟩ | ⟨before, hin, heq⟩ | ⟨hnew, heq⟩
        · exact .inl ⟨List.mem_cons_of_mem _ hin, hne⟩
        · exact .inr (.inl ⟨before, List.mem_cons_of_mem _ hin, heq⟩)
        · refine .inr (.inr ⟨fun hin => ?_, heq⟩)
          rcases List.mem_cons.1 hin with hsame | hin
          · exact hkey hsame.symm
          · exact hnew hin

theorem Grouped.add {items : List Item} {groups : List (Option ResourceKey × List Item)}
    (h : Grouped items groups) (item : Item) :
    Grouped (items ++ [item]) (addToGroup item groups) where
  distinct := by
    rw [keys_addToGroup]
    split
    · exact h.distinct
    · rename_i hnew
      exact List.nodup_append.2 ⟨h.distinct, List.nodup_singleton _, fun a ha b hb heq =>
        hnew (List.mem_singleton.1 hb ▸ heq ▸ ha)⟩
  each group hgroup := by
    rw [List.filter_append]
    have hitem : [item].filter (named item.2.key.toOption) = [item] :=
      List.filter_cons_of_pos (decide_eq_true rfl)
    rcases mem_addToGroup h.distinct hgroup with ⟨hin, hne⟩ | ⟨before, hin, rfl⟩ | ⟨hnew, rfl⟩
    · have hother : [item].filter (named group.1) = [] :=
        List.filter_eq_nil_iff.2 fun other hmem => by
          rw [List.mem_singleton.1 hmem]
          simpa [named] using hne.symm
      rw [hother, List.append_nil]
      exact h.each group hin
    · rw [hitem]
      exact congrArg (· ++ [item]) (h.each _ hin)
    · have hnone : items.filter (named item.2.key.toOption) = [] :=
        List.filter_eq_nil_iff.2 fun other hmem hsame =>
          hnew (of_decide_eq_true hsame ▸ h.covered other hmem)
      rw [hitem, hnone]
      rfl
  covered other hother := by
    rw [keys_addToGroup]
    rcases List.mem_append.1 hother with hmem | hlast
    · split
      · exact h.covered other hmem
      · exact List.mem_append_left _ (h.covered other hmem)
    · rw [List.mem_singleton.1 hlast]
      split
      · assumption
      · exact List.mem_append_right _ (List.mem_singleton_self _)
  total := by rw [total_addToGroup, h.total, List.length_append, List.length_singleton]

theorem grouped_foldl {items : List Item} : ∀ {before : List Item}
    {groups : List (Option ResourceKey × List Item)}, Grouped before groups →
    Grouped (before ++ items) (items.foldl (fun groups item => addToGroup item groups) groups) := by
  induction items with
  | nil => exact fun h => by rwa [List.append_nil]
  | cons item rest ih =>
    intro before groups h
    have hnext := ih (h.add item)
    rwa [List.append_assoc] at hnext

/-- The jobs of some reports are groups of them. -/
theorem exists_grouped (reports : List Report) :
    ∃ groups, Grouped (itemsOf reports) groups ∧
      jobsOf reports = groups.map (fun group => { waiting := group.2 }) := by
  have hnone : Grouped [] [] := ⟨List.nodup_nil, nofun, nofun, rfl⟩
  exact ⟨_, grouped_foldl hnone, rfl⟩

/-! ## Orders -/

/-- Lists that agree on each class are the same up to order. -/
theorem perm_of_filter_eq {α κ : Type} [DecidableEq κ] {f : α → κ} {l l' : List α}
    (h : ∀ k, l.filter (fun a => f a = k) = l'.filter (fun a => f a = k)) : l.Perm l' := by
  classical
  refine List.perm_iff_count.2 fun a => ?_
  have hself : decide (f a = f a) = true := decide_eq_true rfl
  rw [← List.count_filter (p := fun b => decide (f b = f a)) hself, h,
    List.count_filter (p := fun b => decide (f b = f a)) hself]

/-- The same reports in an order that keeps the order of those for one resource. -/
structure Reordered (order items : List Item) : Prop where
  perm : order.Perm items
  kept : ∀ key : ResourceKey, order.filter (named (some key)) = items.filter (named (some key))

theorem lookup_eq_some_iff_mem {κ υ : Type} [BEq κ] [LawfulBEq κ] {l : List (κ × υ)}
    (h : (l.map (·.1)).Nodup) {k : κ} {v : υ} : l.lookup k = some v ↔ (k, v) ∈ l := by
  induction l with
  | nil => simp
  | cons entry rest ih =>
    obtain ⟨hfirst, hrest⟩ := List.nodup_cons.1 h
    obtain ⟨key, value⟩ := entry
    rw [List.lookup_cons, List.mem_cons]
    by_cases hkey : k = key
    · subst hkey
      have hnone : (k, v) ∉ rest := fun hmem => hfirst (List.mem_map.2 ⟨_, hmem, rfl⟩)
      simp [hnone, eq_comm]
    · have hne : (k == key) = false := beq_eq_false_iff_ne.2 hkey
      simp [hne, hkey, ih hrest]

theorem tags_itemsOf (reports : List Report) :
    (itemsOf reports).map (·.1) = List.range reports.length := by
  rw [itemsOf, List.map_map, List.range_eq_range']
  exact List.zipIdx_map_snd 0 reports

/-! ## A whole batch -/

namespace Service

/-- The results of a batch stand in the order of its reports. -/
def InPlace (results : List (Nat × Except Fault MergeSummary))
    (told : List (Except Fault MergeSummary)) : Prop :=
  ∀ (i : Nat) (result : Except Fault MergeSummary), told[i]? = some result ↔ (i, result) ∈ results

theorem inPlace_lookup {results : List (Nat × Except Fault MergeSummary)} {n : Nat}
    (h : (results.map (·.1)).Perm (List.range n)) :
    ((List.range n).filterMap (fun i => results.lookup i)).length = n ∧
      InPlace results ((List.range n).filterMap (fun i => results.lookup i)) := by
  have hnodup : (results.map (·.1)).Nodup := h.nodup_iff.2 List.nodup_range
  have hsome : ∀ i ∈ List.range n,
      results.lookup i = some ((results.lookup i).getD (.error .notLoaded)) := by
    intro i hi
    obtain ⟨entry, hentry, rfl⟩ := List.mem_map.1 (h.mem_iff.2 hi)
    rw [(lookup_eq_some_iff_mem hnodup).2 hentry]
    rfl
  have hmap : (List.range n).filterMap (fun i => results.lookup i) =
      (List.range n).map (fun i => (results.lookup i).getD (.error .notLoaded)) :=
    (List.filterMap_congr hsome).trans (congrFun List.filterMap_eq_map _)
  rw [hmap]
  refine ⟨by rw [List.length_map, List.length_range], fun i result => ?_⟩
  rw [List.getElem?_map, ← lookup_eq_some_iff_mem hnodup]
  by_cases hi : i < n
  · rw [List.getElem?_range hi, Option.map_some, ← hsome i (List.mem_range.2 hi)]
  · have hnone : results.lookup i = none := by
      refine Option.eq_none_iff_forall_not_mem.2 fun value hvalue => hi ?_
      have hmem := (lookup_eq_some_iff_mem hnodup).1 hvalue
      exact List.mem_range.1 (h.mem_iff.1 (List.mem_map_of_mem hmem))
    rw [List.getElem?_eq_none (by rwa [List.length_range, ← Nat.not_lt]), hnone]
    rfl

/-- A batch before its first step. -/
theorem shares_start (service : Service) (pauses : Pauses) {items : List Item}
    {groups : List (Option ResourceKey × List Item)} (h : Grouped items groups) :
    Batch.Shares service items (groups.map (·.1)) []
      { service, pauses, jobs := groups.map (fun group => { waiting := group.2 }) } where
  onward := .refl service
  taken := .start (.refl service)
  distinct := h.distinct
  length := by rw [List.length_map, List.length_map]
  settled := nofun
  left place key job hkey hjob := by
    rw [List.getElem?_map] at hkey hjob
    obtain ⟨group, hgroup, rfl⟩ := Option.map_eq_some_iff.1 hkey
    rw [hgroup] at hjob
    cases hjob
    exact h.each group (List.mem_of_getElem? hgroup)
  held job hjob := by
    obtain ⟨group, -, rfl⟩ := List.mem_map.1 hjob
    trivial
  nodup := List.nodup_nil
  queued place := by
    refine ⟨nofun, ?_⟩
    rintro ⟨job, hjob, hqueues⟩
    obtain ⟨group, -, rfl⟩ := List.mem_map.1 (List.mem_of_getElem? hjob)
    cases hqueues

theorem effort_start (service : Service) (pauses : Pauses) {items : List Item}
    {groups : List (Option ResourceKey × List Item)} (h : Grouped items groups) :
    Batch.effort service.retry
      { service, pauses, jobs := groups.map (fun group => { waiting := group.2 }) } ≤
        Batch.fuel service.retry items.length := by
  have heffort : Batch.effort service.retry
      { service, pauses, jobs := groups.map (fun group => { waiting := group.2 }) } =
        4 * service.retry.attempts * items.length := by
    rw [← h.total, ← List.sum_map_mul_left, Batch.effort, List.map_map]
    rfl
  rw [heffort, Batch.fuel, Nat.mul_add, Nat.mul_comm items.length]
  omega

/-- A batch settles its reports one after the other, in an order that keeps the order of those for
one resource, whatever the pauses are and the turns of its jobs; and it has a result for each report,
in the order of the reports. -/
theorem handleAll_linear (service : Service) (reports : List Report) (pauses : Pauses) :
    ∃ order results, Reordered order (itemsOf reports) ∧
      service.TakesIn order results (service.handleAll reports pauses).2 ∧
      (service.handleAll reports pauses).1.length = reports.length ∧
      InPlace results (service.handleAll reports pauses).1 := by
  obtain ⟨groups, hgrouped, hjobs⟩ := exists_grouped reports
  have hlength : (itemsOf reports).length = reports.length := by
    rw [itemsOf, List.length_map, List.length_zipIdx]
  obtain ⟨order, hshares, hdone⟩ :=
    (shares_start service pauses hgrouped).run (effort_start service pauses hgrouped)
  rw [hlength, ← hjobs] at hshares hdone
  -- each job has settled all reports of its resource, and the other keys have none
  have hkept : ∀ key, order.filter (named key) = (itemsOf reports).filter (named key) := by
    intro key
    by_cases hkey : key ∈ groups.map (·.1)
    · obtain ⟨place, hplace⟩ := List.mem_iff_getElem?.1 hkey
      obtain ⟨hlt, -⟩ := List.getElem?_eq_some_iff.1 hplace
      have hjob := List.getElem?_eq_getElem (hshares.length ▸ hlt)
      rw [← hshares.left place key _ hplace hjob,
        hshares.done hdone _ (List.mem_of_getElem? hjob), List.append_nil]
    · have hnone : ∀ {items : List Item}, (∀ item ∈ items, item.2.key.toOption ∈ groups.map (·.1)) →
          items.filter (named key) = [] :=
        fun hmem => List.filter_eq_nil_iff.2 fun item hitem hnamed =>
          hkey (of_decide_eq_true hnamed ▸ hmem item hitem)
      rw [hnone hshares.settled, hnone hgrouped.covered]
  have hperm : order.Perm (itemsOf reports) := perm_of_filter_eq hkept
  have htags := hperm.map (fun item : Item => item.1)
  rw [tags_itemsOf, ← hshares.taken.tags] at htags
  obtain ⟨htold, hplaces⟩ := inPlace_lookup htags
  exact ⟨order, _, ⟨hperm, fun key => hkept (some key)⟩, hshares.taken, htold, hplaces⟩

end Service
end BlockStack
