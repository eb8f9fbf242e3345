import BlockStack.Proofs.Batches
import BlockStack.Proofs.Effects

/-!
# BlockStack.Proofs.Linearization

A batch settles its reports one after the other, whatever the turns of its jobs are.

* `Service.TakesIn`: some reports are settled one after the other.
* `Service.Settles.sameFor`: a report that is settled leaves reports for other resources alone.
* `Batch.Shares`: the invariant. What was settled and what the jobs still have to settle are all
  reports, those for one resource in their order. `Batch.Shares.step` is preservation, and every step
  leaves less to do.
* `Batch.Shares.done`: nothing is left to do only once all reports are settled.
-/

namespace BlockStack

/-! ## Reports one after the other -/

namespace Service

/-- Some reports are settled one after the other, which gives some results and a last state. -/
inductive TakesIn (start : Service) :
    List Item → List (Nat × Except Fault MergeSummary) → Service → Prop where
  | start {next : Service} : next.Still start → TakesIn start [] [] next
  | settles {order : List Item} {results : List (Nat × Except Fault MergeSummary)}
      {service next : Service} {item : Item} {result : Except Fault MergeSummary} :
      TakesIn start order results service → start.Settles service item.2 result next →
      TakesIn start (order ++ [item]) (results ++ [(item.1, result)]) next
  | still {order : List Item} {results : List (Nat × Except Fault MergeSummary)}
      {service next : Service} :
      TakesIn start order results service → next.Still service → TakesIn start order results next

theorem TakesIn.tags {start last : Service} {order : List Item}
    {results : List (Nat × Except Fault MergeSummary)} (h : start.TakesIn order results last) :
    results.map (·.1) = order.map (·.1) := by
  induction h with
  | start _ => rfl
  | settles _ _ ih => rw [List.map_append, List.map_append, ih]; rfl
  | still _ _ ih => exact ih

variable {start service next : Service} {report : Report}

/-- What a report depends on is the same in two states. -/
structure SameFor (report : Report) (service next : Service) : Prop where
  resource : next.resourceFor report = service.resourceFor report
  pools : next.registry.allPools = service.registry.allPools
  tolerance : next.tolerance = service.tolerance

theorem SameFor.of_agrees (h : next.Agrees service) (report : Report) :
    SameFor report service next where
  resource := by
    unfold resourceFor
    rw [h.registry]
  pools := by rw [h.registry]
  tolerance := h.tolerance

theorem find_replace {registry : Registry} {resource : Resource} {key : ResourceKey}
    (hne : key ≠ resource.key) : (registry.replace resource).find key = registry.find key := by
  simp only [Registry.find, Registry.replace, SortedMap.get?_modify_of_ne _ _ hne]

/-- A report that is taken in changes nothing that reports for other resources depend on. -/
theorem Applied.sameFor {merged : Merged} (h : service.Applied report merged next) {other : Report}
    (hother : other.key.toOption ≠ report.key.toOption) : SameFor other service next where
  resource := by
    obtain ⟨_, _, _, _, -, -, -, hmerge⟩ := h.merge
    obtain ⟨hkey, -⟩ := Resource.key_of_merge hmerge
    unfold resourceFor
    rw [h.registry]
    split
    · rfl
    · rfl
    · rename_i key hother'
      rw [hkey, hother'] at hother
      exact find_replace fun heq => hother (heq ▸ rfl)
  pools := by
    rw [h.registry]
    rfl
  tolerance := h.tolerance

/-- What settles a report: it is refused, or it is taken in, up to backends and logs. -/
theorem Settles.cases {result : Except Fault MergeSummary}
    (h : start.Settles service report result next) :
    next.Agrees service ∨
      ∃ merged after, service.Applied report merged after ∧ next.Agrees after := by
  obtain ⟨facts, -, -, hstill⟩ := h
  rcases service.handleBy_cases (fun _ => (facts, service.backend)) report with
    ⟨fault, -, hrefused⟩ | ⟨merged, -, happlied⟩
  · exact .inl (hstill.toAgrees.trans hrefused.kept)
  · exact .inr ⟨merged, _, happlied, hstill.toAgrees⟩

theorem Settles.sameFor {result : Except Fault MergeSummary}
    (h : start.Settles service report result next) {other : Report}
    (hother : other.key.toOption ≠ report.key.toOption) : SameFor other service next := by
  rcases h.cases with hagrees | ⟨merged, after, happlied, hagrees⟩
  · exact .of_agrees hagrees other
  · have hsame := happlied.sameFor hother
    have hafter := SameFor.of_agrees hagrees other
    exact ⟨hafter.resource.trans hsame.resource, hafter.pools.trans hsame.pools,
      hafter.tolerance.trans hsame.tolerance⟩

theorem save_inFile {store next : Store} {key : ResourceKey} {rows : Rows}
    (h : store.save key rows = .ok next) : next.inFile = store.inFile := by
  cases store with
  | memory doc =>
    cases h
    rfl
  | file path files =>
    simp only [Store.save] at h
    split at h
    · cases h
    split at h
    · cases h
    · cases h
      rfl

theorem Settles.inFile {result : Except Fault MergeSummary}
    (h : start.Settles service report result next) : next.store.inFile = service.store.inFile := by
  rcases h.cases with hagrees | ⟨merged, after, happlied, hagrees⟩
  · rw [hagrees.store]
  · rw [hagrees.store, save_inFile happlied.saved]

end Service

/-! ## Other jobs -/

/-- What a job is at stays begun for the resource that is held. -/
theorem Job.Held.of_sameFor {start service next : Service} {job : Job} (h : job.Held start service)
    (hsame : ∀ item ∈ job.items, Service.SameFor item.2 service next) : job.Held start next := by
  obtain ⟨waiting, phase⟩ := job
  cases phase with
  | idle => exact trivial
  | calling item resource failed cutOff wake =>
    have hitem := hsame item (List.mem_cons_self ..)
    exact ⟨hitem.resource.trans h.1, h.2⟩
  | pausing item resource failed wake =>
    have hitem := hsame item (List.mem_cons_self ..)
    exact ⟨hitem.resource.trans h.1, h.2⟩
  | saving item merged =>
    have hitem := hsame item (List.mem_cons_self ..)
    obtain ⟨resource, facts, hfor, hfacts, hprepare⟩ := h
    exact ⟨resource, facts, hitem.resource.trans hfor, hfacts,
      (Service.prepare_congr hitem.pools hitem.tolerance ..).trans hprepare⟩

/-- Whether a report is for a resource; `none` stands for reports that name none. -/
def named (key : Option ResourceKey) (item : Item) : Bool := item.2.key.toOption = key

namespace Batch

/-- A bound on the steps that a batch still takes. -/
def effort (policy : RetryPolicy) (batch : Batch) : Nat :=
  (batch.jobs.map (Job.effort policy batch.clock)).sum

/-- The state of a batch between its start and its end: each job has a key of its own, and for each
key the reports that were settled, and then those of the job, are all reports with the key in their
order. The queue holds the jobs that wait to save in a file. -/
structure Shares (start : Service) (items : List Item) (keys : List (Option ResourceKey))
    (order : List Item) (batch : Batch) : Prop where
  onward : start.Onward batch.service
  taken : start.TakesIn order batch.results batch.service
  distinct : keys.Nodup
  length : keys.length = batch.jobs.length
  settled : ∀ item ∈ order, item.2.key.toOption ∈ keys
  left : ∀ (place : Nat) (key : Option ResourceKey) (job : Job), keys[place]? = some key →
    batch.jobs[place]? = some job →
    order.filter (named key) ++ job.items = items.filter (named key)
  held : ∀ job ∈ batch.jobs, job.Held start batch.service
  nodup : batch.queue.Nodup
  queued : ∀ place : Nat, place ∈ batch.queue ↔
    ∃ job, batch.jobs[place]? = some job ∧ job.queues batch.service.store = true

variable {start : Service} {items order : List Item} {keys : List (Option ResourceKey)}
  {batch next : Batch} {place : Nat} {job after : Job}

/-! ## What a step of one job leaves -/

theorem sum_set_lt {l : List Nat} {i x y : Nat} (hget : l[i]? = some x) (hlt : y < x) :
    (l.set i y).sum < l.sum := by
  induction l generalizing i with
  | nil => cases hget
  | cons a rest ih =>
    cases i with
    | zero =>
      cases hget
      simp only [List.set_cons_zero, List.sum_cons]
      omega
    | succ i =>
      have := ih hget
      simp only [List.set_cons_succ, List.sum_cons]
      omega

namespace Advanced

variable {queue : List Nat}
  (h : Advanced start { batch with queue } place job next after) (hplace : batch.jobs[place]? = some job)
include h hplace

theorem get? (other : Nat) :
    next.jobs[other]? = if other = place then some after else batch.jobs[other]? := by
  obtain ⟨hlt, -⟩ := List.getElem?_eq_some_iff.1 hplace
  rw [h.jobs]
  dsimp only
  rw [List.getElem?_set, if_pos hlt]
  simp only [eq_comm]

theorem effort_lt : next.effort start.retry < batch.effort start.retry := by
  unfold Batch.effort
  rw [h.jobs, h.clock]
  dsimp only
  rw [List.map_set]
  refine sum_set_lt ?_ h.effort
  rw [List.getElem?_map, hplace]
  rfl

theorem queued (hfile : next.service.store.inFile = batch.service.store.inFile)
    (hnodup : queue.Nodup) (hfree : place ∉ queue)
    (hothers : ∀ other, other ≠ place → (other ∈ queue ↔
      ∃ job, batch.jobs[other]? = some job ∧ job.queues batch.service.store = true)) :
    next.queue.Nodup ∧ ∀ other, other ∈ next.queue ↔
      ∃ job, next.jobs[other]? = some job ∧ job.queues next.service.store = true := by
  have hqueues : ∀ job : Job, job.queues next.service.store = job.queues batch.service.store := by
    intro job
    unfold Job.queues
    rw [hfile]
  have hqueue : next.queue = queue ++ if after.queues batch.service.store then [place] else [] :=
    h.queue
  constructor
  · rw [hqueue]
    split
    · exact List.nodup_append.2 ⟨hnodup, List.nodup_singleton _, fun a ha b hb => by
        rw [List.mem_singleton] at hb
        exact fun heq => hfree (hb ▸ heq ▸ ha)⟩
    · rwa [List.append_nil]
  · intro other
    simp only [hqueues, h.get? hplace]
    rw [hqueue, List.mem_append]
    by_cases hother : other = place
    · subst hother
      simp only [if_true, Option.some.injEq, exists_eq_left', hfree, false_or]
      split
      · rename_i hafter
        simp [hafter]
      · rename_i hafter
        simp [hafter]
    · simp only [if_neg hother, hothers other hother, or_iff_left_iff_imp]
      intro hmem
      split at hmem
      · exact absurd (List.mem_singleton.1 hmem) hother
      · cases hmem

end Advanced

/-! ## The invariant along a batch -/

namespace Shares

variable (h : Shares start items keys order batch)
include h

theorem exists_key (hplace : batch.jobs[place]? = some job) : ∃ key, keys[place]? = some key := by
  obtain ⟨hlt, -⟩ := List.getElem?_eq_some_iff.1 hplace
  exact ⟨_, List.getElem?_eq_getElem (h.length ▸ hlt)⟩

theorem place_eq {key : Option ResourceKey} {other : Nat} (hkey : keys[place]? = some key)
    (hother : keys[other]? = some key) : other = place := by
  obtain ⟨hlt, -⟩ := List.getElem?_eq_some_iff.1 hother
  exact (List.getElem?_inj hlt h.distinct).1 (hother.trans hkey.symm)

theorem key_of_mem (hplace : batch.jobs[place]? = some job) {key : Option ResourceKey}
    (hkey : keys[place]? = some key) {item : Item} (hitem : item ∈ job.items) :
    item.2.key.toOption = key := by
  have hmem : item ∈ items.filter (named key) :=
    h.left place key job hkey hplace ▸ List.mem_append_right _ hitem
  exact of_decide_eq_true (List.mem_filter.1 hmem).2

/-- Reports of jobs at different places are for different resources. -/
theorem key_ne {other : Nat} {job' : Job} (hplace : batch.jobs[place]? = some job)
    (hother : batch.jobs[other]? = some job') (hne : other ≠ place) {item item' : Item}
    (hitem : item ∈ job.items) (hitem' : item' ∈ job'.items) :
    item'.2.key.toOption ≠ item.2.key.toOption := by
  obtain ⟨key, hkey⟩ := h.exists_key hplace
  obtain ⟨key', hkey'⟩ := h.exists_key hother
  rw [h.key_of_mem hplace hkey hitem, h.key_of_mem hother hkey' hitem']
  rintro rfl
  exact hne (h.place_eq hkey hkey')

variable {queue : List Nat} (hplace : batch.jobs[place]? = some job)
include hplace

/-- A report that is settled goes over from what is left to what was settled. -/
theorem left_settled {item : Item} {result : Except Fault MergeSummary}
    (hsettles : SettlesFirst start { batch with queue } place job next after item result)
    {other : Nat} {key : Option ResourceKey} {job' : Job} (hkey : keys[other]? = some key)
    (hjob' : next.jobs[other]? = some job') :
    (order ++ [item]).filter (named key) ++ job'.items = items.filter (named key) := by
  have hitem : item ∈ job.items := hsettles.items ▸ List.mem_cons_self ..
  obtain ⟨own, hown⟩ := h.exists_key hplace
  have hnamed := h.key_of_mem hplace hown hitem
  rw [hsettles.toAdvanced.get? hplace] at hjob'
  rw [List.filter_append]
  split at hjob'
  · rename_i heq
    cases hjob'
    rw [heq, hown] at hkey
    cases hkey
    have hsingle : [item].filter (named key) = [item] :=
      List.filter_cons_of_pos (decide_eq_true hnamed)
    rw [hsingle, List.append_assoc, List.singleton_append, ← hsettles.items]
    exact h.left place key job hown hplace
  · rename_i hne
    -- no two jobs have the same key
    have hother : named key item = false := by
      refine decide_eq_false fun heq => hne ?_
      rw [hnamed] at heq
      exact h.place_eq hown (heq ▸ hkey)
    rw [List.filter_cons_of_neg (by simp [hother]), List.filter_nil, List.append_nil]
    exact h.left other key job' hkey hjob'

/-- A report that is settled leaves what the other jobs are at as it is. -/
theorem held_settled {item : Item} {result : Except Fault MergeSummary}
    (hsettles : SettlesFirst start { batch with queue } place job next after item result) :
    ∀ job' ∈ next.jobs, job'.Held start next.service := by
  intro job' hjob'
  have hitem : item ∈ job.items := hsettles.items ▸ List.mem_cons_self ..
  obtain ⟨other, hother⟩ := List.mem_iff_getElem?.1 hjob'
  rw [hsettles.toAdvanced.get? hplace] at hother
  split at hother
  · cases hother
    unfold Job.Held
    rw [hsettles.idle]
    trivial
  · rename_i hne
    have hheld := h.held job' (List.mem_of_getElem? hother)
    exact hheld.of_sameFor fun item' hitem' =>
      hsettles.settles.sameFor (h.key_ne hplace hother hne hitem hitem')

variable (hnodup : queue.Nodup) (hfree : place ∉ queue)
  (hothers : ∀ other, other ≠ place → (other ∈ queue ↔
    ∃ job, batch.jobs[other]? = some job ∧ job.queues batch.service.store = true))
include hnodup hfree hothers

theorem goesOn (hgo : GoesOn start { batch with queue } place job next after) :
    Shares start items keys order next := by
  obtain ⟨hnodup', hqueued⟩ := hgo.toAdvanced.queued hplace
    (congrArg Store.inFile hgo.still.store) hnodup hfree hothers
  refine ⟨hgo.onward, hgo.results ▸ h.taken.still hgo.still, h.distinct, ?_, h.settled, ?_, ?_,
    hnodup', hqueued⟩
  · rw [hgo.jobs, List.length_set]
    exact h.length
  · intro other key job' hkey hjob'
    rw [hgo.toAdvanced.get? hplace] at hjob'
    split at hjob'
    · rename_i heq
      cases hjob'
      rw [hgo.items]
      exact h.left other key job hkey (heq ▸ hplace)
    · exact h.left other key job' hkey hjob'
  · intro job' hjob'
    have hheld : job'.Held start batch.service := by
      rw [hgo.jobs] at hjob'
      rcases List.mem_or_eq_of_mem_set hjob' with hmem | rfl
      · exact h.held job' hmem
      · exact hgo.held
    exact hheld.of_sameFor fun item _ => .of_agrees hgo.still.toAgrees item.2

theorem settlesFirst {item : Item} {result : Except Fault MergeSummary}
    (hsettles : SettlesFirst start { batch with queue } place job next after item result) :
    Shares start items keys (order ++ [item]) next := by
  obtain ⟨hnodup', hqueued⟩ := hsettles.toAdvanced.queued hplace hsettles.settles.inFile hnodup hfree
    hothers
  refine ⟨hsettles.onward, hsettles.results ▸ h.taken.settles hsettles.settles, h.distinct, ?_, ?_,
    fun other key job' => h.left_settled hplace hsettles, h.held_settled hplace hsettles, hnodup',
    hqueued⟩
  · rw [hsettles.jobs, List.length_set]
    exact h.length
  · intro other hother
    rcases List.mem_append.1 hother with hmem | hlast
    · exact h.settled other hmem
    · obtain ⟨key, hkey⟩ := h.exists_key hplace
      rw [List.mem_singleton.1 hlast,
        h.key_of_mem hplace hkey (hsettles.items ▸ List.mem_cons_self ..)]
      exact List.mem_of_getElem? hkey

/-- A job that goes on keeps what was settled and what is left in order, and leaves less to do. -/
theorem advance (hgo : job.MayGoOn batch.clock) :
    ∃ order', Shares start items keys order' ({ batch with queue }.advance place job) ∧
      ({ batch with queue }.advance place job).effort start.retry < batch.effort start.retry := by
  rcases @advance_cases start { batch with queue } place job h.onward
    (h.held job (List.mem_of_getElem? hplace)) hgo with ⟨after, hgoes⟩ | ⟨after, item, result, hsettles⟩
  · exact ⟨order, h.goesOn hplace hnodup hfree hothers hgoes, hgoes.toAdvanced.effort_lt hplace⟩
  · exact ⟨_, h.settlesFirst hplace hnodup hfree hothers hsettles,
      hsettles.toAdvanced.effort_lt hplace⟩

end Shares

/-! ## Steps -/

/-- A job that cannot go on has no more to do at another time, and less at the time at which it goes
on. -/
theorem effort_of_not_ready {policy : RetryPolicy} {store : Store} {clock : Nat}
    (hready : job.isReady store clock = false) (later : Nat) :
    job.effort policy later ≤ job.effort policy clock ∧
      (job.wake? = some later → job.effort policy later < job.effort policy clock) := by
  unfold Job.isReady at hready
  unfold Job.wake? Job.effort Phase.effort
  have hsome := ahead_le later
  cases hphase : job.phase with
  | idle | saving _ _ => exact ⟨Nat.le_refl _, nofun⟩
  | calling item resource failed cutOff wake | pausing item resource failed wake =>
    simp only [hphase, decide_eq_false_iff_not, Nat.not_le] at hready
    have hahead : ahead clock wake = 1 := if_pos hready
    have := hsome wake
    refine ⟨by dsimp only; omega, fun hwake => ?_⟩
    cases hwake
    have hnow : ahead later later = 0 := if_neg (Nat.lt_irrefl _)
    dsimp only
    omega

theorem not_isReady
    (hfind : batch.jobs.zipIdx.find? (fun e => e.1.isReady batch.service.store batch.clock) = none) :
    ∀ job ∈ batch.jobs, job.isReady batch.service.store batch.clock = false := by
  intro job hjob
  obtain ⟨place, hplace⟩ := List.mem_iff_getElem?.1 hjob
  exact Bool.eq_false_iff.2
    (List.find?_eq_none.1 hfind (job, place) (List.mem_zipIdx_iff_getElem?.2 hplace))

namespace Shares

/-- Every step keeps what was settled and what is left in order, and leaves less to do. -/
theorem step (h : Shares start items keys order batch) (hstep : batch.step = some next) :
    ∃ order', Shares start items keys order' next ∧
      next.effort start.retry < batch.effort start.retry := by
  unfold Batch.step at hstep
  dsimp only at hstep
  split at hstep
  · rename_i job place hfind
    cases hstep
    have hplace : batch.jobs[place]? = some job :=
      List.mem_zipIdx_iff_getElem?.1 (List.mem_of_find?_eq_some hfind)
    have hready := List.find?_some hfind
    have hfree : place ∉ batch.queue := by
      rw [h.queued place]
      rintro ⟨other, hother, hqueues⟩
      cases hplace.symm.trans hother
      rw [Job.not_queues_of_isReady hready] at hqueues
      cases hqueues
    exact h.advance hplace h.nodup hfree (fun other _ => h.queued other)
      (Job.mayGoOn_of_isReady hready)
  rename_i hfind
  split at hstep
  · rename_i place queue hqueue
    obtain ⟨job, hplace, rfl⟩ := Option.map_eq_some_iff.1 hstep
    have hnodup := h.nodup
    rw [hqueue, List.nodup_cons] at hnodup
    have hothers : ∀ other, other ≠ place → (other ∈ queue ↔
        ∃ job, batch.jobs[other]? = some job ∧ job.queues batch.service.store = true) := by
      intro other hne
      rw [← h.queued other, hqueue, List.mem_cons, or_iff_right hne]
    obtain ⟨_, hjob, hqueues⟩ := (h.queued place).1 (hqueue ▸ List.mem_cons_self ..)
    cases hplace.symm.trans hjob
    exact h.advance hplace hnodup.2 hnodup.1 hothers (Job.mayGoOn_of_queues hqueues)
  · obtain ⟨clock, hmin, rfl⟩ := Option.map_eq_some_iff.1 hstep
    refine ⟨order, ⟨h.onward, h.taken, h.distinct, h.length, h.settled, h.left, h.held, h.nodup,
      h.queued⟩, ?_⟩
    -- only the clock moves, to the time at which the first of the jobs goes on
    have hnone := not_isReady hfind
    obtain ⟨job, hjob, hwake⟩ := List.mem_filterMap.1 (List.min?_mem hmin)
    exact List.sum_lt_sum _ _ (fun job hjob => (effort_of_not_ready (hnone job hjob) clock).1)
      ⟨job, hjob, (effort_of_not_ready (hnone job hjob) clock).2 hwake⟩

/-- Nothing is left to do only once every job has settled its reports. -/
theorem done (h : Shares start items keys order batch) (hdone : batch.step = none) :
    ∀ job ∈ batch.jobs, job.items = [] := by
  unfold Batch.step at hdone
  dsimp only at hdone
  split at hdone
  · cases hdone
  rename_i hfind
  have hready := not_isReady hfind
  split at hdone
  · rename_i place queue hqueue
    obtain ⟨job, hjob, -⟩ := (h.queued place).1 (hqueue ▸ List.mem_cons_self ..)
    rw [hjob] at hdone
    cases hdone
  rename_i hempty
  have hwake : batch.jobs.filterMap Job.wake? = [] :=
    List.min?_eq_none_iff.1 (Option.map_eq_none_iff.1 hdone)
  intro job hjob
  have hasleep := List.filterMap_eq_nil_iff.1 hwake job hjob
  have hnot := hready job hjob
  unfold Job.wake? at hasleep
  unfold Job.isReady at hnot
  unfold Job.items
  cases hphase : job.phase with
  | idle =>
    rw [hphase] at hnot
    simpa using hnot
  | calling _ _ _ _ _ | pausing _ _ _ _ =>
    rw [hphase] at hasleep
    cases hasleep
  | saving item merged =>
    -- a merge is saved at once in memory, and waits in the queue otherwise
    obtain ⟨place, hplace⟩ := List.mem_iff_getElem?.1 hjob
    have hqueues : job.queues batch.service.store = true := by
      unfold Job.queues
      rw [hphase] at hnot ⊢
      dsimp only at hnot ⊢
      split at hnot
      · cases hnot
      · rename_i hstore
        rw [hstore]
        rfl
    have hmem := (h.queued place).2 ⟨job, hplace, hqueues⟩
    rw [hempty] at hmem
    cases hmem

/-- A batch goes on until nothing is left to do, if it may take as many steps as are left. -/
theorem run {fuel : Nat} : ∀ {batch : Batch} {order : List Item},
    Shares start items keys order batch → batch.effort start.retry ≤ fuel →
    ∃ order', Shares start items keys order' (batch.run fuel) ∧ (batch.run fuel).step = none := by
  induction fuel with
  | zero =>
    intro batch order h hfuel
    refine ⟨order, h, ?_⟩
    cases hstep : batch.step with
    | none => exact hstep
    | some next =>
      obtain ⟨_, -, hless⟩ := h.step hstep
      omega
  | succ fuel ih =>
    intro batch order h hfuel
    unfold Batch.run
    cases hstep : batch.step with
    | none => exact ⟨order, h, hstep⟩
    | some next =>
      obtain ⟨order', hnext, hless⟩ := h.step hstep
      exact ih hnext (by omega)

end Shares

end Batch

end BlockStack
