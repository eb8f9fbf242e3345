import BlockStack.Batch
import BlockStack.Proofs.Retrying
import BlockStack.Proofs.Steps

/-!
# BlockStack.Proofs.Batches

What one step of a batch does.

* `Backend.Steady`: a backend whose answers depend on nothing but what it is asked.
* `Service.Settles`: a report is settled as if it had come alone, with an answer of the backend.
* `Job.items`: the reports that a job still has to settle. `Job.Held`: what it is at was begun for
  the resource that is held now.
* `Job.effort`: a bound on the steps that a job still takes.
* `Batch.advance_cases`: a job that goes on settles its first report, or comes closer to that.
-/

namespace BlockStack

/-! ## Steady backends -/

namespace Backend

/-- A backend that fails no call, and lets none wait for so long that it is cut off. -/
structure Steady (policy : RetryPolicy) (backend : Backend) : Prop where
  pending : backend.failuresPending = 0
  stalls : backend.stalls = 0 ∨ backend.stallMs ≤ policy.callTimeoutMs

variable {policy : RetryPolicy} {backend : Backend}

theorem Steady.takeStall (h : backend.Steady policy) :
    isCutOff (some policy.callTimeoutMs) backend.takeStall.1 = false ∧
      backend.takeStall.2.Steady policy ∧ backend.takeStall.2.objects = backend.objects := by
  unfold Backend.takeStall
  split
  · rename_i hstalls
    have hwait : backend.stallMs ≤ policy.callTimeoutMs := by
      rcases h.stalls with hnone | hwait
      · rw [hnone] at hstalls
        cases hstalls
      · exact hwait
    exact ⟨decide_eq_false (UInt64.not_lt.2 hwait), ⟨h.pending, .inr hwait⟩, rfl⟩
  · exact ⟨rfl, h, rfl⟩

theorem Steady.arrive (h : backend.Steady policy) (identifiers : List String) :
    (backend.arrive (getFacts identifiers)).1 = .ok (known backend.objects identifiers) ∧
      (backend.arrive (getFacts identifiers)).2.Steady policy ∧
      (backend.arrive (getFacts identifiers)).2.objects = backend.objects := by
  have hnone : ¬ 0 < backend.failuresPending := by
    rw [h.pending]
    decide
  have harrive : backend.arrive (getFacts identifiers) =
      (.ok (known backend.objects identifiers), { backend with calls := backend.calls + 1 }) := by
    simp only [Backend.arrive, if_neg hnone, getFacts, known]
  rw [harrive]
  exact ⟨rfl, ⟨h.pending, h.stalls⟩, rfl⟩

/-- A steady backend answers the first time it is asked. -/
theorem Steady.ask (h : backend.Steady policy) (identifiers : List String) :
    (backend.ask (some policy) (getFacts identifiers)).1 = .ok (known backend.objects identifiers) ∧
      (backend.ask (some policy) (getFacts identifiers)).2.Steady policy ∧
      (backend.ask (some policy) (getFacts identifiers)).2.objects = backend.objects := by
  obtain ⟨hcut, hwaited, hobjects⟩ := h.takeStall
  obtain ⟨hfacts, hsteady, hkept⟩ := hwaited.arrive identifiers
  rw [hobjects] at hfacts hkept
  have hattempt : attempt (some policy.callTimeoutMs) (getFacts identifiers) backend =
      backend.takeStall.2.arrive (getFacts identifiers) := by
    simp only [attempt, hcut, Bool.false_eq_true, if_false]
  have hdecisive : IsDecisive (attempt (some policy.callTimeoutMs) (getFacts identifiers) backend).1 := by
    rw [hattempt, hfacts]
    trivial
  have hask : backend.ask (some policy) (getFacts identifiers) =
      backend.takeStall.2.arrive (getFacts identifiers) :=
    (tryAgain_of_decisive hdecisive).trans hattempt
  rw [hask]
  exact ⟨hfacts, hsteady, hkept⟩

end Backend

/-! ## Reports settled one at a time -/

namespace Service

/-- Whether the backend answers as its objects are, as often as it is asked. -/
def Sure (service : Service) : Prop := service.backend.Steady service.retry

/-- A later state of a service: its policy is the same, and a backend that was steady still is. -/
structure Onward (start service : Service) : Prop where
  retry : service.retry = start.retry
  steady : start.Sure → service.backend.Steady start.retry
  objects : start.Sure → service.backend.objects = start.backend.objects

theorem Onward.refl (service : Service) : service.Onward service := ⟨rfl, id, fun _ => rfl⟩

theorem Onward.of_backend {start service next : Service} (h : start.Onward service)
    (hretry : next.retry = service.retry) (hbackend : next.backend = service.backend) :
    start.Onward next := by
  refine ⟨hretry.trans h.retry, ?_, ?_⟩
  · rw [hbackend]
    exact h.steady
  · rw [hbackend]
    exact h.objects

theorem Onward.sure {start service : Service} (h : start.Onward service) (hsure : start.Sure) :
    service.Sure := by
  unfold Sure
  rw [h.retry]
  exact h.steady hsure

/-- An answer that the backend may give when it is asked about a resource: a steady one tells what
it knows. -/
def Answers (start : Service) (resource : Resource) (facts : Except Fault FactsMap) : Prop :=
  start.Sure → facts = .ok (Backend.known start.backend.objects resource.identifiers)

/-- A report is settled as if it had come alone, with an answer that the backend may give. -/
def Settles (start service : Service) (report : Report) (result : Except Fault MergeSummary)
    (next : Service) : Prop :=
  ∃ facts, (∀ resource, service.resourceFor report = .ok resource → start.Answers resource facts) ∧
    result = (service.handleBy (fun _ => (facts, service.backend)) report).1 ∧
    next.Still (service.handleBy (fun _ => (facts, service.backend)) report).2

variable {start service ready next : Service} {report : Report}

theorem settles_unknown {fault : Fault} (hfor : service.resourceFor report = .error fault) :
    start.Settles service report (.error fault) (service.refuse report fault) := by
  refine ⟨.error fault, fun resource hresource => ?_, ?_, ?_⟩
  · rw [hfor] at hresource
    cases hresource
  · simp only [handleBy, hfor]
  · simp only [handleBy, hfor]
    exact .refl _

/-- A report is settled by what follows from an answer. -/
theorem settles_conclude {resource : Resource} (hfor : service.resourceFor report = .ok resource)
    {facts : Except Fault FactsMap} (hfacts : start.Answers resource facts)
    {result : Except Fault MergeSummary}
    (hresult : result = (service.conclude resource report facts).1)
    (hnext : next.Still (service.conclude resource report facts).2) :
    start.Settles service report result next := by
  refine ⟨facts, fun other hother => ?_, ?_, ?_⟩
  · cases hfor.symm.trans hother
    exact hfacts
  · rw [hresult]
    simp only [handleBy, hfor]
  · simp only [handleBy, hfor]
    exact hnext

theorem settles_fault {resource : Resource} (hfor : service.resourceFor report = .ok resource)
    {fault : Fault} (hfacts : start.Answers resource (.error fault)) (hready : ready.Still service) :
    start.Settles service report (.error fault) (ready.refuse report fault) :=
  settles_conclude hfor hfacts rfl (hready.refuse ..)

theorem settles_unmerged {resource : Resource} (hfor : service.resourceFor report = .ok resource)
    {facts : FactsMap} (hfacts : start.Answers resource (.ok facts)) {fault : Fault}
    (hprepare : (service.prepare resource report facts).1 = .error fault)
    (hready : ready.Still service) :
    start.Settles service report (.error fault) (ready.refuse report fault) := by
  have hnoted := (service.prepare_noted resource report facts).toStill
  refine settles_conclude hfor hfacts ?_ ?_
  · rw [conclude_unmerged hprepare]
  · rw [conclude_unmerged hprepare]
    exact (hready.trans hnoted.symm).refuse ..

theorem settles_merged {resource : Resource} (hfor : service.resourceFor report = .ok resource)
    {facts : FactsMap} (hfacts : start.Answers resource (.ok facts)) {merged : Merged}
    (hprepare : (service.prepare resource report facts).1 = .ok merged) :
    start.Settles service report (service.commit report merged).1
      (service.commit report merged).2 := by
  have hcommit :=
    ((service.prepare_noted resource report facts).toStill.symm).commit report merged
  refine settles_conclude hfor hfacts ?_ ?_
  · rw [conclude_merged hprepare]
    exact hcommit.1
  · rw [conclude_merged hprepare]
    exact hcommit.2

end Service

/-! ## Jobs -/

/-- Whether the document is kept in a file. -/
def Store.inFile : Store → Bool
  | .memory _ => false
  | .file _ _ => true

namespace Job

/-- The reports that a job still has to settle. -/
def items (job : Job) : List Item :=
  match job.phase with
  | .idle => job.waiting
  | .calling item _ _ _ _ | .pausing item _ _ _ | .saving item _ => item :: job.waiting

/-- What a job is at was begun for the resource that is held now: the backend was asked about it,
and a merge that has to be saved would be worked out again. -/
def Held (start service : Service) (job : Job) : Prop :=
  match job.phase with
  | .idle => True
  | .calling item resource failed cutOff _ => service.resourceFor item.2 = .ok resource ∧
      failed < start.retry.attempts ∧ (start.Sure → cutOff = false)
  | .pausing item resource failed _ => service.resourceFor item.2 = .ok resource ∧
      failed < start.retry.attempts
  | .saving item merged => ∃ resource facts, service.resourceFor item.2 = .ok resource ∧
      start.Answers resource (.ok facts) ∧
      (service.prepare resource item.2 facts).1 = .ok merged

/-- Whether a job may go on at a time; a merge can be saved at any time. -/
def MayGoOn (clock : Nat) (job : Job) : Prop :=
  match job.phase with
  | .idle => job.waiting ≠ []
  | .calling _ _ _ _ wake | .pausing _ _ _ wake => wake ≤ clock
  | .saving _ _ => True

theorem mayGoOn_of_isReady {store : Store} {clock : Nat} {job : Job}
    (h : job.isReady store clock = true) : job.MayGoOn clock := by
  unfold isReady at h
  unfold MayGoOn
  split <;> simp_all

/-- Whether a job waits to save in a file. -/
def queues (store : Store) (job : Job) : Bool :=
  match job.phase with
  | .saving _ _ => store.inFile
  | _ => false

theorem mayGoOn_of_queues {store : Store} {clock : Nat} {job : Job}
    (h : job.queues store = true) : job.MayGoOn clock := by
  unfold queues at h
  unfold MayGoOn
  cases hphase : job.phase with
  | saving item merged => trivial
  | idle | calling _ _ _ _ _ | pausing _ _ _ _ =>
    rw [hphase] at h
    cases h

theorem not_queues_of_isReady {store : Store} {clock : Nat} {job : Job}
    (h : job.isReady store clock = true) : job.queues store = false := by
  unfold queues
  cases hphase : job.phase with
  | saving item merged =>
    simp only [isReady, hphase] at h
    cases store with
    | memory doc => rfl
    | file path files => cases h
  | idle | calling _ _ _ _ _ | pausing _ _ _ _ => rfl

end Job

/-- One if a time lies ahead, else zero. -/
def ahead (clock wake : Nat) : Nat := if clock < wake then 1 else 0

theorem ahead_le (clock wake : Nat) : ahead clock wake ≤ 1 := by
  unfold ahead
  split <;> omega

/-- A bound on the steps up to the end of what a job is at: four for each attempt that is left. -/
def Phase.effort (policy : RetryPolicy) (clock : Nat) : Phase → Nat
  | .idle => 0
  | .calling _ _ failed _ wake => 4 * (policy.attempts - failed) - 2 + ahead clock wake
  | .pausing _ _ failed wake => 4 * (policy.attempts - failed) + ahead clock wake
  | .saving _ _ => 1

/-- A bound on the steps that a job still takes. -/
def Job.effort (policy : RetryPolicy) (clock : Nat) (job : Job) : Nat :=
  4 * policy.attempts * job.waiting.length + job.phase.effort policy clock

/-! ## One step -/

namespace Batch

/-- What one step of the job at a place does to a batch: the job becomes another one that has less
to do, and is put into the queue if it waits to save in a file. -/
structure Advanced (start : Service) (batch : Batch) (place : Nat) (job : Job) (next : Batch)
    (after : Job) : Prop where
  clock : next.clock = batch.clock
  jobs : next.jobs = batch.jobs.set place after
  queue : next.queue = batch.queue ++ if after.queues batch.service.store then [place] else []
  onward : start.Onward next.service
  effort : after.effort start.retry batch.clock < job.effort start.retry batch.clock

/-- A step that settles nothing. -/
structure GoesOn (start : Service) (batch : Batch) (place : Nat) (job : Job) (next : Batch)
    (after : Job) : Prop extends Advanced start batch place job next after where
  items : after.items = job.items
  held : after.Held start batch.service
  still : next.service.Still batch.service
  results : next.results = batch.results

/-- A step that settles the first report of the job. -/
structure SettlesFirst (start : Service) (batch : Batch) (place : Nat) (job : Job) (next : Batch)
    (after : Job) (item : Item) (result : Except Fault MergeSummary) : Prop
    extends Advanced start batch place job next after where
  items : job.items = item :: after.items
  idle : after.phase = .idle
  settles : start.Settles batch.service item.2 result next.service
  results : next.results = batch.results ++ [(item.1, result)]

variable {start : Service} {batch : Batch} {place : Nat} {job : Job}

/-- A call that is made brings a report on. -/
theorem startCall_goesOn (honward : start.Onward batch.service) {item : Item} {resource : Resource}
    {failed : Nat} (hfor : batch.service.resourceFor item.2 = .ok resource)
    (hfailed : failed < start.retry.attempts) {before : Job}
    (hitems : before.items = item :: job.waiting)
    (heffort : 4 * start.retry.attempts * job.waiting.length +
      (4 * (start.retry.attempts - failed) - 1) < before.effort start.retry batch.clock) :
    ∃ after, GoesOn start batch place before (batch.startCall place job item resource failed)
      after := by
  unfold startCall
  dsimp only
  have hretry := honward.retry
  -- what the call waits for is known only of a steady backend
  have htake := fun h : start.Sure => (honward.steady h).takeStall
  generalize batch.service.backend.takeStall = taken at htake
  obtain ⟨stall, backend⟩ := taken
  refine ⟨_, ⟨rfl, rfl, (List.append_nil _).symm, ⟨hretry, fun h => (htake h).2.1, fun h => ?_⟩, ?_⟩,
    hitems.symm, ⟨hfor, hfailed, fun h => ?_⟩, Service.withBackend_still .., rfl⟩
  · exact (htake h).2.2.trans (honward.objects h)
  · refine Nat.lt_of_le_of_lt ?_ heffort
    simp only [Job.effort, Phase.effort]
    have := ahead_le batch.clock (batch.clock +
      (if Backend.isCutOff (some batch.service.retry.callTimeoutMs) stall = true
        then batch.service.retry.callTimeoutMs else stall.getD 0).toNat)
    omega
  · rw [hretry]
    exact (htake h).1

theorem endCall_spec (honward : start.Onward batch.service) (resource : Resource) {cutOff : Bool}
    (hcut : start.Sure → cutOff = false) :
    ∃ service, (batch.endCall resource cutOff).2 = { batch with service } ∧
      service.Still batch.service ∧ start.Onward service ∧
      start.Answers resource (batch.endCall resource cutOff).1 := by
  unfold endCall
  cases cutOff with
  | true => exact ⟨batch.service, rfl, .refl _, honward, fun h => absurd (hcut h) (by decide)⟩
  | false =>
    have harrive := fun h : start.Sure => (honward.steady h).arrive resource.identifiers
    refine ⟨_, rfl, Service.withBackend_still .., ⟨honward.retry, fun h => (harrive h).2.1, fun h => ?_⟩,
      fun h => ?_⟩
    · exact (harrive h).2.2.trans (honward.objects h)
    · rw [← honward.objects h]
      exact (harrive h).1

theorem settle_settlesFirst {next : Service} {item : Item} {result : Except Fault MergeSummary}
    (hsettles : start.Settles batch.service item.2 result next) (honward : start.Onward next)
    {before : Job} (hitems : before.items = item :: job.waiting)
    (heffort : 4 * start.retry.attempts * job.waiting.length < before.effort start.retry batch.clock) :
    SettlesFirst start batch place before ({ batch with service := next }.settle place job item result)
      { job with phase := .idle } item result where
  clock := rfl
  jobs := rfl
  queue := (List.append_nil _).symm
  onward := honward
  effort := heffort
  items := hitems
  idle := rfl
  settles := hsettles
  results := rfl

/-- A merge that is worked out settles the report with a fault, or it has to be saved. -/
theorem prepare_advances {ready : Service} (hready : ready.Still batch.service)
    (honward : start.Onward ready) {item : Item} {resource : Resource}
    (hfor : batch.service.resourceFor item.2 = .ok resource) {facts : FactsMap}
    (hfacts : start.Answers resource (.ok facts)) {before : Job}
    (hitems : before.items = item :: job.waiting)
    (heffort : 4 * start.retry.attempts * job.waiting.length + 1 <
      before.effort start.retry batch.clock) :
    let next := { batch with service := ready }.prepare place job item resource facts
    (∃ after, GoesOn start batch place before next after) ∨
      ∃ after item result, SettlesFirst start batch place before next after item result := by
  intro next
  have hnoted := ready.prepare_noted resource item.2 facts
  have hsame := hready.prepare resource item.2 facts
  simp only [next, prepare]
  generalize ready.prepare resource item.2 facts = prepared at hnoted hsame
  obtain ⟨result, noted⟩ := prepared
  have hstill : noted.Still batch.service := hnoted.toStill.trans hready
  have honward' : start.Onward noted := honward.of_backend hnoted.retry hnoted.backend
  cases result with
  | error fault =>
    obtain ⟨-, -, -, hbackend⟩ := noted.refuse_spec item.2 fault
    refine .inr ⟨_, item, .error fault, settle_settlesFirst
      (Service.settles_unmerged hfor hfacts hsame.symm hstill) ?_ hitems (by omega)⟩
    exact honward'.of_backend (noted.refuse_spec item.2 fault).1.retry hbackend
  | ok merged =>
    refine .inl ⟨{ job with phase := .saving item merged }, ?_⟩
    have hheld : Job.Held start batch.service { job with phase := .saving item merged } :=
      ⟨resource, facts, hfor, hfacts, hsame.symm⟩
    have hstore := hstill.store
    dsimp only
    split
    · rename_i doc hmemory
      refine ⟨⟨rfl, rfl, ?_, honward', heffort⟩, hitems.symm, hheld, hstill, rfl⟩
      rw [← hstore, hmemory]
      exact (List.append_nil _).symm
    · rename_i path files hfile
      refine ⟨⟨rfl, rfl, ?_, honward', heffort⟩, hitems.symm, hheld, hstill, rfl⟩
      rw [← hstore, hfile]
      rfl

/-- A job that goes on settles its first report, or comes closer to that. -/
theorem advance_cases (honward : start.Onward batch.service) (hheld : job.Held start batch.service)
    (hgo : job.MayGoOn batch.clock) :
    (∃ after, GoesOn start batch place job (batch.advance place job) after) ∨
      ∃ after item result,
        SettlesFirst start batch place job (batch.advance place job) after item result := by
  obtain ⟨waiting, phase⟩ := job
  -- an attempt takes four steps at most: its call begins and ends, and the clock moves for the call
  -- and for a pause
  have hpos := start.retry.attempts_pos
  cases phase with
  | idle =>
    cases waiting with
    | nil => exact absurd rfl hgo
    | cons item rest =>
      simp only [advance]
      cases hfor : batch.service.resourceFor item.2 with
      | error fault =>
        obtain ⟨hkept, -, -, hbackend⟩ := batch.service.refuse_spec item.2 fault
        refine .inr ⟨_, item, _, settle_settlesFirst (Service.settles_unknown hfor)
          (honward.of_backend hkept.retry hbackend) rfl ?_⟩
        simp only [Job.effort, Phase.effort, List.length_cons, Nat.mul_add]
        omega
      | ok resource =>
        refine .inl (startCall_goesOn honward hfor hpos rfl ?_)
        simp only [Job.effort, Phase.effort, List.length_cons, Nat.mul_add]
        omega
  | calling item resource failed cutOff wake =>
    obtain ⟨hfor, hfailed, hcut⟩ := hheld
    obtain ⟨ready, hend, hstill, honward', hanswers⟩ := endCall_spec honward resource hcut
    simp only [advance]
    generalize batch.endCall resource cutOff = ended at hend hanswers
    obtain ⟨facts, _⟩ := ended
    cases hend
    cases facts with
    | ok facts =>
      refine prepare_advances hstill honward' hfor hanswers rfl ?_
      simp only [Job.effort, Phase.effort]
      omega
    | error fault =>
      dsimp only
      split
      · rename_i hagain
        have hless : failed + 1 < start.retry.attempts := by
          rw [← honward'.retry]
          exact of_decide_eq_true (Bool.and_eq_true_iff.1 hagain).2
        refine .inl ⟨_, ⟨rfl, rfl, (List.append_nil _).symm, honward', ?_⟩, rfl, ⟨hfor, hless⟩,
          hstill, rfl⟩
        simp only [Job.effort, Phase.effort]
        have := ahead_le batch.clock (batch.clock + batch.pauses item.1 failed)
        omega
      · obtain ⟨hkept, -, -, hbackend⟩ := ready.refuse_spec item.2 fault
        refine .inr ⟨_, item, _, settle_settlesFirst (Service.settles_fault hfor hanswers hstill)
          (honward'.of_backend hkept.retry hbackend) rfl ?_⟩
        simp only [Job.effort, Phase.effort]
        omega
  | pausing item resource failed wake =>
    obtain ⟨hfor, hfailed⟩ := hheld
    refine .inl (startCall_goesOn honward hfor hfailed rfl ?_)
    simp only [Job.effort, Phase.effort]
    omega
  | saving item merged =>
    -- the merge is saved as it would be worked out now
    obtain ⟨resource, facts, hfor, hfacts, hprepare⟩ := hheld
    refine .inr ⟨_, item, _, settle_settlesFirst (Service.settles_merged hfor hfacts hprepare)
      ?_ rfl ?_⟩
    · refine honward.of_backend ?_ (batch.service.commit_backend item.2 merged)
      rcases batch.service.commit_cases item.2 merged with ⟨_, -, hrefused⟩ | ⟨-, hcommitted⟩
      · exact hrefused.kept.retry
      · exact hcommitted.retry
    · simp only [Job.effort, Phase.effort]
      omega

end Batch
end BlockStack
