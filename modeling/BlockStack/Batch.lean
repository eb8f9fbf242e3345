import BlockStack.Service

/-!
# BlockStack.Batch

Taking in several reports at a time. Reports for one resource form a job and are taken in one after
the other; jobs take turns whenever one has to wait, on a clock that only moves when all wait.

* `Job`: the reports of one resource, with what the job is at.
* `Batch.step`: the first job that can go on does so; else the first job that waits to save does;
  else the clock moves to the next time at which a job can go on.
* `Service.handleAll`: a whole batch, with the results in the order of the reports.
-/

namespace BlockStack

abbrev Item := Nat × Report

/-- What a job is at: nothing, a call that ends at a time, a pause before the next call, or a merge
that has to be saved. -/
inductive Phase where
  | idle
  | calling (item : Item) (resource : Resource) (failed : Nat) (cutOff : Bool) (wake : Nat)
  | pausing (item : Item) (resource : Resource) (failed : Nat) (wake : Nat)
  | saving (item : Item) (merged : Merged)
  deriving Repr, Inhabited

/-- The reports of one resource that are still to be taken in. -/
structure Job where
  waiting : List Item
  phase : Phase := .idle
  deriving Repr, Inhabited

/-- Jobs under way. `queue` holds those that wait to save, by their places, and `results` what was
settled so far. -/
structure Batch where
  service : Service
  pauses : Pauses
  clock : Nat := 0
  jobs : List Job
  queue : List Nat := []
  results : List (Nat × Except Fault MergeSummary) := []

namespace Job

/-- Whether a job can go on at a time; saving in memory takes no turn. -/
def isReady (store : Store) (clock : Nat) (job : Job) : Bool :=
  match job.phase with
  | .idle => !job.waiting.isEmpty
  | .calling _ _ _ _ wake => wake ≤ clock
  | .pausing _ _ _ wake => wake ≤ clock
  | .saving _ _ =>
    match store with
    | .memory _ => true
    | .file _ _ => false

/-- When a job that waits goes on. -/
def wake? (job : Job) : Option Nat :=
  match job.phase with
  | .calling _ _ _ _ wake => some wake
  | .pausing _ _ _ wake => some wake
  | .idle | .saving _ _ => none

end Job

namespace Batch

def setJob (batch : Batch) (place : Nat) (job : Job) : Batch :=
  { batch with jobs := batch.jobs.set place job }

/-- Settle a report; its job is free for the next one. -/
def settle (batch : Batch) (place : Nat) (job : Job) (item : Item)
    (result : Except Fault MergeSummary) : Batch :=
  { batch.setJob place { job with phase := .idle } with
    results := batch.results ++ [(item.1, result)] }

def refuse (batch : Batch) (place : Nat) (job : Job) (item : Item) (fault : Fault) : Batch :=
  { batch with service := batch.service.refuse item.2 fault }.settle place job item (.error fault)

def startCall (batch : Batch) (place : Nat) (job : Job) (item : Item) (resource : Resource)
    (failed : Nat) : Batch :=
  let limit := batch.service.retry.callTimeoutMs
  let (stall, backend) := batch.service.backend.takeStall
  let cutOff := Backend.isCutOff (some limit) stall
  let wake := batch.clock + (if cutOff then limit else stall.getD 0).toNat
  { batch with service := { batch.service with backend } }.setJob place
    { job with phase := .calling item resource failed cutOff wake }

/-- End a call; one that was cut off has reached no backend. -/
def endCall (batch : Batch) (resource : Resource) (cutOff : Bool) :
    Except Fault FactsMap × Batch :=
  let service := batch.service
  let call := Service.factsCall resource
  if cutOff then
    (.error (.backendTimeout service.backend.name call.operation service.retry.callTimeoutMs), batch)
  else
    let (facts, backend) := service.backend.arrive call
    (facts, { batch with service := { service with backend } })

def save (batch : Batch) (place : Nat) (job : Job) (item : Item) (merged : Merged) : Batch :=
  let (result, service) := batch.service.commit item.2 merged
  { batch with service }.settle place job item result

/-- Work out a merge; it then has to be saved. -/
def prepare (batch : Batch) (place : Nat) (job : Job) (item : Item) (resource : Resource)
    (facts : FactsMap) : Batch :=
  match batch.service.prepare resource item.2 facts with
  | (.error fault, service) => { batch with service }.refuse place job item fault
  | (.ok merged, service) =>
    let next := { batch with service }.setJob place { job with phase := .saving item merged }
    match service.store with
    | .memory _ => next
    | .file _ _ => { next with queue := next.queue ++ [place] }

def advance (batch : Batch) (place : Nat) (job : Job) : Batch :=
  match job.phase with
  | .idle =>
    match job.waiting with
    | [] => batch
    | item :: waiting =>
      match batch.service.resourceFor item.2 with
      | .error fault => batch.refuse place { job with waiting } item fault
      | .ok resource => batch.startCall place { job with waiting } item resource 0
  | .calling item resource failed cutOff _ =>
    match batch.endCall resource cutOff with
    | (.ok facts, batch) => batch.prepare place job item resource facts
    | (.error fault, batch) =>
      let policy := batch.service.retry
      if fault.isTransient && failed + 1 < policy.attempts then
        let wake := batch.clock + batch.pauses item.1 failed
        batch.setJob place { job with phase := .pausing item resource (failed + 1) wake }
      else batch.refuse place job item fault
  | .pausing item resource failed _ => batch.startCall place job item resource failed
  | .saving item merged => batch.save place job item merged

/-- The next state, if there is anything left to do. -/
def step (batch : Batch) : Option Batch :=
  let placed := batch.jobs.zipIdx
  match placed.find? (fun e => e.1.isReady batch.service.store batch.clock) with
  | some (job, place) => some (batch.advance place job)
  | none =>
    match batch.queue with
    | place :: queue =>
      (batch.jobs[place]?).map (fun job => { batch with queue }.advance place job)
    | [] =>
      ((batch.jobs.filterMap Job.wake?).min?).map (fun clock => { batch with clock })

/-- Go on until nothing is left to do, in at most `fuel` steps. -/
def run : (fuel : Nat) → Batch → Batch
  | 0, batch => batch
  | fuel + 1, batch =>
    match batch.step with
    | some next => run fuel next
    | none => batch

end Batch

/-- Put a report to the others of its resource; all that name none belong together. -/
def addToGroup (item : Item) :
    List (Option ResourceKey × List Item) → List (Option ResourceKey × List Item)
  | [] => [(item.2.key.toOption, [item])]
  | (key, items) :: rest =>
    if key = item.2.key.toOption then (key, items ++ [item]) :: rest
    else (key, items) :: addToGroup item rest

/-- The jobs of some reports, in the order in which their resources come up. -/
def jobsOf (reports : List Report) : List Job :=
  let items := reports.zipIdx.map (fun e => (e.2, e.1))
  let groups := items.foldl (fun groups item => addToGroup item groups) []
  groups.map (fun group => { waiting := group.2 })

/-- Enough steps for a number of reports. -/
def Batch.fuel (policy : RetryPolicy) (reports : Nat) : Nat :=
  reports * (4 * policy.attempts + 4) + 1

/-- Take several reports in, with some pauses between attempts; the results are in the order of the
reports. -/
def Service.handleAll (service : Service) (reports : List Report)
    (pauses : Pauses := service.retry.pauses) : List (Except Fault MergeSummary) × Service :=
  let start : Batch := { service, pauses, jobs := jobsOf reports }
  let last := start.run (Batch.fuel service.retry reports.length)
  ((List.range reports.length).filterMap (fun i => last.results.lookup i), last.service)

end BlockStack
