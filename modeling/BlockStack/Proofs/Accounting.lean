import BlockStack.Proofs.OrderIndependence

/-!
# BlockStack.Proofs.Accounting

Counters and events account for every report once.

* `Outcome`: a report with what became of it. `Outcome.events` tell of it.
* `Metrics.Counts`: the counters after some outcomes, in whatever order these came.
* `Service.Records`: some outcomes were counted and told, one after the other.
* `Service.handleAll_records`: a batch records each of its reports once.
* `Service.load_cases`: a load fails and leaves all as it is, or it puts in a graph and tells of it.
* `Service.History`: what the operations of a run tell, one after the other.
* `Service.reports_accounted`: a whole run, of reports, batches, loads and refreshes.
-/

namespace BlockStack

/-- A report with what became of it. -/
structure Outcome where
  report : Report
  result : Except Fault MergeSummary

namespace Outcome

/-- What a report that was taken in did. -/
def summary? (outcome : Outcome) : Option MergeSummary :=
  match outcome.result with
  | .ok summary => some summary
  | .error _ => none

/-- The class of the fault of a report that was not taken in. -/
def refusal? (outcome : Outcome) : Option FaultClass :=
  match outcome.result with
  | .ok _ => none
  | .error fault => some fault.faultClass

/-- What tells of a report: that it was merged, and then each drift in its order; or that it failed,
and why. -/
def events (outcome : Outcome) : List Event :=
  let name := Service.label outcome.report
  match outcome.result with
  | .ok summary =>
    .mergeApplied name summary.merged.toUInt64 summary.tolerated.toUInt64
        summary.changed.toUInt64 ::
      summary.drift.map (fun d => .sizeDrift name d.identifier d.state d.expectedKib d.actualKib)
  | .error fault => [.mergeFailed name fault.faultClass fault.message]

/-- The sum of something over all reports that were taken in. -/
def total (f : MergeSummary → Nat) (outcomes : List Outcome) : Nat :=
  ((outcomes.filterMap summary?).map f).sum

variable (report : Report) (summary : MergeSummary) (fault : Fault) (f : MergeSummary → Nat)

@[simp] theorem summary?_ok : summary? ⟨report, .ok summary⟩ = some summary := rfl

@[simp] theorem summary?_error : summary? ⟨report, .error fault⟩ = none := rfl

@[simp] theorem refusal?_ok : refusal? ⟨report, .ok summary⟩ = none := rfl

@[simp] theorem refusal?_error : refusal? ⟨report, .error fault⟩ = some fault.faultClass := rfl

@[simp] theorem total_ok : total f [⟨report, .ok summary⟩] = f summary := rfl

@[simp] theorem total_error : total f [⟨report, .error fault⟩] = 0 := rfl

@[simp] theorem total_append (a b : List Outcome) : total f (a ++ b) = total f a + total f b := by
  simp [total]

theorem total_perm {a b : List Outcome} (h : a.Perm b) : total f a = total f b :=
  ((h.filterMap _).map f).sum_eq

end Outcome

/-! ## Counters -/

namespace Metrics

/-- The counters after some outcomes, which wrap around at 64 bits. -/
structure Counts (metrics : Metrics) (outcomes : List Outcome) : Prop where
  applied : metrics.applied = (outcomes.countP (·.summary?.isSome)).toUInt64
  rejected : metrics.rejected = (outcomes.countP (·.refusal?.any (· = .clusterState))).toUInt64
  failed : metrics.failed = (outcomes.countP (·.refusal?.any (· ≠ .clusterState))).toUInt64
  tolerated : metrics.toleratedAbsences = (Outcome.total (·.tolerated) outcomes).toUInt64
  changed : metrics.changedFields = (Outcome.total (·.changed) outcomes).toUInt64
  drift : metrics.driftWarnings = (Outcome.total (·.drift.length) outcomes).toUInt64

/-- Count what became of one report. -/
def record (metrics : Metrics) (outcome : Outcome) : Metrics :=
  match outcome.result with
  | .ok summary => metrics.recordMerge summary
  | .error fault => metrics.recordFailure fault.faultClass

theorem counts_fresh : Counts {} [] := ⟨rfl, rfl, rfl, rfl, rfl, rfl⟩

variable {metrics : Metrics} {outcomes settled : List Outcome}

theorem Counts.record (h : metrics.Counts outcomes) (outcome : Outcome) :
    (metrics.record outcome).Counts (outcomes ++ [outcome]) := by
  obtain ⟨happlied, hrejected, hfailed, htolerated, hchanged, hdrift⟩ := h
  obtain ⟨report, result⟩ := outcome
  cases result with
  | ok summary => constructor <;> simp [Metrics.record, recordMerge, *]
  | error fault =>
    -- only the class of the fault decides which counter is raised
    simp only [Metrics.record, recordFailure]
    cases hclass : fault.faultClass <;> constructor <;> simp [*]

theorem Counts.recordAll (settled : List Outcome) : ∀ {metrics : Metrics} {outcomes : List Outcome},
    metrics.Counts outcomes →
      (settled.foldl Metrics.record metrics).Counts (outcomes ++ settled) := by
  induction settled with
  | nil => exact fun h => by rwa [List.append_nil]
  | cons outcome rest ih =>
    intro metrics outcomes h
    rw [List.append_cons]
    exact ih (h.record outcome)

theorem Counts.recordLoad (h : metrics.Counts outcomes) (resources layers : UInt64) :
    (metrics.recordLoad resources layers).Counts outcomes :=
  ⟨h.applied, h.rejected, h.failed, h.tolerated, h.changed, h.drift⟩

/-- In which order reports were settled does not matter for the counters. -/
theorem Counts.perm (h : metrics.Counts settled) (hperm : settled.Perm outcomes) :
    metrics.Counts outcomes where
  applied := by rw [h.applied, hperm.countP_eq]
  rejected := by rw [h.rejected, hperm.countP_eq]
  failed := by rw [h.failed, hperm.countP_eq]
  tolerated := by rw [h.tolerated, Outcome.total_perm _ hperm]
  changed := by rw [h.changed, Outcome.total_perm _ hperm]
  drift := by rw [h.drift, Outcome.total_perm _ hperm]

end Metrics

/-! ## Reports -/

namespace Service

/-- Some outcomes were counted and told, one after the other. -/
structure Records (service : Service) (settled : List Outcome) (next : Service) : Prop where
  metrics : next.metrics = settled.foldl Metrics.record service.metrics
  events : next.events = service.events ++ settled.flatMap Outcome.events

variable {start service next last : Service} {report : Report}

theorem Records.trans {a b : List Outcome} (h : service.Records a next) (h' : next.Records b last) :
    service.Records (a ++ b) last where
  metrics := by rw [h'.metrics, h.metrics, List.foldl_append]
  events := by rw [h'.events, h.events, List.flatMap_append, List.append_assoc]

theorem Records.of_still {settled : List Outcome} (h : service.Records settled next)
    (hstill : last.Still next) : service.Records settled last :=
  ⟨hstill.metrics.trans h.metrics, hstill.events.trans h.events⟩

theorem records_nil (h : next.Still service) : service.Records [] next :=
  ⟨h.metrics, h.events.trans (List.append_nil _).symm⟩

theorem Refused.records {fault : Fault} (h : service.Refused report fault next) :
    service.Records [⟨report, .error fault⟩] next :=
  ⟨h.metrics, h.events⟩

theorem Applied.records {merged : Merged} (h : service.Applied report merged next) :
    service.Records [⟨report, .ok merged.summary⟩] next where
  metrics := h.metrics
  events := by
    obtain ⟨_, _, _, _, -, -, -, hmerge⟩ := h.merge
    have hlabel : label report = merged.resource.key.text := by
      rw [label, (Resource.key_of_merge hmerge).1]
    simp [h.events, mergeEvents, Outcome.events, hlabel]

theorem handleBy_records (service : Service)
    (answer : Backend.Call FactsMap → Except Fault FactsMap × Backend) (report : Report) :
    service.Records [⟨report, (service.handleBy answer report).1⟩]
      (service.handleBy answer report).2 := by
  rcases service.handleBy_cases answer report with
    ⟨fault, hres, hrefused⟩ | ⟨merged, hres, happlied⟩
  · rw [hres]
    exact hrefused.records
  · rw [hres]
    exact happlied.records

theorem Settles.records {result : Except Fault MergeSummary}
    (h : start.Settles service report result next) : service.Records [⟨report, result⟩] next := by
  obtain ⟨facts, -, rfl, hstill⟩ := h
  exact (service.handleBy_records _ report).of_still hstill

/-- The outcomes of reports that were settled in an order. -/
def settledIn (order : List Item) (results : List (Nat × Except Fault MergeSummary)) :
    List Outcome :=
  List.zipWith (fun item entry => ⟨item.2, entry.2⟩) order results

theorem TakesIn.records {order : List Item} {results : List (Nat × Except Fault MergeSummary)}
    (h : start.TakesIn order results last) : start.Records (settledIn order results) last := by
  induction h with
  | start hstill => exact records_nil hstill
  | settles htaken hsettles ih =>
    have hlength := congrArg List.length htaken.tags
    rw [List.length_map, List.length_map] at hlength
    rw [settledIn, List.zipWith_append hlength.symm]
    exact ih.trans hsettles.records
  | still _ hstill ih => exact ih.of_still hstill

/-- The outcomes of several reports, in the order of the reports. -/
def toldOf (reports : List Report) (told : List (Except Fault MergeSummary)) : List Outcome :=
  List.zipWith Outcome.mk reports told

theorem settledIn_perm {reports : List Report} {order : List Item}
    {results : List (Nat × Except Fault MergeSummary)} {told : List (Except Fault MergeSummary)}
    (horder : order.Perm (itemsOf reports)) (htags : results.map (·.1) = order.map (·.1))
    (hlength : told.length = reports.length) (hplaces : InPlace results told) :
    (settledIn order results).Perm (toldOf reports told) := by
  -- the outcome of a report follows from its place
  let outcomeOf (item : Item) : Outcome := ⟨item.2, told[item.1]?.getD (.error .notLoaded)⟩
  have hsettled : settledIn order results = order.map outcomeOf := by
    have hentries : ∀ entry ∈ results, told[entry.1]?.getD (.error .notLoaded) = entry.2 :=
      fun entry hentry => by rw [(hplaces _ _).2 hentry, Option.getD_some]
    clear hplaces horder
    induction order generalizing results with
    | nil => rfl
    | cons item rest ih =>
      cases results with
      | nil => cases htags
      | cons entry more =>
        obtain ⟨htag, htags⟩ := List.cons.inj htags
        have hfirst := hentries entry (List.mem_cons_self ..)
        rw [settledIn, List.zipWith_cons_cons, List.map_cons, ← ih htags fun e he =>
          hentries e (List.mem_cons_of_mem _ he), settledIn]
        simp only [outcomeOf, ← htag, hfirst]
  have htold : toldOf reports told = (itemsOf reports).map outcomeOf := by
    rw [itemsOf, List.map_map]
    refine List.ext_getElem (by simp [toldOf, hlength]) fun i hi hi' => ?_
    have hlt : i < told.length := by simp [toldOf] at hi; omega
    simp [toldOf, outcomeOf, List.getElem?_eq_getElem hlt]
  rw [hsettled, htold]
  exact horder.map outcomeOf

/-- A batch records each of its reports once, in the order in which it settles them. -/
theorem handleAll_records (service : Service) (reports : List Report) (pauses : Pauses) :
    ∃ settled, settled.Perm (toldOf reports (service.handleAll reports pauses).1) ∧
      service.Records settled (service.handleAll reports pauses).2 := by
  obtain ⟨order, results, horder, htaken, hlength, hplaces⟩ :=
    service.handleAll_linear reports pauses
  exact ⟨_, settledIn_perm horder.perm htaken.tags hlength hplaces, htaken.records⟩

/-! ## Refreshes -/

theorem refreshPools_records {keys : List PoolKey} : ∀ (service : Service) (done : Nat),
    service.Records [] (service.refreshPools done keys).2 := by
  induction keys with
  | nil => exact fun service _ => records_nil (.refl service)
  | cons key rest ih =>
    intro service done
    unfold refreshPools
    split
    · exact records_nil (withBackend_still ..)
    rename_i backend _
    split
    · exact records_nil (withBackend_still ..)
    · rename_i registry _
      have hstep : service.Records [] { service with backend, registry } :=
        ⟨rfl, (List.append_nil _).symm⟩
      exact hstep.trans (ih _ _)

theorem refreshSpace_records (service : Service) : service.Records [] service.refreshSpace.2 := by
  unfold refreshSpace
  split
  · exact records_nil (.refl service)
  · rename_i pools _
    have hrefreshed := @refreshPools_records (backedPools pools) service 0
    generalize service.refreshPools 0 (backedPools pools) = answer at hrefreshed
    obtain ⟨result, next⟩ := answer
    cases result with
    | error fault => exact hrefreshed
    | ok done => exact hrefreshed.of_still (note_noted ..).toStill

/-! ## Loads -/

/-- A load that put a graph in: that of the document, which was counted and told of. -/
structure Installed (service : Service) (graph : Graph) (next : Service) : Prop where
  fresh : service.registry.loaded = false
  document : ∃ doc, service.store.document = .ok doc ∧ Graph.ofDocument doc = .ok graph
  registry : next.registry = {
    loaded := true
    resources := graph.resources
    pools := graph.pools
    layers := graph.layerCount }
  metrics : next.metrics =
    service.metrics.recordLoad graph.resources.size.toUInt64 graph.layerCount.toUInt64
  events : next.events = service.events ++ [.resourcesLoaded graph.resources.size.toUInt64
    graph.layerCount.toUInt64 graph.passes.length.toUInt64]

theorem readGraph_cases (service : Service) : service.readGraph.2.Noted service ∧
    ∀ graph, service.readGraph.1 = .ok graph →
      ∃ doc, service.store.document = .ok doc ∧ Graph.ofDocument doc = .ok graph := by
  have hread : service.noteRead.noteRead.noteRead.Noted service :=
    (noteRead_noted _).trans ((noteRead_noted _).trans (noteRead_noted service))
  unfold readGraph
  split
  · exact ⟨.refl service, fun graph hgraph => by cases hgraph⟩
  rename_i doc hdoc
  dsimp only
  split
  · exact ⟨(notePasses_noted ..).trans hread, fun graph hgraph => by cases hgraph⟩
  · rename_i loaded hload
    refine ⟨(note_noted ..).trans ((notePasses_noted ..).trans hread), fun graph hgraph => ?_⟩
    cases hgraph
    exact ⟨doc, hdoc, Graph.ofDocument_eq_ok_iff.2 hload⟩

/-- A load fails and leaves everything but the log as it is, or it puts a graph in. -/
theorem load_cases (service : Service) :
    (∃ fault, service.load.1 = .error fault ∧ service.load.2.Still service) ∨
      ∃ graph, service.load.1 = .ok graph.resources.size ∧
        service.Installed graph service.load.2 := by
  cases hloaded : service.registry.loaded with
  | true => exact .inl ⟨_, by rw [load_loaded hloaded], by rw [load_loaded hloaded]; exact .refl _⟩
  | false =>
    obtain ⟨hnoted, hdocument⟩ := service.readGraph_cases
    unfold load
    simp only [hloaded, Bool.false_eq_true, if_false]
    generalize service.readGraph = read at hnoted hdocument
    obtain ⟨result, ready⟩ := read
    cases result with
    | error fault => exact .inl ⟨fault, rfl, ((note_noted ..).trans hnoted).toStill⟩
    | ok graph =>
      have hready : ready.registry.loaded = false := by rw [hnoted.registry, hloaded]
      simp only [install, Registry.install, hready, Bool.false_eq_true, if_false]
      refine .inr ⟨graph, rfl, hloaded, hdocument graph rfl, rfl, ?_, ?_⟩
      · exact congrArg (Metrics.recordLoad · _ _) hnoted.metrics
      · exact congrArg (· ++ [_]) hnoted.events

end Service

/-! ## Runs -/

/-- The reports that come with an operation. -/
def Operation.reports : Operation → List Report
  | .single (.report report) => [report]
  | .single .refresh | .single (.backend _) | .load => []
  | .batch reports _ => reports

/-- Whether an event tells of a load. -/
def Event.isLoad : Event → Bool
  | resourcesLoaded .. => true
  | mergeApplied .. | mergeFailed .. | sizeDrift .. => false

theorem Outcome.countP_isLoad (settled : List Outcome) :
    (settled.flatMap Outcome.events).countP Event.isLoad = 0 := by
  refine List.countP_eq_zero.2 fun event hevent => ?_
  obtain ⟨⟨report, result⟩, -, hevent⟩ := List.mem_flatMap.1 hevent
  cases result with
  | error fault =>
    cases List.mem_singleton.1 hevent
    exact Bool.false_ne_true
  | ok summary =>
    rcases List.mem_cons.1 hevent with rfl | hdrift
    · exact Bool.false_ne_true
    · obtain ⟨d, -, rfl⟩ := List.mem_map.1 hdrift
      exact Bool.false_ne_true

namespace Service

variable {service next last : Service} {operation : Operation} {operations rest : List Operation}

/-- What becomes of the reports that come with an operation. -/
def outcomesOf (service : Service) : Operation → List Outcome
  | .single (.report report) => [⟨report, (service.handle report).1⟩]
  | .single .refresh | .single (.backend _) | .load => []
  | .batch reports pauses => toldOf reports (service.handleAll reports pauses).1

/-- What becomes of all reports of a run, in their order. -/
def outcomes (service : Service) : List Operation → List Outcome
  | [] => []
  | operation :: rest => service.outcomesOf operation ++ (service.operate operation).outcomes rest

/-- What the loads of a run return. -/
def loads (service : Service) : List Operation → List (Except Fault Nat)
  | [] => []
  | .load :: rest => service.load.1 :: service.load.2.loads rest
  | operation :: rest => (service.operate operation).loads rest

/-- What an operation tells: of a report what became of it, of a batch what became of its reports,
one after the other, and of a load what it brought, if it puts a graph in. -/
inductive Tells (service : Service) : Operation → List Event → Prop where
  | report (report : Report) :
    service.Tells (.single (.report report)) (Outcome.events ⟨report, (service.handle report).1⟩)
  | refresh : service.Tells (.single .refresh) []
  | backend (backend : Backend) : service.Tells (.single (.backend backend)) []
  | batch {reports : List Report} {pauses : Pauses} {settled : List Outcome}
    (h : settled.Perm (toldOf reports (service.handleAll reports pauses).1)) :
    service.Tells (.batch reports pauses) (settled.flatMap Outcome.events)
  | loaded {doc : Document} {graph : Graph} (hres : service.load.1 = .ok graph.resources.size)
    (hdoc : service.store.document = .ok doc) (hgraph : Graph.ofDocument doc = .ok graph) :
    service.Tells .load [.resourcesLoaded graph.resources.size.toUInt64 graph.layerCount.toUInt64
      graph.passes.length.toUInt64]
  | unloaded {fault : Fault} (hres : service.load.1 = .error fault) : service.Tells .load []

/-- What the operations of a run tell, one after the other. -/
inductive History : Service → List Operation → List Event → Prop where
  | done (service : Service) : service.History [] []
  | next {service : Service} {operation : Operation} {rest : List Operation} {told more : List Event}
    (htold : service.Tells operation told) (hmore : (service.operate operation).History rest more) :
    service.History (operation :: rest) (told ++ more)

theorem reports_outcomesOf (service : Service) (operation : Operation) :
    (service.outcomesOf operation).map (·.report) = operation.reports := by
  cases operation with
  | single occurrence => cases occurrence <;> rfl
  | batch reports pauses =>
    obtain ⟨-, -, -, -, hlength, -⟩ := service.handleAll_linear reports pauses
    show (List.zipWith Outcome.mk reports (service.handleAll reports pauses).1).map (·.report) =
      reports
    rw [List.map_zipWith, ← List.map_uncurry_zip_eq_zipWith]
    exact List.map_fst_zip hlength.ge
  | load => rfl

/-- An operation that records outcomes adds them to those that were counted. -/
theorem Records.counts {outcomes settled : List Outcome} (h : service.Records settled next)
    (hcounts : service.metrics.Counts outcomes) : next.metrics.Counts (outcomes ++ settled) := by
  rw [h.metrics]
  exact hcounts.recordAll settled

/-- What an operation counts and tells. -/
theorem operate_tells (service : Service) (operation : Operation) :
    ∃ told, service.Tells operation told ∧
      (service.operate operation).events = service.events ++ told ∧
      ∀ outcomes, service.metrics.Counts outcomes →
        (service.operate operation).metrics.Counts (outcomes ++ service.outcomesOf operation) := by
  cases operation with
  | single occurrence =>
    cases occurrence with
    | report report =>
      have hrecords := service.handleBy_records (service.backend.ask (some service.retry)) report
      rw [← handle_eq] at hrecords
      have hevents := hrecords.events
      rw [List.flatMap_singleton] at hevents
      exact ⟨_, .report report, hevents, fun _ => hrecords.counts⟩
    | refresh =>
      have hrecords := service.refreshSpace_records
      exact ⟨_, .refresh, hrecords.events, fun _ => hrecords.counts⟩
    | backend backend =>
      have hrecords := records_nil (service.withBackend_still backend)
      exact ⟨_, .backend backend, hrecords.events, fun _ => hrecords.counts⟩
  | batch reports pauses =>
    obtain ⟨settled, hperm, hrecords⟩ := service.handleAll_records reports pauses
    exact ⟨_, .batch hperm, hrecords.events,
      fun _ hcounts => (hrecords.counts hcounts).perm (hperm.append_left _)⟩
  | load =>
    rcases service.load_cases with ⟨fault, hres, hstill⟩ | ⟨graph, hres, hinstalled⟩
    · have hrecords := records_nil hstill
      exact ⟨_, .unloaded hres, hrecords.events, fun _ => hrecords.counts⟩
    · obtain ⟨doc, hdoc, hgraph⟩ := hinstalled.document
      refine ⟨_, .loaded hres hdoc hgraph, hinstalled.events, fun outcomes hcounts => ?_⟩
      show service.load.2.metrics.Counts (outcomes ++ [])
      rw [hinstalled.metrics, List.append_nil]
      exact hcounts.recordLoad ..

theorem Tells.countP_isLoad {told : List Event} (h : service.Tells operation told) :
    told.countP Event.isLoad = (service.loads [operation]).countP Except.isOk := by
  cases h with
  | report report =>
    rw [← List.flatMap_singleton Outcome.events]
    exact Outcome.countP_isLoad _
  | refresh | backend => rfl
  | batch => exact Outcome.countP_isLoad _
  | loaded hres | unloaded hres => simp [loads, hres, Event.isLoad, Except.isOk, Except.toBool]

theorem Moves.loaded_eq (h : service.Moves next) :
    next.registry.loaded = service.registry.loaded := by
  cases h with
  | kept hagrees => rw [hagrees.registry]
  | applied happlied => rw [happlied.registry]; rfl
  | refreshed hkeeps => exact hkeeps.loaded

/-- Only a load that succeeds changes whether a service is loaded. -/
theorem operate_loaded (service : Service) (operation : Operation) :
    (service.operate operation).registry.loaded =
      (service.registry.loaded || (service.loads [operation]).any Except.isOk) := by
  cases operation with
  | single occurrence =>
    exact (service.step_moves occurrence).loaded_eq.trans (Bool.or_false _).symm
  | batch reports pauses =>
    obtain ⟨order, results, -, htaken, -⟩ := service.handleAll_linear reports pauses
    have hsame := htaken.leads.keeps
      (P := fun state => state.registry.loaded = service.registry.loaded)
      (fun hmoves heq => hmoves.loaded_eq.trans heq) rfl
    exact hsame.trans (Bool.or_false _).symm
  | load =>
    rcases service.load_cases with ⟨fault, hres, hstill⟩ | ⟨graph, hres, hinstalled⟩
    · show service.load.2.registry.loaded = _
      simp [loads, hres, hstill.registry, Except.isOk, Except.toBool]
    · show service.load.2.registry.loaded = _
      simp [loads, hres, hinstalled.registry, Except.isOk, Except.toBool]

theorem loads_cons (service : Service) (operation : Operation) (rest : List Operation) :
    service.loads (operation :: rest) =
      service.loads [operation] ++ (service.operate operation).loads rest := by
  cases operation <;> rfl

theorem operateAll_loaded : ∀ (operations : List Operation) (service : Service),
    (service.operateAll operations).registry.loaded =
      (service.registry.loaded || (service.loads operations).any Except.isOk) := by
  intro operations
  induction operations with
  | nil => exact fun service => (Bool.or_false _).symm
  | cons operation rest ih =>
    intro service
    rw [loads_cons, List.any_append, ← Bool.or_assoc, ← operate_loaded]
    exact ih _

theorem countP_loads_operation (service : Service) (operation : Operation) :
    (service.loads [operation]).countP Except.isOk ≤ if service.registry.loaded then 0 else 1 := by
  cases operation with
  | single | batch => exact Nat.zero_le _
  | load =>
    rcases service.load_cases with ⟨fault, hres, -⟩ | ⟨graph, hres, hinstalled⟩
    · simp [loads, hres, Except.isOk, Except.toBool]
    · simp [loads, hres, hinstalled.fresh, Except.isOk, Except.toBool]

/-- The loads of a run succeed at most once, and only if the service was not loaded before. -/
theorem countP_loads_le : ∀ (operations : List Operation) (service : Service),
    (service.loads operations).countP Except.isOk ≤ if service.registry.loaded then 0 else 1 := by
  intro operations
  induction operations with
  | nil => exact fun service => Nat.zero_le _
  | cons operation rest ih =>
    intro service
    have hfirst := service.countP_loads_operation operation
    have hrest := ih (service.operate operation)
    rw [operate_loaded] at hrest
    rw [loads_cons, List.countP_append]
    -- either the first operation puts a graph in, or a later one may
    cases hany : (service.loads [operation]).any Except.isOk with
    | true =>
      rw [hany, Bool.or_true, if_pos rfl] at hrest
      omega
    | false =>
      rw [hany, Bool.or_false] at hrest
      have hnone : (service.loads [operation]).countP Except.isOk = 0 :=
        List.countP_eq_zero.2 (List.any_eq_false.1 hany)
      omega

theorem reports_outcomes : ∀ (operations : List Operation) (service : Service),
    (service.outcomes operations).map (·.report) = operations.flatMap Operation.reports := by
  intro operations
  induction operations with
  | nil => exact fun _ => rfl
  | cons operation rest ih =>
    intro service
    rw [outcomes, List.map_append, reports_outcomesOf, ih, List.flatMap_cons]

/-- What a run counts and tells. -/
theorem operateAll_tells : ∀ (operations : List Operation) (service : Service),
    ∃ told, service.History operations told ∧
      (service.operateAll operations).events = service.events ++ told ∧
      ∀ before, service.metrics.Counts before →
        (service.operateAll operations).metrics.Counts (before ++ service.outcomes operations) := by
  intro operations
  induction operations with
  | nil =>
    refine fun service => ⟨[], .done service, (List.append_nil _).symm, fun before hcounts => ?_⟩
    rwa [outcomes, List.append_nil]
  | cons operation rest ih =>
    intro service
    obtain ⟨told, htold, hevents, hcounts⟩ := service.operate_tells operation
    obtain ⟨more, hmore, hmoreEvents, hmoreCounts⟩ := ih (service.operate operation)
    refine ⟨told ++ more, .next htold hmore, ?_, fun before hstart => ?_⟩
    · rw [← List.append_assoc, ← hevents]
      exact hmoreEvents
    · rw [outcomes, ← List.append_assoc]
      exact hmoreCounts _ (hcounts _ hstart)

theorem History.countP_isLoad {told : List Event} (h : service.History operations told) :
    told.countP Event.isLoad = (service.loads operations).countP Except.isOk := by
  induction h with
  | done => rfl
  | next htold _ ih =>
    rw [loads_cons, List.countP_append, List.countP_append, htold.countP_isLoad, ih]

/-- What a service that was just started holds. -/
structure Fresh (service : Service) : Prop where
  registry : service.registry = {}
  metrics : service.metrics = {}
  events : service.events = []

/-- The counters and the events of a run account for each report and each load once. -/
structure Accounts (service : Service) (operations : List Operation) : Prop where
  /-- Each report has one outcome. -/
  reports : (service.outcomes operations).map (·.report) = operations.flatMap Operation.reports
  counted : (service.operateAll operations).metrics.Counts (service.outcomes operations)
  told : service.History operations (service.operateAll operations).events
  /-- As many loads are told of as put a graph in: one, if any does. -/
  loadedOnce : (service.operateAll operations).events.countP Event.isLoad =
    if (service.loads operations).any Except.isOk then 1 else 0
  /-- A load fails once the service is loaded; and one that fails leaves everything but the log. -/
  loads : ∀ before after, operations = before ++ .load :: after →
    let now := service.operateAll before
    ((service.loads before).any Except.isOk → now.load.1 = .error .alreadyLoaded) ∧
      ∀ fault, now.load.1 = .error fault → now.load.2.Still now

/-- Whatever a service that was just started is asked to do, its counters and its events account for
every report once, and for the one load that puts a graph in. -/
theorem reports_accounted (hfresh : service.Fresh) (operations : List Operation) :
    service.Accounts operations := by
  obtain ⟨told, htold, hevents, hcounts⟩ := service.operateAll_tells operations
  rw [hfresh.events, List.nil_append] at hevents
  have hnew : service.registry.loaded = false := by rw [hfresh.registry]
  refine ⟨reports_outcomes operations service, ?_, hevents ▸ htold, ?_, ?_⟩
  · exact hcounts [] (hfresh.metrics ▸ Metrics.counts_fresh)
  · have honce := countP_loads_le operations service
    rw [hnew, if_neg Bool.false_ne_true] at honce
    rw [hevents, htold.countP_isLoad]
    cases hany : (service.loads operations).any Except.isOk with
    | true =>
      have hsome : 0 < (service.loads operations).countP Except.isOk :=
        List.countP_pos_iff.2 (List.any_eq_true.1 hany)
      exact (le_antisymm honce hsome).trans (if_pos rfl).symm
    | false => exact List.countP_eq_zero.2 (List.any_eq_false.1 hany)
  · intro before after _
    refine ⟨fun hany => ?_, fun fault hfault => ?_⟩
    · have hloaded := operateAll_loaded before service
      rw [hany, Bool.or_true] at hloaded
      rw [load_loaded hloaded]
    · rcases (service.operateAll before).load_cases with ⟨_, -, hstill⟩ | ⟨graph, hres, -⟩
      · exact hstill
      · cases hres.symm.trans hfault

/-- A load, a batch of reports for two resources, a second load, and a report that names none. -/
def siblingOperations : List Operation :=
  [.load, .batch [openReport "r" true, openReport "s" true] siblings.retry.pauses, .load,
    .single (.report {})]

set_option maxRecDepth 4000 in
/-- Two reports were merged, one was rejected, and one of two loads is told of. -/
theorem reports_accounted_siblings :
    siblings.Fresh ∧ siblings.Accounts siblingOperations ∧
      (siblings.operateAll siblingOperations).metrics.applied = 2 ∧
      (siblings.operateAll siblingOperations).metrics.rejected = 1 ∧
      (siblings.operateAll siblingOperations).events.countP Event.isLoad = 1 := by
  have hfresh : siblings.Fresh := ⟨rfl, rfl, rfl⟩
  have haccounts := reports_accounted hfresh siblingOperations
  let pair := [openReport "r" true, openReport "s" true]
  have hunnamed : ∀ service : Service, (service.handle {}).1 =
      .error (.unknownObject unnamed (.missingField "node_name")) := fun _ => rfl
  have houtcomes : siblings.outcomes siblingOperations =
      toldOf pair (siblings.load.2.handleAll pair).1 ++
        [⟨{}, .error (.unknownObject unnamed (.missingField "node_name"))⟩] := by
    simp only [siblingOperations, outcomes, outcomesOf, hunnamed, List.nil_append, List.append_nil]
    rfl
  refine ⟨hfresh, haccounts, ?_, ?_, ?_⟩
  · rw [haccounts.counted.applied, houtcomes, List.countP_append]
    have hmerged :
        (toldOf pair (siblings.load.2.handleAll pair).1).countP (·.summary?.isSome) = 2 := by
      cbv
    rw [hmerged]
    rfl
  · rw [haccounts.counted.rejected, houtcomes, List.countP_append]
    have hnone : (toldOf pair (siblings.load.2.handleAll pair).1).countP
        (·.refusal?.any (· = .clusterState)) = 0 := by cbv
    rw [hnone]
    rfl
  · rw [haccounts.loadedOnce]
    have hloaded : siblings.load.1.isOk = true := by cbv
    exact if_pos (List.any_eq_true.2 ⟨_, List.mem_cons_self .., hloaded⟩)

end Service
end BlockStack
