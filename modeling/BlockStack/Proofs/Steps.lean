import BlockStack.Service

/-!
# BlockStack.Proofs.Steps

What one step of the service changes.

* `Service.Agrees`: two states that keep and hold the same. `Service.Still`: they have counted and
  told the same, too.
* `Service.handle_cases`: a report is refused, and a failure is counted and told
  (`Service.Refused`), or it is merged, saved and taken into the registry (`Service.Applied`).
* `Service.Still.conclude`: what backends and logs are does not matter, once the backend has answered.
* `Service.refreshSpace_keeps`: a refresh changes pools only.
* `Service.load_eq`: what a load puts in.
* `Service.Moves`: all that a step may change.
-/

namespace BlockStack

/-- One failure was counted: one of the two counters of failures was raised by one, and a merge was
tried. -/
def Metrics.FailedOnce (before after : Metrics) : Prop :=
  after = { before with rejected := before.rejected + 1, touched := true } ∨
    after = { before with failed := before.failed + 1, touched := true }

theorem Metrics.failedOnce (metrics : Metrics) (fault : FaultClass) :
    metrics.FailedOnce (metrics.recordFailure fault) := by
  unfold recordFailure
  cases fault with
  | clusterState => exact .inl rfl
  | storageLayer | request | internal => exact .inr rfl

namespace Service

/-- Two states keep and hold the same. -/
structure Agrees (a b : Service) : Prop where
  store : a.store = b.store
  registry : a.registry = b.registry
  tolerance : a.tolerance = b.tolerance
  retry : a.retry = b.retry

theorem Agrees.refl (service : Service) : service.Agrees service := ⟨rfl, rfl, rfl, rfl⟩

theorem Agrees.trans {a b c : Service} (h : a.Agrees b) (h' : b.Agrees c) : a.Agrees c :=
  ⟨h.store.trans h'.store, h.registry.trans h'.registry, h.tolerance.trans h'.tolerance,
    h.retry.trans h'.retry⟩

theorem Agrees.symm {a b : Service} (h : a.Agrees b) : b.Agrees a :=
  ⟨h.store.symm, h.registry.symm, h.tolerance.symm, h.retry.symm⟩

/-- Two states differ at most in their backends and in what was logged. -/
structure Still (a b : Service) : Prop extends a.Agrees b where
  metrics : a.metrics = b.metrics
  events : a.events = b.events

theorem Still.refl (service : Service) : service.Still service := ⟨.refl service, rfl, rfl⟩

theorem Still.trans {a b c : Service} (h : a.Still b) (h' : b.Still c) : a.Still c :=
  ⟨h.toAgrees.trans h'.toAgrees, h.metrics.trans h'.metrics, h.events.trans h'.events⟩

theorem Still.symm {a b : Service} (h : a.Still b) : b.Still a :=
  ⟨h.toAgrees.symm, h.metrics.symm, h.events.symm⟩

theorem withBackend_still (service : Service) (backend : Backend) :
    ({ service with backend } : Service).Still service := ⟨⟨rfl, rfl, rfl, rfl⟩, rfl, rfl⟩

/-! ## Log entries -/

/-- Two states differ at most in what was logged. -/
structure Noted (a b : Service) : Prop extends a.Still b where
  backend : a.backend = b.backend

theorem Noted.refl (service : Service) : service.Noted service := ⟨.refl service, rfl⟩

theorem Noted.trans {a b c : Service} (h : a.Noted b) (h' : b.Noted c) : a.Noted c :=
  ⟨h.toStill.trans h'.toStill, h.backend.trans h'.backend⟩

theorem note_noted (service : Service) (level : Log.Level) (origin : Log.Origin) (message : String)
    (fields : List (String × Log.Value)) : (service.note level origin message fields).Noted service :=
  ⟨⟨⟨rfl, rfl, rfl, rfl⟩, rfl, rfl⟩, rfl⟩

theorem foldl_noted {α : Type} {f : Service → α → Service} (hf : ∀ s a, (f s a).Noted s)
    (l : List α) (service : Service) : (l.foldl f service).Noted service := by
  induction l generalizing service with
  | nil => exact .refl service
  | cons a rest ih => exact (ih (f service a)).trans (hf service a)

theorem noteRead_noted (service : Service) : service.noteRead.Noted service := by
  unfold noteRead
  split
  · exact .refl service
  · exact note_noted ..

theorem notePasses_noted (service : Service) (passes : List (List LayerId)) :
    (service.notePasses passes).Noted service :=
  foldl_noted (fun _ _ => note_noted ..) _ service

theorem noteAbsences_noted (service : Service) (key : ResourceKey) (absences : List Absence) :
    (service.noteAbsences key absences).Noted service :=
  foldl_noted (fun _ _ => note_noted ..) _ service

theorem noteDrift_noted (service : Service) (key : ResourceKey) (drift : List Drift) :
    (service.noteDrift key drift).Noted service :=
  foldl_noted (fun _ _ => note_noted ..) _ service

theorem noteSaved_noted (service : Service) (key : ResourceKey) (layers : Nat) :
    (service.noteSaved key layers).Noted service := by
  unfold noteSaved
  split
  · exact .refl service
  · exact note_noted ..

/-! ## Refusals -/

/-- A report that was refused: nothing that is kept or held has changed, one failure was counted,
and one event tells of it. -/
structure Refused (service : Service) (report : Report) (fault : Fault) (next : Service) : Prop where
  kept : next.Agrees service
  metrics : next.metrics = service.metrics.recordFailure fault.faultClass
  events : next.events =
    service.events ++ [.mergeFailed (label report) fault.faultClass fault.message]

/-- What a refusal leaves; the class of the fault decides only how it is counted and logged. -/
theorem refuse_spec (service : Service) (report : Report) (fault : Fault) :
    (service.refuse report fault).Agrees service ∧
      (service.refuse report fault).metrics = service.metrics.recordFailure fault.faultClass ∧
      (service.refuse report fault).events =
        service.events ++ [.mergeFailed (label report) fault.faultClass fault.message] ∧
      (service.refuse report fault).backend = service.backend := by
  unfold refuse
  cases fault.faultClass <;> exact ⟨⟨rfl, rfl, rfl, rfl⟩, rfl, rfl, rfl⟩

theorem refused {service next : Service} (h : next.Still service) (report : Report) (fault : Fault) :
    service.Refused report fault (next.refuse report fault) := by
  obtain ⟨hkept, hmetrics, hevents, -⟩ := next.refuse_spec report fault
  exact ⟨hkept.trans h.toAgrees, by rw [hmetrics, h.metrics], by rw [hevents, h.events]⟩

/-! ## Reports -/

/-- A merge that was put in: its rows were saved, the registry has the merged resource, and the
merge was counted and told. -/
structure Committed (service : Service) (merged : Merged) (next : Service) : Prop where
  saved : service.store.save merged.resource.key merged.resource.rows = .ok next.store
  registry : next.registry = service.registry.replace merged.resource
  tolerance : next.tolerance = service.tolerance
  retry : next.retry = service.retry
  metrics : next.metrics = service.metrics.recordMerge merged.summary
  events : next.events = service.events ++ mergeEvents merged.resource.key merged.summary

/-- A report that was taken in: it was merged into the resource that it speaks of, and the merge was
put in. -/
structure Applied (service : Service) (report : Report) (merged : Merged) (next : Service) : Prop
    extends service.Committed merged next where
  merge : ∃ key resource pools facts, report.key = .ok key ∧
    service.registry.find key = .ok resource ∧ service.registry.allPools = .ok pools ∧
    resource.merge pools facts service.tolerance report = .ok merged

theorem Refused.of_still {service ready next : Service} {report : Report} {fault : Fault}
    (h : ready.Refused report fault next) (hready : ready.Still service) :
    service.Refused report fault next where
  kept := h.kept.trans hready.toAgrees
  metrics := hready.metrics ▸ h.metrics
  events := hready.events ▸ h.events

theorem Committed.of_still {service ready next : Service} {merged : Merged}
    (h : ready.Committed merged next) (hready : ready.Still service) :
    service.Committed merged next where
  saved := hready.store ▸ h.saved
  registry := hready.registry ▸ h.registry
  tolerance := hready.tolerance ▸ h.tolerance
  retry := hready.retry ▸ h.retry
  metrics := hready.metrics ▸ h.metrics
  events := hready.events ▸ h.events

theorem prepare_noted (service : Service) (resource : Resource) (report : Report) (facts : FactsMap) :
    (service.prepare resource report facts).2.Noted service := by
  unfold prepare
  have hnote := note_noted service .debug .service "Fetched backend facts"
    [("resource", .text resource.key.text), ("requested", .number resource.identifiers.length),
      ("found", .number facts.size)]
  dsimp only
  split
  · exact hnote
  split
  · exact (noteAbsences_noted ..).trans hnote
  · exact (note_noted ..).trans ((noteDrift_noted ..).trans ((noteAbsences_noted ..).trans hnote))

theorem prepare_ok {service : Service} {resource : Resource} {report : Report} {facts : FactsMap}
    {merged : Merged} (h : (service.prepare resource report facts).1 = .ok merged) :
    ∃ pools, service.registry.allPools = .ok pools ∧
      resource.merge pools facts service.tolerance report = .ok merged := by
  unfold prepare at h
  dsimp only at h
  split at h
  · cases h
  rename_i pools hpools
  split at h
  · cases h
  rename_i hmerge
  cases h
  exact ⟨pools, hpools, hmerge⟩

theorem commit_cases (service : Service) (report : Report) (merged : Merged) :
    (∃ fault, (service.commit report merged).1 = .error fault ∧
      service.Refused report fault (service.commit report merged).2) ∨
    ((service.commit report merged).1 = .ok merged.summary ∧
      service.Committed merged (service.commit report merged).2) := by
  unfold commit
  dsimp only
  split
  · exact .inl ⟨_, rfl, refused (.refl service) ..⟩
  have hread := noteRead_noted service
  split
  · exact .inl ⟨_, rfl, refused hread.toStill ..⟩
  · rename_i store hsave
    have hsaved := noteSaved_noted { service.noteRead with store } merged.resource.key
      merged.resource.rows.layers.length
    refine .inr ⟨rfl, Committed.of_still (?_ : service.noteRead.Committed merged _) hread.toStill⟩
    exact {
      saved := hsave.trans (congrArg Except.ok hsaved.store.symm)
      registry := congrArg (Registry.replace · merged.resource) hsaved.registry
      tolerance := hsaved.tolerance
      retry := hsaved.retry
      metrics := congrArg (Metrics.recordMerge · merged.summary) hsaved.metrics
      events := congrArg (· ++ mergeEvents merged.resource.key merged.summary) hsaved.events }

theorem commit_backend (service : Service) (report : Report) (merged : Merged) :
    (service.commit report merged).2.backend = service.backend := by
  have hread := noteRead_noted service
  unfold commit
  dsimp only
  split
  · exact (service.refuse_spec report _).2.2.2
  split
  · exact (service.noteRead.refuse_spec report _).2.2.2.trans hread.backend
  · rename_i store _
    exact (noteSaved_noted { service.noteRead with store } merged.resource.key
      merged.resource.rows.layers.length).backend.trans hread.backend

theorem resourceFor_ok {service : Service} {report : Report} {resource : Resource}
    (h : service.resourceFor report = .ok resource) :
    ∃ key, report.key = .ok key ∧ service.registry.find key = .ok resource := by
  unfold resourceFor at h
  split at h
  · cases h
  · cases h
  · exact ⟨_, ‹_›, h⟩

theorem get?_of_find {registry : Registry} {key : ResourceKey} {resource : Resource}
    (h : registry.find key = .ok resource) : registry.resources.get? key = some resource := by
  unfold Registry.find at h
  split at h
  · split at h
    · cases h
      assumption
    · cases h
  · cases h

/-- After a report that was taken in, a resource that is held is one from before, or the merged one. -/
theorem Applied.mem_values {service next : Service} {report : Report} {merged : Merged}
    (h : service.Applied report merged next) {resource : Resource}
    (hmem : resource ∈ next.registry.resources.values) :
    resource ∈ service.registry.resources.values ∨ (resource = merged.resource ∧
      ∃ old ∈ service.registry.resources.values, ∃ pools facts,
        old.merge pools facts service.tolerance report = .ok merged) := by
  rw [h.registry] at hmem
  obtain ⟨key, hget⟩ := SortedMap.mem_values_iff.1 hmem
  by_cases hkey : key = merged.resource.key
  · rw [Registry.replace, hkey, SortedMap.get?_modify_self] at hget
    obtain ⟨_, -, rfl⟩ := Option.map_eq_some_iff.1 hget
    obtain ⟨name, old, pools, facts, -, hfind, -, hmerge⟩ := h.merge
    exact .inr ⟨rfl, old, SortedMap.mem_values_iff.2 ⟨name, get?_of_find hfind⟩, pools, facts, hmerge⟩
  · rw [Registry.replace, SortedMap.get?_modify_of_ne _ _ hkey] at hget
    exact .inl (SortedMap.mem_values_iff.2 ⟨key, hget⟩)

theorem conclude_unmerged {service : Service} {report : Report} {resource : Resource}
    {facts : FactsMap} {fault : Fault}
    (h : (service.prepare resource report facts).1 = .error fault) :
    service.conclude resource report (.ok facts) =
      (.error fault, (service.prepare resource report facts).2.refuse report fault) := by
  simp only [conclude]
  generalize service.prepare resource report facts = prepared at h
  obtain ⟨result, ready⟩ := prepared
  cases h
  rfl

theorem conclude_merged {service : Service} {report : Report} {resource : Resource}
    {facts : FactsMap} {merged : Merged}
    (h : (service.prepare resource report facts).1 = .ok merged) :
    service.conclude resource report (.ok facts) =
      (service.prepare resource report facts).2.commit report merged := by
  simp only [conclude]
  generalize service.prepare resource report facts = prepared at h
  obtain ⟨result, ready⟩ := prepared
  cases h
  rfl

theorem conclude_backend (service : Service) (resource : Resource) (report : Report)
    (facts : Except Fault FactsMap) :
    (service.conclude resource report facts).2.backend = service.backend := by
  cases facts with
  | error fault => exact (service.refuse_spec report fault).2.2.2
  | ok facts =>
    have hready := (service.prepare_noted resource report facts).backend
    cases hprepare : (service.prepare resource report facts).1 with
    | error fault =>
      rw [conclude_unmerged hprepare]
      exact (Service.refuse_spec _ report fault).2.2.2.trans hready
    | ok merged =>
      rw [conclude_merged hprepare]
      exact (commit_backend ..).trans hready

/-- Whatever a backend answers, a report is refused, or it is taken in. -/
theorem conclude_cases {service : Service} {report : Report} {resource : Resource}
    (hfor : service.resourceFor report = .ok resource) (backend : Backend)
    (facts : Except Fault FactsMap) :
    (∃ fault, (conclude { service with backend } resource report facts).1 = .error fault ∧
      service.Refused report fault (conclude { service with backend } resource report facts).2) ∨
    ∃ merged, (conclude { service with backend } resource report facts).1 = .ok merged.summary ∧
      service.Applied report merged (conclude { service with backend } resource report facts).2 := by
  have hask := withBackend_still service backend
  cases facts with
  | error fault => exact .inl ⟨fault, rfl, refused hask ..⟩
  | ok facts =>
    have hstill := (prepare_noted { service with backend } resource report facts).toStill.trans hask
    cases hprepare : (Service.prepare { service with backend } resource report facts).1 with
    | error fault =>
      rw [conclude_unmerged hprepare]
      exact .inl ⟨fault, rfl, refused hstill ..⟩
    | ok merged =>
      rw [conclude_merged hprepare]
      obtain ⟨pools, hpools, hmerge⟩ := prepare_ok hprepare
      rcases commit_cases _ report merged with ⟨fault, hres, href⟩ | ⟨hres, hcommitted⟩
      · exact .inl ⟨fault, hres, href.of_still hstill⟩
      · obtain ⟨key, hkey, hfind⟩ := resourceFor_ok hfor
        exact .inr ⟨merged, hres, hcommitted.of_still hstill,
          key, resource, pools, facts, hkey, hfind, hpools, hmerge⟩

/-- A report that is taken in with an answer of a backend to the call for facts. -/
def handleBy (service : Service)
    (answer : Backend.Call FactsMap → Except Fault FactsMap × Backend) (report : Report) :
    Except Fault MergeSummary × Service :=
  match service.resourceFor report with
  | .error fault => (.error fault, service.refuse report fault)
  | .ok resource =>
    let (facts, backend) := answer (factsCall resource)
    { service with backend }.conclude resource report facts

/-- The service asks its own backend, as its policy says. -/
theorem handle_eq (service : Service) (report : Report) :
    service.handle report = service.handleBy (service.backend.ask (some service.retry)) report := rfl

/-- A report is refused or taken in, whatever the backend answers. -/
theorem handleBy_cases (service : Service)
    (answer : Backend.Call FactsMap → Except Fault FactsMap × Backend) (report : Report) :
    (∃ fault, (service.handleBy answer report).1 = .error fault ∧
      service.Refused report fault (service.handleBy answer report).2) ∨
    ∃ merged, (service.handleBy answer report).1 = .ok merged.summary ∧
      service.Applied report merged (service.handleBy answer report).2 := by
  unfold handleBy
  split
  · exact .inl ⟨_, rfl, refused (.refl service) ..⟩
  · rename_i resource hfor
    exact conclude_cases hfor ..

theorem handle_cases (service : Service) (report : Report) :
    (∃ fault, (service.handle report).1 = .error fault ∧
      service.Refused report fault (service.handle report).2) ∨
    ∃ merged, (service.handle report).1 = .ok merged.summary ∧
      service.Applied report merged (service.handle report).2 := by
  rw [handle_eq]
  exact service.handleBy_cases _ report

/-! ## What a report depends on -/

/-- A merge is worked out from the pools and the tolerance. -/
theorem prepare_congr {a b : Service} (hpools : a.registry.allPools = b.registry.allPools)
    (htolerance : a.tolerance = b.tolerance) (resource : Resource) (report : Report)
    (facts : FactsMap) :
    (a.prepare resource report facts).1 = (b.prepare resource report facts).1 := by
  have hnoted : ∀ s : Service, ∀ level origin message fields,
      (s.note level origin message fields).registry = s.registry ∧
        (s.note level origin message fields).tolerance = s.tolerance := fun _ _ _ _ _ => ⟨rfl, rfl⟩
  unfold prepare
  dsimp only
  rw [(hnoted a ..).1, (hnoted b ..).1, (hnoted a ..).2, (hnoted b ..).2, hpools, htolerance]
  cases b.registry.allPools with
  | error fault => rfl
  | ok pools =>
    dsimp only
    cases resource.merge pools facts b.tolerance report <;> rfl

namespace Still

variable {a b : Service} (h : a.Still b)
include h

theorem refuse (report : Report) (fault : Fault) :
    (a.refuse report fault).Still (b.refuse report fault) := by
  obtain ⟨hkept, hmetrics, hevents, -⟩ := a.refuse_spec report fault
  obtain ⟨hkept', hmetrics', hevents', -⟩ := b.refuse_spec report fault
  exact ⟨(hkept.trans h.toAgrees).trans hkept'.symm, by rw [hmetrics, hmetrics', h.metrics],
    by rw [hevents, hevents', h.events]⟩

theorem accept (merged : Merged) : (a.accept merged).Still (b.accept merged) :=
  ⟨⟨h.store, congrArg (Registry.replace · merged.resource) h.registry, h.tolerance, h.retry⟩,
    congrArg (Metrics.recordMerge · merged.summary) h.metrics,
    congrArg (· ++ mergeEvents merged.resource.key merged.summary) h.events⟩

theorem noteSaved (key : ResourceKey) (layers : Nat) :
    (a.noteSaved key layers).Still (b.noteSaved key layers) :=
  (noteSaved_noted a ..).toStill.trans (h.trans (noteSaved_noted b ..).toStill.symm)

theorem prepare (resource : Resource) (report : Report) (facts : FactsMap) :
    (a.prepare resource report facts).1 = (b.prepare resource report facts).1 :=
  prepare_congr (congrArg Registry.allPools h.registry) h.tolerance ..

theorem commit (report : Report) (merged : Merged) :
    (a.commit report merged).1 = (b.commit report merged).1 ∧
      (a.commit report merged).2.Still (b.commit report merged).2 := by
  have hread : a.noteRead.Still b.noteRead :=
    (noteRead_noted a).toStill.trans (h.trans (noteRead_noted b).toStill.symm)
  unfold Service.commit
  dsimp only
  rw [h.store, hread.store]
  cases b.store.document with
  | error fault => exact ⟨rfl, h.refuse ..⟩
  | ok doc =>
    dsimp only
    cases b.noteRead.store.save merged.resource.key merged.resource.rows with
    | error fault => exact ⟨rfl, hread.refuse ..⟩
    | ok store =>
      have hstored : ({ a.noteRead with store } : Service).Still { b.noteRead with store } :=
        ⟨⟨rfl, hread.registry, hread.tolerance, hread.retry⟩, hread.metrics, hread.events⟩
      exact ⟨rfl, (hstored.noteSaved ..).accept merged⟩

/-- Backends and logs do not matter, once the backend has answered. -/
theorem conclude (resource : Resource) (report : Report) (facts : Except Fault FactsMap) :
    (a.conclude resource report facts).1 = (b.conclude resource report facts).1 ∧
      (a.conclude resource report facts).2.Still (b.conclude resource report facts).2 := by
  cases facts with
  | error fault => exact ⟨rfl, h.refuse ..⟩
  | ok facts =>
    simp only [Service.conclude]
    have hsame := h.prepare resource report facts
    have hready : (a.prepare resource report facts).2.Still (b.prepare resource report facts).2 :=
      (prepare_noted a ..).toStill.trans (h.trans (prepare_noted b ..).toStill.symm)
    generalize a.prepare resource report facts = left at hsame hready
    generalize b.prepare resource report facts = right at hsame hready
    obtain ⟨result, ready⟩ := left
    obtain ⟨_, ready'⟩ := right
    cases hsame
    cases result with
    | error fault => exact ⟨rfl, hready.refuse ..⟩
    | ok merged => exact hready.commit report merged

end Still

/-! ## Space -/

/-- A refresh changes nothing but the pools. -/
structure Refreshed (service next : Service) : Prop where
  store : next.store = service.store
  loaded : next.registry.loaded = service.registry.loaded
  resources : next.registry.resources = service.registry.resources
  keys : next.registry.pools.keys = service.registry.pools.keys
  tolerance : next.tolerance = service.tolerance
  retry : next.retry = service.retry

theorem Refreshed.trans {a b c : Service} (h : Refreshed a b) (h' : Refreshed b c) : Refreshed a c :=
  ⟨h'.store.trans h.store, h'.loaded.trans h.loaded, h'.resources.trans h.resources,
    h'.keys.trans h.keys, h'.tolerance.trans h.tolerance, h'.retry.trans h.retry⟩

theorem setSpace_ok {registry next : Registry} {key : PoolKey} {space : FreeSpace}
    (h : registry.setSpace key space = .ok next) : next.loaded = registry.loaded ∧
      next.resources = registry.resources ∧ next.pools.keys = registry.pools.keys := by
  unfold Registry.setSpace at h
  repeat' split at h
  all_goals cases h
  exact ⟨rfl, rfl, SortedMap.keys_modify ..⟩

theorem refreshPools_keeps {keys : List PoolKey} : ∀ (service : Service) (done : Nat),
    Refreshed service (service.refreshPools done keys).2 := by
  induction keys with
  | nil => exact fun _ _ => ⟨rfl, rfl, rfl, rfl, rfl, rfl⟩
  | cons key rest ih =>
    intro service done
    unfold refreshPools
    split
    · exact ⟨rfl, rfl, rfl, rfl, rfl, rfl⟩
    rename_i backend _
    split
    · exact ⟨rfl, rfl, rfl, rfl, rfl, rfl⟩
    · rename_i registry hset
      obtain ⟨hloaded, hresources, hkeys⟩ := setSpace_ok hset
      have hstep : Refreshed service { service with backend, registry } :=
        ⟨rfl, hloaded, hresources, hkeys, rfl, rfl⟩
      exact hstep.trans (ih _ _)

theorem refreshSpace_keeps (service : Service) : Refreshed service service.refreshSpace.2 := by
  unfold refreshSpace
  split
  · exact ⟨rfl, rfl, rfl, rfl, rfl, rfl⟩
  · rename_i pools _
    have hkeeps := @refreshPools_keeps (backedPools pools) service 0
    generalize service.refreshPools 0 (backedPools pools) = answer at hkeeps
    obtain ⟨result, next⟩ := answer
    cases result with
    | error fault => exact hkeeps
    | ok done => exact hkeeps.trans ⟨rfl, rfl, rfl, rfl, rfl, rfl⟩

/-! ## The load -/

section Load

variable {service : Service} (hfresh : service.registry.loaded = false) {doc : Document}
  (hdoc : service.store.document = .ok doc) {graph : Graph} (hgraph : Graph.load doc = .ok graph)
include hdoc hgraph

theorem readGraph_ok : ∃ read, service.readGraph = (.ok graph, read) ∧ read.Noted service := by
  unfold readGraph
  rw [hdoc]
  dsimp only
  rw [hgraph]
  refine ⟨_, rfl, (note_noted ..).trans ((notePasses_noted ..).trans ?_)⟩
  exact (noteRead_noted _).trans ((noteRead_noted _).trans (noteRead_noted service))

include hfresh

/-- A load of a document that loads puts its graph in. -/
theorem load_eq : service.load.2.store = service.store ∧ service.load.2.registry = {
    loaded := true
    resources := graph.resources
    pools := graph.pools
    layers := graph.layerCount } := by
  obtain ⟨read, hread, hnoted⟩ := readGraph_ok hdoc hgraph
  have hnew : read.registry.loaded = false := by rw [hnoted.registry, hfresh]
  simp only [load, hfresh, hread, install, Registry.install, hnew, Bool.false_eq_true, if_false]
  exact ⟨hnoted.store, rfl⟩

/-- A load leaves all that a service is set up with. -/
theorem load_setup : service.load.2.tolerance = service.tolerance ∧
    service.load.2.retry = service.retry ∧ service.load.2.backend = service.backend := by
  obtain ⟨read, hread, hnoted⟩ := readGraph_ok hdoc hgraph
  have hnew : read.registry.loaded = false := by rw [hnoted.registry, hfresh]
  simp only [load, hfresh, hread, install, Registry.install, hnew, Bool.false_eq_true, if_false]
  exact ⟨hnoted.tolerance, hnoted.retry, hnoted.backend⟩

end Load

theorem load_loaded {service : Service} (h : service.registry.loaded = true) :
    service.load = (.error .alreadyLoaded, service) := by
  simp only [load, h, if_true]

/-! ## Moves -/

/-- What a move changes of what a service keeps and holds: nothing, by a report that is taken in, or
by a refresh. -/
inductive Moves (service next : Service) : Prop where
  | kept (h : next.Agrees service)
  | applied {report : Report} {merged : Merged} (h : service.Applied report merged next)
  | refreshed (h : Refreshed service next)

theorem handle_moves (service : Service) (report : Report) :
    service.Moves (service.handle report).2 := by
  rcases service.handle_cases report with ⟨fault, -, hrefused⟩ | ⟨merged, -, happlied⟩
  · exact .kept hrefused.kept
  · exact .applied happlied

end Service
end BlockStack
