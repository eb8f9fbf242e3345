import BlockStack.Proofs.Effects
import BlockStack.Proofs.Representation

/-!
# BlockStack.Proofs.Pools

A service that was loaded never misses a pool.

* `StoragePool.terms`: what no refresh changes of a pool.
* `Service.Stocked`: the invariant. The index has the pools of the catalog, and the catalog has the
  pools of all volumes. `Service.Stocked.step` is preservation.
* `Backend.ask_fault`: the faults of a backend that is asked.
* `Service.Stocked.handleBy_fault`: what a report can fail by.
* `Service.pools_supplied`: the invariant after any run, with what follows for reports.
-/

namespace BlockStack

/-! ## The index -/

/-- A pool without its space. -/
def StoragePool.terms (pool : StoragePool) : StoragePool := pool.withSpace ⟨0, 0⟩

@[simp] theorem StoragePool.terms_withSpace (pool : StoragePool) (space : FreeSpace) :
    (pool.withSpace space).terms = pool.terms := rfl

@[simp] theorem StoragePool.provider_terms (pool : StoragePool) :
    pool.terms.provider = pool.provider := rfl

/-- The index of a registry has a pool with a provider. -/
def Registry.Offers (registry : Registry) (key : PoolKey) (provider : ProviderKind) : Prop :=
  ∃ pool, registry.pools.get? key = some pool ∧ pool.provider = provider

theorem Registry.setSpace_terms {registry next : Registry} {key : PoolKey} {space : FreeSpace}
    (h : registry.setSpace key space = .ok next) (other : PoolKey) :
    (next.pools.get? other).map StoragePool.terms =
      (registry.pools.get? other).map StoragePool.terms := by
  unfold setSpace at h
  repeat' split at h
  all_goals cases h
  by_cases hkey : other = key
  · subst hkey
    rw [SortedMap.get?_modify_self, Option.map_map]
    rfl
  · rw [SortedMap.get?_modify_of_ne _ _ hkey]

namespace Service

variable {service next : Service} {catalog : Catalog}

/-- Refreshes that fail halfway keep the terms of all pools, too. -/
theorem refreshPools_terms (other : PoolKey) (keys : List PoolKey) : ∀ (service : Service) (done : Nat),
    ((service.refreshPools done keys).2.registry.pools.get? other).map StoragePool.terms =
      (service.registry.pools.get? other).map StoragePool.terms := by
  induction keys with
  | nil => exact fun _ _ => rfl
  | cons key rest ih =>
    intro service done
    unfold refreshPools
    split
    · rfl
    split
    · rfl
    · rename_i hset
      exact (ih _ _).trans (Registry.setSpace_terms hset other)

theorem refreshSpace_terms (service : Service) (other : PoolKey) :
    (service.refreshSpace.2.registry.pools.get? other).map StoragePool.terms =
      (service.registry.pools.get? other).map StoragePool.terms := by
  unfold refreshSpace
  split
  · rfl
  · rename_i pools _
    have hkeeps := refreshPools_terms other (backedPools pools) service 0
    generalize service.refreshPools 0 (backedPools pools) = answer at hkeeps
    obtain ⟨result, next⟩ := answer
    cases result <;> exact hkeeps

/-! ## The invariant -/

/-- The index of a loaded service has the pools of a catalog, up to their space, and the catalog has
the pool of each volume, with the provider of the volume. -/
structure Stocked (service : Service) (catalog : Catalog) : Prop where
  loaded : service.registry.loaded = true
  index : ∀ key, (service.registry.pools.get? key).map StoragePool.terms =
    (catalog.pool? key).map StoragePool.terms
  resources : ∀ resource ∈ service.registry.resources.values,
    resource.tree.WellFormed ∧ resource.tree.PoolsIn resource.key.node catalog.Offers

theorem Stocked.offers (h : service.Stocked catalog) {key : PoolKey} {provider : ProviderKind}
    (hoffers : catalog.Offers key provider) : service.registry.Offers key provider := by
  obtain ⟨pool, hpool, hprovider⟩ := hoffers
  have hindex := h.index key
  rw [hpool, Option.map_some] at hindex
  obtain ⟨indexed, hget, hterms⟩ := Option.map_eq_some_iff.1 hindex
  exact ⟨indexed, hget, (congrArg StoragePool.provider hterms).trans hprovider⟩

/-- A resource that a report was merged into keeps its pools. -/
theorem Stocked.applied (h : service.Stocked catalog) {report : Report} {merged : Merged}
    (happlied : service.Applied report merged next) : next.Stocked catalog := by
  have hregistry := happlied.registry
  refine ⟨hregistry ▸ h.loaded, hregistry ▸ h.index, fun resource hresource => ?_⟩
  rcases happlied.mem_values hresource with hkept | ⟨rfl, old, hold, pools, facts, hmerge⟩
  · exact h.resources resource hkept
  · obtain ⟨hwell, hpools⟩ := h.resources old hold
    let call : MergeCall := { report, facts, pools, tolerance := service.tolerance }
    obtain ⟨hagrees, -⟩ := @Resource.take_agrees old call hwell.nodup merged hmerge
    rw [hagrees.key]
    exact ⟨LayerTree.wellFormed_authored_congr hagrees.tree.symm hwell,
      hpools.congr hagrees.tree.symm⟩

/-- Whatever occurs, the index keeps the pools of the catalog. -/
theorem Stocked.step (h : service.Stocked catalog) (occurrence : Occurrence) :
    (service.step occurrence).Stocked catalog := by
  cases occurrence with
  | report report =>
    rcases service.handle_cases report with ⟨fault, -, hrefused⟩ | ⟨merged, -, happlied⟩
    · have hsame : (service.step (.report report)).registry = service.registry :=
        hrefused.kept.registry
      exact ⟨hsame ▸ h.loaded, hsame ▸ h.index, hsame ▸ h.resources⟩
    · exact h.applied happlied
  | refresh =>
    have hkeeps := service.refreshSpace_keeps
    exact ⟨hkeeps.loaded.trans h.loaded,
      fun key => (service.refreshSpace_terms key).trans (h.index key), hkeeps.resources ▸ h.resources⟩
  | backend backend => exact ⟨h.loaded, h.index, h.resources⟩

theorem Stocked.run {occurrences : List Occurrence} : ∀ {service : Service},
    service.Stocked catalog → (service.run occurrences).Stocked catalog := by
  induction occurrences with
  | nil => exact fun h => h
  | cons occurrence rest ih => exact fun h => ih (h.step occurrence)

/-- A load puts in the pools of the catalog, and has checked that they are those of all volumes. -/
theorem stocked_load {doc : Document} {graph : Graph} (hfresh : service.registry.loaded = false)
    (hdoc : service.store.document = .ok doc) (hgraph : Graph.ofDocument doc = .ok graph) :
    service.load.2.Stocked doc.catalog := by
  obtain ⟨-, hregistry⟩ := load_eq hfresh hdoc (Graph.ofDocument_eq_ok_iff.1 hgraph)
  obtain ⟨hconsistent, hloaded⟩ := Graph.loaded_ofDocument hgraph
  refine ⟨by rw [hregistry], fun key => ?_, fun resource hresource => ?_⟩
  · rw [hregistry]
    exact congrArg (Option.map StoragePool.terms) (hloaded.pools key)
  · rw [hregistry] at hresource
    obtain ⟨key, hget⟩ := SortedMap.mem_values_iff.1 hresource
    obtain ⟨-, hmirrors⟩ := hloaded.mirrors hget
    exact ⟨Resource.wellFormed_of_loaded hgraph hresource, hmirrors.poolsIn hconsistent⟩

end Service

/-! ## Faults of a backend -/

namespace Backend

variable {α : Type} {call : Call α} {fault : Fault}

theorem arrive_fault {backend : Backend} (h : (backend.arrive call).1 = .error fault) :
    fault.faultClass = .storageLayer ∨ ∃ entered, call.perform entered = .error fault := by
  rw [arrive] at h
  by_cases hpending : 0 < backend.failuresPending
  · rw [if_pos hpending] at h
    cases h
    exact .inl rfl
  · rw [if_neg hpending] at h
    cases hperform : call.perform { backend with calls := backend.calls + 1 } with
    | ok answer =>
      rw [hperform] at h
      cases h
    | error cause =>
      rw [hperform] at h
      cases h
      exact .inr ⟨_, hperform⟩

theorem attempt_fault {timeout : Option UInt64} {backend : Backend}
    (h : (backend.attempt timeout call).1 = .error fault) :
    fault.faultClass = .storageLayer ∨ ∃ entered, call.perform entered = .error fault := by
  cases htaken : backend.takeStall with
  | mk stall rest =>
    rw [attempt, htaken] at h
    dsimp only at h
    by_cases hcut : isCutOff timeout stall = true
    · rw [if_pos hcut] at h
      cases h
      exact .inl rfl
    · rw [if_neg hcut] at h
      exact arrive_fault h

/-- A backend that is asked fails as a backend, or as the operation does. -/
theorem ask_fault {policy : Option RetryPolicy} {backend : Backend}
    (h : (backend.ask policy call).1 = .error fault) :
    fault.faultClass = .storageLayer ∨ ∃ entered, call.perform entered = .error fault := by
  cases policy with
  | none => exact attempt_fault h
  | some policy =>
    obtain ⟨last, hask⟩ :=
      exists_attempt (attempt (some policy.callTimeoutMs) call) (policy.attempts - 1) backend
    exact attempt_fault ((congrArg Prod.fst hask).symm.trans h)

end Backend

/-! ## Faults of a report -/

/-- The faults of a report for which neither the service nor its store is to blame: it names what is
not there, it lacks a volume, or the backend fails. -/
def Fault.IsForeseen : Fault → Prop
  | .resourceNotFound _ | .unknownObject .. | .missingVolume .. => True
  | .backendUnavailable _ | .backendFailed .. | .backendTimeout .. => True
  | _ => False

theorem Fault.isForeseen_of_class {fault : Fault} (h : fault.faultClass = .storageLayer) :
    fault.IsForeseen := by
  cases fault <;> first | exact trivial | cases h

/-- A store fails with a fault when the document is read or rows are saved. -/
def Store.Fails (store : Store) (fault : Fault) : Prop :=
  store.document = .error fault ∨ ∃ key rows, store.save key rows = .error fault

theorem Store.not_fails_memory (document : Document) (fault : Fault) :
    ¬ (Store.memory document).Fails fault := by
  rintro (h | ⟨_, _, h⟩) <;> cases h

namespace Service

variable {service next : Service} {catalog : Catalog} {report : Report} {resource : Resource}
  {fault : Fault}

theorem resourceFor_fault (hloaded : service.registry.loaded = true)
    (h : service.resourceFor report = .error fault) : fault.IsForeseen := by
  unfold resourceFor at h
  split at h
  · cases h
    exact trivial
  · rename_i hother hkey
    obtain ⟨field, rfl⟩ := Resource.key_fault hkey
    exact absurd rfl (hother field)
  · unfold Registry.find at h
    rw [if_pos hloaded] at h
    split at h <;> cases h
    exact trivial

/-- The merge of a report never misses a pool. -/
theorem Stocked.prepare_fault (h : service.Stocked catalog)
    (hresource : resource ∈ service.registry.resources.values) {facts : FactsMap}
    (hfault : (service.prepare resource report facts).1 = .error fault) : fault.IsForeseen := by
  have hpools : service.registry.allPools = .ok service.registry.pools := if_pos h.loaded
  obtain ⟨hwell, hin⟩ := h.resources resource hresource
  unfold prepare at hfault
  simp only [note, hpools] at hfault
  split at hfault
  · rename_i rejection hmerge
    cases hfault
    let call : MergeCall :=
      { report, facts, pools := service.registry.pools, tolerance := service.tolerance }
    obtain ⟨hrefuses, hlacks⟩ := @Resource.take_lacks resource call hwell _ hin _ hmerge
    generalize rejection.fault = fault at hrefuses hlacks
    cases fault with
    | unknownObject _ _ | missingVolume _ _ _ => exact trivial
    | internal message =>
      obtain ⟨key, provider, hoffers, hnone⟩ := hlacks message rfl
      obtain ⟨pool, hget, -⟩ := h.offers hoffers
      cases hget.symm.trans hnone
    | _ => exact hrefuses.elim
  · cases hfault

theorem commit_fault {merged : Merged} (h : (service.commit report merged).1 = .error fault) :
    service.store.Fails fault := by
  unfold commit at h
  dsimp only at h
  split at h
  · rename_i hdocument
    cases h
    exact .inl hdocument
  split at h
  · rename_i hsave
    cases h
    exact .inr ⟨_, _, (noteRead_noted service).store ▸ hsave⟩
  · cases h

/-- Whatever the backend answers, a report fails by a fault that is foreseen or by one of the store. -/
theorem Stocked.handleBy_fault (h : service.Stocked catalog)
    {answer : Backend.Call FactsMap → Except Fault FactsMap × Backend}
    (hanswer : ∀ resource fault, (answer (factsCall resource)).1 = .error fault →
      fault.faultClass = .storageLayer)
    (hfault : (service.handleBy answer report).1 = .error fault) :
    fault.IsForeseen ∨ service.store.Fails fault := by
  unfold handleBy at hfault
  split at hfault
  · rename_i hfor
    cases hfault
    exact .inl (resourceFor_fault h.loaded hfor)
  rename_i resource hfor
  obtain ⟨key, -, hfind⟩ := resourceFor_ok hfor
  have hresource := SortedMap.mem_values_iff.2 ⟨key, get?_of_find hfind⟩
  dsimp only at hfault
  generalize hfacts : (answer (factsCall resource)) = answered at hfault
  obtain ⟨facts, backend⟩ := answered
  cases facts with
  | error cause =>
    obtain rfl : cause = fault := Except.error.inj hfault
    exact .inl (Fault.isForeseen_of_class (hanswer resource cause (congrArg Prod.fst hfacts)))
  | ok facts =>
    have hready : Stocked { service with backend } catalog := ⟨h.loaded, h.index, h.resources⟩
    cases hprepare : (prepare { service with backend } resource report facts).1 with
    | error cause =>
      rw [conclude_unmerged hprepare] at hfault
      cases hfault
      exact .inl (hready.prepare_fault hresource hprepare)
    | ok merged =>
      rw [conclude_merged hprepare] at hfault
      have hstore := (prepare_noted { service with backend } resource report facts).store
      exact .inr (hstore ▸ commit_fault hfault)

/-- What a loaded service makes of pools: its index has the pools of the catalog, with their providers
and extents, and those of all volumes that it holds, with the providers of the volumes; so a report
fails only by a fault that is foreseen, or by one of the store. -/
structure Supplied (service : Service) (catalog : Catalog) : Prop where
  index : ∀ key, (service.registry.pools.get? key).map StoragePool.terms =
    (catalog.pool? key).map StoragePool.terms
  volumes : ∀ resource ∈ service.registry.resources.values,
    resource.tree.PoolsIn resource.key.node service.registry.Offers
  handles : ∀ report fault, (service.handle report).1 = .error fault →
    fault.IsForeseen ∨ service.store.Fails fault
  answered : ∀ answer, (∀ resource fault, (answer (factsCall resource)).1 = .error fault →
      fault.faultClass = .storageLayer) →
    ∀ report fault, (service.handleBy answer report).1 = .error fault →
      fault.IsForeseen ∨ service.store.Fails fault

theorem Stocked.supplied (h : service.Stocked catalog) : service.Supplied catalog where
  index := h.index
  volumes resource hresource node hnode number leaf hleaf volume hdata :=
    h.offers ((h.resources resource hresource).2 node hnode number leaf hleaf volume hdata)
  handles report fault hfault := by
    rw [handle_eq] at hfault
    refine h.handleBy_fault (fun resource fault hanswer => ?_) hfault
    -- the call for facts has no faults of its own
    rcases Backend.ask_fault hanswer with hclass | ⟨entered, hperform⟩
    · exact hclass
    · cases hperform
  answered _ hanswer _ _ hfault := h.handleBy_fault hanswer hfault

/-- Whatever reports, refreshes and other backends follow a load, no pool is ever missed. -/
theorem pools_supplied {doc : Document} {graph : Graph} (hfresh : service.registry.loaded = false)
    (hdoc : service.store.document = .ok doc) (hgraph : Graph.ofDocument doc = .ok graph)
    (occurrences : List Occurrence) :
    (service.load.2.run occurrences).Supplied doc.catalog :=
  (stocked_load hfresh hdoc hgraph).run.supplied

/-- A store in memory stays one in memory. -/
theorem Moves.inMemory (h : service.Moves next) (hstore : ∃ doc, service.store = .memory doc) :
    ∃ doc, next.store = .memory doc := by
  obtain ⟨doc, hstore⟩ := hstore
  cases h with
  | kept hagrees => exact ⟨doc, hagrees.store.trans hstore⟩
  | refreshed hkeeps => exact ⟨doc, hkeeps.store.trans hstore⟩
  | applied happlied =>
    have hsaved := happlied.saved
    rw [hstore] at hsaved
    exact ⟨_, (Except.ok.inj hsaved).symm⟩

theorem run_inMemory {occurrences : List Occurrence} : ∀ {service : Service},
    (∃ doc, service.store = .memory doc) → ∃ doc, (service.run occurrences).store = .memory doc := by
  induction occurrences with
  | nil => exact fun h => h
  | cons occurrence rest ih => exact fun h => ih ((step_moves _ occurrence).inMemory h)

/-- A backend that has the volume of the two layers, and the space of its pool. -/
def roomyBackend : Backend where
  name := "b"
  objects := Resource.pairCall.facts
  pools := .ofList [(⟨"n", "p"⟩, ⟨100, 40⟩)]

/-- After a report, a refresh and one that fails, the pool has its provider and its extents, with the
space that the first refresh set; a report that fails in memory fails by a fault that is foreseen. -/
theorem pools_supplied_pair : ∃ now,
    memoryPair.load.2.run [.report Resource.pairCall.report, .backend roomyBackend, .refresh,
      .backend { name := "b" }, .refresh] = now ∧
    now.registry.pools.get? ⟨"n", "p"⟩ = some {
      key := ⟨"n", "p"⟩, provider := .lvm, extentSizeKib := 4, capacityKib := 100, freeKib := 40 } ∧
    (now.registry.pools.get? ⟨"n", "p"⟩).map StoragePool.terms =
      (Resource.pairDocument.catalog.pool? ⟨"n", "p"⟩).map StoragePool.terms ∧
    ∀ report fault, (now.handle report).1 = .error fault → fault.IsForeseen := by
  refine ⟨_, rfl, by cbv, ?_, fun report fault hfault => ?_⟩
  · exact (pools_supplied rfl rfl Resource.ofDocument_pair _).index _
  · rcases (pools_supplied rfl rfl Resource.ofDocument_pair _).handles report fault hfault with
      hforeseen | hfails
    · exact hforeseen
    · have hloaded : memoryPair.load.2.store = memoryPair.store :=
        (load_eq rfl rfl (Graph.ofDocument_eq_ok_iff.1 Resource.ofDocument_pair)).1
      obtain ⟨doc, hstore⟩ := run_inMemory ⟨_, hloaded⟩
      exact absurd (hstore ▸ hfails) (Store.not_fails_memory doc fault)

end Service
end BlockStack
