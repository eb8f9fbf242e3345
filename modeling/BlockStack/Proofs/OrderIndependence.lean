import BlockStack.Proofs.Commutation
import BlockStack.Proofs.Operations
import BlockStack.Proofs.StoreCalls

/-!
# BlockStack.Proofs.OrderIndependence

The order in which reports for different resources come does not matter, over a store in which rows
can be saved and a steady backend.

* `Service.Shows`: a service is as a view says. `Service.Shows.settles`: a report that is settled
  does to the service what it does to the view.
* `Service.handleInOrder`: reports taken in one by one. `Service.Shows.handleAll`: a batch gives what
  the view says of its reports, one by one.
* `Service.handleAll_eq_inOrder`: any order that keeps the order of reports for one resource, and a
  batch, give what the reports give one by one.
-/

namespace BlockStack

namespace Service

/-! ## Services and views -/

/-- A service that can save rows is as a view says. -/
structure Shows (service : Service) (view : View) : Prop where
  saves : service.store.Saves
  tolerance : service.tolerance = view.tolerance
  registry : service.registry = view.registry
  metrics : service.metrics = view.metrics
  document : ∃ doc, service.Synced doc ∧ doc.catalog = view.catalog ∧
    ∀ key, doc.rowsFor key = view.rows key

variable {start service next : Service} {view : View} {report : Report}

theorem Synced.shows {doc : Document} (h : service.Synced doc) (hsaves : service.store.Saves) :
    service.Shows {
      tolerance := service.tolerance
      objects := service.backend.objects
      registry := service.registry
      metrics := service.metrics
      catalog := doc.catalog
      rows := doc.rowsFor } :=
  ⟨hsaves, rfl, rfl, rfl, doc, h, rfl, fun _ => rfl⟩

/-- A service that has only counted shows other counters. -/
theorem Shows.of_agrees (h : service.Shows view) (hagrees : next.Agrees service) {metrics : Metrics}
    (hmetrics : next.metrics = metrics) : next.Shows { view with metrics } where
  saves := hagrees.store ▸ h.saves
  tolerance := hagrees.tolerance.trans h.tolerance
  registry := hagrees.registry.trans h.registry
  metrics := hmetrics
  document := by
    obtain ⟨doc, hsynced, hview⟩ := h.document
    exact ⟨doc, hsynced.of_eq hagrees.store (congrArg Registry.loaded hagrees.registry)
      (congrArg Registry.resources hagrees.registry), hview⟩

theorem Shows.of_still (h : service.Shows view) (hstill : next.Still service) : next.Shows view :=
  h.of_agrees hstill.toAgrees (hstill.metrics.trans h.metrics)

theorem Shows.refused (h : service.Shows view) {fault : Fault}
    (hrefused : service.Refused report fault next) : next.Shows (view.absorb (.error fault)) :=
  h.of_agrees hrefused.kept (by rw [hrefused.metrics, h.metrics])

theorem Shows.applied (h : service.Shows view) {merged : Merged}
    (happlied : service.Applied report merged next) : next.Shows (view.absorb (.ok merged)) where
  saves := h.saves.of_save happlied.saved
  tolerance := happlied.tolerance.trans h.tolerance
  registry := by rw [happlied.registry, h.registry]; rfl
  metrics := by rw [happlied.metrics, h.metrics]; rfl
  document := by
    obtain ⟨doc, hsynced, hcatalog, hrows⟩ := h.document
    obtain ⟨resource, call, -, hmirrors, hnow⟩ := hsynced.renews happlied
    have hrenewal := hmirrors.renewal hsynced.consistent call
    rw [← hnow] at hrenewal
    refine ⟨_, hsynced.applied happlied, hcatalog, fun key => ?_⟩
    -- the new rows go to the end of the document, but each resource keeps its own order
    show _ = Function.update view.rows merged.resource.key merged.resource.rows key
    by_cases hkey : key = merged.resource.key
    · rw [hkey, Document.rowsFor_replaced hrenewal.consistent.keyed hrenewal.admits,
        Function.update_self]
    · rw [Document.rowsFor_kept hrenewal.consistent.keyed hrenewal.admits hkey, hrows,
        Function.update_of_ne hkey]

/-! ## One report -/

theorem Shows.resourceFor (h : service.Shows view) (report : Report) :
    service.resourceFor report = view.held report := by
  unfold Service.resourceFor
  rw [h.registry]
  rfl

theorem Shows.prepare (h : service.Shows view) {resource : Resource}
    (hheld : view.held report = .ok resource) :
    (service.prepare resource report (Backend.known view.objects resource.identifiers)).1 =
      view.outcome report := by
  simp only [View.outcome, hheld, Service.prepare, note, h.registry, h.tolerance]
  cases view.registry.allPools with
  | error fault => rfl
  | ok pools =>
    dsimp only
    cases resource.merge pools (Backend.known view.objects resource.identifiers) view.tolerance
      report <;> rfl

theorem commit_saves {doc : Document} (hsaves : service.store.Saves)
    (hdoc : service.store.document = .ok doc) (report : Report) (merged : Merged) :
    (service.commit report merged).1 = .ok merged.summary ∧
      service.Committed merged (service.commit report merged).2 := by
  rcases service.commit_cases report merged with ⟨fault, hres, -⟩ | hcommitted
  · obtain ⟨next, hsave, -⟩ := hsaves.save hdoc merged.resource.key merged.resource.rows
    have hread := (noteRead_noted service).store
    simp only [commit, hdoc, hread, hsave] at hres
    cases hres
  · exact hcommitted

/-- What becomes of a report, once the backend has told what it knows. -/
theorem Shows.conclude (h : service.Shows view) {resource : Resource}
    (hheld : view.held report = .ok resource) {facts : FactsMap}
    (hfacts : facts = Backend.known view.objects resource.identifiers) :
    (service.conclude resource report (.ok facts)).1 = (view.outcome report).map (·.summary) ∧
      (service.conclude resource report (.ok facts)).2.Shows (view.take report) := by
  have hfor := (h.resourceFor report).trans hheld
  have hprepare := h.prepare hheld
  rw [← hfacts] at hprepare
  have hready := (service.prepare_noted resource report facts).toStill
  rw [View.take]
  cases houtcome : view.outcome report with
  | error fault =>
    rw [conclude_unmerged (hprepare.trans houtcome)]
    exact ⟨rfl, h.refused (Service.refused hready ..)⟩
  | ok merged =>
    obtain ⟨pools, hpools, hmerge⟩ := prepare_ok (hprepare.trans houtcome)
    obtain ⟨key, hkey, hfind⟩ := resourceFor_ok hfor
    rw [conclude_merged (hprepare.trans houtcome)]
    obtain ⟨doc, hsynced, -⟩ := h.document
    obtain ⟨hres, hcommitted⟩ :=
      commit_saves (hready.store ▸ h.saves) (hready.store ▸ hsynced.document) report merged
    exact ⟨hres, h.applied ⟨hcommitted.of_still hready,
      key, resource, pools, facts, hkey, hfind, hpools, hmerge⟩⟩

/-- What becomes of a report that a steady backend is asked for. -/
theorem Shows.settles (h : service.Shows view) (hsure : start.Sure)
    (hobjects : view.objects = start.backend.objects) {result : Except Fault MergeSummary}
    (hsettles : start.Settles service report result next) :
    result = (view.outcome report).map (·.summary) ∧ next.Shows (view.take report) := by
  obtain ⟨facts, hanswers, hresult, hstill⟩ := hsettles
  suffices hby : (service.handleBy (fun _ => (facts, service.backend)) report).1 =
        (view.outcome report).map (·.summary) ∧
      (service.handleBy (fun _ => (facts, service.backend)) report).2.Shows (view.take report) from
    ⟨hresult.trans hby.1, hby.2.of_still hstill⟩
  have hfor := h.resourceFor report
  cases hheld : view.held report with
  | error fault =>
    have houtcome : view.outcome report = .error fault := by simp only [View.outcome, hheld]
    rw [hheld] at hfor
    simp only [View.take, houtcome, handleBy, hfor]
    exact ⟨rfl, h.refused (Service.refused (.refl service) ..)⟩
  | ok resource =>
    rw [hheld] at hfor
    cases hanswers resource hfor hsure
    simp only [handleBy, hfor]
    exact h.conclude hheld (by rw [hobjects])

/-- A report that comes alone is settled with what the own backend answers. -/
theorem handle_settles (service : Service) (report : Report) :
    service.Settles service report (service.handle report).1 (service.handle report).2 := by
  simp only [handle]
  cases hfor : service.resourceFor report with
  | error fault => exact settles_unknown hfor
  | ok resource =>
    have hasked := withBackend_still service
      (service.backend.ask (some service.retry) (factsCall resource)).2
    have hconclude := hasked.conclude resource report
      (service.backend.ask (some service.retry) (factsCall resource)).1
    exact settles_conclude hfor (fun hsure => (Backend.Steady.ask hsure _).1) hconclude.1 hconclude.2

/-- A backend that is steady answers the next report just as well. -/
theorem handle_onward (service : Service) (report : Report) :
    service.Onward (service.handle report).2 := by
  have hretry : (service.handle report).2.retry = service.retry := by
    rcases service.handle_cases report with ⟨fault, -, hrefused⟩ | ⟨merged, -, happlied⟩
    · exact hrefused.kept.retry
    · exact happlied.retry
  have hbackend : service.Sure → (service.handle report).2.backend.Steady service.retry ∧
      (service.handle report).2.backend.objects = service.backend.objects := by
    intro hsure
    simp only [handle]
    cases hfor : service.resourceFor report with
    | error fault =>
      dsimp only
      rw [(service.refuse_spec report fault).2.2.2]
      exact ⟨hsure, rfl⟩
    | ok resource =>
      dsimp only
      rw [conclude_backend]
      exact (Backend.Steady.ask hsure resource.identifiers).2
  exact ⟨hretry, fun hsure => (hbackend hsure).1, fun hsure => (hbackend hsure).2⟩

/-! ## Reports one after the other -/

/-- Reports taken in one by one, each alone. -/
def handleInOrder (service : Service) :
    List Item → List (Nat × Except Fault MergeSummary) × Service
  | [] => ([], service)
  | item :: rest =>
    let (result, next) := service.handle item.2
    let (results, last) := next.handleInOrder rest
    ((item.1, result) :: results, last)

theorem Shows.inOrder (items : List Item) : ∀ {service : Service} {view : View},
    service.Shows view → service.Sure → view.objects = service.backend.objects →
    (service.handleInOrder items).1 = (view.run items).1 ∧
      (service.handleInOrder items).2.Shows (view.run items).2 := by
  induction items with
  | nil => exact fun h _ _ => ⟨rfl, h⟩
  | cons item rest ih =>
    intro service view h hsure hobjects
    obtain ⟨hresult, hnext⟩ := h.settles hsure hobjects (service.handle_settles item.2)
    have honward := service.handle_onward item.2
    obtain ⟨hresults, hlast⟩ := ih hnext (honward.sure hsure)
      ((View.objects_take ..).trans (hobjects.trans (honward.objects hsure).symm))
    simp only [handleInOrder, View.run]
    exact ⟨congrArg₂ _ (congrArg _ hresult) hresults, hlast⟩

theorem TakesIn.shows (hstart : start.Shows view) (hsure : start.Sure)
    (hobjects : view.objects = start.backend.objects) {order : List Item}
    {results : List (Nat × Except Fault MergeSummary)} {last : Service}
    (h : start.TakesIn order results last) :
    results = (view.run order).1 ∧ last.Shows (view.run order).2 := by
  induction h with
  | start hstill => exact ⟨rfl, hstart.of_still hstill⟩
  | settles _ hsettles ih =>
    obtain ⟨hresult, hnext⟩ := ih.2.settles hsure ((View.objects_run ..).trans hobjects) hsettles
    rw [View.run_concat, ← ih.1, ← hresult]
    exact ⟨rfl, hnext⟩
  | still _ hstill ih => exact ⟨ih.1, ih.2.of_still hstill⟩

/-! ## Any order -/

/-- Two services hold the same resources, have counted the same, and keep the same catalog and the
same rows of each resource. -/
structure Alike (a b : Service) : Prop where
  registry : a.registry = b.registry
  metrics : a.metrics = b.metrics
  document : ∃ docA docB, a.store.document = .ok docA ∧ b.store.document = .ok docB ∧
    docA.catalog = docB.catalog ∧ ∀ key, docA.rowsFor key = docB.rowsFor key

theorem Shows.alike {a b : Service} (ha : a.Shows view) (hb : b.Shows view) : a.Alike b where
  registry := ha.registry.trans hb.registry.symm
  metrics := ha.metrics.trans hb.metrics.symm
  document := by
    obtain ⟨docA, hdocA, hcatalogA, hrowsA⟩ := ha.document
    obtain ⟨docB, hdocB, hcatalogB, hrowsB⟩ := hb.document
    exact ⟨docA, docB, hdocA.document, hdocB.document, hcatalogA.trans hcatalogB.symm,
      fun key => (hrowsA key).trans (hrowsB key).symm⟩

theorem Moves.saves (h : service.Moves next) (hsaves : service.store.Saves) :
    next.store.Saves := by
  cases h with
  | kept hagrees => exact hagrees.store ▸ hsaves
  | applied happlied => exact hsaves.of_save happlied.saved
  | refreshed hkeeps => exact hkeeps.store ▸ hsaves

/-- Results that are told in place, of reports that are numbered in their order. -/
theorem InPlace.eq_map {results : List (Nat × Except Fault MergeSummary)}
    {told : List (Except Fault MergeSummary)} (h : InPlace results told) {n : Nat}
    (htags : results.map (·.1) = List.range n) : told = results.map (·.2) := by
  have htag : ∀ (i : Nat) (entry : Nat × Except Fault MergeSummary), results[i]? = some entry →
      entry.1 = i := by
    intro i entry hentry
    have hrange : (List.range n)[i]? = some entry.1 := by
      rw [← htags, List.getElem?_map, hentry]
      rfl
    obtain ⟨hlt, heq⟩ := List.getElem?_eq_some_iff.1 hrange
    rw [← heq, List.getElem_range]
  refine List.ext_getElem? fun i => Option.ext fun result => ?_
  rw [h i result, List.getElem?_map, Option.map_eq_some_iff, List.mem_iff_getElem?]
  constructor
  · rintro ⟨j, hj⟩
    cases htag j _ hj
    exact ⟨_, hj, rfl⟩
  · rintro ⟨entry, hentry, rfl⟩
    exact ⟨i, by rw [hentry, ← htag i entry hentry]⟩

/-- Whatever a service has done since its load, it shows what it keeps. -/
theorem exists_shows {doc : Document} {graph : Graph} (hfresh : service.registry.loaded = false)
    (hsaves : service.store.Saves) (hdoc : service.store.document = .ok doc)
    (hgraph : Graph.ofDocument doc = .ok graph) (operations : List Operation) :
    ∃ view, (service.load.2.operateAll operations).Shows view ∧
      view.objects = (service.load.2.operateAll operations).backend.objects := by
  have hsynced := synced_load hfresh hsaves.grounded hdoc hgraph
  have hleads : service.load.2.Leads (service.load.2.operateAll operations) :=
    operateAll_leads hsynced.loaded
  obtain ⟨hstore, -⟩ := load_eq hfresh hdoc (Graph.ofDocument_eq_ok_iff.1 hgraph)
  obtain ⟨now, hnow⟩ := hsynced.leads hleads
  have hlast := hleads.keeps (P := fun state => state.store.Saves) Moves.saves (hstore ▸ hsaves)
  exact ⟨_, hnow.shows hlast, rfl⟩

/-- A batch gives what a view says of its reports one by one, whatever its pauses are. -/
theorem Shows.handleAll (h : start.Shows view) (hsure : start.Sure)
    (hobjects : view.objects = start.backend.objects) (reports : List Report) (pauses : Pauses) :
    (start.handleAll reports pauses).1 = (view.run (itemsOf reports)).1.map (·.2) ∧
      (start.handleAll reports pauses).2.Shows (view.run (itemsOf reports)).2 := by
  obtain ⟨order, settled, horder, htaken, -, hplaces⟩ := start.handleAll_linear reports pauses
  obtain ⟨hsettled, hlast⟩ := htaken.shows h hsure hobjects
  obtain ⟨hperm, hsame⟩ := View.run_reordered horder view
  have hinPlace : InPlace (view.run (itemsOf reports)).1 (start.handleAll reports pauses).1 :=
    fun i result => (hplaces i result).trans (hsettled ▸ hperm.mem_iff)
  have htags : (view.run (itemsOf reports)).1.map (·.1) = List.range reports.length := by
    rw [View.tags_run, tags_itemsOf]
  exact ⟨hinPlace.eq_map htags, hsame ▸ hlast⟩

/-- The order in which reports for different resources come does not matter, whatever a service has
done since its load: in any order that keeps the order of reports for one resource, and in a batch,
each report gives what it gives when the reports are taken in one by one, and so do the resources,
the counters, the catalog and the rows of each resource. A batch has a result for each report, in
the order of the reports, whatever its pauses are. -/
theorem handleAll_eq_inOrder {doc : Document} {graph : Graph}
    (hfresh : service.registry.loaded = false) (hmemory : service.store = .memory doc)
    (hgraph : Graph.ofDocument doc = .ok graph) (operations : List Operation)
    (hstart : start = service.load.2.operateAll operations) (hsure : start.Sure)
    (reports : List Report) :
    (∀ order, Reordered order (itemsOf reports) →
      (start.handleInOrder order).1.Perm (start.handleInOrder (itemsOf reports)).1 ∧
        (start.handleInOrder order).2.Alike (start.handleInOrder (itemsOf reports)).2) ∧
    ∀ pauses, (start.handleAll reports pauses).1 =
        (start.handleInOrder (itemsOf reports)).1.map (·.2) ∧
      (start.handleAll reports pauses).1.length = reports.length ∧
      (start.handleAll reports pauses).2.Alike (start.handleInOrder (itemsOf reports)).2 := by
  obtain ⟨view, hshows, hobjects⟩ := exists_shows hfresh (by rw [hmemory]; trivial)
    (by rw [hmemory]; rfl) hgraph operations
  rw [← hstart] at hshows hobjects
  obtain ⟨hresults, hlast⟩ := hshows.inOrder (itemsOf reports) hsure hobjects
  rw [hresults]
  refine ⟨fun order horder => ?_, fun pauses => ?_⟩
  · obtain ⟨hother, hend⟩ := hshows.inOrder order hsure hobjects
    obtain ⟨hperm, hsame⟩ := View.run_reordered horder view
    rw [hother]
    exact ⟨hperm, (hsame ▸ hend).alike hlast⟩
  · obtain ⟨htold, hend⟩ := hshows.handleAll hsure hobjects reports pauses
    obtain ⟨-, -, -, -, hlength, -⟩ := start.handleAll_linear reports pauses
    exact ⟨htold, hlength, hend.alike hlast⟩

/-- Two resources with a volume on an encryption layer each. -/
def siblingsDocument : Document where
  catalog := {
    definitions := [{ name := "d" }]
    resources := [{ key := ⟨"n", "r", none⟩, definition := "d" },
      { key := ⟨"n", "s", none⟩, definition := "d" }] }
  layers := [
    { id := 1, kind := "ENCRYPTION", owner := ⟨"n", "r", none⟩ },
    { id := 2, kind := "ENCRYPTION", owner := ⟨"n", "s", none⟩ }]
  volumes := [
    { layer := 1, number := 0, expectedSizeKib := 8, payload := .encryption none false },
    { layer := 2, number := 0, expectedSizeKib := 8, payload := .encryption none false }]

/-- A service that keeps the two resources in memory. -/
def siblings : Service where
  retry := {}
  tolerance := 2
  store := .memory siblingsDocument
  backend := { name := "b" }

/-- A report that tells whether the volume of a resource is open. -/
def openReport (resource : String) (isOpen : Bool) : Report where
  node := some "n"
  resource := some resource
  roots := [.mk
    { kind := some "ENCRYPTION", suffix := some ""
      volumes := [{ number := some 0, isOpen := some isOpen }] } []]

/-- Two reports for one of the resources, one for the other, and one that names none. -/
def siblingReports : List Report :=
  [openReport "r" true, openReport "s" true, {}, openReport "r" false]

/-- The same reports in another order; the two for one resource have kept theirs. -/
def siblingOrder : List Item :=
  [(2, {}), (1, openReport "s" true), (0, openReport "r" true), (3, openReport "r" false)]

theorem siblingOrder_reordered : Reordered siblingOrder (itemsOf siblingReports) where
  perm := (List.reverse_perm
    [(0, openReport "r" true), (1, openReport "s" true), (2, {})]).append_right [(3, _)]
  kept key := by
    have hunnamed : named (some key) (2, {}) = false := rfl
    by_cases hkey : key = ⟨"n", "s", none⟩
    · subst hkey
      rfl
    · have hother : named (some key) (1, openReport "s" true) = false :=
        decide_eq_false fun h => hkey (Option.some.inj h).symm
      show siblingOrder.filter _ = List.filter _ [(0, openReport "r" true),
        (1, openReport "s" true), (2, {}), (3, openReport "r" false)]
      simp [siblingOrder, List.filter_cons, hunnamed, hother]

set_option maxRecDepth 4000 in
/-- Reports for two resources and one that names none may come in another order, and a batch of them
takes the first in. -/
theorem handleAll_eq_inOrder_siblings :
    siblings.load.2.Sure ∧ Reordered siblingOrder (itemsOf siblingReports) ∧
      (siblings.load.2.handleInOrder siblingOrder).2.Alike
        (siblings.load.2.handleInOrder (itemsOf siblingReports)).2 ∧
      (siblings.load.2.handleAll siblingReports).2.Alike
        (siblings.load.2.handleInOrder (itemsOf siblingReports)).2 ∧
      (siblings.load.2.handleAll siblingReports).1.head?.map (fun result => result.toOption.isSome) =
        some true := by
  have hsure : siblings.load.2.Sure := ⟨by cbv, .inl (by cbv)⟩
  obtain ⟨graph, hgraph⟩ := Resource.exists_of_isSome
    (show (Graph.ofDocument siblingsDocument).toOption.isSome = true by cbv)
  obtain ⟨hany, hbatches⟩ := handleAll_eq_inOrder rfl rfl hgraph []
    (show siblings.load.2 = _ from rfl) hsure siblingReports
  obtain ⟨hbatch, -, hlast⟩ := hbatches siblings.load.2.retry.pauses
  have htaken : (siblings.load.2.handle (openReport "r" true)).1.toOption.isSome = true := by cbv
  refine ⟨hsure, siblingOrder_reordered, (hany _ siblingOrder_reordered).2, hlast, ?_⟩
  rw [hbatch]
  show some (siblings.load.2.handle (openReport "r" true)).1.toOption.isSome = some true
  rw [htaken]

end Service
end BlockStack
