import BlockStack.Proofs.Acceptance
import BlockStack.Proofs.FileStore
import BlockStack.Proofs.Reload
import BlockStack.Proofs.Replacement
import BlockStack.Proofs.Steps

/-!
# BlockStack.Proofs.Persistence

The document that is kept and the resources that are held never drift apart.

* `Occurrence`, `Service.run`: what may happen to a service after its load, in any order.
* `Service.Synced`: the invariant. The resources are what the rows of the document stand for, and
  the document is consistent. `Service.Synced.moves` is preservation, one case for each move.
* `Service.document_follows`: after any run the document loads, and gives the resources that are
  held, without the verdicts on sizes.
-/

namespace BlockStack

open BlockStack.Graph (Loaded)

/-! ## Plain layers -/

namespace MergeContext

variable {ctx : MergeContext}

/-- What is observed of a volume has attributes of its provider again. -/
theorem plain_observed {suffix : String} {number : UInt32} {leaf : VolumeLeaf}
    {reported : ReportedVolume} : (ctx.observed suffix number leaf reported).data.Plain := by
  intro volume hvolume
  unfold observed at hvolume
  cases hdata : leaf.data with
  | storage old =>
    simp only [hdata, VolumeData.storage.injEq] at hvolume
    subst hvolume
    exact Attributes.family_ofFields _ _
  | replication _ | encryption _ _ | remoteAttach =>
    simp only [hdata] at hvolume
    cases hvolume

theorem plain_observedNode (node : LayerNode) (reported : ReportedLayer) (h : node.Plain) :
    (ctx.observedNode node reported).Plain := by
  intro number leaf hget
  obtain ⟨before, hbefore, rfl | ⟨volume, rfl⟩⟩ := exists_before hget
  · exact h number leaf hbefore
  · exact ⟨(h number before hbefore).1, plain_observed⟩

end MergeContext

/-! ## Resources and documents -/

namespace Resource

variable {resource : Resource} {doc : Document}

/-- A report that is accepted renews a resource. -/
theorem Mirrors.renewal (h : resource.Mirrors doc) (hdoc : doc.Consistent) (call : MergeCall) :
    Renewal doc resource (resource.observed call) where
  consistent := hdoc
  key := rfl
  depicts := h.depicts
  authored := observed_authored
  plain := MergeContext.observedTree_keeps MergeContext.plain_observedNode h.depicts.plain

theorem Mirrors.replaced (h : resource.Mirrors doc) (hdoc : doc.Consistent) (call : MergeCall) :
    (resource.observed call).Mirrors
      (doc.replaceResource resource.key (resource.observed call).rows) where
  definition := h.definition
  depicts := (h.renewal hdoc call).depicts_replaced
  metadata := rfl

end Resource

/-! ## Runs -/

/-- What may happen to a service: a report comes in, the space of pools is asked for, or the backend
comes to be another. -/
inductive Occurrence where
  | report (report : Report)
  | refresh
  | backend (backend : Backend)

namespace Service

/-- The service after an occurrence. -/
def step (service : Service) : Occurrence → Service
  | .report report => (service.handle report).2
  | .refresh => service.refreshSpace.2
  | .backend backend => { service with backend }

/-- The service after some occurrences. -/
def run (service : Service) (occurrences : List Occurrence) : Service :=
  occurrences.foldl step service

/-- The resources that a service holds are what the rows of the document it keeps stand for. -/
structure Synced (service : Service) (doc : Document) : Prop where
  document : service.store.document = .ok doc
  grounded : service.store.Grounded
  consistent : doc.Consistent
  loaded : service.registry.loaded = true
  keys : ∀ key, (service.registry.resources.get? key).isSome =
    (doc.catalog.definitionOf? key).isSome
  mirrors : ∀ key resource, service.registry.resources.get? key = some resource →
    resource.key = key ∧ resource.Mirrors doc

variable {service next : Service} {doc : Document}

theorem Synced.of_eq (h : service.Synced doc) (hstore : next.store = service.store)
    (hloaded : next.registry.loaded = service.registry.loaded)
    (hresources : next.registry.resources = service.registry.resources) : next.Synced doc where
  document := hstore ▸ h.document
  grounded := hstore ▸ h.grounded
  consistent := h.consistent
  loaded := hloaded ▸ h.loaded
  keys := hresources ▸ h.keys
  mirrors := hresources ▸ h.mirrors

/-- A report that is taken in renews a resource of the document. -/
theorem Synced.renews (h : service.Synced doc) {report : Report} {merged : Merged}
    (happlied : service.Applied report merged next) :
    ∃ resource call, service.registry.resources.get? resource.key = some resource ∧
      resource.Mirrors doc ∧ merged.resource = resource.observed call := by
  obtain ⟨key, resource, pools, facts, -, hfind, -, hmerge⟩ := happlied.merge
  let call : MergeCall := { report, facts, pools, tolerance := service.tolerance }
  have hget := get?_of_find hfind
  obtain ⟨rfl, hmirrors⟩ := h.mirrors key resource hget
  obtain ⟨-, hnow⟩ :=
    (@Resource.take_eq_ok_iff resource call hmirrors.depicts.wellFormed merged.resource).1
      ⟨merged, hmerge, rfl⟩
  exact ⟨resource, call, hget, hmirrors, hnow⟩

/-- A report that is taken in changes the document and the resource alike. -/
theorem Synced.applied (h : service.Synced doc) {report : Report} {merged : Merged}
    (happlied : service.Applied report merged next) :
    next.Synced (doc.replaceResource merged.resource.key merged.resource.rows) := by
  obtain ⟨resource, call, hget, hmirrors, hnow⟩ := h.renews happlied
  have hrenewal := hmirrors.renewal h.consistent call
  have hsaved := happlied.saved
  have hregistry := happlied.registry
  rw [hnow] at hsaved hregistry ⊢
  obtain ⟨hdocument, hground⟩ := Store.save_document h.grounded h.document hsaved
  have hresources : next.registry.resources =
      service.registry.resources.modify resource.key (fun _ => resource.observed call) := by
    rw [hregistry]
    rfl
  refine ⟨hdocument, hground, hrenewal.consistent_replaced, ?_, fun key => ?_,
    fun key held hheld => ?_⟩
  · rw [hregistry]
    exact h.loaded
  · rw [hresources]
    refine Eq.trans ?_ (h.keys key)
    by_cases hkey : key = resource.key
    · rw [hkey, SortedMap.get?_modify_self, Option.isSome_map]
    · rw [SortedMap.get?_modify_of_ne _ _ hkey]
  · rw [hresources] at hheld
    -- the resource of the report is renewed in the document, all others are kept there
    by_cases hkey : key = resource.key
    · rw [hkey, SortedMap.get?_modify_self, hget] at hheld
      cases hheld
      exact ⟨hkey.symm, hmirrors.replaced h.consistent call⟩
    · rw [SortedMap.get?_modify_of_ne _ _ hkey] at hheld
      obtain ⟨rfl, hother⟩ := h.mirrors key held hheld
      exact ⟨rfl, hother.definition, hrenewal.depicts_kept hkey hother.depicts, hother.metadata⟩

/-- Whatever moves, the service stays in step with some document. -/
theorem Synced.moves (h : service.Synced doc) (hmoves : service.Moves next) :
    ∃ doc', next.Synced doc' := by
  cases hmoves with
  | kept hagrees =>
    exact ⟨doc, h.of_eq hagrees.store (congrArg Registry.loaded hagrees.registry)
      (congrArg Registry.resources hagrees.registry)⟩
  | applied happlied => exact ⟨_, h.applied happlied⟩
  | refreshed hkeeps => exact ⟨doc, h.of_eq hkeeps.store hkeeps.loaded hkeeps.resources⟩

theorem step_moves (service : Service) (occurrence : Occurrence) :
    service.Moves (service.step occurrence) := by
  cases occurrence with
  | report report => exact service.handle_moves report
  | refresh => exact .refreshed service.refreshSpace_keeps
  | backend backend => exact .kept ⟨rfl, rfl, rfl, rfl⟩

theorem Synced.run {occurrences : List Occurrence} : ∀ {service : Service} {doc : Document},
    service.Synced doc → ∃ doc', (service.run occurrences).Synced doc' := by
  induction occurrences with
  | nil => exact fun h => ⟨_, h⟩
  | cons occurrence rest ih =>
    intro service doc h
    obtain ⟨doc', hstep⟩ := h.moves (service.step_moves occurrence)
    exact ih hstep

/-- A load puts in what the rows of the document stand for. -/
theorem synced_load {graph : Graph} (hfresh : service.registry.loaded = false)
    (hground : service.store.Grounded) (hdoc : service.store.document = .ok doc)
    (hgraph : Graph.ofDocument doc = .ok graph) : service.load.2.Synced doc := by
  obtain ⟨hstore, hregistry⟩ := load_eq hfresh hdoc (Graph.ofDocument_eq_ok_iff.1 hgraph)
  obtain ⟨hconsistent, hloaded⟩ := Graph.loaded_ofDocument hgraph
  refine ⟨hstore ▸ hdoc, hstore ▸ hground, hconsistent, ?_, fun key => ?_, fun key resource hget => ?_⟩
  · rw [hregistry]
  · rw [hregistry]
    exact hloaded.isSome_eq key
  · rw [hregistry] at hget
    exact hloaded.mirrors hget

/-- The document that is kept loads, and it gives the resources that are held, without the verdicts
on sizes. -/
def Recoverable (service : Service) : Prop :=
  ∃ doc graph, service.store.document = .ok doc ∧ Graph.ofDocument doc = .ok graph ∧
    graph.resources.keys = service.registry.resources.keys ∧
    ∀ key resource, service.registry.resources.get? key = some resource →
      ∃ again, graph.resources.get? key = some again ∧ again.Same resource.unsized

theorem Synced.recoverable (h : service.Synced doc) : service.Recoverable := by
  obtain ⟨graph, hload⟩ := Graph.load_complete h.consistent
  have hgraph := Graph.ofDocument_eq_ok_iff.2 hload
  obtain ⟨-, hloaded⟩ := Graph.loaded_ofDocument hgraph
  refine ⟨doc, graph, h.document, hgraph, ?_, fun key resource hget => ?_⟩
  · exact SortedMap.keys_congr fun key => by rw [h.keys, hloaded.isSome_eq]
  · obtain ⟨rfl, hmirrors⟩ := h.mirrors key resource hget
    exact hmirrors.reloaded hloaded

/-- The document that is kept and the resources that are held never drift apart, whatever happens
after the load. -/
theorem document_follows {graph : Graph} (hfresh : service.registry.loaded = false)
    (hground : service.store.Grounded) (hdoc : service.store.document = .ok doc)
    (hgraph : Graph.ofDocument doc = .ok graph) (occurrences : List Occurrence) :
    (service.load.2.run occurrences).Recoverable := by
  obtain ⟨_, hsynced⟩ := (synced_load hfresh hground hdoc hgraph).run
  exact hsynced.recoverable

/-- A service that keeps the two layers of a volume in a file. -/
def pairService : Service where
  retry := {}
  tolerance := 2
  store := .file "/s" {
    entries := .ofList [(["s"], .file Resource.pairDocument.toJson.pretty)] }
  backend := { name := "b", objects := Resource.pairCall.facts }

theorem document_pairService : pairService.store.document = .ok Resource.pairDocument := by
  have hresolve : ∀ tree : FileTree, tree.resolve "/s" = .ok ⟨[], "s", false⟩ := fun _ => rfl
  have hread : pairService.store.files.read "/s" = .ok Resource.pairDocument.toJson.pretty :=
    FileTree.read_file (hresolve _) (by decide) rfl (by decide) rfl
  show Store.readFile pairService.store.files "/s" = _
  rw [Store.readFile, hread]
  exact Store.parseDocument_pretty _

/-- After two reports, with a refresh in between, the file still holds what the service does. -/
theorem document_follows_pair :
    pairService.store.Grounded ∧ pairService.store.document = .ok Resource.pairDocument ∧
      (pairService.load.2.run
        [.report Resource.pairCall.report, .refresh, .report Resource.pairCall.report]).Recoverable := by
  have hground : pairService.store.Grounded := FileTree.walkable_nil pairService.store.files
  exact ⟨hground, document_pairService,
    document_follows rfl hground document_pairService Resource.ofDocument_pair _⟩

end Service
end BlockStack
