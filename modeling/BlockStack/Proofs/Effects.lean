import BlockStack.Proofs.FileStore
import BlockStack.Proofs.Persistence

/-!
# BlockStack.Proofs.Effects

What one report can change, in any state of the service and whatever the backend answers.

* `Registry.DiffersOnlyIn`: nothing but one resource differs.
* `Service.Applied.touched`: a report that is taken in touches one resource, the one that it names.
* `Service.handle_effects`: a report that fails changes nothing, and one that is taken in changes one
  resource.
-/

namespace BlockStack

/-! ## Differences -/

/-- Nothing but one resource differs. -/
structure Registry.DiffersOnlyIn (registry next : Registry) (key : ResourceKey) : Prop where
  loaded : next.loaded = registry.loaded
  pools : next.pools = registry.pools
  layers : next.layers = registry.layers
  keys : next.resources.keys = registry.resources.keys
  others : ∀ other, other ≠ key → next.resources.get? other = registry.resources.get? other

theorem Registry.replace_differs (registry : Registry) (resource : Resource) :
    registry.DiffersOnlyIn (registry.replace resource) resource.key where
  loaded := rfl
  pools := rfl
  layers := rfl
  keys := SortedMap.keys_modify ..
  others _ hne := SortedMap.get?_modify_of_ne _ _ hne

/-- A report that is merged names the resource, and the resource keeps its key. -/
theorem Resource.key_of_merge {resource : Resource} {pools : SortedMap PoolKey StoragePool}
    {facts : FactsMap} {tolerance : UInt64} {report : Report} {merged : Merged}
    (h : resource.merge pools facts tolerance report = .ok merged) :
    report.key = .ok merged.resource.key ∧ merged.resource.key = resource.key := by
  obtain ⟨hkey, merging, -, rfl⟩ := merge_inv h
  exact ⟨hkey, rfl⟩

namespace Service

/-! ## One report -/

/-- Nothing but one resource was touched, neither in the registry nor in the document that is
kept. -/
structure Touched (service : Service) (key : ResourceKey) (next : Service) : Prop where
  registry : service.registry.DiffersOnlyIn next.registry key
  document : service.store.Grounded → ∀ doc, service.store.document = .ok doc →
    ∃ doc', next.store.document = .ok doc' ∧ doc.DiffersOnlyIn doc' key

theorem Committed.touched {service next : Service} {merged : Merged}
    (h : service.Committed merged next) : service.Touched merged.resource.key next where
  registry := by
    rw [h.registry]
    exact service.registry.replace_differs merged.resource
  document hground doc hdoc := by
    obtain ⟨hnext, -⟩ := Store.save_document hground hdoc h.saved
    exact ⟨_, hnext, Document.replaceResource_differs (fun _ => Graph.key_of_mem_rows)
      (fun _ => Resource.layer_of_mem_rows)⟩

/-- What is left of one report: a fault, and then nothing has changed but what was counted and told,
one failure and one event; or a summary, and then nothing has changed but the resource that the
report names. -/
structure Effects (service : Service) (report : Report)
    (outcome : Except Fault MergeSummary × Service) : Prop where
  failed : ∀ fault, outcome.1 = .error fault → service.Refused report fault outcome.2 ∧
    service.metrics.FailedOnce outcome.2.metrics
  taken : ∀ summary, outcome.1 = .ok summary →
    ∃ key, report.key = .ok key ∧ service.Touched key outcome.2

theorem handleBy_effects (service : Service)
    (answer : Backend.Call FactsMap → Except Fault FactsMap × Backend) (report : Report) :
    service.Effects report (service.handleBy answer report) := by
  rcases service.handleBy_cases answer report with ⟨fault, hres, hrefused⟩ | ⟨merged, hres, happlied⟩
  · refine ⟨fun other hother => ?_, fun summary hsummary => ?_⟩
    · cases hres.symm.trans hother
      exact ⟨hrefused, hrefused.metrics ▸ Metrics.failedOnce ..⟩
    · cases hres.symm.trans hsummary
  · refine ⟨fun fault hfault => ?_, fun summary _ => ?_⟩
    · cases hres.symm.trans hfault
    · obtain ⟨_, _, _, _, -, -, -, hmerge⟩ := happlied.merge
      exact ⟨_, (Resource.key_of_merge hmerge).1, happlied.touched⟩

/-- A report that fails changes nothing but what is counted and told, and one that is taken in
changes nothing but the resource that it names and its rows; in any state, and whatever the backend
answers. -/
theorem handle_effects (service : Service) (report : Report) :
    service.Effects report (service.handle report) ∧
      ∀ answer, service.Effects report (service.handleBy answer report) := by
  refine ⟨?_, fun answer => service.handleBy_effects answer report⟩
  rw [handle_eq]
  exact service.handleBy_effects _ report

/-- The document of the two layers, with a directory where the file beside it is written to. -/
def blockedFiles : FileTree where
  entries := .ofList [
    (["s"], .file Resource.pairDocument.toJson.pretty), (["s.json.tmp"], .dir)]

theorem readFile_blockedFiles : Store.readFile blockedFiles "/s" = .ok Resource.pairDocument := by
  have hresolve : ∀ tree : FileTree, tree.resolve "/s" = .ok ⟨[], "s", false⟩ := fun _ => rfl
  have hread : blockedFiles.read "/s" = .ok Resource.pairDocument.toJson.pretty :=
    FileTree.read_file (hresolve _) (by decide) rfl (by decide) rfl
  rw [Store.readFile, hread]
  exact Store.parseDocument_pretty _

theorem replaceFile_blockedFiles (document : Document) :
    Store.replaceFile blockedFiles "/s" document = .error .isDirectory := by
  have hresolve : ∀ tree : FileTree, tree.resolve "/s.json.tmp" = .ok ⟨[], "s.json.tmp", false⟩ :=
    fun _ => rfl
  have hwrite : ∀ text, blockedFiles.write "/s.json.tmp" text = .error .isDirectory :=
    fun _ => FileTree.write_onto_dir (hresolve _) (by decide) rfl (by decide) rfl
  have hbeside : Path.replaceExtension "json.tmp" "/s" = "/s.json.tmp" := by decide
  unfold Store.replaceFile
  rw [hbeside]
  dsimp only
  rw [hwrite]

theorem save_blockedFiles (key : ResourceKey) (rows : Rows) :
    Store.save (.file "/s" blockedFiles) key rows = .error (.io .isDirectory) :=
  Store.save_fault readFile_blockedFiles (replaceFile_blockedFiles _)

/-- A service that keeps the two layers in a file and cannot save them. -/
def blockedPair : Service := { pairService with store := .file "/s" blockedFiles }

/-- A service that keeps the two layers in memory. -/
def memoryPair : Service where
  retry := {}
  tolerance := 2
  store := .memory Resource.pairDocument
  backend := { name := "b", objects := Resource.pairCall.facts }

set_option maxRecDepth 4000 in
/-- A report whose rows cannot be saved changes nothing that the service holds; in memory the same
report is taken in and touches the resource that it names. -/
theorem handle_effects_pair :
    (∃ fault, blockedPair.load.2.Refused Resource.pairCall.report fault
      (blockedPair.load.2.handle Resource.pairCall.report).2) ∧
    memoryPair.load.2.Touched Resource.pairKey
      (memoryPair.load.2.handle Resource.pairCall.report).2 := by
  constructor
  · obtain ⟨hstore, -⟩ := load_eq rfl
      (show blockedPair.store.document = .ok _ from readFile_blockedFiles)
      (Graph.ofDocument_eq_ok_iff.1 Resource.ofDocument_pair)
    have hblocked : blockedPair.store = .file "/s" blockedFiles := rfl
    rcases blockedPair.load.2.handle_cases Resource.pairCall.report with
      ⟨fault, hres, -⟩ | ⟨merged, -, happlied⟩
    · exact ⟨fault, ((handle_effects _ _).1.failed fault hres).1⟩
    · have hsaved := happlied.saved
      rw [hstore, hblocked, save_blockedFiles] at hsaved
      cases hsaved
  · obtain ⟨summary, hres⟩ := Resource.exists_of_isSome
      (show (memoryPair.load.2.handle Resource.pairCall.report).1.toOption.isSome = true by cbv)
    obtain ⟨key, hkey, htouched⟩ := (handle_effects _ _).1.taken summary hres
    cases (show Resource.pairCall.report.key = .ok Resource.pairKey from rfl).symm.trans hkey
    exact htouched

end Service
end BlockStack
