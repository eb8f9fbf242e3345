import BlockStack.Proofs.Loading
import BlockStack.Proofs.Matching

/-!
# BlockStack.Proofs.Acceptance

What a merge accepts, in a resource that was loaded and may have taken in reports since.

* `MergeCall`: a report with all that a merge of it looks up; `Resource.mergeAll`: the resource after
  some of them, `Resource.accepted`: those of them that were accepted.
* `Resource.Fits`: when a report fits a resource.
* `Resource.merge_ok_iff`: exactly these reports are accepted.
-/

namespace BlockStack

/-- A report with all that a merge of it looks up. -/
structure MergeCall where
  report : Report
  facts : FactsMap
  pools : SortedMap PoolKey StoragePool
  tolerance : UInt64

namespace Resource

/-- What a merge of a call looks up. -/
def contextOf (resource : Resource) (call : MergeCall) : MergeContext :=
  resource.mergeContext call.pools call.facts call.tolerance

/-- The merge of a call. -/
def take (resource : Resource) (call : MergeCall) : Except Rejection Merged :=
  resource.merge call.pools call.facts call.tolerance call.report

/-- The resource after some calls; a report that is refused changes nothing. -/
def mergeAll (resource : Resource) : List MergeCall → Resource
  | [] => resource
  | call :: rest =>
    match resource.take call with
    | .ok merged => merged.resource.mergeAll rest
    | .error _ => resource.mergeAll rest

/-- Those of some calls that are accepted, each in the resource as it is by then. -/
def accepted (resource : Resource) : List MergeCall → List MergeCall
  | [] => []
  | call :: rest =>
    match resource.take call with
    | .ok merged => call :: merged.resource.accepted rest
    | .error _ => resource.accepted rest

/-- A report fits a resource: it speaks of the resource, and its layers fit those of the resource. -/
structure Fits (resource : Resource) (call : MergeCall) : Prop where
  onNode : call.report.node = some resource.key.node
  named : call.report.resource = some resource.key.resource
  snapshot : call.report.snapshot = resource.key.snapshot
  layers : (resource.contextOf call).FitsLevel resource.tree none call.report.roots

/-- The resource after a report that fits. -/
def observed (resource : Resource) (call : MergeCall) : Resource :=
  refresh { resource with
    tree := (resource.contextOf call).observedTree resource.tree
      (resource.tree.spoken none call.report.roots) }

variable {resource : Resource} {call : MergeCall}

theorem key_eq_ok_iff {report : Report} {key : ResourceKey} :
    report.key = .ok key ↔ report.node = some key.node ∧ report.resource = some key.resource ∧
      report.snapshot = key.snapshot := by
  unfold Report.key
  cases report.node with
  | none => simp
  | some node =>
    cases report.resource with
    | none => simp
    | some name => cases key; simp

theorem key_fault {report : Report} {fault : Fault} (h : report.key = .error fault) :
    ∃ field, fault = .missingField field := by
  unfold Report.key at h
  split at h <;> cases h
  · exact ⟨_, rfl⟩
  · exact ⟨_, rfl⟩

/-- What a merge without a fault goes through. -/
theorem merge_inv {pools : SortedMap PoolKey StoragePool} {facts : FactsMap} {tolerance : UInt64}
    {report : Report} {merged : Merged}
    (hok : resource.merge pools facts tolerance report = .ok merged) :
    report.key = .ok resource.key ∧ ∃ merging,
      (resource.mergeContext pools facts tolerance).mergeLevel none [] { tree := resource.tree }
        report.roots = .ok merging ∧
      merged = {
        resource := { resource with tree := merging.tree }.refresh
        summary := merging.summary
        absences := merging.absences } := by
  unfold merge at hok
  dsimp only at hok
  split at hok
  · cases hok
  rename_i merging hmerge
  cases hok
  unfold MergeContext.mergeReport at hmerge
  split at hmerge
  · cases hmerge
  rename_i key hkey
  split at hmerge
  · rename_i hsame
    exact ⟨hkey.trans (congrArg Except.ok hsame), merging, hmerge, rfl⟩
  · cases hmerge

/-- A merge accepts a report exactly if it fits, and then observes the resource. -/
theorem take_eq_ok_iff (h : resource.tree.WellFormed) {next : Resource} :
    (∃ merged, resource.take call = .ok merged ∧ merged.resource = next) ↔
      resource.Fits call ∧ next = resource.observed call := by
  have level := fun tree => @MergeContext.mergeLevel_eq_ok_iff (resource.contextOf call) none []
    { tree := resource.tree } call.report.roots h tree
  simp only [List.not_mem_nil, false_imp_iff, implies_true, true_and] at level
  unfold take merge MergeContext.mergeReport
  rw [← contextOf]
  cases hkey : call.report.key with
  | error fault =>
    simp only [reduceCtorEq, false_and, exists_false, false_iff]
    rintro ⟨hfit, -⟩
    rw [key_eq_ok_iff.2 ⟨hfit.onNode, hfit.named, hfit.snapshot⟩] at hkey
    cases hkey
  | ok key =>
    by_cases heq : key = resource.key
    · subst heq
      obtain ⟨hnode, hname, hsnapshot⟩ := key_eq_ok_iff.1 hkey
      have hself : resource.key = (resource.contextOf call).key := rfl
      simp only [if_pos hself]
      constructor
      · rintro ⟨merged, hok, rfl⟩
        split at hok
        · cases hok
        rename_i merging hmerge
        cases hok
        obtain ⟨hfit, htree⟩ := (level _).1 ⟨merging, hmerge, rfl⟩
        exact ⟨⟨hnode, hname, hsnapshot, hfit⟩, by rw [observed, ← htree]⟩
      · rintro ⟨hfit, rfl⟩
        obtain ⟨merging, hmerge, htree⟩ := (level _).2 ⟨hfit.layers, rfl⟩
        rw [hmerge]
        exact ⟨_, rfl, by rw [observed, ← htree]⟩
    · have hself : ¬ key = (resource.contextOf call).key := heq
      simp only [if_neg hself, reduceCtorEq, false_and, exists_false, false_iff]
      rintro ⟨hfit, -⟩
      rw [key_eq_ok_iff.2 ⟨hfit.onNode, hfit.named, hfit.snapshot⟩] at hkey
      cases hkey
      exact heq rfl

theorem reword_of_ends {ctx : MergeContext} {wanted : PoolKey → ProviderKind → Prop}
    {fault : Fault} (h : ctx.EndsWanting wanted fault) : ctx.Refuses (ctx.reword fault) ∧
      ∀ message, ctx.reword fault = .internal message →
        ∃ key provider, wanted key provider ∧ ctx.pools.get? key = none := by
  rcases h.ends with hrefuses | ⟨field, rfl⟩
  · have hsame : ctx.reword fault = fault := by
      cases fault <;> first | rfl | exact hrefuses.elim
    rw [hsame]
    exact ⟨hrefuses, h.lacks⟩
  · exact ⟨rfl, fun _ he => nomatch he⟩

/-- The fault of a report that is refused; if it is that a pool is not indexed, the pool is that of a
volume of the resource. -/
theorem take_lacks (h : resource.tree.WellFormed) {wanted : PoolKey → ProviderKind → Prop}
    (hwant : resource.tree.PoolsIn resource.key.node wanted) {rejection : Rejection}
    (herr : resource.take call = .error rejection) :
    (resource.contextOf call).Refuses rejection.fault ∧
      ∀ message, rejection.fault = .internal message →
        ∃ key provider, wanted key provider ∧ call.pools.get? key = none := by
  unfold take merge at herr
  rw [← contextOf] at herr
  dsimp only at herr
  split at herr
  · rename_i rejection' hreport
    cases herr
    refine reword_of_ends ?_
    unfold MergeContext.mergeReport at hreport
    split at hreport
    · rename_i hkey
      cases hreport
      obtain ⟨field, rfl⟩ := key_fault hkey
      exact ⟨.inr ⟨field, rfl⟩, fun _ he => Fault.noConfusion he⟩
    split at hreport
    · exact MergeContext.mergeLevel_fault h hwant hreport
    · cases hreport
      exact MergeContext.ends_unknown _
  · cases herr

theorem take_fault (h : resource.tree.WellFormed) {rejection : Rejection}
    (herr : resource.take call = .error rejection) :
    (resource.contextOf call).Refuses rejection.fault :=
  have hwant : resource.tree.PoolsIn resource.key.node (fun _ _ => True) :=
    fun _ _ _ _ _ _ _ => trivial
  (take_lacks h hwant herr).1

/-! ## Runs of merges -/

theorem observed_authored : (resource.observed call).tree.authored = resource.tree.authored :=
  MergeContext.authored_observedTree _

/-- Two resources agree in all that the controller determines: name, definition, layers in their
order with their links, and what was asked for of each volume. -/
structure Agrees (a b : Resource) : Prop where
  key : a.key = b.key
  definition : a.definition = b.definition
  tree : a.tree.authored = b.tree.authored

theorem Agrees.refl (resource : Resource) : resource.Agrees resource := ⟨rfl, rfl, rfl⟩

theorem Agrees.symm {a b : Resource} (h : a.Agrees b) : b.Agrees a :=
  ⟨h.key.symm, h.definition.symm, h.tree.symm⟩

theorem Agrees.trans {a b c : Resource} (h : a.Agrees b) (h' : b.Agrees c) : a.Agrees c :=
  ⟨h.key.trans h'.key, h.definition.trans h'.definition, h.tree.trans h'.tree⟩

/-- A report that is accepted changes nothing that the controller determines, and what is derived
from the layers is derived anew. -/
theorem take_agrees (h : resource.tree.ids.Nodup) {merged : Merged}
    (hok : resource.take call = .ok merged) :
    merged.resource.Agrees resource ∧ merged.resource.metadata = .ofTree merged.resource.tree := by
  obtain ⟨-, merging, hmerge, rfl⟩ := merge_inv hok
  exact ⟨⟨rfl, rfl, MergeContext.mergeLevel_authored h hmerge⟩, rfl⟩

/-- Nor do any number of reports. -/
theorem mergeAll_agrees {calls : List MergeCall} : ∀ {resource : Resource},
    resource.tree.ids.Nodup → (resource.mergeAll calls).Agrees resource := by
  induction calls with
  | nil => exact fun _ => .refl _
  | cons call rest ih =>
    intro resource h
    unfold mergeAll
    split
    · rename_i merged hok
      have hfirst := (take_agrees h hok).1
      exact (ih (LayerTree.ids_authored_congr hfirst.tree ▸ h)).trans hfirst
    · exact ih h

theorem wellFormed_mergeAll (h : resource.tree.WellFormed) (calls : List MergeCall) :
    (resource.mergeAll calls).tree.WellFormed :=
  LayerTree.wellFormed_authored_congr (mergeAll_agrees h.nodup).tree.symm h

theorem wellFormed_of_loaded {doc : Document} {graph : Graph} (hok : Graph.ofDocument doc = .ok graph)
    (hmem : resource ∈ graph.resources.values) : resource.tree.WellFormed := by
  obtain ⟨key, hget⟩ := SortedMap.mem_values_iff.1 hmem
  obtain ⟨-, hloaded⟩ := Graph.loaded_ofDocument hok
  obtain ⟨definition, tree, rows, -, rfl, -, hgrown⟩ := hloaded.exists_grown hget
  exact hgrown.wellFormed

/-- A resource that was loaded, whatever reports came since, accepts a report exactly if the report
fits; a refusal names something that is not there, a volume that was not reported, or a pool that is
not indexed. -/
theorem merge_ok_iff {doc : Document} {graph : Graph} (hok : Graph.ofDocument doc = .ok graph)
    (hmem : resource ∈ graph.resources.values) (calls : List MergeCall) (call : MergeCall) :
    ((∃ merged, (resource.mergeAll calls).take call = .ok merged) ↔
      (resource.mergeAll calls).Fits call) ∧
    ∀ rejection, (resource.mergeAll calls).take call = .error rejection →
      ((resource.mergeAll calls).contextOf call).Refuses rejection.fault := by
  have h := wellFormed_mergeAll (wellFormed_of_loaded hok hmem) calls
  refine ⟨⟨fun ⟨merged, htake⟩ => ((take_eq_ok_iff h).1 ⟨merged, htake, rfl⟩).1, fun hfit => ?_⟩,
    fun rejection => take_fault h⟩
  obtain ⟨merged, htake, -⟩ := (take_eq_ok_iff h).2 ⟨hfit, rfl⟩
  exact ⟨merged, htake⟩

/-! ## One stack -/

/-- The key of a resource with one volume. -/
def pairKey : ResourceKey := { node := "n", resource := "r" }

/-- A volume on an encryption layer above a storage layer, the lower row first. -/
def pairDocument : Document where
  catalog := {
    definitions := [{ name := "d" }]
    resources := [{ key := pairKey, definition := "d" }]
    pools := [{ key := ⟨"n", "p"⟩, provider := .lvm, extentSizeKib := 4 }] }
  layers := [
    { id := 3, parent := some 7, kind := "STORAGE", owner := pairKey },
    { id := 7, kind := "ENCRYPTION", owner := pairKey }]
  volumes := [
    { layer := 7, number := 0, expectedSizeKib := 8, payload := .encryption none false },
    { layer := 3, number := 0, expectedSizeKib := 8, payload := .storage "LVM" "p" false {} }]

/-- The graph of the two layers. -/
def pairGraph : Graph := (Graph.ofDocument pairDocument).toOption.getD {}

/-- The resource of the two layers. -/
def pair : Resource :=
  (pairGraph.resources.get? pairKey).getD { key := pairKey, definition := { name := "" } }

/-- A report of both layers, with a backend that has the volume a little too large. -/
def pairCall : MergeCall where
  report := {
    node := some "n"
    resource := some "r"
    roots := [.mk
      { kind := some "ENCRYPTION", suffix := some ""
        volumes := [{ number := some 0, isOpen := some true }] }
      [.mk
        { kind := some "STORAGE", suffix := some ""
          volumes := [{ number := some 0, provider := some "LVM" }] } []]] }
  facts := .ofList [("r_00000", { present := true, sizeKib := 12 })]
  pools := pairGraph.pools
  tolerance := 2

theorem ofDocument_pair : Graph.ofDocument pairDocument = .ok pairGraph := by decide

theorem pair_mem : pair ∈ pairGraph.resources.values := by decide

theorem exists_of_isSome {ε α : Type} {result : Except ε α} (h : result.toOption.isSome = true) :
    ∃ a, result = .ok a := by
  cases result with
  | ok a => exact ⟨a, rfl⟩
  | error e => cases h

/-- The report is accepted once and once more, and so it fits what the first time made of the
resource. -/
theorem merge_ok_iff_pair :
    (∃ merged, (pair.mergeAll [pairCall]).take pairCall = .ok merged) ∧
      (pair.mergeAll [pairCall]).Fits pairCall := by
  have htake := exists_of_isSome
    (show ((pair.mergeAll [pairCall]).take pairCall).toOption.isSome = true by cbv)
  exact ⟨htake, (merge_ok_iff ofDocument_pair pair_mem [pairCall] pairCall).1.1 htake⟩

end Resource
end BlockStack
