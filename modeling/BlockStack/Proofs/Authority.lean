import BlockStack.Proofs.Acceptance
import BlockStack.Proofs.Metadata

/-!
# BlockStack.Proofs.Authority

What the controller determines is out of the reach of satellites, whatever they report and whether a
report is accepted or not.

* `Resource.mergeAll_derived`, `Resource.mergeAll_metadata`: metadata that was derived from the layers
  stays derived from them, and stays the same.
* `Resource.reports_only_observe`: a run of reports leaves a resource in agreement with what it was,
  and two resources that agree still do after any two runs.
-/

namespace BlockStack
namespace Resource

variable {a b : Resource}

theorem Agrees.ofTree_eq (h : a.Agrees b) : Metadata.ofTree a.tree = .ofTree b.tree := by
  rw [← Metadata.ofTree_authored, h.tree, Metadata.ofTree_authored]

theorem Agrees.nodup (h : a.Agrees b) (ha : a.tree.ids.Nodup) : b.tree.ids.Nodup :=
  LayerTree.ids_authored_congr h.tree ▸ ha

theorem mergeAll_derived {calls : List MergeCall} : ∀ {resource : Resource},
    resource.tree.ids.Nodup → resource.metadata = .ofTree resource.tree →
    (resource.mergeAll calls).metadata = .ofTree (resource.mergeAll calls).tree := by
  induction calls with
  | nil => intro resource _ hderived; exact hderived
  | cons call rest ih =>
    intro resource h hderived
    unfold mergeAll
    split
    · rename_i merged hok
      obtain ⟨hagrees, hmetadata⟩ := take_agrees h hok
      exact ih (hagrees.symm.nodup h) hmetadata
    · exact ih h hderived

theorem mergeAll_metadata (ha : a.tree.ids.Nodup) (hderived : a.metadata = .ofTree a.tree)
    (calls : List MergeCall) : (a.mergeAll calls).metadata = a.metadata := by
  rw [mergeAll_derived ha hderived, (mergeAll_agrees ha).ofTree_eq, hderived]

/-- Whatever satellites report, accepted or not, a resource stays in agreement with what it was, and
so do its metadata if they were derived. Two resources that agree still do after any two runs. The
numbers of the layers of a resource differ, as they are what layers are looked up by. -/
theorem reports_only_observe (ha : a.tree.ids.Nodup) (hab : a.Agrees b)
    (calls calls' : List MergeCall) :
    (a.mergeAll calls).Agrees a ∧
    (a.metadata = .ofTree a.tree → (a.mergeAll calls).metadata = a.metadata) ∧
    (a.mergeAll calls).Agrees (b.mergeAll calls') ∧
    (a.metadata = .ofTree a.tree → b.metadata = .ofTree b.tree →
      (a.mergeAll calls).metadata = (b.mergeAll calls').metadata) := by
  have hb := hab.nodup ha
  have hsame : ∀ calls, (a.mergeAll calls).Agrees a := fun _ => mergeAll_agrees ha
  refine ⟨hsame calls, fun h => mergeAll_metadata ha h calls, ?_, fun h h' => ?_⟩
  · exact ((hsame calls).trans hab).trans (mergeAll_agrees hb).symm
  · rw [mergeAll_metadata ha h, mergeAll_metadata hb h', h, h', hab.ofTree_eq]

/-- A report of the stack of `pair` that wants layers suspended and moved, and the volume in another
pool and with a device of its own. -/
def rewiringCall : MergeCall where
  report := {
    node := some "n"
    resource := some "r"
    roots := [.mk
      { kind := some "ENCRYPTION", suffix := some "", suspended := some true, parent := some 3 }
      [.mk
        { kind := some "STORAGE", suffix := some "", suspended := some true, parent := some 9
          volumes := [{
            number := some 0
            provider := some "LVM"
            pool := some "q"
            facts := { devicePath := some "/dev/x" } }] } []]] }
  facts := {}
  pools := pairGraph.pools
  tolerance := 2

/-- The report is accepted, and the stack is wired as before. -/
theorem reports_only_observe_rewiring :
    (∃ merged, pair.take rewiringCall = .ok merged) ∧
    pair.tree.ids.Nodup ∧ pair.Agrees (pair.mergeAll [pairCall]) ∧
    (pair.mergeAll [rewiringCall, pairCall]).Agrees pair ∧
    (pair.mergeAll [rewiringCall, pairCall]).metadata = pair.metadata ∧
    (pair.mergeAll [rewiringCall]).Agrees ((pair.mergeAll [pairCall]).mergeAll []) := by
  have hnodup : pair.tree.ids.Nodup := by decide
  have hderived : pair.metadata = .ofTree pair.tree := by decide
  have hagrees : pair.Agrees (pair.mergeAll [pairCall]) := (mergeAll_agrees hnodup).symm
  have htake : (pair.take rewiringCall).toOption.isSome = true := by cbv
  obtain ⟨hsame, hmetadata, -, -⟩ :=
    reports_only_observe hnodup (.refl pair) [rewiringCall, pairCall] []
  exact ⟨exists_of_isSome htake, hnodup, hagrees, hsame, hmetadata hderived,
    (reports_only_observe hnodup hagrees [rewiringCall] []).2.2.1⟩

end Resource
end BlockStack
