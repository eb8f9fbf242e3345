import BlockStack.Proofs.Mentions

/-!
# BlockStack.Proofs.Coverage

What becomes of each volume of a resource in a report that is accepted. A merge follows the report,
so the layers that a report leaves out are passed over with all their volumes.

* `Fate`, `MergeCall.fate`: a volume is merged, tolerated as absent, or passed over.
* `Resource.Accounts`: a merge counts the first two, and changes the first only.
* `Resource.volumes_accounted`: each report that is accepted accounts for the volumes like that.
* `Resource.attached_passed_over`: a volume that has to be reported, in a layer that is not.
-/

namespace BlockStack

/-- What becomes of a volume in a report that is accepted: it is reported, or it is missing among the
volumes of a layer that is reported, or the report does not speak of its layer. -/
inductive Fate where
  | merged
  | tolerated
  | passedOver
  deriving DecidableEq, Repr

/-- What becomes of the volume at a place. -/
def MergeCall.fate (call : MergeCall) (tree : LayerTree) (place : LayerId × UInt32) : Fate :=
  if (call.mention? tree place.1 place.2).isSome then .merged
  else if place.1 ∈ (tree.spoken none call.report.roots).map (·.1) then .tolerated
  else .passedOver

namespace MergeCall

variable {call : MergeCall} {tree : LayerTree} {place : LayerId × UInt32}

theorem fate_eq_merged_iff :
    call.fate tree place = .merged ↔ place ∈ mentioned (tree.spoken none call.report.roots) := by
  rw [MergeContext.mem_mentioned_iff, fate, ← mention?]
  by_cases hmention : (call.mention? tree place.1 place.2).isSome = true
  · simp [hmention]
  · rw [if_neg hmention]
    split <;> simp [hmention]

theorem fate_ne_passedOver_iff :
    call.fate tree place ≠ .passedOver ↔
      place.1 ∈ (tree.spoken none call.report.roots).map (·.1) := by
  by_cases hmerged : call.fate tree place = .merged
  · rw [hmerged]
    simp only [ne_eq, reduceCtorEq, not_false_eq_true, true_iff]
    exact mem_spoken_of_mentioned (fate_eq_merged_iff.1 hmerged)
  · have hmention : ¬ (call.mention? tree place.1 place.2).isSome = true := fun hsome =>
      hmerged (if_pos hsome)
    rw [fate, if_neg hmention]
    split <;> simp_all

end MergeCall

/-- The elements of a list that are among some others of it are as many as these. -/
theorem countP_eq_length {α : Type} {all some : List α} {p : α → Bool} (h : all.Nodup)
    (h' : some.Nodup) (hsub : some ⊆ all) (hp : ∀ a ∈ all, p a = true ↔ a ∈ some) :
    all.countP p = some.length := by
  rw [List.countP_eq_length_filter]
  refine ((List.perm_ext_iff_of_nodup (h.filter _) h').2 fun a => ?_).length_eq
  rw [List.mem_filter]
  exact ⟨fun hm => (hp a hm.1).1 hm.2, fun hm => ⟨hsub hm, (hp a (hsub hm)).2 hm⟩⟩

theorem countP_ne_passedOver {α : Type} (fate : α → Fate) (places : List α) :
    places.countP (fate · ≠ .passedOver) =
      places.countP (fate · = .merged) + places.countP (fate · = .tolerated) := by
  induction places with
  | nil => rfl
  | cons first rest ih =>
    simp only [List.countP_cons, ih]
    cases fate first <;> simp <;> omega

namespace Resource

variable {resource : Resource} {call : MergeCall} {merged : Merged}

/-- What a merge made of a resource accounts for its volumes: it counts those that are reported and
those that are missing, of which none has to be reported, and leaves the latter and those that are
passed over as they were. All volumes are counted exactly if none is passed over. -/
structure Accounts (resource : Resource) (call : MergeCall) (merged : Merged) : Prop where
  reported : merged.summary.merged =
    resource.tree.places.countP (call.fate resource.tree · = .merged)
  missing : merged.summary.tolerated =
    resource.tree.places.countP (call.fate resource.tree · = .tolerated)
  attached : ∀ node ∈ resource.tree.nodes, node.kind = .remoteAttach →
    ∀ number ∈ node.volumes.keys, call.fate resource.tree (node.id, number) ≠ .tolerated
  kept : ∀ place ∈ resource.tree.places, call.fate resource.tree place ≠ .merged →
    merged.resource.tree.volume? place.1 place.2 = resource.tree.volume? place.1 place.2
  whole : merged.summary.merged + merged.summary.tolerated = resource.tree.leafCount ↔
    ∀ place ∈ resource.tree.places, call.fate resource.tree place ≠ .passedOver

/-- A volume that has to be reported is not missing among the volumes of a layer that is reported. -/
theorem Fits.attached (h : resource.tree.WellFormed) (hfits : resource.Fits call) :
    ∀ node ∈ resource.tree.nodes, node.kind = .remoteAttach →
      ∀ number ∈ node.volumes.keys, call.fate resource.tree (node.id, number) ≠ .tolerated := by
  intro node hnode hkind number hnumber htolerated
  have hspoken := MergeCall.fate_ne_passedOver_iff.1
    (show call.fate resource.tree (node.id, number) ≠ .passedOver by rw [htolerated]; decide)
  obtain ⟨p, hp, hid⟩ := List.mem_map.1 hspoken
  obtain ⟨same, hget, hlayer⟩ := hfits.layers.fits_of_mem_spoken hp
  rw [hid, LayerTree.get?_of_mem h.nodup hnode] at hget
  cases hget
  -- so the volume is reported after all
  obtain ⟨r, hr, hrnumber⟩ := hlayer.attached hkind number hnumber
  have hmentioned : (node.id, number) ∈ mentioned (resource.tree.spoken none call.report.roots) :=
    List.mem_flatMap.2 ⟨p, hp, List.mem_map.2 ⟨number, List.mem_filterMap.2 ⟨r, hr, hrnumber⟩,
      Prod.ext hid rfl⟩⟩
  rw [MergeCall.fate_eq_merged_iff.2 hmentioned] at htolerated
  cases htolerated

theorem take_accounts (h : resource.tree.WellFormed) (hok : resource.take call = .ok merged) :
    resource.Accounts call merged := by
  obtain ⟨hfits, -⟩ := (take_eq_ok_iff h).1 ⟨merged, hok, rfl⟩
  obtain ⟨hmerged, htotal⟩ := take_counts h hok
  have hnodup := LayerTree.nodup_places h.nodup
  have hreported : resource.tree.places.countP (call.fate resource.tree · = .merged) =
      merged.summary.merged := by
    rw [hmerged, ← hfits.layers.length_mentioned]
    exact countP_eq_length hnodup (hfits.layers.nodup_mentioned h) hfits.layers.mentioned_subset
      fun place _ => by rw [decide_eq_true_eq, MergeCall.fate_eq_merged_iff]
  have hspoken : resource.tree.places.countP (call.fate resource.tree · ≠ .passedOver) =
      merged.summary.merged + merged.summary.tolerated := by
    rw [htotal, LayerTree.volumesSpoken_eq]
    refine countP_eq_length hnodup
      (LayerTree.nodup_flatMap_placesOf (hfits.layers.nodup_spoken h)) ?_ fun place hplace => ?_
    · intro place hplace
      obtain ⟨id, -, hof⟩ := List.mem_flatMap.1 hplace
      exact LayerTree.mem_places_iff.2 (LayerTree.mem_placesOf_iff.1 hof).2
    · rw [decide_eq_true_eq, MergeCall.fate_ne_passedOver_iff, List.mem_flatMap]
      constructor
      · exact fun hid => ⟨place.1, hid, LayerTree.mem_placesOf_iff.2
          ⟨rfl, LayerTree.mem_places_iff.1 hplace⟩⟩
      · rintro ⟨id, hid, hof⟩
        exact (LayerTree.mem_placesOf_iff.1 hof).1 ▸ hid
  have hkept : ∀ place ∈ resource.tree.places, call.fate resource.tree place ≠ .merged →
      merged.resource.tree.volume? place.1 place.2 = resource.tree.volume? place.1 place.2 :=
    fun place hplace hfate =>
      take_kept h hok hplace fun hm => hfate (MergeCall.fate_eq_merged_iff.2 hm)
  refine ⟨hreported.symm, ?_, hfits.attached h, hkept, ?_⟩
  · have hsplit := countP_ne_passedOver (call.fate resource.tree) resource.tree.places
    omega
  · rw [← hspoken, ← LayerTree.length_places h.nodup, List.countP_eq_length]
    simp only [decide_eq_true_eq]

/-- A loaded resource, whatever reports came since, accounts for its volumes in each report that it
accepts. -/
theorem volumes_accounted {doc : Document} {graph : Graph} (hok : Graph.ofDocument doc = .ok graph)
    (hmem : resource ∈ graph.resources.values) (calls : List MergeCall)
    (htake : (resource.mergeAll calls).take call = .ok merged) :
    (resource.mergeAll calls).Accounts call merged :=
  take_accounts (wellFormed_mergeAll (wellFormed_of_loaded hok hmem) calls) htake

/-! ## A layer that is left out -/

/-- Two volumes on an encryption layer, and one that is attached from another node. -/
def partedDocument : Document where
  catalog := {
    definitions := [{ name := "d" }]
    resources := [{ key := pairKey, definition := "d" }] }
  layers := [
    { id := 1, kind := "ENCRYPTION", owner := pairKey },
    { id := 2, kind := "REMOTE_ATTACH", owner := pairKey }]
  volumes := [
    { layer := 1, number := 0, expectedSizeKib := 8, payload := .encryption none false },
    { layer := 1, number := 1, expectedSizeKib := 8, payload := .encryption none false },
    { layer := 2, number := 0, expectedSizeKib := 8, payload := .remoteAttach }]

def partedGraph : Graph := (Graph.ofDocument partedDocument).toOption.getD {}

def parted : Resource :=
  (partedGraph.resources.get? pairKey).getD { key := pairKey, definition := { name := "" } }

/-- A report of one volume of the encryption layer, and of no other layer. -/
def partedCall : MergeCall where
  report := {
    node := some "n"
    resource := some "r"
    roots := [.mk
      { kind := some "ENCRYPTION", suffix := some "", volumes := [{ number := some 0 }] } []] }
  facts := .empty
  pools := partedGraph.pools
  tolerance := 3

theorem ofDocument_parted : Graph.ofDocument partedDocument = .ok partedGraph := by decide

theorem parted_mem : parted ∈ partedGraph.resources.values := by decide

/-- One volume is merged, one is tolerated, and the attached one is passed over. -/
theorem volumes_accounted_parted :
    ∃ merged, (parted.mergeAll []).take partedCall = .ok merged ∧
      (parted.mergeAll []).Accounts partedCall merged ∧
      parted.tree.places.map (partedCall.fate parted.tree) = [.merged, .tolerated, .passedOver] := by
  obtain ⟨merged, htake⟩ := exists_of_isSome
    (show ((parted.mergeAll []).take partedCall).toOption.isSome = true by cbv)
  exact ⟨merged, htake, volumes_accounted ofDocument_parted parted_mem [] htake, by cbv⟩

/-- The report is accepted, though the attached volume is not reported; and only two of the three
volumes are counted. -/
theorem attached_passed_over :
    Graph.ofDocument partedDocument = .ok partedGraph ∧ parted ∈ partedGraph.resources.values ∧
    ∃ merged, parted.take partedCall = .ok merged ∧
      merged.summary.merged + merged.summary.tolerated ≠ parted.tree.leafCount ∧
      (parted.tree.get? 2).map (·.kind) = some .remoteAttach ∧ (2, 0) ∈ parted.tree.places ∧
      partedCall.mention? parted.tree 2 0 = none := by
  obtain ⟨merged, htake, hsummary⟩ := exists_of_summary
    (show (parted.take partedCall).toOption.map (·.summary) =
      some { merged := 1, tolerated := 1 } by cbv)
  refine ⟨ofDocument_parted, parted_mem, merged, htake, ?_, by decide, by decide,
    by cbv⟩
  rw [hsummary]
  decide

end Resource
end BlockStack
