import BlockStack.Proofs.Differences
import BlockStack.Proofs.Representation

/-!
# BlockStack.Proofs.Summary

The summary of a merge says exactly what the merge did.

* `reportedVolumes`: the volumes of a report, depth first.
* `Drift.Shows`: an entry of the summary shows a volume whose size is out of tolerance.
* `MergeContext.mergeLevel_drift`: nested layers list the drifting volumes that they mention.
* `Resource.Tells`: what a summary tells; `Resource.summary_exact`: it tells it of each report that is
  accepted, and a report that is taken in again changes nothing.
-/

namespace BlockStack

/-! ## The volumes of a report -/

/-- The volumes of nested reported layers, depth first. -/
def reportedVolumes : List ReportNode → List ReportedVolume
  | [] => []
  | .mk layer children :: rest => layer.volumes ++ (reportedVolumes children ++ reportedVolumes rest)

namespace MergeContext

variable {ctx : MergeContext} {tree : LayerTree} {node : LayerNode}

/-- A report that fits mentions places in the order of its volumes. -/
theorem FitsLevel.map_mentioned {parent : Option LayerId} {nodes : List ReportNode}
    (h : ctx.FitsLevel tree parent nodes) :
    (mentioned (tree.spoken parent nodes)).map (fun place => some place.2) =
      (reportedVolumes nodes).map (·.number) := by
  induction parent, nodes using LayerTree.spoken.induct tree with
  | case1 parent =>
    rw [LayerTree.spoken, reportedVolumes]
    rfl
  | case2 parent layer children rest hnone ih =>
    obtain ⟨id, -, hid, -⟩ := fitsLevel_cons.1 h
    rw [hnone] at hid
    cases hid
  | case3 parent layer children rest id hsome ihc ihr =>
    obtain ⟨other, node, hid, -, hlayer, hchildren, hrest, -⟩ := fitsLevel_cons.1 h
    rw [hsome] at hid
    cases hid
    simp only [LayerTree.spoken, hsome, mentioned_cons, mentioned_append, List.map_append,
      reportedVolumes, ihc hchildren, ihr hrest, hlayer.volumes.numbered, List.map_map]
    rfl

/-! ## Drift -/

/-- The entry for the volume that a layer with a suffix has under a number, if the object behind it is
out of tolerance. -/
def drift? (ctx : MergeContext) (suffix : String) (number : UInt32) (leaf : VolumeLeaf) :
    Option Drift :=
  leaf.storage?.bind (fun volume =>
    let identifier := volumeIdentifier ctx.key suffix number
    (ctx.object? identifier volume).bind (fun object =>
      (ctx.sizeState? identifier leaf.expectedSizeKib volume).bind (fun state =>
        if state.isDrift then
          some { identifier, state, expectedKib := leaf.expectedSizeKib, actualKib := object.sizeKib }
        else none)))

theorem observe_drift {suffix : String} {number : UInt32} {leaf next : VolumeLeaf}
    {reported : ReportedVolume} {drift : List Drift}
    (hok : ctx.observe suffix number leaf reported = .ok (next, drift)) :
    drift = (ctx.drift? suffix number leaf).toList := by
  unfold observe at hok
  unfold drift? VolumeLeaf.storage?
  cases hdata : leaf.data with
  | replication _ | encryption _ _ | remoteAttach =>
    rw [hdata] at hok
    cases hok
    rfl
  | storage volume =>
    simp only [hdata, observeStorage] at hok
    split at hok
    · cases hok
    rename_i stored listed hstored
    split at hstored
    · cases hstored
    rw [lookUp_eq] at hstored
    split at hstored
    · cases hstored
    rename_i found hfound
    cases hstored
    cases hok
    simp only [Option.bind_some, sizeState?]
    cases hobject : ctx.object? (volumeIdentifier ctx.key suffix number) volume with
    | none =>
      rw [hobject] at hfound
      cases hfound
      rfl
    | some object =>
      simp only [hobject] at hfound
      cases hpool : ctx.pools.get? ⟨ctx.key.node, volume.pool⟩ with
      | none =>
        rw [hpool] at hfound
        cases hfound
      | some pool =>
        rw [hpool] at hfound
        cases hfound
        simp only [driftOf, Option.bind_some, Option.map_some]
        split <;> rfl

theorem mergeVolumes_drift {reported : List ReportedVolume} :
    ∀ {seen : List UInt32} {volumes next : SortedMap UInt32 VolumeLeaf} {summary after : MergeSummary},
      ctx.mergeVolumes node seen volumes summary reported = .ok (next, after) →
      after.drift = summary.drift ++ (reported.filterMap (·.number)).filterMap
        (fun number => (volumes.get? number).bind (ctx.drift? node.suffix number)) := by
  induction reported with
  | nil =>
    intro seen volumes next summary after hok
    cases hok
    exact (List.append_nil _).symm
  | cons first rest ih =>
    intro seen volumes next summary after hok
    obtain ⟨number, leaf, drift, hnumber, hleaf, hobserve, hrest⟩ := mergeVolumes_cons hok
    obtain ⟨hothers, -⟩ := get?_modify_of_mergeVolumes hrest
    have htail : (rest.filterMap (·.number)).filterMap (fun other =>
        ((volumes.modify number fun _ => ctx.observed node.suffix number leaf first).get? other).bind
          (ctx.drift? node.suffix other)) =
        (rest.filterMap (·.number)).filterMap (fun other =>
          (volumes.get? other).bind (ctx.drift? node.suffix other)) :=
      List.filterMap_congr fun other hother => by rw [hothers other hother]
    rw [ih hrest, htail, MergeSummary.append, observe_drift hobserve,
      List.filterMap_cons_some hnumber, List.filterMap_cons, hleaf, Option.bind_some,
      List.append_assoc]
    cases ctx.drift? node.suffix number leaf <;> rfl

theorem mergeNode_drift {reported : ReportedLayer} {next : LayerNode} {summary : MergeSummary}
    {missing : List Absence} (hok : ctx.mergeNode node reported = .ok (next, summary, missing)) :
    summary.drift = (reported.volumes.filterMap (·.number)).filterMap
      (fun number => (node.volumes.get? number).bind (ctx.drift? node.suffix number)) := by
  obtain ⟨-, -, volumes, counted, hvolumes, rfl, rfl⟩ := mergeNode_inv hok
  simpa [MergeSummary.append] using mergeVolumes_drift hvolumes

/-- The entry for the volume at a place. -/
def driftAt? (ctx : MergeContext) (tree : LayerTree) (place : LayerId × UInt32) : Option Drift :=
  (tree.get? place.1).bind (fun node =>
    (node.volumes.get? place.2).bind (ctx.drift? node.suffix place.2))

theorem drift?_authored (suffix : String) (number : UInt32) (leaf : VolumeLeaf) :
    ctx.drift? suffix number leaf.authored = ctx.drift? suffix number leaf := by
  cases hdata : leaf.data <;>
    simp [drift?, VolumeLeaf.authored, VolumeData.authored, VolumeLeaf.storage?, hdata, object?,
      sizeState?]

theorem driftAt?_authored (place : LayerId × UInt32) :
    ctx.driftAt? tree.authored place = ctx.driftAt? tree place := by
  rw [driftAt?, LayerTree.get?_authored, driftAt?, Option.bind_map]
  refine congrArg (Option.bind _) (funext fun node => ?_)
  rw [Function.comp_apply, LayerNode.authored, SortedMap.get?_mapValues, Option.bind_map]
  exact congrArg (Option.bind _) (funext fun leaf => drift?_authored ..)

/-- Which volumes drift depends on nothing that a report changes. -/
theorem driftAt?_congr {a b : LayerTree} (h : a.authored = b.authored) :
    ctx.driftAt? a = ctx.driftAt? b := by
  funext place
  rw [← driftAt?_authored, h, driftAt?_authored]

theorem mergeLayer_drift {parent : Option LayerId} {taken : List LayerId} {state merged : Merging}
    {reported : ReportedLayer} {id : LayerId}
    (hok : ctx.mergeLayer parent taken state reported = .ok (id, merged)) :
    merged.summary.drift = state.summary.drift ++
      ((reported.volumes.filterMap (·.number)).map (id, ·)).filterMap (ctx.driftAt? state.tree) := by
  obtain ⟨-, node, next, summary, absences, hget, hmerge, rfl⟩ := mergeLayer_inv hok
  rw [MergeSummary.append, mergeNode_drift hmerge, List.filterMap_map]
  simp only [Function.comp_def, driftAt?, hget, Option.bind_some]

/-- Nested layers that are taken in list the drifting volumes that they mention, in their order. -/
theorem mergeLevel_drift {parent : Option LayerId} {taken : List LayerId} {state merged : Merging}
    {nodes : List ReportNode} (h : state.tree.WellFormed)
    (hok : ctx.mergeLevel parent taken state nodes = .ok merged) :
    merged.summary.drift = state.summary.drift ++
      (mentioned (state.tree.spoken parent nodes)).filterMap (ctx.driftAt? state.tree) := by
  refine mergeLevel_rec (fun parent state => ?_) (fun step hbelow hafter => ?_) h hok
  · rw [LayerTree.spoken]
    exact (List.append_nil _).symm
  · -- none of the three parts changes the names or the pools of volumes
    rw [LayerTree.spoken_congr step.first_authored, driftAt?_congr step.first_authored] at hbelow
    rw [LayerTree.spoken_congr step.middle_authored, driftAt?_congr step.middle_authored] at hafter
    simp only [step.spoken, mentioned_cons, mentioned_append, List.filterMap_append]
    rw [hafter, hbelow, mergeLayer_drift step.head, List.append_assoc, List.append_assoc]

end MergeContext

/-- A volume whose size is out of tolerance. -/
def VolumeLeaf.drifts (leaf : VolumeLeaf) : Bool :=
  (leaf.storage?.bind (·.sizeState)).any (fun state => state = .tooSmall || state = .tooLarge)

/-- An entry shows the volume at a place of a resource: the name of its object, the verdict on its
size, the size that was asked for, and the size that the backend has. -/
inductive Drift.Shows (resource : Resource) (facts : FactsMap) : LayerId × UInt32 → Drift → Prop where
  | mk {id : LayerId} {number : UInt32} {node : LayerNode} {leaf : VolumeLeaf}
      {volume : StorageVolume} {state : SizeState} {object : ObjectFacts} :
      resource.tree.get? id = some node → node.volumes.get? number = some leaf →
      leaf.data = .storage volume → volume.sizeState = some state →
      facts.get? (volumeIdentifier resource.key node.suffix number) = some object →
      Shows resource facts (id, number) {
        identifier := volumeIdentifier resource.key node.suffix number
        state
        expectedKib := leaf.expectedSizeKib
        actualKib := object.sizeKib }

theorem SizeState.isDrift_eq (state : SizeState) :
    state.isDrift = (state = .tooSmall || state = .tooLarge) := by
  cases state <;> rfl

namespace MergeContext

variable {ctx : MergeContext} {suffix : String} {number : UInt32} {leaf : VolumeLeaf}
  {reported : ReportedVolume}

theorem facts_of_object? {identifier : String} {volume : StorageVolume} {object : ObjectFacts}
    (h : ctx.object? identifier volume = some object) :
    ctx.facts.get? identifier = some object ∧ object.present = true := by
  unfold object? at h
  split at h
  · exact Option.filter_eq_some_iff.1 h
  · cases h

/-- A volume that is out of tolerance after a report has an entry. -/
theorem exists_drift (h : (ctx.observed suffix number leaf reported).drifts = true) :
    ∃ volume state object, (ctx.observed suffix number leaf reported).data = .storage volume ∧
      volume.sizeState = some state ∧
      ctx.facts.get? (volumeIdentifier ctx.key suffix number) = some object ∧
      ctx.drift? suffix number leaf = some {
        identifier := volumeIdentifier ctx.key suffix number
        state
        expectedKib := leaf.expectedSizeKib
        actualKib := object.sizeKib } := by
  unfold VolumeLeaf.drifts VolumeLeaf.storage? at h
  unfold drift? VolumeLeaf.storage?
  cases hdata : leaf.data with
  | replication _ | encryption _ _ | remoteAttach => simp [observed, hdata] at h
  | storage volume =>
    simp only [observed, hdata, Option.bind_some] at h
    cases hstate : ctx.sizeState? (volumeIdentifier ctx.key suffix number)
        leaf.expectedSizeKib volume with
    | none =>
      rw [hstate] at h
      cases h
    | some state =>
      obtain ⟨object, hobject, -⟩ := Option.bind_eq_some_iff.1 hstate
      rw [hstate, Option.any_some, ← SizeState.isDrift_eq] at h
      obtain ⟨after, hafter, hsame⟩ : ∃ after,
          (ctx.observed suffix number leaf reported).data = .storage after ∧ after.sizeState =
            ctx.sizeState? (volumeIdentifier ctx.key suffix number) leaf.expectedSizeKib volume := by
        simp only [observed, hdata]
        exact ⟨_, rfl, rfl⟩
      refine ⟨after, state, object, hafter, hsame.trans hstate, (facts_of_object? hobject).1, ?_⟩
      simp only [Option.bind_some, hobject, hstate, if_pos h]

/-- A volume that is not has none. -/
theorem drift?_eq_none (h : (ctx.observed suffix number leaf reported).drifts = false) :
    ctx.drift? suffix number leaf = none := by
  unfold VolumeLeaf.drifts VolumeLeaf.storage? at h
  unfold drift? VolumeLeaf.storage?
  cases hdata : leaf.data with
  | replication _ | encryption _ _ | remoteAttach => rfl
  | storage volume =>
    simp only [observed, hdata, Option.bind_some] at h
    simp only [Option.bind_some]
    cases hobject : ctx.object? (volumeIdentifier ctx.key suffix number) volume with
    | none => rfl
    | some object =>
      rw [Option.bind_some]
      cases hstate : ctx.sizeState? (volumeIdentifier ctx.key suffix number)
          leaf.expectedSizeKib volume with
      | none => rfl
      | some state =>
        rw [hstate, Option.any_some, ← SizeState.isDrift_eq] at h
        rw [Option.bind_some, h, if_neg Bool.false_ne_true]

end MergeContext

theorem forall₂_filterMap {α β : Type} {R : α → β → Prop} {p : α → Bool} {f : α → Option β}
    {all : List α} (h : ∀ a ∈ all, p a = true → ∃ b, f a = some b ∧ R a b)
    (h' : ∀ a ∈ all, p a = false → f a = none) :
    List.Forall₂ R (all.filter p) (all.filterMap f) := by
  induction all with
  | nil => exact .nil
  | cons first rest ih =>
    have htail := ih (fun a ha => h a (List.mem_cons_of_mem _ ha))
      (fun a ha => h' a (List.mem_cons_of_mem _ ha))
    cases hp : p first with
    | true =>
      obtain ⟨b, hb, hR⟩ := h first List.mem_cons_self hp
      rw [List.filter_cons_of_pos hp, List.filterMap_cons_some hb]
      exact .cons hR htail
    | false =>
      rw [List.filter_cons_of_neg (by simp [hp]),
        List.filterMap_cons_none (h' first List.mem_cons_self hp)]
      exact htail

namespace Resource

variable {resource : Resource} {call : MergeCall} {merged : Merged}

/-! ## A report -/

theorem take_drift (h : resource.tree.WellFormed) (hok : resource.take call = .ok merged) :
    merged.summary.drift = (mentioned (resource.tree.spoken none call.report.roots)).filterMap
      ((resource.contextOf call).driftAt? resource.tree) := by
  obtain ⟨-, merging, hmerge, rfl⟩ := merge_inv hok
  exact (MergeContext.mergeLevel_drift h hmerge).trans (List.nil_append _)

/-- The volume at a place that a report mentions, before and after the report. -/
theorem exists_observed (h : resource.tree.WellFormed) (hok : resource.take call = .ok merged)
    {id : LayerId} {number : UInt32}
    (hplace : (id, number) ∈ mentioned (resource.tree.spoken none call.report.roots)) :
    ∃ node leaf after reported, resource.tree.get? id = some node ∧
      node.volumes.get? number = some leaf ∧ merged.resource.tree.get? id = some after ∧
      after.suffix = node.suffix ∧
      after.volumes.get? number =
        some ((resource.contextOf call).observed node.suffix number leaf reported) := by
  obtain ⟨hfits, hnext⟩ := (take_eq_ok_iff h).1 ⟨merged, hok, rfl⟩
  obtain ⟨leaf, hleaf⟩ := LayerTree.mem_places_iff.1 (hfits.layers.mentioned_subset hplace)
  obtain ⟨node, hget, hvolume⟩ := Option.bind_eq_some_iff.1 hleaf
  obtain ⟨reported, hreported⟩ := Option.isSome_iff_exists.1 (MergeContext.mem_mentioned_iff.1 hplace)
  obtain ⟨after, hafter, hsuffix, hvolumes⟩ :=
    @MergeContext.get?_observedTree (resource.contextOf call) _ _ (hfits.layers.nodup_spoken h) _ _ hget
  refine ⟨node, leaf, after, reported, hget, hvolume, hnext ▸ hafter, hsuffix, ?_⟩
  rw [hvolumes, hvolume, hreported]
  rfl

/-- The entries of the summary show the drifting ones of the volumes that are mentioned. -/
theorem take_shows (h : resource.tree.WellFormed) (hok : resource.take call = .ok merged) :
    List.Forall₂ (Drift.Shows merged.resource call.facts)
      ((mentioned (resource.tree.spoken none call.report.roots)).filter (fun place =>
        (merged.resource.tree.volume? place.1 place.2).any VolumeLeaf.drifts))
      merged.summary.drift := by
  rw [take_drift h hok]
  refine forall₂_filterMap (fun place hplace hdrifts => ?_) fun place hplace hdrifts => ?_
  all_goals
    obtain ⟨id, number⟩ := place
    obtain ⟨node, leaf, after, reported, hget, hleaf, hafter, hsuffix, hobserved⟩ :=
      exists_observed h hok hplace
    simp only [LayerTree.volume?, hafter, Option.bind_some, hobserved, Option.any_some] at hdrifts
    simp only [MergeContext.driftAt?, hget, hleaf, Option.bind_some]
  · obtain ⟨volume, state, object, hdata, hstate, hfacts, hdrift⟩ := MergeContext.exists_drift hdrifts
    have hkey : merged.resource.key = resource.key := (take_agrees h.nodup hok).1.key
    have hname : volumeIdentifier merged.resource.key after.suffix number =
        volumeIdentifier (resource.contextOf call).key node.suffix number := by
      rw [hkey, hsuffix]
      rfl
    rw [← hname] at hfacts hdrift
    exact ⟨_, hdrift, (Drift.Shows.mk hafter hobserved hdata hstate hfacts :)⟩
  · exact MergeContext.drift?_eq_none hdrifts

/-- A report that is taken in twice in a row leaves the same as once. -/
theorem observed_twice (h : resource.tree.WellFormed) (hfits : resource.Fits call) :
    (resource.observed call).observed call = resource.observed call := by
  have hwell := wellFormed_observed h call
  have hfits' : (resource.observed call).Fits call := fits_observed_iff.2 hfits
  have hsame := @observed_authored (resource.observed call) call
  have htree : (resource.observed call).tree = ((resource.observed call).observed call).tree := by
    refine LayerTree.eq_of_volume? hwell.nodup hsame.symm fun id number => ?_
    cases hget : resource.tree.get? id with
    | none =>
      have hnot := LayerTree.get?_eq_none_iff.1 hget
      rw [← LayerTree.ids_authored_congr (@observed_authored resource call)] at hnot
      have hnone := LayerTree.get?_eq_none_iff.2 hnot
      rw [← LayerTree.ids_authored_congr hsame] at hnot
      rw [LayerTree.volume?, hnone, LayerTree.volume?, LayerTree.get?_eq_none_iff.2 hnot]
    | some node =>
      obtain ⟨first, hfirst, hsuffix, hvolumes⟩ := @MergeContext.get?_observedTree
        (resource.contextOf call) _ _ (hfits.layers.nodup_spoken h) _ _ hget
      obtain ⟨second, hsecond, -, hvolumes'⟩ := @MergeContext.get?_observedTree
        ((resource.observed call).contextOf call) _ _ (hfits'.layers.nodup_spoken hwell) _ _ hfirst
      rw [LayerTree.spoken_congr observed_authored] at hvolumes'
      have hleft : (resource.observed call).tree.get? id = some first := hfirst
      have hright : ((resource.observed call).observed call).tree.get? id = some second := hsecond
      rw [LayerTree.volume?, hleft, LayerTree.volume?, hright, Option.bind_some, Option.bind_some,
        hvolumes', hvolumes, Option.map_map, hsuffix]
      refine Option.map_congr fun leaf _ => ?_
      rw [Function.comp_apply]
      cases MergeContext.mentionIn? (resource.tree.spoken none call.report.roots) id number with
      | none => rfl
      | some reported => exact (MergeContext.observed_observed ..).symm
  exact congrArg (fun tree => refresh { resource with tree }) htree.symm

/-- What the summary of a merge tells of a resource and what became of it. -/
structure Tells (resource : Resource) (call : MergeCall) (merged : Merged) : Prop where
  /-- It counts the observed fields that differ, over all volumes. -/
  changed : merged.summary.changed = (resource.tree.differences merged.resource.tree).length
  unchanged : merged.summary.changed = 0 ↔ merged.resource = resource
  again : ∃ again, merged.resource.take call = .ok again ∧ again.summary.changed = 0 ∧
    again.resource = merged.resource
  reported : merged.summary.merged = (reportedVolumes call.report.roots).length
  /-- It counts the volumes of the layers that are spoken of, each layer once. -/
  matched : merged.summary.merged + merged.summary.tolerated =
    resource.tree.volumesSpoken (resource.tree.spoken none call.report.roots)
  once : ((resource.tree.spoken none call.report.roots).map (·.1)).Nodup
  /-- The report mentions a place for each of its volumes, in their order, and none twice. -/
  walk : (mentioned (resource.tree.spoken none call.report.roots)).map (fun place => some place.2) =
    (reportedVolumes call.report.roots).map (·.number)
  apart : (mentioned (resource.tree.spoken none call.report.roots)).Nodup
  /-- It lists the volumes out of tolerance among these, and no others. -/
  drift : List.Forall₂ (Drift.Shows merged.resource call.facts)
    ((mentioned (resource.tree.spoken none call.report.roots)).filter (fun place =>
      (merged.resource.tree.volume? place.1 place.2).any VolumeLeaf.drifts))
    merged.summary.drift

theorem take_again (h : resource.tree.WellFormed) (hok : resource.take call = .ok merged) :
    ∃ again, merged.resource.take call = .ok again ∧ again.resource = merged.resource := by
  obtain ⟨hfits, hnext⟩ := (take_eq_ok_iff h).1 ⟨merged, hok, rfl⟩
  rw [hnext]
  exact (take_eq_ok_iff (wellFormed_observed h call)).2
    ⟨fits_observed_iff.2 hfits, (observed_twice h hfits).symm⟩

theorem take_unchanged (hsound : resource.Sound) (h : resource.tree.WellFormed)
    (hok : resource.take call = .ok merged) :
    merged.summary.changed = 0 ↔ merged.resource = resource := by
  rw [take_changed h hok, List.length_eq_zero_iff]
  constructor
  · intro hnil
    obtain ⟨⟨hkey, hdefinition, hauthored⟩, hmetadata⟩ := take_agrees h.nodup hok
    have htree : resource.tree = merged.resource.tree :=
      LayerTree.eq_of_differences h.nodup hauthored.symm hnil
    rw [← htree, ← hsound.metadata] at hmetadata
    cases hmerged : merged.resource
    cases hresource : resource
    simp_all
  · intro he
    rw [he, LayerTree.differences_self]

theorem take_tells (hsound : resource.Sound) (h : resource.tree.WellFormed)
    (hok : resource.take call = .ok merged) : resource.Tells call merged := by
  obtain ⟨hfits, hnext⟩ := (take_eq_ok_iff h).1 ⟨merged, hok, rfl⟩
  obtain ⟨hmerged, htotal⟩ := take_counts h hok
  have hwalk := hfits.layers.map_mentioned
  have hlength := congrArg List.length hwalk
  rw [List.length_map, List.length_map, hfits.layers.length_mentioned, ← hmerged] at hlength
  obtain ⟨again, hagain, hsame⟩ := take_again h hok
  have hwell : merged.resource.tree.WellFormed := hnext ▸ wellFormed_observed h call
  have hzero : again.summary.changed = 0 := by
    rw [take_changed hwell hagain, hsame, LayerTree.differences_self]
    rfl
  exact {
    changed := take_changed h hok
    unchanged := take_unchanged hsound h hok
    again := ⟨again, hagain, hzero, hsame⟩
    reported := hlength
    matched := htotal
    once := hfits.layers.nodup_spoken h
    walk := hwalk
    apart := hfits.layers.nodup_mentioned h
    drift := take_shows h hok }

/-- The summary of each report that a loaded resource accepts, whatever reports came since, tells
exactly what became of the resource. -/
theorem summary_exact {doc : Document} {graph : Graph} (hok : Graph.ofDocument doc = .ok graph)
    (hmem : resource ∈ graph.resources.values) (calls : List MergeCall)
    (htake : (resource.mergeAll calls).take call = .ok merged) :
    (resource.mergeAll calls).Tells call merged :=
  have hheld := sound_of_mem hok hmem calls
  take_tells hheld.1 hheld.2 htake

/-- After a report that finds a volume a little too large, one with no tolerance changes the verdict
on its size, and lists it. -/
theorem summary_exact_pair :
    ∃ merged, (pair.mergeAll [pairCall]).take { pairCall with tolerance := 0 } = .ok merged ∧
      (pair.mergeAll [pairCall]).Tells { pairCall with tolerance := 0 } merged ∧
      merged.summary = {
        merged := 2
        changed := 1
        drift := [{ identifier := "r_00000", state := .tooLarge, expectedKib := 8, actualKib := 12 }] } := by
  obtain ⟨merged, htake, hsummary⟩ := exists_of_summary
    (show ((pair.mergeAll [pairCall]).take { pairCall with tolerance := 0 }).toOption.map (·.summary) =
      some {
        merged := 2
        changed := 1
        drift := [{ identifier := "r_00000", state := .tooLarge, expectedKib := 8, actualKib := 12 }] }
      by cbv)
  exact ⟨merged, htake, summary_exact ofDocument_pair pair_mem [pairCall] htake, hsummary⟩

end Resource
end BlockStack
