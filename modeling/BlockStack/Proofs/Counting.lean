import BlockStack.Proofs.Acceptance
import Mathlib.Data.List.Perm.Basic

/-!
# BlockStack.Proofs.Counting

What the summary of a merge counts. Each reported volume is merged, and the other volumes of the
layers that a report speaks of are tolerated as absent; layers that it does not speak of are not
counted.

* `MergeContext.mergeVolumes_counts`, `MergeContext.mergeNode_counts`: one layer.
* `MergeContext.mergeLevel_counts`: nested layers, by the layers they speak of.
* `Resource.take_counts`: a whole report.
-/

namespace BlockStack

namespace MergeContext

variable {ctx : MergeContext} {node : LayerNode}

/-! ## One layer -/

theorem mergeVolumes_counts {reported : List ReportedVolume} :
    ∀ {seen : List UInt32} {volumes next : SortedMap UInt32 VolumeLeaf} {summary after : MergeSummary},
      ctx.mergeVolumes node seen volumes summary reported = .ok (next, after) →
      after.merged = summary.merged + reported.length ∧ after.tolerated = summary.tolerated := by
  induction reported with
  | nil =>
    intro seen volumes next summary after hok
    cases hok
    exact ⟨rfl, rfl⟩
  | cons first rest ih =>
    intro seen volumes next summary after hok
    obtain ⟨_, _, _, -, -, -, hrest⟩ := mergeVolumes_cons hok
    obtain ⟨hmerged, htolerated⟩ := ih hrest
    simp only [MergeSummary.append] at hmerged htolerated
    rw [List.length_cons]
    omega

theorem map_number_eq {reported : List ReportedVolume} (h : ∀ r ∈ reported, r.number.isSome) :
    reported.map (·.number) = (reported.filterMap (·.number)).map some := by
  induction reported with
  | nil => rfl
  | cons first rest ih =>
    obtain ⟨number, hn⟩ := Option.isSome_iff_exists.1 (h first List.mem_cons_self)
    rw [List.map_cons, List.filterMap_cons_some hn, List.map_cons, hn,
      ih fun r hr => h r (List.mem_cons_of_mem _ hr)]

theorem FitsVolumes.numbered {suffix : String} {volumes : SortedMap UInt32 VolumeLeaf}
    {reported : List ReportedVolume} (h : ctx.FitsVolumes suffix volumes reported) :
    reported.map (·.number) = (reported.filterMap (·.number)).map some := by
  refine map_number_eq fun r hr => ?_
  obtain ⟨number, leaf, hnumber, -⟩ := h.each r hr
  rw [hnumber]
  rfl

theorem FitsVolumes.nodup_numbers {suffix : String} {volumes : SortedMap UInt32 VolumeLeaf}
    {reported : List ReportedVolume} (h : ctx.FitsVolumes suffix volumes reported) :
    (reported.filterMap (·.number)).Nodup := by
  have hdistinct := h.distinct
  rw [h.numbered] at hdistinct
  exact hdistinct.of_map _

theorem FitsVolumes.length_numbers {suffix : String} {volumes : SortedMap UInt32 VolumeLeaf}
    {reported : List ReportedVolume} (h : ctx.FitsVolumes suffix volumes reported) :
    (reported.filterMap (·.number)).length = reported.length := by
  have hlength := congrArg List.length h.numbered
  rw [List.length_map, List.length_map] at hlength
  exact hlength.symm

/-- Of the volumes of a layer that a report fits, some are reported and the others absent. -/
theorem length_absent {reported : ReportedLayer}
    (h : ctx.FitsVolumes node.suffix node.volumes reported.volumes) :
    reported.volumes.length + (absent node reported).length = node.volumes.size := by
  have hnodup := h.nodup_numbers
  have hsub : ∀ number ∈ reported.volumes.filterMap (·.number), number ∈ node.volumes.keys := by
    intro number hmem
    obtain ⟨r, hr, hn⟩ := List.mem_filterMap.1 hmem
    obtain ⟨other, leaf, hother, hleaf, -⟩ := h.each r hr
    rw [hn] at hother
    cases hother
    exact SortedMap.mem_keys_iff.2 ⟨leaf, hleaf⟩
  -- the numbers that are reported are those among all numbers that are not absent
  have hpresent : (node.volumes.keys.filter
      (fun number => (reported.volumes.filterMap (·.number)).contains number)).Perm
      (reported.volumes.filterMap (·.number)) := by
    refine (List.perm_ext_iff_of_nodup ((SortedMap.nodup_keys _).filter _) hnodup).2 fun number => ?_
    rw [List.mem_filter, List.contains_iff_mem]
    exact ⟨fun hm => hm.2, fun hm => ⟨hsub number hm, hm⟩⟩
  have hlength := h.length_numbers
  have hsplit := (List.filter_append_perm
    (fun number => (reported.volumes.filterMap (·.number)).contains number)
    node.volumes.keys).length_eq
  have hsize : node.volumes.keys.length = node.volumes.size := List.length_map _
  rw [List.length_append, hpresent.length_eq] at hsplit
  rw [absent]
  omega

theorem length_absences {reported : ReportedLayer} {missing : List Absence}
    (hok : ctx.absences node reported = .ok missing) :
    missing.length = (absent node reported).length := by
  unfold absences at hok
  split at hok
  · rename_i hnone
    cases hok
    rw [hnone]
    rfl
  · rename_i hsome
    split at hok
    · cases hok
      rw [hsome, List.length_map]
    · cases hok

/-- A layer that is taken in has its reported volumes merged, and the others tolerated. -/
theorem mergeNode_counts {reported : ReportedLayer} {next : LayerNode} {summary : MergeSummary}
    {missing : List Absence} (hok : ctx.mergeNode node reported = .ok (next, summary, missing)) :
    summary.merged = reported.volumes.length ∧
      summary.merged + summary.tolerated = node.volumes.size := by
  obtain ⟨hfits, -⟩ := mergeNode_eq_ok_iff.1 ⟨_, hok⟩
  have habsent := length_absent hfits.volumes
  obtain ⟨-, habsences, volumes, counted, hvolumes, -, rfl⟩ := mergeNode_inv hok
  obtain ⟨hmerged, htolerated⟩ := mergeVolumes_counts hvolumes
  have hmissing := length_absences habsences
  simp only [MergeSummary.append] at hmerged htolerated ⊢
  omega

end MergeContext

/-! ## Nested layers -/

namespace LayerTree

/-- How many volumes the layer with a number has. -/
def volumeCount (tree : LayerTree) (id : LayerId) : Nat :=
  ((tree.get? id).map (fun node => node.volumes.size)).getD 0

theorem volumeCount_of_get? {tree : LayerTree} {id : LayerId} {node : LayerNode}
    (hget : tree.get? id = some node) : tree.volumeCount id = node.volumes.size := by
  rw [volumeCount, hget]
  rfl

theorem volumeCount_authored (tree : LayerTree) (id : LayerId) :
    tree.authored.volumeCount id = tree.volumeCount id := by
  rw [volumeCount, volumeCount, get?_authored, Option.map_map]
  congr 2
  funext node
  exact List.length_map _

theorem volumeCount_congr {a b : LayerTree} (h : a.authored = b.authored) (id : LayerId) :
    a.volumeCount id = b.volumeCount id := by
  rw [← volumeCount_authored, h, volumeCount_authored]

end LayerTree

/-- How many volumes are reported of some layers. -/
def volumesReported (spoken : List (LayerId × ReportedLayer)) : Nat :=
  (spoken.map (fun p => p.2.volumes.length)).sum

/-- How many volumes some layers have. -/
def LayerTree.volumesSpoken (tree : LayerTree) (spoken : List (LayerId × ReportedLayer)) : Nat :=
  (spoken.map (fun p => tree.volumeCount p.1)).sum

namespace MergeContext

variable {ctx : MergeContext}

theorem mergeLayer_counts {parent : Option LayerId} {taken : List LayerId} {state merged : Merging}
    {reported : ReportedLayer} {id : LayerId}
    (hok : ctx.mergeLayer parent taken state reported = .ok (id, merged)) :
    merged.summary.merged = state.summary.merged + reported.volumes.length ∧
      merged.summary.merged + merged.summary.tolerated =
        state.summary.merged + state.summary.tolerated + state.tree.volumeCount id := by
  obtain ⟨-, node, next, summary, absences, hget, hmerge, rfl⟩ := mergeLayer_inv hok
  obtain ⟨hmerged, htotal⟩ := mergeNode_counts hmerge
  rw [LayerTree.volumeCount_of_get? hget]
  simp only [MergeSummary.append]
  omega

/-- Nested layers that are taken in have their reported volumes merged, and the other volumes of the
layers that they speak of tolerated. -/
theorem mergeLevel_counts {parent : Option LayerId} {taken : List LayerId} {state merged : Merging}
    {nodes : List ReportNode} (h : state.tree.WellFormed)
    (hok : ctx.mergeLevel parent taken state nodes = .ok merged) :
    merged.summary.merged =
        state.summary.merged + volumesReported (state.tree.spoken parent nodes) ∧
      merged.summary.merged + merged.summary.tolerated =
        state.summary.merged + state.summary.tolerated +
          state.tree.volumesSpoken (state.tree.spoken parent nodes) := by
  refine mergeLevel_rec (fun parent state => ?_) (fun step hbelow hafter => ?_) h hok
  · simp [LayerTree.spoken, volumesReported, LayerTree.volumesSpoken]
  · obtain ⟨hmerged, htotal⟩ := mergeLayer_counts step.head
    obtain ⟨hmergedc, htotalc⟩ := hbelow
    obtain ⟨hmergedr, htotalr⟩ := hafter
    simp only [LayerTree.spoken_congr step.first_authored, LayerTree.spoken_congr step.middle_authored,
      LayerTree.volumesSpoken, LayerTree.volumeCount_congr step.first_authored,
      LayerTree.volumeCount_congr step.middle_authored] at hmergedc htotalc hmergedr htotalr
    simp only [step.spoken, volumesReported, LayerTree.volumesSpoken, List.map_cons,
      List.map_append, List.sum_cons, List.sum_append] at *
    omega

end MergeContext

/-! ## A report -/

/-- A report that is accepted has all its volumes merged, and the other volumes of the layers that it
speaks of tolerated. -/
theorem Resource.take_counts {resource : Resource} {call : MergeCall} (h : resource.tree.WellFormed)
    {merged : Merged} (hok : resource.take call = .ok merged) :
    merged.summary.merged = volumesReported (resource.tree.spoken none call.report.roots) ∧
      merged.summary.merged + merged.summary.tolerated =
        resource.tree.volumesSpoken (resource.tree.spoken none call.report.roots) := by
  obtain ⟨-, merging, hmerge, rfl⟩ := merge_inv hok
  have hcounts := MergeContext.mergeLevel_counts h hmerge
  simpa using hcounts

end BlockStack
