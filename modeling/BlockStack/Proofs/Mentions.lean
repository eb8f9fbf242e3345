import BlockStack.Proofs.Naming

/-!
# BlockStack.Proofs.Mentions

Where the volumes of a resource are, and which of these places a report mentions.

* `LayerTree.places`: a layer and a number for each volume.
* `mentioned`: the places of the reported volumes, in the order of the report.
* `MergeContext.FitsLevel.nodup_mentioned`: a report that fits mentions no place twice.
-/

namespace BlockStack

/-! ## Places -/

namespace LayerTree

/-- The places of the volumes of a layer, by their numbers. -/
def placesOf (tree : LayerTree) (id : LayerId) : List (LayerId × UInt32) :=
  (((tree.get? id).map (·.volumes.keys)).getD []).map (id, ·)

/-- The places of all volumes, layer by layer. -/
def places (tree : LayerTree) : List (LayerId × UInt32) := tree.ids.flatMap tree.placesOf

variable {tree : LayerTree}

theorem mem_placesOf_iff {id : LayerId} {place : LayerId × UInt32} :
    place ∈ tree.placesOf id ↔ id = place.1 ∧ ∃ leaf, tree.volume? place.1 place.2 = some leaf := by
  obtain ⟨layer, number⟩ := place
  rw [placesOf, List.mem_map]
  constructor
  · rintro ⟨n, hn, he⟩
    cases he
    cases hget : tree.get? id with
    | none =>
      rw [hget] at hn
      cases hn
    | some node =>
      rw [hget, Option.map_some, Option.getD_some] at hn
      rw [volume?, hget, Option.bind_some]
      exact ⟨rfl, SortedMap.mem_keys_iff.1 hn⟩
  · rintro ⟨rfl, leaf, hleaf⟩
    obtain ⟨node, hget, hvolume⟩ := Option.bind_eq_some_iff.1 hleaf
    refine ⟨number, ?_, rfl⟩
    rw [hget, Option.map_some, Option.getD_some]
    exact SortedMap.mem_keys_iff.2 ⟨leaf, hvolume⟩

theorem length_placesOf (id : LayerId) : (tree.placesOf id).length = tree.volumeCount id := by
  rw [placesOf, List.length_map, volumeCount]
  cases tree.get? id with
  | none => rfl
  | some node => exact List.length_map _

theorem nodup_flatMap_placesOf {ids : List LayerId} (h : ids.Nodup) :
    (ids.flatMap tree.placesOf).Nodup := by
  refine List.nodup_flatMap.2 ⟨fun id _ => ?_, h.imp fun {a b} hne => ?_⟩
  · rw [placesOf]
    refine List.Nodup.map (fun _ _ he => (Prod.mk.inj he).2) ?_
    cases tree.get? id with
    | none => exact List.nodup_nil
    | some node => exact SortedMap.nodup_keys _
  · rw [Function.onFun, List.disjoint_left]
    intro place ha hb
    exact hne ((mem_placesOf_iff.1 ha).1.trans (mem_placesOf_iff.1 hb).1.symm)

theorem nodup_places (h : tree.ids.Nodup) : tree.places.Nodup := nodup_flatMap_placesOf h

theorem mem_ids_of_volume? {id : LayerId} {number : UInt32} {leaf : VolumeLeaf}
    (h : tree.volume? id number = some leaf) : id ∈ tree.ids := by
  obtain ⟨node, hget, -⟩ := Option.bind_eq_some_iff.1 h
  exact id_of_get? hget ▸ List.mem_map_of_mem (mem_of_get? hget)

theorem mem_places_iff {place : LayerId × UInt32} :
    place ∈ tree.places ↔ ∃ leaf, tree.volume? place.1 place.2 = some leaf := by
  rw [places, List.mem_flatMap]
  constructor
  · rintro ⟨id, -, hplace⟩
    exact (mem_placesOf_iff.1 hplace).2
  · rintro ⟨leaf, hleaf⟩
    exact ⟨place.1, mem_ids_of_volume? hleaf, mem_placesOf_iff.2 ⟨rfl, leaf, hleaf⟩⟩

theorem length_places (h : tree.ids.Nodup) : tree.places.length = tree.leafCount := by
  rw [places, List.length_flatMap, ← sum_volumeCount h]
  exact congrArg List.sum (List.map_congr_left fun id _ => length_placesOf id)

/-- The volumes of the layers that a report speaks of. -/
theorem volumesSpoken_eq (spoken : List (LayerId × ReportedLayer)) :
    tree.volumesSpoken spoken = ((spoken.map (·.1)).flatMap tree.placesOf).length := by
  rw [volumesSpoken, List.length_flatMap, List.map_map]
  exact congrArg List.sum (List.map_congr_left fun p _ => (length_placesOf p.1).symm)

end LayerTree

/-! ## Mentions -/

/-- The places of the volumes that are reported of some layers, in the order of the report. -/
def mentioned (spoken : List (LayerId × ReportedLayer)) : List (LayerId × UInt32) :=
  spoken.flatMap (fun p => (p.2.volumes.filterMap (·.number)).map (p.1, ·))

theorem mentioned_cons (p : LayerId × ReportedLayer) (rest : List (LayerId × ReportedLayer)) :
    mentioned (p :: rest) = (p.2.volumes.filterMap (·.number)).map (p.1, ·) ++ mentioned rest :=
  List.flatMap_cons

theorem mentioned_append (a b : List (LayerId × ReportedLayer)) :
    mentioned (a ++ b) = mentioned a ++ mentioned b := List.flatMap_append

theorem mem_spoken_of_mentioned {spoken : List (LayerId × ReportedLayer)}
    {place : LayerId × UInt32} (h : place ∈ mentioned spoken) : place.1 ∈ spoken.map (·.1) := by
  obtain ⟨p, hp, hplace⟩ := List.mem_flatMap.1 h
  obtain ⟨number, -, rfl⟩ := List.mem_map.1 hplace
  exact List.mem_map_of_mem hp

namespace MergeContext

variable {ctx : MergeContext} {tree : LayerTree} {parent : Option LayerId} {nodes : List ReportNode}
  {spoken : List (LayerId × ReportedLayer)}

theorem isSome_reportOf?_iff {reported : List ReportedVolume} {number : UInt32} :
    (reportOf? reported number).isSome = true ↔ number ∈ reported.filterMap (·.number) := by
  simp [reportOf?, List.find?_isSome, List.mem_filterMap]

theorem mem_mentioned_iff {place : LayerId × UInt32} :
    place ∈ mentioned spoken ↔ (mentionIn? spoken place.1 place.2).isSome = true := by
  obtain ⟨id, number⟩ := place
  rw [mentionIn?, List.findSome?_isSome_iff, mentioned, List.mem_flatMap]
  constructor
  · rintro ⟨p, hp, hplace⟩
    obtain ⟨n, hn, he⟩ := List.mem_map.1 hplace
    cases he
    refine ⟨p, hp, ?_⟩
    rw [if_pos rfl]
    exact isSome_reportOf?_iff.2 hn
  · rintro ⟨p, hp, hsome⟩
    split at hsome
    · rename_i hid
      subst hid
      exact ⟨p, hp, List.mem_map_of_mem (isSome_reportOf?_iff.1 hsome)⟩
    · cases hsome

/-- Each layer that a report speaks of is there, and fits what is reported of it. -/
theorem FitsLevel.fits_of_mem_spoken (h : ctx.FitsLevel tree parent nodes)
    {p : LayerId × ReportedLayer} (hp : p ∈ tree.spoken parent nodes) :
    ∃ node, tree.get? p.1 = some node ∧ ctx.FitsLayer node p.2 := by
  induction parent, nodes using LayerTree.spoken.induct tree with
  | case1 parent => simp [LayerTree.spoken] at hp
  | case2 parent layer children rest hnone ih =>
    obtain ⟨-, -, -, -, -, -, hrest, -⟩ := fitsLevel_cons.1 h
    rw [LayerTree.spoken, hnone] at hp
    exact ih hrest hp
  | case3 parent layer children rest id hsome ihc ihr =>
    obtain ⟨other, node, hid, hget, hlayer, hchildren, hrest, -⟩ := fitsLevel_cons.1 h
    rw [hsome] at hid
    cases hid
    rw [LayerTree.spoken, hsome] at hp
    rcases List.mem_cons.1 hp with rfl | hp
    · exact ⟨node, hget, hlayer⟩
    · exact (List.mem_append.1 hp).elim (ihc hchildren) (ihr hrest)

/-- A report that fits mentions as many places as it has volumes. -/
theorem FitsLevel.length_mentioned (h : ctx.FitsLevel tree parent nodes) :
    (mentioned (tree.spoken parent nodes)).length = volumesReported (tree.spoken parent nodes) := by
  rw [mentioned, List.length_flatMap, volumesReported]
  refine congrArg List.sum (List.map_congr_left fun p hp => ?_)
  obtain ⟨node, -, hfits⟩ := h.fits_of_mem_spoken hp
  rw [List.length_map, hfits.volumes.length_numbers]

theorem FitsLevel.nodup_mentioned (hwf : tree.WellFormed) (h : ctx.FitsLevel tree parent nodes) :
    (mentioned (tree.spoken parent nodes)).Nodup := by
  refine List.nodup_flatMap.2 ⟨fun p hp => ?_, ?_⟩
  · obtain ⟨node, -, hfits⟩ := h.fits_of_mem_spoken hp
    exact hfits.volumes.nodup_numbers.map fun _ _ he => (Prod.mk.inj he).2
  · refine (List.pairwise_map.1 (h.nodup_spoken hwf)).imp fun {a b} hne => ?_
    rw [Function.onFun, List.disjoint_left]
    intro place ha hb
    obtain ⟨_, -, rfl⟩ := List.mem_map.1 ha
    obtain ⟨_, -, he⟩ := List.mem_map.1 hb
    exact hne (Prod.mk.inj he).1.symm

theorem FitsLevel.mentioned_subset (h : ctx.FitsLevel tree parent nodes) :
    mentioned (tree.spoken parent nodes) ⊆ tree.places := by
  intro place hplace
  obtain ⟨p, hp, hnumber⟩ := List.mem_flatMap.1 hplace
  obtain ⟨number, hn, rfl⟩ := List.mem_map.1 hnumber
  obtain ⟨node, hget, hfits⟩ := h.fits_of_mem_spoken hp
  obtain ⟨r, hr, hrnumber⟩ := List.mem_filterMap.1 hn
  obtain ⟨other, leaf, hother, hleaf, -⟩ := hfits.volumes.each r hr
  rw [hrnumber] at hother
  cases hother
  refine LayerTree.mem_places_iff.2 ⟨leaf, ?_⟩
  rw [LayerTree.volume?, hget]
  exact hleaf

end MergeContext

namespace Resource

theorem exists_of_summary {result : Except Rejection Merged} {summary : MergeSummary}
    (h : result.toOption.map (·.summary) = some summary) :
    ∃ merged, result = .ok merged ∧ merged.summary = summary := by
  cases result with
  | ok merged => exact ⟨merged, rfl, Option.some.inj h⟩
  | error rejection => cases h

/-- A report that is accepted keeps the volumes that it does not mention. -/
theorem take_kept {resource : Resource} {call : MergeCall} {merged : Merged}
    (h : resource.tree.WellFormed) (hok : resource.take call = .ok merged)
    {place : LayerId × UInt32} (hplace : place ∈ resource.tree.places)
    (hnot : place ∉ mentioned (resource.tree.spoken none call.report.roots)) :
    merged.resource.tree.volume? place.1 place.2 = resource.tree.volume? place.1 place.2 := by
  obtain ⟨leaf, hleaf⟩ := LayerTree.mem_places_iff.1 hplace
  obtain ⟨node, hget, hvolume⟩ := Option.bind_eq_some_iff.1 hleaf
  have hmention : call.mention? resource.tree place.1 place.2 = none :=
    Option.not_isSome_iff_eq_none.1 fun hsome => hnot (MergeContext.mem_mentioned_iff.2 hsome)
  rw [PlacedVolume.volume?_take h hok hget, hmention, hvolume, hleaf]
  rfl

end Resource
end BlockStack
