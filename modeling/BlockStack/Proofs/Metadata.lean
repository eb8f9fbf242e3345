import BlockStack.Proofs.Depiction
import BlockStack.Proofs.Matching

/-!
# BlockStack.Proofs.Metadata

What is derived from a tree does not depend on the order in which its nodes were attached, nor on
what satellites observe.

* `LayerTree.Same.get?_eq`, `LayerTree.Same.perm`: equal forests answer alike.
* `LayerNode.outline`: what metadata are derived from, of one layer.
* `Metadata.ofTree_congr`, `Metadata.ofTree_unsized`, `Metadata.ofTree_authored`.
-/

namespace BlockStack

namespace LayerTree

variable {a b : LayerTree}

theorem Same.ids_perm (h : a.Same b) (ha : a.ids.Nodup) : a.ids.Perm b.ids := by
  have hsub : a.ids ⊆ b.ids := by
    intro id hid
    obtain ⟨node, hnode, rfl⟩ := List.mem_map.1 hid
    have hget := h.2.2 node hnode
    rw [← id_of_get? hget]
    exact List.mem_map_of_mem (mem_of_get? hget)
  have hsize : a.nodes.length = b.nodes.length := h.2.1
  refine (List.subperm_of_subset ha hsub).perm_of_length_le ?_
  simp [ids, hsize]

/-- Equal forests answer alike. -/
theorem Same.get?_eq (h : a.Same b) (ha : a.ids.Nodup) (id : LayerId) : a.get? id = b.get? id := by
  cases hget : a.get? id with
  | some node =>
    have := h.2.2 node (mem_of_get? hget)
    rw [id_of_get? hget] at this
    exact this.symm
  | none =>
    rw [get?_eq_none_iff, (h.ids_perm ha).mem_iff] at hget
    exact (get?_eq_none_iff.2 hget).symm

/-- Equal forests have the same nodes. -/
theorem Same.perm (h : a.Same b) (ha : a.ids.Nodup) : a.nodes.Perm b.nodes := by
  have hb : b.ids.Nodup := (h.ids_perm ha).nodup_iff.1 ha
  refine (List.perm_ext_iff_of_nodup (List.Nodup.of_map _ ha) (List.Nodup.of_map _ hb)).2 fun node => ?_
  have key : ∀ {t : LayerTree}, t.ids.Nodup → (node ∈ t.nodes ↔ t.get? node.id = some node) :=
    fun ht => ⟨get?_of_mem ht, mem_of_get?⟩
  rw [key ha, key hb, h.get?_eq ha]

end LayerTree

theorem get?_ofList_unit (numbers : List UInt32) (number : UInt32) :
    (SortedMap.ofList (numbers.map (·, ()))).get? number =
      if number ∈ numbers then some () else none := by
  rw [SortedMap.get?_ofList]
  split
  · rename_i hmem
    cases hlast : ((numbers.map (·, ())).filter (fun e => e.1 = number)).getLast? with
    | none =>
      rw [List.getLast?_eq_none_iff, List.filter_eq_nil_iff] at hlast
      exact absurd (decide_eq_true rfl) (hlast (number, ()) (List.mem_map_of_mem hmem))
    | some e => rfl
  · rename_i hmem
    have : (numbers.map (·, ())).filter (fun e => e.1 = number) = [] := by
      refine List.filter_eq_nil_iff.2 fun e he hk => hmem ?_
      obtain ⟨n, hn, rfl⟩ := List.mem_map.1 he
      exact of_decide_eq_true hk ▸ hn
    rw [this]
    rfl

/-- What metadata are derived from, of one layer. -/
structure Outline where
  id : LayerId
  kind : LayerKind
  children : List LayerId
  numbers : List UInt32
  backed : Bool

def LayerNode.outline (node : LayerNode) : Outline where
  id := node.id
  kind := node.kind
  children := node.children
  numbers := node.volumes.keys
  backed := node.volumes.values.any VolumeLeaf.hasBackingObject

namespace Metadata

theorem descend_congr {a b : LayerTree} (h : ∀ id, (a.get? id).map (fun n => (n.kind, n.children)) =
    (b.get? id).map (fun n => (n.kind, n.children))) (fuel : Nat) :
    ∀ id, descend a fuel id = descend b fuel id := by
  induction fuel with
  | zero => exact fun _ => rfl
  | succ fuel ih =>
    intro id
    cases id with
    | none => rfl
    | some id =>
      have := h id
      simp only [descend]
      cases ha : a.get? id <;> cases hb : b.get? id <;> simp only [ha, hb, Option.map_some,
        Option.map_none, reduceCtorEq, Option.some.injEq, Prod.mk.injEq] at this
      · rfl
      · dsimp only
        rw [this.1, this.2, ih]

theorem any_storageVolumes (tree : LayerTree) (test : VolumeLeaf → Bool) :
    tree.storageVolumes.any (fun e => test e.2) = tree.nodes.any (fun node =>
      decide (node.kind = .storage) && node.volumes.values.any test) := by
  rw [LayerTree.storageVolumes, List.any_flatMap, List.any_filter]
  simp only [List.any_map]
  rfl

theorem volumeNumbers_eq (tree : LayerTree) : (ofTree tree).volumeNumbers =
    .ofList ((tree.nodes.flatMap (fun node => node.volumes.keys)).map (·, ())) := by
  rw [List.map_flatMap]
  rfl

/-- What is derived from equal forests is equal. -/
theorem ofTree_congr {a b : LayerTree} (h : a.Same b) (ha : a.ids.Nodup) : ofTree a = ofTree b := by
  have hperm := h.perm ha
  have hstack : (ofTree a).layerStack = (ofTree b).layerStack := by
    simp only [ofTree, h.1, h.2.1]
    exact descend_congr (fun id => by rw [h.get?_eq ha]) _ _
  have hdiskless : (ofTree a).diskless = (ofTree b).diskless := by
    simp only [ofTree, any_storageVolumes]
    rw [hperm.any_eq]
  have hnumbers : (ofTree a).volumeNumbers = (ofTree b).volumeNumbers := by
    rw [volumeNumbers_eq, volumeNumbers_eq]
    refine SortedMap.ext_get? fun number => ?_
    rw [get?_ofList_unit, get?_ofList_unit]
    simp only [(hperm.flatMap_right _).mem_iff]
  cases hA : ofTree a
  cases hB : ofTree b
  simp only [hA, hB] at hstack hdiskless hnumbers
  rw [hstack, hdiskless, hnumbers]

/-- What is derived from a tree depends on its roots and on the outlines of its nodes only. -/
theorem ofTree_outline_congr {a b : LayerTree} (hroots : a.roots = b.roots)
    (h : a.nodes.map LayerNode.outline = b.nodes.map LayerNode.outline) : ofTree a = ofTree b := by
  have hsize : a.size = b.size := by
    have := congrArg List.length h
    rwa [List.length_map, List.length_map] at this
  have hget : ∀ id, (a.get? id).map LayerNode.outline = (b.get? id).map LayerNode.outline := by
    have look : ∀ (t : LayerTree) id, (t.get? id).map LayerNode.outline =
        (t.nodes.map LayerNode.outline).find? (fun o => o.id = id) := by
      intro t id
      rw [List.find?_map]
      rfl
    intro id
    rw [look, look, h]
  have hstack : (ofTree a).layerStack = (ofTree b).layerStack := by
    simp only [ofTree, hroots, hsize]
    refine descend_congr (fun id => ?_) _ _
    have := congrArg (Option.map fun o : Outline => (o.kind, o.children)) (hget id)
    simpa [Option.map_map, Function.comp_def, LayerNode.outline] using this
  have hdiskless : (ofTree a).diskless = (ofTree b).diskless := by
    have look : ∀ t : LayerTree, (ofTree t).diskless =
        !(t.nodes.map LayerNode.outline).any (fun o => decide (o.kind = .storage) && o.backed) := by
      intro t
      simp only [ofTree, any_storageVolumes, List.any_map]
      rfl
    rw [look, look, h]
  have hnumbers : (ofTree a).volumeNumbers = (ofTree b).volumeNumbers := by
    have := congrArg (List.flatMap Outline.numbers) h
    simp only [List.flatMap_map, LayerNode.outline] at this
    rw [volumeNumbers_eq, volumeNumbers_eq, this]
  cases hA : ofTree a
  cases hB : ofTree b
  simp only [hA, hB] at hstack hdiskless hnumbers
  rw [hstack, hdiskless, hnumbers]

/-- A change of each volume that leaves it an object of a backend or not. -/
theorem outline_mapValues {f : VolumeLeaf → VolumeLeaf}
    (hf : ∀ leaf, (f leaf).hasBackingObject = leaf.hasBackingObject) (node : LayerNode) :
    { node with volumes := node.volumes.mapValues (fun _ leaf => f leaf) : LayerNode }.outline =
      node.outline := by
  have hbacked : (node.volumes.mapValues (fun _ leaf => f leaf)).values.any
      VolumeLeaf.hasBackingObject = node.volumes.values.any VolumeLeaf.hasBackingObject := by
    simp [SortedMap.values, SortedMap.mapValues, List.any_map, Function.comp_def, hf]
  simp [LayerNode.outline, LayerNode.kind, hbacked]

/-- Verdicts on sizes do not matter to what is derived. -/
theorem ofTree_unsized (tree : LayerTree) : ofTree tree.unsized = ofTree tree := by
  refine ofTree_outline_congr rfl ?_
  simp only [LayerTree.unsized, List.map_map]
  refine List.map_congr_left fun node _ => outline_mapValues (fun leaf => ?_) node
  cases hdata : leaf.data <;>
    simp [VolumeLeaf.hasBackingObject, VolumeLeaf.storage?, VolumeLeaf.unsized, VolumeData.unsized,
      hdata]

/-- Nor does anything else that satellites observe. -/
theorem ofTree_authored (tree : LayerTree) : ofTree tree.authored = ofTree tree := by
  refine ofTree_outline_congr rfl ?_
  simp only [LayerTree.authored, List.map_map]
  refine List.map_congr_left fun node _ => outline_mapValues (fun leaf => ?_) node
  cases hdata : leaf.data <;>
    simp [VolumeLeaf.hasBackingObject, VolumeLeaf.storage?, VolumeLeaf.authored, VolumeData.authored,
      hdata]

end Metadata
end BlockStack
