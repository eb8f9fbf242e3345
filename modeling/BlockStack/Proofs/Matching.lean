import BlockStack.Proofs.Forest
import BlockStack.Proofs.Observation
import Mathlib

/-!
# BlockStack.Proofs.Matching

What the nested layers of a report say of the layers of a resource.

* `LayerTree.spokenOf?`: the layer that a reported layer speaks of; `LayerTree.spoken`: all pairs of
  a layer and what is reported of it.
* `MergeContext.FitsNode`, `MergeContext.FitsLevel`: when nested reported layers fit a tree.
* `fitsLevel_congr`, `spoken_congr`: both depend on nothing that a report changes.
* `MergeContext.mergeLevel_eq_ok_iff`: a merge takes nested layers in exactly if they fit, and then
  observes each layer that is spoken of.
* `MergeContext.mergeLevel_rec`: the induction over nested layers that are taken in.
-/

namespace BlockStack

namespace LayerTree

/-- The tree without what a satellite observes. -/
def authored (tree : LayerTree) : LayerTree :=
  { tree with nodes := tree.nodes.map LayerNode.authored }

/-- The layers below a parent, or at the top, in the order in which they were attached. -/
def nodesBelow (tree : LayerTree) (parent : Option LayerId) : List LayerNode :=
  tree.nodes.filter (fun node => node.parent = parent)

/-- The layer that a reported layer speaks of: of the layers below a parent, or at the top, the
first one with its kind and suffix. -/
def spokenOf? (tree : LayerTree) (parent : Option LayerId) (reported : ReportedLayer) :
    Option LayerId :=
  (reported.kind.bind LayerKind.ofName?).bind (fun kind =>
    reported.suffix.bind (fun suffix =>
      ((tree.nodesBelow parent).find? (matching kind suffix)).map (·.id)))

/-- The layers that nested reported layers speak of, each with what is reported of it, depth
first. -/
def spoken (tree : LayerTree) (parent : Option LayerId) :
    List ReportNode → List (LayerId × ReportedLayer)
  | [] => []
  | .mk layer children :: rest =>
    match tree.spokenOf? parent layer with
    | none => tree.spoken parent rest
    | some id => (id, layer) :: (tree.spoken (some id) children ++ tree.spoken parent rest)

variable {tree : LayerTree}

/-! ## Looking up by kind and suffix -/

theorem filterMap_get? (h : tree.ids.Nodup) {nodes : List LayerNode} (hsub : nodes ⊆ tree.nodes) :
    (nodes.map (·.id)).filterMap tree.get? = nodes := by
  rw [List.filterMap_map]
  have : ∀ node ∈ nodes, (tree.get? ∘ LayerNode.id) node = some node :=
    fun node hmem => get?_of_mem h (hsub hmem)
  rw [List.filterMap_congr this, List.filterMap_some]

theorem hanging_eq_map (parent : Option LayerId) :
    hanging tree.nodes parent = (tree.nodesBelow parent).map (·.id) := rfl

theorem nodesBelow_subset (parent : Option LayerId) : tree.nodesBelow parent ⊆ tree.nodes :=
  List.filter_sublist.subset

/-- The look-up of a merge goes through the layers below a parent in the order in which they were
attached. -/
theorem WellFormed.find?_eq (h : tree.WellFormed) (parent : Option LayerId) (kind : LayerKind)
    (suffix : String) : MergeContext.find? tree parent kind suffix =
      ((tree.nodesBelow parent).find? (matching kind suffix)).map (·.id) := by
  cases parent with
  | none =>
    simp only [MergeContext.find?, findRoot?, h.roots_eq, hanging_eq_map,
      filterMap_get? h.nodup (nodesBelow_subset none)]
  | some p =>
    simp only [MergeContext.find?, findChild?, children]
    cases hget : tree.get? p with
    | none =>
      have hnone := hanging_eq_nil h (get?_eq_none_iff.1 hget)
      rw [hanging_eq_map, List.map_eq_nil_iff] at hnone
      simp [hnone]
    | some node =>
      simp only [h.children_eq node (mem_of_get? hget), id_of_get? hget, hanging_eq_map,
        filterMap_get? h.nodup (nodesBelow_subset (some p))]

theorem exists_of_spokenOf? (h : tree.ids.Nodup) {parent : Option LayerId} {reported : ReportedLayer}
    {id : LayerId} (hid : tree.spokenOf? parent reported = some id) :
    ∃ node, tree.get? id = some node ∧ node.parent = parent := by
  obtain ⟨kind, -, hid⟩ := Option.bind_eq_some_iff.1 hid
  obtain ⟨suffix, -, hid⟩ := Option.bind_eq_some_iff.1 hid
  obtain ⟨node, hfind, rfl⟩ := Option.map_eq_some_iff.1 hid
  obtain ⟨hmem, hparent⟩ := List.mem_filter.1 (List.mem_of_find?_eq_some hfind)
  exact ⟨node, get?_of_mem h hmem, of_decide_eq_true hparent⟩

/-! ## What matching depends on -/

theorem get?_authored (id : LayerId) :
    tree.authored.get? id = (tree.get? id).map LayerNode.authored := by
  rw [get?, authored, List.find?_map]
  rfl

theorem links_authored (node : LayerNode) : node.authored.links = node.links := rfl

theorem spokenOf?_authored (parent : Option LayerId) (reported : ReportedLayer) :
    tree.authored.spokenOf? parent reported = tree.spokenOf? parent reported := by
  have below : tree.authored.nodesBelow parent = (tree.nodesBelow parent).map LayerNode.authored := by
    simp only [nodesBelow, authored, List.filter_map]
    rfl
  have same : ∀ kind suffix, matching kind suffix ∘ LayerNode.authored = matching kind suffix :=
    fun _ _ => rfl
  simp only [spokenOf?, below, List.find?_map, same, Option.map_map]
  rfl

theorem spokenOf?_congr {a b : LayerTree} (h : a.authored = b.authored) (parent : Option LayerId)
    (reported : ReportedLayer) : a.spokenOf? parent reported = b.spokenOf? parent reported := by
  rw [← spokenOf?_authored, h, spokenOf?_authored]

theorem spoken_congr {a b : LayerTree} (h : a.authored = b.authored) (parent : Option LayerId)
    (nodes : List ReportNode) : a.spoken parent nodes = b.spoken parent nodes := by
  induction parent, nodes using spoken.induct a with
  | case1 parent => simp only [spoken]
  | case2 parent layer children rest hnone ih =>
    have hb := (spokenOf?_congr h parent layer).symm.trans hnone
    simp only [spoken, hnone, hb, ih]
  | case3 parent layer children rest id hsome ih ih' =>
    have hb := (spokenOf?_congr h parent layer).symm.trans hsome
    simp only [spoken, hsome, hb, ih, ih']

theorem links_authored_congr {a b : LayerTree} (h : a.authored = b.authored) :
    a.nodes.map LayerNode.links = b.nodes.map LayerNode.links := by
  have := congrArg (fun t => t.nodes.map LayerNode.links) h
  simpa [authored, List.map_map, Function.comp_def, links_authored] using this

theorem ids_authored_congr {a b : LayerTree} (h : a.authored = b.authored) : a.ids = b.ids :=
  ids_congr (links_authored_congr h)

theorem wellFormed_authored_congr {a b : LayerTree} (h : a.authored = b.authored)
    (ha : a.WellFormed) : b.WellFormed :=
  wellFormed_congr (congrArg (fun t => t.roots) h) (links_authored_congr h) ha

/-- The pools of all volumes of all layers are wanted. -/
def PoolsIn (tree : LayerTree) (host : String) (wanted : PoolKey → ProviderKind → Prop) : Prop :=
  ∀ node ∈ tree.nodes, BlockStack.PoolsIn host wanted node.volumes

theorem PoolsIn.congr {a b : LayerTree} {host : String} {wanted : PoolKey → ProviderKind → Prop}
    (ha : a.PoolsIn host wanted) (h : a.authored = b.authored) : b.PoolsIn host wanted := by
  intro node hnode number leaf hleaf
  have hnodes : a.nodes.map LayerNode.authored = b.nodes.map LayerNode.authored :=
    congrArg LayerTree.nodes h
  have hmem : node.authored ∈ a.nodes.map LayerNode.authored := hnodes ▸ List.mem_map_of_mem hnode
  obtain ⟨before, hbefore, hauthored⟩ := List.mem_map.1 hmem
  have hvolumes := congrArg (fun n => n.volumes.get? number) hauthored
  simp only [LayerNode.authored, SortedMap.get?_mapValues, hleaf, Option.map_some] at hvolumes
  obtain ⟨other, hother, hsame⟩ := Option.map_eq_some_iff.1 hvolumes
  exact (ha before hbefore number other hother).congr hsame.symm

end LayerTree
namespace MergeContext

variable {ctx : MergeContext} {tree : LayerTree} {wanted : PoolKey → ProviderKind → Prop}

/-! ## Nested layers that fit -/

/-- A reported layer below a parent fits a tree, with all reported layers below it: it speaks of a
layer that it fits, and of the layers below it no two speak of the same one. -/
inductive FitsNode (ctx : MergeContext) (tree : LayerTree) : Option LayerId → ReportNode → Prop where
  | mk {parent : Option LayerId} {layer : ReportedLayer} {children : List ReportNode} {id : LayerId}
      {node : LayerNode} : tree.spokenOf? parent layer = some id → tree.get? id = some node →
      ctx.FitsLayer node layer → (∀ child ∈ children, FitsNode ctx tree (some id) child) →
      (children.map (fun child => tree.spokenOf? (some id) child.layer)).Nodup →
      FitsNode ctx tree parent (.mk layer children)

/-- Reported layers below one parent fit a tree, and no two speak of the same layer. -/
structure FitsLevel (ctx : MergeContext) (tree : LayerTree) (parent : Option LayerId)
    (nodes : List ReportNode) : Prop where
  each : ∀ node ∈ nodes, ctx.FitsNode tree parent node
  distinct : (nodes.map (fun node => tree.spokenOf? parent node.layer)).Nodup

theorem fitsLevel_cons {parent : Option LayerId} {layer : ReportedLayer}
    {children rest : List ReportNode} :
    ctx.FitsLevel tree parent (.mk layer children :: rest) ↔
      ∃ id node, tree.spokenOf? parent layer = some id ∧ tree.get? id = some node ∧
        ctx.FitsLayer node layer ∧ ctx.FitsLevel tree (some id) children ∧
        ctx.FitsLevel tree parent rest ∧
        ∀ other ∈ rest, tree.spokenOf? parent other.layer ≠ some id := by
  constructor
  · intro h
    have hdistinct := h.distinct
    rw [List.map_cons, List.nodup_cons] at hdistinct
    obtain ⟨hnot, hrest⟩ := hdistinct
    cases h.each _ List.mem_cons_self with
    | @mk _ _ _ id node hid hget hfit hchildren hdist =>
      refine ⟨id, node, hid, hget, hfit, ⟨hchildren, hdist⟩,
        ⟨fun n hn => h.each n (List.mem_cons_of_mem _ hn), hrest⟩, fun other hother he => hnot ?_⟩
      exact List.mem_map.2 ⟨other, hother, he.trans hid.symm⟩
  · rintro ⟨id, node, hid, hget, hfit, hchildren, hrest, hnew⟩
    refine ⟨List.forall_mem_cons.2
      ⟨.mk hid hget hfit hchildren.each hchildren.distinct, hrest.each⟩, ?_⟩
    rw [List.map_cons, List.nodup_cons]
    refine ⟨fun hm => ?_, hrest.distinct⟩
    obtain ⟨other, hother, he⟩ := List.mem_map.1 hm
    exact hnew other hother (he.trans hid)

/-! ## A report changes nothing that matching depends on -/

theorem observedNode_authored (node : LayerNode) (reported : ReportedLayer) :
    (ctx.observedNode node reported).authored = node.authored := by
  unfold LayerNode.authored observedNode
  congr 1
  refine SortedMap.ext_get? fun number => ?_
  simp only [observedVolumes, SortedMap.get?_mapValues, Option.map_map]
  refine Option.map_congr fun leaf _ => ?_
  cases reportOf? reported.volumes number with
  | none => rfl
  | some r => exact observed_authored ..

/-- A tree after a report of some of its layers. -/
def observedTree (ctx : MergeContext) (tree : LayerTree) (spoken : List (LayerId × ReportedLayer)) :
    LayerTree :=
  spoken.foldl (fun t p => t.modify p.1 (fun node => ctx.observedNode node p.2)) tree

theorem authored_modify (id : LayerId) (reported : ReportedLayer) :
    (tree.modify id (fun node => ctx.observedNode node reported)).authored = tree.authored := by
  unfold LayerTree.authored
  rw [LayerTree.map_modify _ fun node _ _ => observedNode_authored node reported,
    LayerTree.modify_roots]

theorem authored_observedTree (spoken : List (LayerId × ReportedLayer)) :
    (ctx.observedTree tree spoken).authored = tree.authored := by
  induction spoken generalizing tree with
  | nil => rfl
  | cons p rest ih => exact ih.trans (authored_modify p.1 p.2)

/-- A volume after a report is the one from before, observed if it is reported. -/
theorem exists_before {node : LayerNode} {reported : ReportedLayer} {number : UInt32}
    {leaf : VolumeLeaf} (hget : (ctx.observedNode node reported).volumes.get? number = some leaf) :
    ∃ before, node.volumes.get? number = some before ∧
      (leaf = before ∨ ∃ volume, leaf = ctx.observed node.suffix number before volume) := by
  rw [observedNode, observedVolumes, SortedMap.get?_mapValues] at hget
  obtain ⟨before, hbefore, hleaf⟩ := Option.map_eq_some_iff.1 hget
  refine ⟨before, hbefore, ?_⟩
  cases hreport : reportOf? reported.volumes number with
  | none =>
    rw [hreport] at hleaf
    exact .inl hleaf.symm
  | some volume =>
    rw [hreport] at hleaf
    exact .inr ⟨volume, hleaf.symm⟩

/-- What a report of a layer keeps, a report of any layers keeps. -/
theorem observedTree_keeps {P : LayerNode → Prop}
    (hkeeps : ∀ node reported, P node → P (ctx.observedNode node reported))
    {spoken : List (LayerId × ReportedLayer)} : ∀ {tree : LayerTree},
    (∀ node ∈ tree.nodes, P node) → ∀ node ∈ (ctx.observedTree tree spoken).nodes, P node := by
  induction spoken with
  | nil => exact fun h => h
  | cons p rest ih =>
    intro tree h
    refine ih fun node hnode => ?_
    obtain ⟨before, hbefore, rfl⟩ := List.mem_map.1 hnode
    split
    · exact hkeeps before p.2 (h before hbefore)
    · exact h before hbefore

theorem kind_eq_of_authored {a b : LayerNode} (h : a.authored = b.authored) : a.kind = b.kind := by
  rw [← LayerNode.kind_authored, h, LayerNode.kind_authored]

theorem suffix_eq_of_authored {a b : LayerNode} (h : a.authored = b.authored) :
    a.suffix = b.suffix := by
  rw [← LayerNode.suffix_authored, h, LayerNode.suffix_authored]

theorem get?_volumes_authored {a b : LayerNode} (h : a.authored = b.authored) {number : UInt32}
    {leaf : VolumeLeaf} (hget : a.volumes.get? number = some leaf) :
    ∃ other, b.volumes.get? number = some other ∧ other.authored = leaf.authored := by
  have := congrArg (fun n => n.volumes.get? number) h
  simp only [LayerNode.authored, SortedMap.get?_mapValues, hget, Option.map_some] at this
  exact Option.map_eq_some_iff.1 this.symm

theorem FitsVolume.congr {suffix : String} {number : UInt32} {a b : VolumeLeaf}
    {reported : ReportedVolume} (h : a.authored = b.authored)
    (ha : ctx.FitsVolume suffix number a reported) : ctx.FitsVolume suffix number b reported := by
  intro volume hb
  have hdata : a.data.authored = b.data.authored := congrArg VolumeLeaf.data h
  rw [hb] at hdata
  cases hdata' : a.data with
  | storage other =>
    rw [hdata'] at hdata
    simp only [VolumeData.authored, VolumeData.storage.injEq, StorageVolume.mk.injEq] at hdata
    have hobject : ∀ identifier, ctx.object? identifier other = ctx.object? identifier volume :=
      fun _ => by rw [object?, object?, hdata.1]
    have := ha other hdata'
    rwa [hdata.1, hobject, hdata.2.1] at this
  | replication _ | encryption _ _ | remoteAttach =>
    rw [hdata'] at hdata
    cases hdata

theorem FitsLayer.congr {a b : LayerNode} {reported : ReportedLayer} (h : a.authored = b.authored)
    (ha : ctx.FitsLayer a reported) : ctx.FitsLayer b reported := by
  have hkind := kind_eq_of_authored h
  have hsuffix := suffix_eq_of_authored h
  refine ⟨?_, ?_, ⟨?_, ha.volumes.distinct⟩, ?_⟩
  · rw [← hkind, ← hsuffix]
    exact ha.defined
  · rw [← hkind]
    exact ha.plain
  · intro r hr
    obtain ⟨number, leaf, hn, hleaf, hfit⟩ := ha.volumes.each r hr
    obtain ⟨other, hother, he⟩ := get?_volumes_authored h hleaf
    exact ⟨number, other, hn, hother, hsuffix ▸ hfit.congr he.symm⟩
  · intro hb number hnumber
    obtain ⟨leaf, hleaf⟩ := SortedMap.mem_keys_iff.1 hnumber
    obtain ⟨other, hother, -⟩ := get?_volumes_authored h.symm hleaf
    exact ha.attached (hkind.trans hb) number (SortedMap.mem_keys_iff.2 ⟨other, hother⟩)

theorem FitsNode.congr {a b : LayerTree} (h : a.authored = b.authored) {parent : Option LayerId}
    {node : ReportNode} (ha : ctx.FitsNode a parent node) : ctx.FitsNode b parent node := by
  induction ha with
  | @mk _ _ _ id _ hid hget hfit _ hdist ih =>
    have hget' := congrArg (fun t => t.get? id) h
    simp only [LayerTree.get?_authored, hget, Option.map_some] at hget'
    obtain ⟨other, hother, he⟩ := Option.map_eq_some_iff.1 hget'.symm
    refine .mk (LayerTree.spokenOf?_congr h .. ▸ hid) hother (hfit.congr he.symm) ih ?_
    simpa only [LayerTree.spokenOf?_congr h] using hdist

/-- Whether nested layers fit depends on nothing that a report changes. -/
theorem fitsLevel_congr {a b : LayerTree} (h : a.authored = b.authored) {parent : Option LayerId}
    {nodes : List ReportNode} : ctx.FitsLevel a parent nodes ↔ ctx.FitsLevel b parent nodes := by
  constructor
  · intro ha
    refine ⟨fun n hn => (ha.each n hn).congr h, ?_⟩
    simpa only [LayerTree.spokenOf?_congr h] using ha.distinct
  · intro hb
    refine ⟨fun n hn => (hb.each n hn).congr h.symm, ?_⟩
    simpa only [LayerTree.spokenOf?_congr h] using hb.distinct

/-! ## The merge -/

theorem identify_eq_ok_iff (h : tree.WellFormed) {parent : Option LayerId} {taken : List LayerId}
    {reported : ReportedLayer} {id : LayerId} :
    ctx.identify tree parent taken reported = .ok id ↔
      tree.spokenOf? parent reported = some id ∧ id ∉ taken := by
  unfold identify LayerTree.spokenOf?
  cases hk : reported.kind with
  | none => simp [require]
  | some name =>
    cases hkind : LayerKind.ofName? name with
    | none => simp [require, hkind]
    | some kind =>
      cases hs : reported.suffix with
      | none => simp [require, hkind]
      | some suffix =>
        simp only [require, hkind, Option.bind_some, h.find?_eq]
        cases hfind : ((tree.nodesBelow parent).find? (LayerTree.matching kind suffix)).map (·.id) with
        | none => simp
        | some found =>
          simp only [List.contains_eq_mem, Option.some.injEq]
          by_cases ht : found ∈ taken
          · simp only [ht, decide_true, if_true, reduceCtorEq, false_iff, not_and, not_not]
            rintro rfl
            exact ht
          · simp only [ht, decide_false, Bool.false_eq_true, if_false, Except.ok.injEq]
            exact ⟨fun he => ⟨he, he ▸ ht⟩, fun he => he.1⟩

theorem identify_fault {parent : Option LayerId} {taken : List LayerId} {reported : ReportedLayer}
    {fault : Fault} (h : ctx.identify tree parent taken reported = .error fault) :
    ctx.EndsWanting wanted fault := by
  unfold identify at h
  split at h
  · rename_i hf
    cases h
    exact require_fault hf
  split at h
  · cases h
    exact ends_unknown _
  split at h
  · rename_i hf
    cases h
    exact require_fault hf
  split at h
  · cases h
    exact ends_unknown _
  · split at h <;> cases h
    exact ends_unknown _

theorem modify_of_get? (h : tree.ids.Nodup) {id : LayerId} {node : LayerNode}
    (hget : tree.get? id = some node) (f : LayerNode → LayerNode) :
    tree.modify id (fun _ => f node) = tree.modify id f := by
  unfold LayerTree.modify
  congr 1
  refine List.map_congr_left fun other hmem => ?_
  split
  · rename_i hid
    have := LayerTree.get?_of_mem h hmem
    rw [hid, hget] at this
    rw [Option.some.inj this]
  · rfl

/-- What taking a reported layer into its layer goes through. -/
theorem mergeLayer_inv {parent : Option LayerId} {taken : List LayerId} {state merged : Merging}
    {reported : ReportedLayer} {id : LayerId}
    (hok : ctx.mergeLayer parent taken state reported = .ok (id, merged)) :
    ctx.identify state.tree parent taken reported = .ok id ∧
      ∃ node next summary absences, state.tree.get? id = some node ∧
        ctx.mergeNode node reported = .ok (next, summary, absences) ∧ merged = {
          tree := state.tree.modify id (fun _ => next)
          summary := state.summary.append summary
          absences := state.absences ++ absences } := by
  unfold mergeLayer at hok
  split at hok
  · cases hok
  rename_i found hident
  split at hok
  · cases hok
  rename_i node hget
  split at hok
  · cases hok
  rename_i next summary absences hmerge
  cases hok
  exact ⟨hident, node, next, summary, absences, hget, hmerge, rfl⟩

/-- A merge takes a reported layer in exactly if it speaks of a layer that it fits, and that was not
spoken of before. -/
theorem mergeLayer_eq_ok_iff {state : Merging} (h : state.tree.WellFormed) {parent : Option LayerId}
    {taken : List LayerId} {reported : ReportedLayer} {id : LayerId} {next : LayerTree} :
    (∃ merged, ctx.mergeLayer parent taken state reported = .ok (id, merged) ∧ merged.tree = next) ↔
      state.tree.spokenOf? parent reported = some id ∧ id ∉ taken ∧
      (∃ node, state.tree.get? id = some node ∧ ctx.FitsLayer node reported) ∧
      next = state.tree.modify id (fun node => ctx.observedNode node reported) := by
  constructor
  · rintro ⟨merged, hok, rfl⟩
    obtain ⟨hident, node, changed, summary, absences, hget, hmerge, rfl⟩ := mergeLayer_inv hok
    obtain ⟨hid, hnew⟩ := (identify_eq_ok_iff h).1 hident
    obtain ⟨hfit, rfl⟩ := mergeNode_eq_ok_iff.1 ⟨_, hmerge⟩
    exact ⟨hid, hnew, ⟨node, hget, hfit⟩,
      modify_of_get? h.nodup hget (fun n => ctx.observedNode n reported)⟩
  · rintro ⟨hid, hnew, ⟨node, hget, hfit⟩, rfl⟩
    obtain ⟨⟨summary, absences⟩, hmerge⟩ := mergeNode_eq_ok_iff.2 ⟨hfit, rfl⟩
    simp only [mergeLayer, (identify_eq_ok_iff h).2 ⟨hid, hnew⟩, hget, hmerge]
    exact ⟨_, rfl, modify_of_get? h.nodup hget (fun n => ctx.observedNode n reported)⟩

theorem mergeLayer_fault {state : Merging} (h : state.tree.WellFormed)
    (hwant : state.tree.PoolsIn ctx.key.node wanted) {parent : Option LayerId} {taken : List LayerId}
    {reported : ReportedLayer} {fault : Fault}
    (herr : ctx.mergeLayer parent taken state reported = .error fault) :
    ctx.EndsWanting wanted fault := by
  unfold mergeLayer at herr
  split at herr
  · rename_i hf
    cases herr
    exact identify_fault hf
  rename_i id hident
  split at herr
  · -- the layer that was found is there
    rename_i hnone
    obtain ⟨node, hget, -⟩ :=
      LayerTree.exists_of_spokenOf? h.nodup ((identify_eq_ok_iff h).1 hident).1
    rw [hnone] at hget
    cases hget
  rename_i node hget
  split at herr
  · rename_i hf
    cases herr
    exact mergeNode_fault (hwant node (LayerTree.mem_of_get? hget)) hf
  · cases herr

/-- A merge takes nested layers in exactly if they fit and none of `taken` is spoken of again; then
it observes all layers that are spoken of. -/
theorem mergeLevel_eq_ok_iff {parent : Option LayerId} {taken : List LayerId} {state : Merging}
    {nodes : List ReportNode} (h : state.tree.WellFormed) {next : LayerTree} :
    (∃ merged, ctx.mergeLevel parent taken state nodes = .ok merged ∧ merged.tree = next) ↔
      ctx.FitsLevel state.tree parent nodes ∧
      (∀ node ∈ nodes, ∀ id ∈ taken, state.tree.spokenOf? parent node.layer ≠ some id) ∧
      next = ctx.observedTree state.tree (state.tree.spoken parent nodes) := by
  induction parent, taken, state, nodes using mergeLevel.induct ctx generalizing next with
  | case1 parent taken state =>
    have hfit : ctx.FitsLevel state.tree parent [] := ⟨by simp, by simp⟩
    simp [mergeLevel, LayerTree.spoken, observedTree, hfit, eq_comm]
  | case2 parent taken state layer children rest fault herr =>
    simp only [mergeLevel, herr, reduceCtorEq, false_and, exists_false, false_iff]
    rintro ⟨hfit, hnew, -⟩
    obtain ⟨id, node, hid, hget, hlayer, -⟩ := fitsLevel_cons.1 hfit
    have hid' : id ∉ taken := fun hm => hnew _ List.mem_cons_self id hm hid
    obtain ⟨merged, hok, -⟩ := (mergeLayer_eq_ok_iff h).2 ⟨hid, hid', ⟨node, hget, hlayer⟩, rfl⟩
    rw [herr] at hok
    cases hok
  | case3 parent taken state layer children rest id merged hok rejection herr ih =>
    obtain ⟨hid, -, -, htree⟩ := (mergeLayer_eq_ok_iff h).1 ⟨merged, hok, rfl⟩
    have hsame : merged.tree.authored = state.tree.authored := htree ▸ authored_modify id layer
    have hmerged := LayerTree.wellFormed_authored_congr hsame.symm h
    simp only [mergeLevel, hok, herr, reduceCtorEq, false_and, exists_false, false_iff]
    rintro ⟨hfit, -⟩
    obtain ⟨other, -, hother, -, -, hchildren, -⟩ := fitsLevel_cons.1 hfit
    rw [hid] at hother
    cases hother
    obtain ⟨_, hok', -⟩ := (ih hmerged).2 ⟨(fitsLevel_congr hsame).2 hchildren, by simp, rfl⟩
    rw [herr] at hok'
    cases hok'
  | case4 parent taken state layer children rest id merged hok middle hmid ihc ihr =>
    obtain ⟨hid, hnew, ⟨node, hget, hlayer⟩, htree⟩ :=
      (mergeLayer_eq_ok_iff h).1 ⟨merged, hok, rfl⟩
    have hsame : merged.tree.authored = state.tree.authored := htree ▸ authored_modify id layer
    have hmerged := LayerTree.wellFormed_authored_congr hsame.symm h
    obtain ⟨hchildren, -, hmiddle⟩ := (ihc hmerged).1 ⟨middle, hmid, rfl⟩
    have hsame' : middle.tree.authored = state.tree.authored := by
      rw [hmiddle, authored_observedTree, hsame]
    have hmid' := LayerTree.wellFormed_authored_congr hsame'.symm h
    have htrees : ctx.observedTree middle.tree (middle.tree.spoken parent rest) =
        ctx.observedTree state.tree (state.tree.spoken parent (.mk layer children :: rest)) := by
      rw [LayerTree.spoken_congr hsame', hmiddle, LayerTree.spoken_congr hsame, htree]
      simp only [LayerTree.spoken, hid, observedTree, List.foldl_cons, List.foldl_append]
    simp only [mergeLevel, hok, hmid]
    rw [ihr hmid', fitsLevel_congr hsame', htrees]
    simp only [LayerTree.spokenOf?_congr hsame']
    constructor
    · rintro ⟨hrest, htaken, rfl⟩
      refine ⟨fitsLevel_cons.2 ⟨id, node, hid, hget, hlayer, (fitsLevel_congr hsame).1 hchildren,
        hrest, fun other hother => htaken other hother id List.mem_cons_self⟩, ?_, rfl⟩
      refine List.forall_mem_cons.2 ⟨fun x hx he => ?_, fun other hother x hx =>
        htaken other hother x (List.mem_cons_of_mem _ hx)⟩
      rw [ReportNode.layer, hid] at he
      cases he
      exact hnew hx
    · rintro ⟨hfit, htaken, rfl⟩
      obtain ⟨other, -, hother, -, -, -, hrest, hdiff⟩ := fitsLevel_cons.1 hfit
      rw [hid] at hother
      cases hother
      refine ⟨hrest, fun n hn x hx => ?_, rfl⟩
      rcases List.mem_cons.1 hx with rfl | hx
      · exact hdiff n hn
      · exact htaken n (List.mem_cons_of_mem _ hn) x hx

/-- A reported layer that is taken in changes nothing but what satellites observe. -/
theorem mergeLayer_authored {parent : Option LayerId} {taken : List LayerId} {state merged : Merging}
    {reported : ReportedLayer} {id : LayerId} (h : state.tree.ids.Nodup)
    (hok : ctx.mergeLayer parent taken state reported = .ok (id, merged)) :
    merged.tree.authored = state.tree.authored := by
  obtain ⟨-, node, next, summary, absences, hget, hmerge, rfl⟩ := mergeLayer_inv hok
  obtain ⟨-, rfl⟩ := mergeNode_eq_ok_iff.1 ⟨_, hmerge⟩
  show (state.tree.modify id fun _ => ctx.observedNode node reported).authored = state.tree.authored
  rw [modify_of_get? h hget (fun n => ctx.observedNode n reported), authored_modify]

/-- Nor do nested layers, at any depth. -/
theorem mergeLevel_authored {parent : Option LayerId} {taken : List LayerId} {state merged : Merging}
    {nodes : List ReportNode} (h : state.tree.ids.Nodup)
    (hok : ctx.mergeLevel parent taken state nodes = .ok merged) :
    merged.tree.authored = state.tree.authored := by
  induction parent, taken, state, nodes using mergeLevel.induct ctx generalizing merged with
  | case1 parent taken state =>
    rw [mergeLevel] at hok
    cases hok
    rfl
  | case2 parent taken state layer children rest fault herr => simp [mergeLevel, herr] at hok
  | case3 parent taken state layer children rest id first hfirst rejection herr ih =>
    simp [mergeLevel, hfirst, herr] at hok
  | case4 parent taken state layer children rest id first hfirst middle hmiddle ihc ihr =>
    simp only [mergeLevel, hfirst, hmiddle] at hok
    have hsame := mergeLayer_authored h hfirst
    have hbelow := ihc (LayerTree.ids_authored_congr hsame ▸ h) hmiddle
    have hrest := ihr (LayerTree.ids_authored_congr (hbelow.trans hsame) ▸ h) hok
    rw [hrest, hbelow, hsame]

/-- The first of some nested reported layers that is taken in, with all below it and all after it.
None of these changes the links of the tree, so all of them speak of the layers that were there. -/
structure LevelStep (ctx : MergeContext) (parent : Option LayerId) (taken : List LayerId)
    (state : Merging) (layer : ReportedLayer) (children rest : List ReportNode) (id : LayerId)
    (first middle merged : Merging) : Prop where
  wellFormed : state.tree.WellFormed ∧ first.tree.WellFormed ∧ middle.tree.WellFormed
  head : ctx.mergeLayer parent taken state layer = .ok (id, first)
  below : ctx.mergeLevel (some id) [] first children = .ok middle
  after : ctx.mergeLevel parent (id :: taken) middle rest = .ok merged
  first_authored : first.tree.authored = state.tree.authored
  middle_authored : middle.tree.authored = state.tree.authored
  spoken : state.tree.spoken parent (.mk layer children :: rest) =
    (id, layer) :: (state.tree.spoken (some id) children ++ state.tree.spoken parent rest)

/-- What holds of no layers, and of a layer with all below it and all after it if it holds of these,
holds of all nested layers that are taken in. -/
@[elab_as_elim]
theorem mergeLevel_rec {motive : Option LayerId → Merging → List ReportNode → Merging → Prop}
    (nil : ∀ parent state, motive parent state [] state)
    (cons : ∀ {parent taken state layer children rest id first middle merged},
      ctx.LevelStep parent taken state layer children rest id first middle merged →
      motive (some id) first children middle → motive parent middle rest merged →
      motive parent state (.mk layer children :: rest) merged)
    {parent : Option LayerId} {taken : List LayerId} {state merged : Merging}
    {nodes : List ReportNode} (h : state.tree.WellFormed)
    (hok : ctx.mergeLevel parent taken state nodes = .ok merged) :
    motive parent state nodes merged := by
  induction parent, taken, state, nodes using mergeLevel.induct ctx generalizing merged with
  | case1 parent taken state =>
    rw [mergeLevel] at hok
    cases hok
    exact nil parent state
  | case2 parent taken state layer children rest fault herr => simp [mergeLevel, herr] at hok
  | case3 parent taken state layer children rest id first hfirst rejection herr ih =>
    simp [mergeLevel, hfirst, herr] at hok
  | case4 parent taken state layer children rest id first hfirst middle hmiddle ihc ihr =>
    simp only [mergeLevel, hfirst, hmiddle] at hok
    obtain ⟨hid, -⟩ := (mergeLayer_eq_ok_iff h).1 ⟨first, hfirst, rfl⟩
    have hsame := mergeLayer_authored h.nodup hfirst
    have hwf := LayerTree.wellFormed_authored_congr hsame.symm h
    have hsame' := (mergeLevel_authored hwf.nodup hmiddle).trans hsame
    have hwf' := LayerTree.wellFormed_authored_congr hsame'.symm h
    refine cons ⟨⟨h, hwf, hwf'⟩, hfirst, hmiddle, hok, hsame, hsame', ?_⟩ (ihc hwf hmiddle)
      (ihr hwf' hok)
    simp only [LayerTree.spoken, hid]

theorem mergeLevel_fault {parent : Option LayerId} {taken : List LayerId} {state : Merging}
    {nodes : List ReportNode} (h : state.tree.WellFormed)
    (hwant : state.tree.PoolsIn ctx.key.node wanted) {rejection : Rejection}
    (herr : ctx.mergeLevel parent taken state nodes = .error rejection) :
    ctx.EndsWanting wanted rejection.fault := by
  induction parent, taken, state, nodes using mergeLevel.induct ctx with
  | case1 parent taken state =>
    rw [mergeLevel] at herr
    cases herr
  | case2 parent taken state layer children rest fault hf =>
    simp only [mergeLevel, hf, Except.error.injEq] at herr
    subst herr
    exact mergeLayer_fault h hwant hf
  | case3 parent taken state layer children rest id merged hok rejection' herr' ih =>
    simp only [mergeLevel, hok, herr', Except.error.injEq] at herr
    subst herr
    obtain ⟨-, -, -, htree⟩ := (mergeLayer_eq_ok_iff h).1 ⟨merged, hok, rfl⟩
    have hsame : merged.tree.authored = state.tree.authored := htree ▸ authored_modify id layer
    exact ih (LayerTree.wellFormed_authored_congr hsame.symm h) (hwant.congr hsame.symm) herr'
  | case4 parent taken state layer children rest id merged hok middle hmid ihc ihr =>
    simp only [mergeLevel, hok, hmid] at herr
    obtain ⟨-, -, -, htree⟩ := (mergeLayer_eq_ok_iff h).1 ⟨merged, hok, rfl⟩
    have hsame : merged.tree.authored = state.tree.authored := htree ▸ authored_modify id layer
    have hmerged := LayerTree.wellFormed_authored_congr hsame.symm h
    obtain ⟨-, -, hmiddle⟩ := (mergeLevel_eq_ok_iff hmerged).1 ⟨middle, hmid, rfl⟩
    have hsame' : middle.tree.authored = state.tree.authored := by
      rw [hmiddle, authored_observedTree, hsame]
    exact ihr (LayerTree.wellFormed_authored_congr hsame'.symm h) (hwant.congr hsame'.symm) herr

end MergeContext
end BlockStack
