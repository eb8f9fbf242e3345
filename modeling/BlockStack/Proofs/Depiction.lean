import BlockStack.Flatten
import BlockStack.Proofs.DepthFirst
import BlockStack.Proofs.Loading

/-!
# BlockStack.Proofs.Depiction

Rows and the tree that they stand for, told apart from how the tree was built.

* `LayerTree.unsized`: a tree without what is not persisted, the verdicts on sizes.
* `LayerTree.Depicts`: a tree is what some rows stand for, siblings in the order of the rows.
* `Depicts.same`: rows stand for one tree only.
* `Graph.Loaded.depicts`: the trees of a graph are what the rows of the document stand for.
* `Resource.depicts_rows`: a resource is what its own rows stand for.
-/

namespace BlockStack

open BlockStack.Graph (withParent volumesOf Loaded)

/-! ## Verdicts on sizes -/

/-- Volume data without the verdict on its size. -/
def VolumeData.unsized : VolumeData → VolumeData
  | .storage volume => .storage { volume with sizeState := none }
  | data => data

/-- A volume without the verdict on its size. -/
def VolumeLeaf.unsized (leaf : VolumeLeaf) : VolumeLeaf := { leaf with data := leaf.data.unsized }

/-- A layer without the verdicts on the sizes of its volumes. -/
def LayerNode.unsized (node : LayerNode) : LayerNode :=
  { node with volumes := node.volumes.mapValues (fun _ leaf => leaf.unsized) }

/-- A tree without the verdicts on sizes. -/
def LayerTree.unsized (tree : LayerTree) : LayerTree :=
  { tree with nodes := tree.nodes.map LayerNode.unsized }

/-- A resource without the verdicts on sizes. -/
def Resource.unsized (resource : Resource) : Resource :=
  { resource with tree := resource.tree.unsized }

theorem VolumePayload.data?_unsized {payload : VolumePayload} {data : VolumeData}
    (h : payload.data? = some data) : data.unsized = data := by
  cases payload with
  | storage provider pool present fields =>
    obtain ⟨kind, -, rfl⟩ := Option.map_eq_some_iff.1 h
    rfl
  | replication _ | encryption _ _ | remoteAttach =>
    cases h
    rfl

theorem get?_leaves {volumes : List VolumeRow} {number : UInt32} {leaf : VolumeLeaf}
    (h : (VolumeRow.leaves volumes).get? number = some leaf) :
    ∃ volume ∈ volumes, volume.number = number ∧ volume.leaf? = some leaf := by
  rw [VolumeRow.leaves, SortedMap.get?_ofList] at h
  obtain ⟨entry, hlast, rfl⟩ := Option.map_eq_some_iff.1 h
  obtain ⟨hmem, hkey⟩ := List.mem_filter.1 (List.mem_of_getLast? hlast)
  obtain ⟨volume, hvolume, hentry⟩ := List.mem_filterMap.1 hmem
  obtain ⟨leaf, hleaf, rfl⟩ := Option.map_eq_some_iff.1 hentry
  exact ⟨volume, hvolume, of_decide_eq_true hkey, hleaf⟩

theorem leaf?_unsized {volume : VolumeRow} {leaf : VolumeLeaf} (h : volume.leaf? = some leaf) :
    leaf.unsized = leaf := by
  obtain ⟨data, hdata, rfl⟩ := Option.map_eq_some_iff.1 h
  rw [VolumeLeaf.unsized, VolumePayload.data?_unsized hdata]

theorem mapValues_eq_self {f : UInt32 → VolumeLeaf → VolumeLeaf} {volumes : SortedMap UInt32 VolumeLeaf}
    (h : ∀ number leaf, volumes.get? number = some leaf → f number leaf = leaf) :
    volumes.mapValues f = volumes := by
  refine SortedMap.ext_get? fun number => ?_
  rw [SortedMap.get?_mapValues]
  cases hget : volumes.get? number with
  | none => rfl
  | some leaf => rw [Option.map_some, h number leaf hget]

theorem LayerNode.Stands.leaves_eq {volumes : List VolumeRow} {node : LayerNode} {row : LayerRow}
    (h : node.Stands volumes row) : VolumeRow.leaves (volumesOf volumes row.id) = node.volumes := by
  obtain ⟨payload, -, he⟩ := Option.map_eq_some_iff.1 h
  exact congrArg LayerNode.volumes he

theorem LayerNode.Stands.unsized_eq {volumes : List VolumeRow} {node : LayerNode} {row : LayerRow}
    (h : node.Stands volumes row) : node.unsized = node := by
  rw [LayerNode.unsized, mapValues_eq_self]
  intro number leaf hget
  rw [← h.leaves_eq] at hget
  obtain ⟨volume, -, -, hleaf⟩ := get?_leaves hget
  exact leaf?_unsized hleaf

/-- Each volume of a layer was read from a volume row. -/
theorem LayerNode.Stands.exists_volume {volumes : List VolumeRow} {node : LayerNode}
    {row : LayerRow} (h : node.unsized.Stands volumes row) {number : UInt32} {leaf : VolumeLeaf}
    (hget : node.volumes.get? number = some leaf) :
    ∃ volume ∈ volumesOf volumes row.id, volume.number = number ∧ leaf.number = number ∧
      volume.payload.data? = some leaf.data.unsized := by
  have hunsized : node.unsized.volumes.get? number = some leaf.unsized := by
    rw [LayerNode.unsized, SortedMap.get?_mapValues, hget]
    rfl
  rw [← h.leaves_eq] at hunsized
  obtain ⟨volume, hvolume, hnumber, hleaf⟩ := get?_leaves hunsized
  obtain ⟨data, hdata, hmade⟩ := Option.map_eq_some_iff.1 hleaf
  have hsame : volume.number = leaf.number := congrArg VolumeLeaf.number hmade
  have hunder : data = leaf.data.unsized := congrArg VolumeLeaf.data hmade
  exact ⟨volume, hvolume, hnumber, hsame.symm.trans hnumber, hunder ▸ hdata⟩

/-! ## Trees and rows -/

namespace LayerTree

/-- A tree is what some rows stand for: its nodes are those of the rows, and siblings stand in the
order of the rows. -/
structure Depicts (tree : LayerTree) (volumes : List VolumeRow) (rows : List LayerRow) : Prop where
  wellFormed : tree.WellFormed
  siblings : ∀ parent, (withParent parent rows).map (·.id) = hanging tree.nodes parent
  each : ∀ row ∈ rows, ∃ node ∈ tree.nodes, node.unsized.Stands volumes row

variable {volumes : List VolumeRow} {rows : List LayerRow} {tree other : LayerTree}

theorem Grown.depicts (h : tree.Grown volumes rows) : tree.Depicts volumes rows where
  wellFormed := h.wellFormed
  siblings parent := by
    have := congrArg (fun l => (l.filter (fun e => e.2 = parent)).map (·.1)) h.links
    simp only [List.filter_map, List.map_map] at this
    exact this.symm
  each row hrow := by
    obtain ⟨node, hnode, hstands⟩ := h.exists_node hrow
    exact ⟨node, hnode, by rwa [hstands.unsized_eq]⟩

/-- Only the order among siblings matters. -/
theorem Depicts.congr {rows' : List LayerRow} {volumes' : List VolumeRow}
    (h : tree.Depicts volumes rows)
    (hsiblings : ∀ parent, withParent parent rows' = withParent parent rows)
    (hvolumes : ∀ row ∈ rows', volumesOf volumes' row.id = volumesOf volumes row.id) :
    tree.Depicts volumes' rows' where
  wellFormed := h.wellFormed
  siblings parent := by rw [hsiblings, h.siblings]
  each row hrow := by
    have hmem : row ∈ withParent row.parent rows :=
      hsiblings row.parent ▸ Graph.mem_withParent.2 ⟨hrow, rfl⟩
    obtain ⟨node, hnode, hstands⟩ := h.each row (Graph.mem_withParent.1 hmem).1
    refine ⟨node, hnode, ?_⟩
    rwa [LayerNode.Stands, hvolumes row hrow]

theorem Depicts.mem_ids_iff (h : tree.Depicts volumes rows) {id : LayerId} :
    id ∈ tree.ids ↔ id ∈ rows.map (·.id) := by
  constructor
  · intro hid
    obtain ⟨node, hnode, rfl⟩ := List.mem_map.1 hid
    have hmem : node.id ∈ (withParent node.parent rows).map (·.id) := by
      rw [h.siblings]
      exact mem_hanging.2 ⟨node, hnode, rfl, rfl⟩
    obtain ⟨row, hrow, he⟩ := List.mem_map.1 hmem
    exact List.mem_map.2 ⟨row, (Graph.mem_withParent.1 hrow).1, he⟩
  · intro hid
    obtain ⟨row, hrow, rfl⟩ := List.mem_map.1 hid
    obtain ⟨node, hnode, hstands⟩ := h.each row hrow
    have : node.id = row.id := hstands.id_eq
    exact this ▸ List.mem_map_of_mem hnode

/-- Each node is that of a row. -/
theorem Depicts.exists_row (h : tree.Depicts volumes rows) {node : LayerNode}
    (hnode : node ∈ tree.nodes) : ∃ row ∈ rows, node.unsized.Stands volumes row := by
  obtain ⟨row, hrow, hid⟩ := List.mem_map.1 (h.mem_ids_iff.1 (List.mem_map_of_mem hnode))
  obtain ⟨found, hfound, hstands⟩ := h.each row hrow
  have hsame : found.id = node.id := (show found.unsized.id = row.id from hstands.id_eq).trans hid
  rw [List.inj_on_of_nodup_map h.wellFormed.nodup hfound hnode hsame] at hstands
  exact ⟨row, hrow, hstands⟩

theorem get?_unsized (id : LayerId) :
    tree.unsized.get? id = (tree.get? id).map LayerNode.unsized := by
  rw [get?, unsized, List.find?_map]
  rfl

theorem Depicts.unsized_eq (h : tree.Depicts volumes rows) (h' : other.Depicts volumes rows)
    {a b : LayerNode} (ha : a ∈ tree.nodes) (hb : b ∈ other.nodes) {row : LayerRow}
    (hra : a.unsized.Stands volumes row) (hrb : b.unsized.Stands volumes row) :
    a.unsized = b.unsized := by
  have hid : a.id = b.id :=
    (show a.unsized.id = row.id from hra.id_eq).trans (show row.id = b.unsized.id from hrb.id_eq.symm)
  have hchildren : a.unsized.children = b.unsized.children := by
    have hca := h.wellFormed.children_eq a ha
    have hcb := h'.wellFormed.children_eq b hb
    rw [← h.siblings] at hca
    rw [← h'.siblings, ← hid, ← hca] at hcb
    exact hcb.symm
  have hrest : { a.unsized with children := [] } = { b.unsized with children := [] } :=
    Option.some.inj (hra.symm.trans hrb)
  cases hua : a.unsized
  cases hub : b.unsized
  simp only [hua, hub, LayerNode.mk.injEq] at hrest hchildren ⊢
  exact ⟨hrest.1, hrest.2.1, hchildren, hrest.2.2.2⟩

/-- Rows stand for one tree only, up to the order in which nodes were attached. -/
theorem Depicts.same (h : tree.Depicts volumes rows) (h' : other.Depicts volumes rows) :
    tree.unsized.Same other.unsized := by
  have hperm : tree.ids.Perm other.ids :=
    (List.perm_ext_iff_of_nodup h.wellFormed.nodup h'.wellFormed.nodup).2 fun id => by
      rw [h.mem_ids_iff, h'.mem_ids_iff]
  refine ⟨?_, ?_, fun node hnode => ?_⟩
  · show tree.roots = other.roots
    rw [h.wellFormed.roots_eq, h'.wellFormed.roots_eq, ← h.siblings, ← h'.siblings]
  · have := hperm.length_eq
    simpa [size, unsized, ids] using this
  · obtain ⟨a, ha, rfl⟩ := List.mem_map.1 hnode
    obtain ⟨row, hrow, hra⟩ := h.exists_row ha
    obtain ⟨b, hb, hrb⟩ := h'.each row hrow
    have he := h.unsized_eq h' ha hb hra hrb
    rw [he, get?_unsized]
    have hget := get?_of_mem h'.wellFormed.nodup hb
    rw [show b.unsized.id = b.id from rfl, hget, Option.map_some]

end LayerTree

/-! ## The trees of a graph -/

theorem withParent_ownedBy (parent : Option UInt64) (key : ResourceKey) (rows : List LayerRow) :
    withParent parent (ownedBy key rows) = ownedBy key (withParent parent rows) :=
  List.filter_comm ..

theorem LayerTree.Grown.unsized_eq {volumes : List VolumeRow} {rows : List LayerRow}
    {tree : LayerTree} (h : tree.Grown volumes rows) : tree.unsized = tree := by
  have hnodes : tree.nodes.map LayerNode.unsized = tree.nodes := by
    refine (List.map_congr_left fun node hnode => ?_).trans (List.map_id _)
    obtain ⟨row, -, hrow⟩ := exists_of_forall₂ h.nodes.flip hnode
    exact LayerNode.Stands.unsized_eq hrow
  rw [LayerTree.unsized, hnodes]

/-- The resources of a graph are what the rows of the document stand for, without verdicts on
sizes. -/
theorem Graph.Loaded.depicts {doc : Document} {graph : Graph} (h : Loaded doc graph)
    {key : ResourceKey} {definition : ResourceDefinition}
    (hdef : doc.catalog.definitionOf? key = some definition) : ∃ tree : LayerTree,
    graph.resources.get? key = some (Resource.refresh { key, definition, tree }) ∧
      tree.Depicts doc.volumes (ownedBy key doc.layers) ∧ tree.unsized = tree := by
  obtain ⟨done, -, hsiblings, hpresent⟩ := h.present
  obtain ⟨tree, hget, hgrown⟩ := hpresent key definition hdef
  refine ⟨tree, hget, hgrown.depicts.congr (fun parent => ?_) fun _ _ => rfl, hgrown.unsized_eq⟩
  rw [withParent_ownedBy, withParent_ownedBy, hsiblings]

/-- A graph has the resources of the catalog. -/
theorem Graph.Loaded.isSome_eq {doc : Document} {graph : Graph} (h : Loaded doc graph)
    (key : ResourceKey) :
    (graph.resources.get? key).isSome = (doc.catalog.definitionOf? key).isSome := by
  cases hdef : doc.catalog.definitionOf? key with
  | none =>
    rw [h.absent key hdef]
    rfl
  | some definition =>
    obtain ⟨tree, hget, -⟩ := h.depicts hdef
    rw [hget]
    rfl

/-! ## The rows of a resource -/

/-- What a row needs to bring the data of a volume back. -/
def VolumeData.Plain (data : VolumeData) : Prop :=
  ∀ volume, data = .storage volume → volume.attributes.family = volume.provider.family

/-- The volumes of a layer stand under their numbers, and the attributes of each are those of its
provider. -/
def LayerNode.Plain (node : LayerNode) : Prop :=
  ∀ number leaf, node.volumes.get? number = some leaf → leaf.number = number ∧ leaf.data.Plain

theorem VolumeData.data?_payload {data : VolumeData} (h : data.Plain) :
    data.payload.data? = some data.unsized := by
  cases data with
  | storage volume =>
    simp only [VolumeData.payload, VolumePayload.data?, ProviderKind.ofName?_name, Option.map_some,
      Attributes.ofFields_toFields (h volume rfl), VolumeData.unsized]
  | replication _ | encryption _ _ | remoteAttach => rfl

theorem VolumePayload.plain_data? {payload : VolumePayload} {data : VolumeData}
    (h : payload.data? = some data) : data.Plain := by
  rintro volume rfl
  cases payload with
  | storage provider pool present fields =>
    obtain ⟨kind, -, he⟩ := Option.map_eq_some_iff.1 h
    cases he
    exact Attributes.family_ofFields kind fields
  | replication _ | encryption _ _ | remoteAttach => cases h

theorem VolumeData.plain_of_unsized {data : VolumeData} (h : data.unsized.Plain) : data.Plain := by
  rintro volume rfl
  exact h { volume with sizeState := none } rfl

/-- The layers that rows stand for are plain. -/
theorem LayerTree.Depicts.plain {tree : LayerTree} {volumes : List VolumeRow} {rows : List LayerRow}
    (h : tree.Depicts volumes rows) : ∀ node ∈ tree.nodes, node.Plain := by
  intro node hnode number leaf hget
  obtain ⟨row, -, hstands⟩ := h.exists_row hnode
  obtain ⟨volume, -, -, hnumber, hdata⟩ := hstands.exists_volume hget
  exact ⟨hnumber, VolumeData.plain_of_unsized (VolumePayload.plain_data? hdata)⟩

theorem leaf?_row {leaf : VolumeLeaf} (h : leaf.data.Plain) (id : LayerId) :
    (leaf.row id).leaf? = some leaf.unsized := by
  have hdata : (leaf.row id).payload.data? = some leaf.data.unsized := VolumeData.data?_payload h
  rw [VolumeRow.leaf?, hdata]
  rfl

namespace LayerNode

/-- The rows of the volumes of a layer. -/
def volumeRows (node : LayerNode) : List VolumeRow := node.volumes.values.map (·.row node.id)

theorem layer_of_mem_volumeRows {node : LayerNode} {volume : VolumeRow}
    (h : volume ∈ node.volumeRows) : volume.layer = node.id := by
  obtain ⟨leaf, -, rfl⟩ := List.mem_map.1 h
  rfl

variable {node : LayerNode}

theorem Plain.leaves_volumeRows (h : node.Plain) :
    VolumeRow.leaves node.volumeRows = node.unsized.volumes := by
  have hentries : node.volumeRows.filterMap (fun v => v.leaf?.map (fun leaf => (v.number, leaf))) =
      node.unsized.volumes.entries := by
    rw [volumeRows, SortedMap.values, List.map_map, List.filterMap_map]
    refine (List.filterMap_congr fun e he => ?_).trans
      (congrFun (@List.filterMap_eq_map _ _ fun e : UInt32 × VolumeLeaf => (e.1, e.2.unsized)) _)
    obtain ⟨number, leaf⟩ := e
    obtain ⟨hnumber, hplain⟩ := h number leaf ((SortedMap.mem_entries_iff _).1 he)
    simp only [Function.comp_apply, leaf?_row hplain, Option.map_some, Option.some.injEq]
    exact Prod.ext hnumber rfl
  rw [VolumeRow.leaves, hentries, SortedMap.ofList_entries]

theorem Plain.numbers_volumeRows (h : node.Plain) :
    node.volumeRows.map (·.number) = node.volumes.keys := by
  rw [volumeRows, SortedMap.values, SortedMap.keys, List.map_map, List.map_map]
  refine List.map_congr_left fun e he => ?_
  exact (h e.1 e.2 ((SortedMap.mem_entries_iff _).1 he)).1

theorem payload?_row (key : ResourceKey) : (node.row key).payload? = some node.payload := by
  unfold LayerRow.payload? LayerNode.row
  simp only [LayerKind.ofName?_name, Option.bind_some, LayerNode.kind]
  cases node.payload <;> rfl

/-- A layer is what its row stands for with the rows of its volumes. -/
theorem Plain.stands (h : node.Plain) (key : ResourceKey) {volumes : List VolumeRow}
    (hvolumes : volumesOf volumes node.id = node.volumeRows) :
    node.unsized.Stands volumes (node.row key) := by
  have hid : (node.row key).id = node.id := rfl
  rw [Stands, hid, hvolumes, LayerRow.node?, payload?_row, h.leaves_volumeRows]
  rfl

end LayerNode

/-- Of members that were put together under keys that differ, those of one key are found again. -/
theorem filter_flatMap_of_nodup {α β κ : Type} [DecidableEq κ] {key : α → κ} {members : α → List β}
    {keyOf : β → κ} (hkey : ∀ a, ∀ b ∈ members a, keyOf b = key a) {l : List α}
    (h : (l.map key).Nodup) {a : α} (ha : a ∈ l) :
    (l.flatMap members).filter (fun b => keyOf b = key a) = members a := by
  have hforeign : ∀ other, key other ≠ key a →
      (members other).filter (fun b => keyOf b = key a) = [] := by
    intro other hne
    refine List.filter_eq_nil_iff.2 fun b hb he => hne ?_
    rw [← hkey other b hb]
    exact of_decide_eq_true he
  induction l with
  | nil => cases ha
  | cons first rest ih =>
    obtain ⟨hnot, hrest⟩ := List.nodup_cons.1 h
    rw [List.flatMap_cons, List.filter_append]
    rcases List.mem_cons.1 ha with rfl | ha
    · have hnone : (rest.flatMap members).filter (fun b => keyOf b = key a) = [] := by
        refine List.filter_eq_nil_iff.2 fun b hb he => hnot ?_
        obtain ⟨other, hother, hmem⟩ := List.mem_flatMap.1 hb
        rw [← of_decide_eq_true he, hkey other b hmem]
        exact List.mem_map_of_mem hother
      have hall : (members a).filter (fun b => keyOf b = key a) = members a :=
        List.filter_eq_self.2 fun b hb => decide_eq_true (hkey a b hb)
      rw [hall, hnone, List.append_nil]
    · have hne : key first ≠ key a := fun e => hnot (e ▸ List.mem_map_of_mem ha)
      rw [hforeign first hne, List.nil_append, ih hrest ha]

theorem volumesOf_flatMap {nodes : List LayerNode} (h : (nodes.map (·.id)).Nodup) {node : LayerNode}
    (hnode : node ∈ nodes) : volumesOf (nodes.flatMap LayerNode.volumeRows) node.id = node.volumeRows :=
  filter_flatMap_of_nodup (fun _ _ => LayerNode.layer_of_mem_volumeRows) h hnode

namespace Resource

variable {resource : Resource}

theorem layers_rows : resource.rows.layers = resource.tree.preOrderNodes.map (·.row resource.key) :=
  rfl

theorem volumes_rows : resource.rows.volumes = resource.tree.preOrderNodes.flatMap LayerNode.volumeRows :=
  rfl

theorem layer_of_mem_rows {volume : VolumeRow} (h : volume ∈ resource.rows.volumes) :
    volume.layer ∈ resource.rows.layers.map (·.id) := by
  rw [volumes_rows] at h
  obtain ⟨node, hnode, hvolume⟩ := List.mem_flatMap.1 h
  rw [LayerNode.layer_of_mem_volumeRows hvolume, layers_rows, List.map_map]
  exact List.mem_map_of_mem (f := fun node => (node.row resource.key).id) hnode

theorem nodup_preOrderNodes (h : resource.tree.WellFormed) :
    (resource.tree.preOrderNodes.map (·.id)).Nodup :=
  (h.preOrderNodes_perm.map fun node : LayerNode => node.id).nodup_iff.2 h.nodup

theorem withParent_rows (key : ResourceKey) (parent : Option LayerId) (nodes : List LayerNode) :
    (withParent parent (nodes.map (·.row key))).map (·.id) = LayerTree.hanging nodes parent := by
  rw [withParent, List.filter_map, List.map_map]
  rfl

/-- A resource is what its own rows stand for. -/
theorem depicts_rows (h : resource.tree.WellFormed) (hplain : ∀ node ∈ resource.tree.nodes, node.Plain) :
    resource.tree.Depicts resource.rows.volumes resource.rows.layers where
  wellFormed := h
  siblings parent := by rw [layers_rows, withParent_rows, h.hanging_preOrder]
  each row hrow := by
    obtain ⟨node, hnode, rfl⟩ := List.mem_map.1 hrow
    have hmem := h.preOrderNodes_perm.mem_iff.1 hnode
    refine ⟨node, hmem, (hplain node hmem).stands resource.key ?_⟩
    rw [volumes_rows, volumesOf_flatMap (nodup_preOrderNodes h) hnode]

end Resource
end BlockStack
