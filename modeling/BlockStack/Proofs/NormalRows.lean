import BlockStack.Proofs.Depiction

/-!
# BlockStack.Proofs.NormalRows

The rows of a loaded document are the rows that it was loaded from.

* `LayerRow.normal`, `VolumeRow.normal`: a row without what a load has no use for: replication
  settings of another kind of layer, and attributes of another family of providers.
* `LayerNode.Stands.row_eq`, `LayerNode.Stands.volumeRows_perm`: a node has the rows it was made of.
* `Graph.Loaded.rowsOf_perm`: each row of the document is there once, in normal form, and no others
  are.
* `Graph.parent_row_before`, `Graph.ascending_volumes`: the order of the rows of a resource.
-/

namespace BlockStack

open BlockStack.Graph (volumesOf Loaded)

/-! ## Normal form -/

/-- The fields of one family of providers; the others are absent. -/
def AttributeFields.within (family : Family) (fields : AttributeFields) : AttributeFields where
  volumeGroup := if family = .lvm then fields.volumeGroup else none
  thinPool := if family = .lvm then fields.thinPool else none
  zpool := if family = .zfs then fields.zpool else none
  extentSizeKib := if family = .zfs then fields.extentSizeKib else none
  backingFile := if family = .file then fields.backingFile else none
  lvolStore := if family = .spdk then fields.lvolStore else none

/-- The payload without attributes outside of the provider's family. -/
def VolumePayload.normal : VolumePayload → VolumePayload
  | .storage provider pool present fields =>
    .storage provider pool present <|
      match ProviderKind.ofName? provider with
      | some kind => fields.within kind.family
      | none => fields
  | payload => payload

def VolumeRow.normal (volume : VolumeRow) : VolumeRow :=
  { volume with payload := volume.payload.normal }

/-- The row without replication settings, unless it is of that kind. -/
def LayerRow.normal (row : LayerRow) : LayerRow :=
  { row with
    replication := if row.kind = LayerKind.replication.name then row.replication else none }

theorem Attributes.toFields_ofFields (kind : ProviderKind) (fields : AttributeFields) :
    (Attributes.ofFields kind fields).toFields = fields.within kind.family := by
  cases kind <;> rfl

theorem VolumePayload.payload_data? {payload : VolumePayload} {data : VolumeData}
    (h : payload.data? = some data) : data.payload = payload.normal := by
  cases payload with
  | storage provider pool present fields =>
    obtain ⟨kind, hkind, rfl⟩ := Option.map_eq_some_iff.1 h
    rw [VolumePayload.normal, VolumeData.payload, Attributes.toFields_ofFields, hkind,
      ProviderKind.ofName?_eq_some_iff.1 hkind]
  | replication _ | encryption _ _ | remoteAttach =>
    cases h
    rfl

theorem row_leaf? {volume : VolumeRow} {leaf : VolumeLeaf} (h : volume.leaf? = some leaf) :
    leaf.row volume.layer = volume.normal := by
  obtain ⟨data, hdata, rfl⟩ := Option.map_eq_some_iff.1 h
  rw [VolumeRow.normal, VolumeLeaf.row, VolumePayload.payload_data? hdata]

/-- A node has the row that it was made of. -/
theorem LayerNode.Stands.row_eq {volumes : List VolumeRow} {node : LayerNode} {row : LayerRow}
    (h : node.Stands volumes row) : node.row row.owner = row.normal := by
  have hpayload := h.payload?_eq
  have hkind : row.kind = node.payload.kind.name := h.kind_eq
  rw [LayerNode.row, LayerRow.normal, h.id_eq, h.parent_eq, h.suffix_eq, h.suspended_eq, ← h.kind_eq]
  cases hp : node.payload with
  | replication settings =>
    rw [hp] at hpayload hkind
    have hrep : row.kind = LayerKind.replication.name := hkind
    rw [if_pos hrep, LayerRow.replication_of_payload? hpayload]
  | encryption | remoteAttach | storage =>
    have hne : row.kind ≠ LayerKind.replication.name := by
      rw [hkind, hp]
      decide
    rw [if_neg hne]

/-! ## The volumes of a layer -/

/-- With one pair for each key a map has the pairs that it was made of. -/
theorem perm_entries_ofList {υ : Type} {l : List (UInt32 × υ)} (h : (l.map (·.1)).Nodup) :
    (SortedMap.ofList l).entries.Perm l := by
  have hnodup : ((SortedMap.ofList l).entries.map (·.1)).Nodup := SortedMap.nodup_keys _
  refine (List.perm_ext_iff_of_nodup (.of_map _ hnodup) (.of_map _ h)).2 fun entry => ?_
  obtain ⟨key, value⟩ := entry
  rw [SortedMap.mem_entries_iff, SortedMap.get?_ofList_of_nodup h]

theorem VolumeRow.Fits.data?_isSome {doc : Document} {row : LayerRow} {volume : VolumeRow}
    (h : volume.Fits doc row) : volume.payload.data?.isSome := by
  unfold VolumeRow.Fits at h
  cases hpay : volume.payload with
  | storage provider pool present fields =>
    rw [hpay] at h
    obtain ⟨-, kind, -, rfl, -⟩ := h
    simp [VolumePayload.data?, ProviderKind.ofName?_name]
  | replication _ | encryption _ _ | remoteAttach => rfl

/-- The entries that rows of one layer stand for, with their numbers and rows. -/
theorem filterMap_leaves {id : LayerId} {rows : List VolumeRow}
    (h : ∀ volume ∈ rows, volume.layer = id ∧ volume.payload.data?.isSome) :
    let entries := rows.filterMap (fun v => v.leaf?.map (fun leaf => (v.number, leaf)))
    entries.map (·.1) = rows.map (·.number) ∧
      entries.map (fun e => e.2.row id) = rows.map VolumeRow.normal := by
  induction rows with
  | nil => exact ⟨rfl, rfl⟩
  | cons volume rest ih =>
    obtain ⟨hlayer, hdata⟩ := h volume List.mem_cons_self
    obtain ⟨hnumbers, hrows⟩ := ih fun v hv => h v (List.mem_cons_of_mem _ hv)
    obtain ⟨leaf, hleaf⟩ : ∃ leaf, volume.leaf? = some leaf := by
      obtain ⟨data, hd⟩ := Option.isSome_iff_exists.1 hdata
      exact ⟨_, by rw [VolumeRow.leaf?, hd, Option.map_some]⟩
    have hrow : leaf.row id = volume.normal := hlayer ▸ row_leaf? hleaf
    intro entries
    have hcons : entries = (volume.number, leaf) ::
        rest.filterMap (fun v => v.leaf?.map (fun leaf => (v.number, leaf))) :=
      List.filterMap_cons_some (by rw [hleaf, Option.map_some])
    rw [hcons]
    simp only [List.map_cons, hnumbers, hrows, hrow, and_self]

/-- A node has the rows of the volumes that it was made of. -/
theorem LayerNode.Stands.volumeRows_perm {volumes : List VolumeRow} {node : LayerNode}
    {row : LayerRow} (h : node.Stands volumes row)
    (hdata : ∀ volume ∈ volumesOf volumes row.id, volume.payload.data?.isSome)
    (hnumbered : ((volumesOf volumes row.id).map (·.number)).Nodup) :
    node.volumeRows.Perm ((volumesOf volumes row.id).map VolumeRow.normal) := by
  obtain ⟨hnumbers, hrows⟩ := @filterMap_leaves row.id _ fun volume hmem =>
    ⟨(mem_volumesOf.1 hmem).2, hdata volume hmem⟩
  rw [volumeRows, SortedMap.values, List.map_map, h.id_eq, ← h.leaves_eq, VolumeRow.leaves, ← hrows]
  exact (perm_entries_ofList (hnumbers ▸ hnumbered)).map _

/-! ## The rows of a resource -/

theorem perm_flatMap_of_forall₂ {α β γ : Type} {R : α → β → Prop} {f : α → List γ} {g : β → List γ}
    {l : List α} {m : List β} (h : List.Forall₂ R l m)
    (hfg : ∀ a, ∀ b ∈ m, R a b → (f a).Perm (g b)) : (l.flatMap f).Perm (m.flatMap g) := by
  induction h with
  | nil => exact .nil
  | @cons a b l m hab _ ih =>
    rw [List.flatMap_cons, List.flatMap_cons]
    refine (hfg a b List.mem_cons_self hab).append (ih fun a' b' hb => ?_)
    exact hfg a' b' (List.mem_cons_of_mem _ hb)

namespace LayerTree

variable {volumes : List VolumeRow} {rows : List LayerRow} {tree : LayerTree}

theorem Grown.layerRows_eq (h : tree.Grown volumes rows) {key : ResourceKey}
    (howner : ∀ row ∈ rows, row.owner = key) :
    tree.nodes.map (·.row key) = rows.map LayerRow.normal := by
  have hrows : rows.map LayerRow.normal = rows.map (fun row => { row with owner := key }.normal) :=
    List.map_congr_left fun row hrow => by rw [← howner row hrow]
  rw [hrows]
  refine map_eq_of_forall₂ (fun node row hstands => ?_) h.nodes
  exact @LayerNode.Stands.row_eq _ _ { row with owner := key } hstands

theorem Grown.volumeRows_perm (h : tree.Grown volumes rows)
    (hvolumes : ∀ row ∈ rows, (∀ v ∈ volumesOf volumes row.id, v.payload.data?.isSome) ∧
      ((volumesOf volumes row.id).map (·.number)).Nodup) :
    (tree.nodes.flatMap LayerNode.volumeRows).Perm
      (rows.flatMap (fun row => (volumesOf volumes row.id).map VolumeRow.normal)) := by
  refine perm_flatMap_of_forall₂ h.nodes fun node row hrow hstands => ?_
  obtain ⟨hdata, hnumbered⟩ := hvolumes row hrow
  exact hstands.volumeRows_perm hdata hnumbered

end LayerTree

namespace Graph

variable {doc : Document} {graph : Graph}

theorem Loaded.layers_perm (h : Loaded doc graph) {key : ResourceKey} {resource : Resource}
    (hget : graph.resources.get? key = some resource) :
    resource.rows.layers.Perm ((ownedBy key doc.layers).map LayerRow.normal) := by
  obtain ⟨definition, tree, rows, -, rfl, hperm, hgrown⟩ := h.exists_grown hget
  have howner : ∀ row ∈ rows, row.owner = key :=
    fun row hrow => (mem_ownedBy.1 (hperm.mem_iff.1 hrow)).2
  show (tree.preOrderNodes.map (·.row key)).Perm _
  refine (hgrown.wellFormed.preOrderNodes_perm.map _).trans ?_
  rw [hgrown.layerRows_eq howner]
  exact hperm.map _

theorem Loaded.volumes_perm (hdoc : doc.Consistent) (h : Loaded doc graph) {key : ResourceKey}
    {resource : Resource} (hget : graph.resources.get? key = some resource) :
    resource.rows.volumes.Perm ((ownedBy key doc.layers).flatMap (fun row =>
      (volumesOf doc.volumes row.id).map VolumeRow.normal)) := by
  obtain ⟨definition, tree, rows, -, rfl, hperm, hgrown⟩ := h.exists_grown hget
  obtain ⟨-, -, hrows, -⟩ := Document.consistent_iff.1 hdoc
  have hvolumes : ∀ row ∈ rows, (∀ v ∈ volumesOf doc.volumes row.id, v.payload.data?.isSome) ∧
      ((volumesOf doc.volumes row.id).map (·.number)).Nodup := by
    intro row hrow
    obtain ⟨-, hplaced⟩ := hrows row (mem_ownedBy.1 (hperm.mem_iff.1 hrow)).1
    exact ⟨fun v hv => (hplaced.volumes v hv).data?_isSome, hplaced.numbered⟩
  refine (hgrown.wellFormed.preOrderNodes_perm.flatMap_right _).trans ?_
  exact (hgrown.volumeRows_perm hvolumes).trans (hperm.flatMap_right _)

/-! ## All rows -/

/-- Grouped by keys that differ, all members of a list are there. -/
theorem flatMap_filter_perm {α κ : Type} [DecidableEq κ] (f : α → κ) {keys : List κ}
    (h : keys.Nodup) : ∀ {l : List α}, (∀ a ∈ l, f a ∈ keys) →
      (keys.flatMap (fun k => l.filter (fun a => f a = k))).Perm l := by
  induction keys with
  | nil =>
    intro l hall
    rw [List.eq_nil_iff_forall_not_mem.2 fun a ha => List.not_mem_nil (hall a ha)]
    exact .nil
  | cons key rest ih =>
    intro l hall
    obtain ⟨hnot, hrest⟩ := List.nodup_cons.1 h
    -- the groups of the other keys are groups of what is left without the first one
    have hothers : rest.flatMap (fun k => l.filter (fun a => f a = k)) =
        rest.flatMap (fun k => (l.filter (fun a => !decide (f a = key))).filter (fun a => f a = k)) := by
      refine List.flatMap_congr fun k hk => ?_
      rw [List.filter_filter]
      refine List.filter_congr fun a _ => ?_
      by_cases hak : f a = k
      · have hne : ¬ k = key := fun e => hnot (e ▸ hk)
        simp [hak, hne]
      · simp [hak]
    rw [List.flatMap_cons, hothers]
    refine ((ih hrest fun a ha => ?_).append_left _).trans (List.filter_append_perm _ l)
    obtain ⟨ha, hne⟩ := List.mem_filter.1 ha
    exact (List.mem_cons.1 (hall a ha)).resolve_left (by simpa using hne)

theorem foldl_append_rows (resources : List Resource) : ∀ start : Rows,
    resources.foldl (fun rows resource => rows.append resource.rows) start =
      { layers := start.layers ++ resources.flatMap (·.rows.layers)
        volumes := start.volumes ++ resources.flatMap (·.rows.volumes) } := by
  induction resources with
  | nil => intro start; simp
  | cons resource rest ih =>
    intro start
    rw [List.foldl_cons, ih]
    simp [Rows.append]

theorem rowsOf_eq (resources : List Resource) : rowsOf resources =
    { layers := resources.flatMap (·.rows.layers)
      volumes := resources.flatMap (·.rows.volumes) } :=
  foldl_append_rows resources {}

/-- Each row of the document is there once, in normal form, and no others are. -/
theorem Loaded.rowsOf_perm (hdoc : doc.Consistent) (h : Loaded doc graph) :
    (rowsOf graph.resources.values).layers.Perm (doc.layers.map LayerRow.normal) ∧
      (rowsOf graph.resources.values).volumes.Perm (doc.volumes.map VolumeRow.normal) := by
  have hget : ∀ e ∈ graph.resources.entries, graph.resources.get? e.1 = some e.2 :=
    fun e he => (SortedMap.mem_entries_iff _).1 he
  have hkeys : ∀ row ∈ doc.layers, row.owner ∈ graph.resources.keys := by
    intro row hrow
    obtain ⟨kind, hfits⟩ := hdoc.layers row hrow
    have hdef := (Catalog.definitionOf?_isSome_iff hdoc.defined).2 hfits.owned
    rw [← h.isSome_eq] at hdef
    exact SortedMap.mem_keys_iff.2 (Option.isSome_iff_exists.1 hdef)
  have howners : (graph.resources.keys.flatMap (fun key => ownedBy key doc.layers)).Perm doc.layers :=
    flatMap_filter_perm LayerRow.owner (SortedMap.nodup_keys _) hkeys
  rw [rowsOf_eq]
  constructor
  · show (graph.resources.values.flatMap (·.rows.layers)).Perm _
    rw [SortedMap.values, List.flatMap_map]
    refine (List.Perm.flatMap_left _ fun e he => h.layers_perm (hget e he)).trans ?_
    have hgroups : graph.resources.entries.flatMap (fun e =>
          (ownedBy e.1 doc.layers).map LayerRow.normal) =
        (graph.resources.keys.flatMap (fun key => ownedBy key doc.layers)).map LayerRow.normal := by
      rw [List.map_flatMap, SortedMap.keys, List.flatMap_map]
    rw [hgroups]
    exact howners.map _
  · show (graph.resources.values.flatMap (·.rows.volumes)).Perm _
    rw [SortedMap.values, List.flatMap_map]
    refine (List.Perm.flatMap_left _ fun e he => h.volumes_perm hdoc (hget e he)).trans ?_
    have hgroups : graph.resources.entries.flatMap (fun e => (ownedBy e.1 doc.layers).flatMap
          (fun row => (volumesOf doc.volumes row.id).map VolumeRow.normal)) =
        (graph.resources.keys.flatMap (fun key => ownedBy key doc.layers)).flatMap
          (fun row => (volumesOf doc.volumes row.id).map VolumeRow.normal) := by
      rw [List.flatMap_assoc, SortedMap.keys, List.flatMap_map]
    rw [hgroups]
    refine (howners.flatMap_right _).trans ?_
    have hlayers : doc.layers.flatMap (fun row =>
          (volumesOf doc.volumes row.id).map VolumeRow.normal) =
        ((doc.layers.map (·.id)).flatMap (volumesOf doc.volumes)).map VolumeRow.normal := by
      rw [List.map_flatMap, List.flatMap_map]
    rw [hlayers]
    refine (flatMap_filter_perm VolumeRow.layer hdoc.distinct fun volume hvolume => ?_).map _
    obtain ⟨row, hrow, hid, -⟩ := hdoc.volumes volume hvolume
    exact hid ▸ List.mem_map_of_mem hrow

/-! ## The order of the rows of a resource -/

theorem ascending_keys {υ : Type} (m : SortedMap UInt32 υ) : m.keys.Pairwise (· < ·) := by
  rw [SortedMap.keys, List.pairwise_map]
  exact m.sorted.imp Std.compare_eq_lt.1

theorem ascending_volumes {resource : Resource} (h : resource.tree.WellFormed)
    (hplain : ∀ node ∈ resource.tree.nodes, node.Plain) (id : LayerId) :
    ((volumesOf resource.rows.volumes id).map (·.number)).Pairwise (· < ·) := by
  by_cases hid : ∃ node ∈ resource.tree.preOrderNodes, node.id = id
  · obtain ⟨node, hnode, rfl⟩ := hid
    have hmem := h.preOrderNodes_perm.mem_iff.1 hnode
    rw [Resource.volumes_rows, volumesOf_flatMap (Resource.nodup_preOrderNodes h) hnode,
      (hplain node hmem).numbers_volumeRows]
    exact ascending_keys _
  · have hnone : volumesOf resource.rows.volumes id = [] := by
      refine List.filter_eq_nil_iff.2 fun volume hvolume hlayer => hid ?_
      obtain ⟨node, hnode, hmem⟩ := List.mem_flatMap.1 (Resource.volumes_rows ▸ hvolume)
      exact ⟨node, hnode, (LayerNode.layer_of_mem_volumeRows hmem).symm.trans (of_decide_eq_true hlayer)⟩
    rw [hnone]
    exact .nil

theorem parent_row_before {resource : Resource} (h : resource.tree.WellFormed)
    {before after : List LayerRow} {row : LayerRow}
    (he : resource.rows.layers = before ++ row :: after) {p : UInt64} (hp : row.parent = some p) :
    p ∈ before.map (·.id) := by
  obtain ⟨above, behind, hnodes, rfl, hbehind⟩ := List.map_eq_append_iff.1 he
  obtain ⟨node, below, rfl, rfl, -⟩ := List.map_eq_cons_iff.1 hbehind
  have := h.parent_before hnodes hp
  rwa [List.map_map]

/-- A load neither loses a row nor makes one up: flattened again, its resources have the rows of the
document in normal form. In the rows of each resource parents come first, and the volumes of a layer
stand in the order of their numbers. -/
theorem rows_come_back (hok : ofDocument doc = .ok graph) :
    (rowsOf graph.resources.values).layers.Perm (doc.layers.map LayerRow.normal) ∧
    (rowsOf graph.resources.values).volumes.Perm (doc.volumes.map VolumeRow.normal) ∧
    ∀ resource ∈ graph.resources.values,
      (∀ before row after p, resource.rows.layers = before ++ row :: after → row.parent = some p →
        p ∈ before.map (·.id)) ∧
      ∀ id, ((volumesOf resource.rows.volumes id).map (·.number)).Pairwise (· < ·) := by
  obtain ⟨hdoc, hloaded⟩ := loaded_ofDocument hok
  obtain ⟨hlayers, hvolumes⟩ := hloaded.rowsOf_perm hdoc
  refine ⟨hlayers, hvolumes, fun resource hmem => ?_⟩
  obtain ⟨key, hget⟩ := SortedMap.mem_values_iff.1 hmem
  obtain ⟨definition, tree, rows, -, rfl, -, hgrown⟩ := hloaded.exists_grown hget
  exact ⟨fun _ _ _ _ he hp => parent_row_before hgrown.wellFormed he hp,
    ascending_volumes hgrown.wellFormed hgrown.depicts.plain⟩

/-- Two resources, one with two roots, with their rows out of order, with replication settings on a
layer that does not replicate and with attributes of another provider. -/
def untidyDocument : Document where
  catalog := {
    definitions := [{ name := "d" }]
    resources := [
      { key := { node := "n", resource := "r" }, definition := "d" },
      { key := { node := "n", resource := "q" }, definition := "d" }]
    pools := [{ key := ⟨"n", "p"⟩, provider := .lvm, extentSizeKib := 4 }] }
  layers := [
    { id := 3, parent := some 7, kind := "STORAGE", owner := { node := "n", resource := "r" } },
    { id := 5, kind := "REMOTE_ATTACH", owner := { node := "n", resource := "q" } },
    { id := 7, kind := "ENCRYPTION", owner := { node := "n", resource := "r" }
      replication := some { nodeId := 1, peerSlots := 7, alStripes := 1, alStripeSizeKib := 32 } },
    { id := 2, kind := "STORAGE", suffix := ".meta", owner := { node := "n", resource := "q" } }]
  volumes := [
    { layer := 3, number := 1, expectedSizeKib := 8
      payload := .storage "LVM" "p" false { volumeGroup := some "vg", zpool := some "tank" } },
    { layer := 7, number := 1, expectedSizeKib := 8, payload := .encryption none false },
    { layer := 7, number := 0, expectedSizeKib := 8, payload := .encryption none true },
    { layer := 5, number := 4, expectedSizeKib := 8, payload := .remoteAttach },
    { layer := 3, number := 0, expectedSizeKib := 8, payload := .storage "LVM" "p" true {} }]

def untidyGraph : Graph := (ofDocument untidyDocument).toOption.getD {}

theorem ofDocument_untidy : ofDocument untidyDocument = .ok untidyGraph := by decide

/-- The rows come back, but tidied up. -/
theorem rows_come_back_untidy :
    ofDocument untidyDocument = .ok untidyGraph ∧
    (rowsOf untidyGraph.resources.values).layers.Perm (untidyDocument.layers.map LayerRow.normal) ∧
    (rowsOf untidyGraph.resources.values).volumes.Perm
      (untidyDocument.volumes.map VolumeRow.normal) ∧
    ¬ (rowsOf untidyGraph.resources.values).layers.Perm untidyDocument.layers ∧
    ¬ (rowsOf untidyGraph.resources.values).volumes.Perm untidyDocument.volumes := by
  obtain ⟨hlayers, hvolumes, -⟩ := rows_come_back ofDocument_untidy
  exact ⟨ofDocument_untidy, hlayers, hvolumes, by decide, by decide⟩

end Graph
end BlockStack
