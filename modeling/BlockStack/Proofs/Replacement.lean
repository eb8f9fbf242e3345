import BlockStack.Proofs.Depiction
import BlockStack.Proofs.Matching

/-!
# BlockStack.Proofs.Replacement

Putting the rows of a resource back into its document after reports.

* `LayerRow.Alike`: rows that differ in nothing that a load checks.
* `Renewal`: a resource that differs from what a document holds only in what satellites observe.
* `Renewal.consistent_replaced`: with the rows replaced the document is consistent again.
* `Renewal.depicts_replaced`, `Renewal.depicts_kept`: the rows stand for the resource as it is now,
  and for all other resources as before.
-/

namespace BlockStack

open BlockStack.Graph (withParent volumesOf Placed)

/-! ## Rows that are alike -/

/-- Rows that differ at most in replication settings, and in these only if their kind has none. -/
structure LayerRow.Alike (a b : LayerRow) : Prop where
  id : a.id = b.id
  parent : a.parent = b.parent
  kind : a.kind = b.kind
  suffix : a.suffix = b.suffix
  owner : a.owner = b.owner
  replication : a.kind = LayerKind.replication.name → a.replication = b.replication

theorem LayerRow.Alike.refl (row : LayerRow) : row.Alike row := ⟨rfl, rfl, rfl, rfl, rfl, fun _ => rfl⟩

/-- Two lists of rows have alike rows. -/
structure AlikeRows (before after : List LayerRow) : Prop where
  left : ∀ row ∈ after, ∃ old ∈ before, old.Alike row
  right : ∀ old ∈ before, ∃ row ∈ after, old.Alike row

theorem AlikeRows.rooted {before after : List LayerRow} (h : AlikeRows before after) {old : LayerRow}
    (hold : Rooted before old) : ∀ row ∈ after, old.Alike row → Rooted after row := by
  induction hold with
  | top _ hp => exact fun row hrow halike => .top hrow (halike.parent ▸ hp)
  | @under old above _ hp habove ih =>
    intro row hrow halike
    obtain ⟨above', habove', halike'⟩ := h.right above habove.mem
    refine .under hrow ?_ (ih above' habove' halike')
    rw [← halike.parent, hp, halike'.id]

variable {doc next : Document}

theorem settingsOf?_congr (hcatalog : next.catalog = doc.catalog) {a b : LayerRow}
    (h : a.Alike b) : next.settingsOf? b = doc.settingsOf? a := by
  rw [Document.settingsOf?, Document.settingsOf?, hcatalog, h.owner, h.suffix]

theorem AlikeRows.fits (h : AlikeRows doc.layers next.layers) (hcatalog : next.catalog = doc.catalog)
    {old row : LayerRow} {kind : LayerKind} (halike : old.Alike row) (hfits : old.Fits doc kind) :
    row.Fits next kind := by
  refine ⟨halike.kind ▸ hfits.named, ?_, ?_, ?_, ?_⟩
  · rw [hcatalog, ← halike.owner]
    exact hfits.owned
  · intro above habove hp
    obtain ⟨before, hbefore, ha⟩ := h.left above habove
    rw [← ha.owner, ← halike.owner]
    exact hfits.sameOwner before hbefore (by rw [halike.parent, hp, ha.id])
  · intro hkind above habove hp
    obtain ⟨before, hbefore, ha⟩ := h.left above habove
    rw [← ha.suffix, ← halike.suffix]
    exact hfits.extendsSuffix hkind before hbefore (by rw [halike.parent, hp, ha.id])
  · intro hkind
    rw [settingsOf?_congr hcatalog halike, ← halike.replication (by rw [hfits.named, hkind])]
    exact hfits.replicated hkind

/-! ## Volume data that fits a row -/

/-- Volume data fits a row under a number. -/
def VolumeData.Fits (doc : Document) (row : LayerRow) (number : UInt32) : VolumeData → Prop
  | .replication _ => row.kind = LayerKind.replication.name ∧
      ∃ settings, doc.settingsOf? row = some settings ∧ number ∈ settings.volumes.keys
  | .encryption _ _ => row.kind = LayerKind.encryption.name
  | .remoteAttach => row.kind = LayerKind.remoteAttach.name
  | .storage volume => row.kind = LayerKind.storage.name ∧
      ∃ found, doc.catalog.pool? ⟨row.owner.node, volume.pool⟩ = some found ∧
        found.provider = volume.provider

theorem fits_iff_data {row : LayerRow} {volume : VolumeRow} {data : VolumeData}
    (h : volume.payload.data? = some data) :
    volume.Fits doc row ↔ data.Fits doc row volume.number := by
  unfold VolumeRow.Fits
  cases hpay : volume.payload with
  | storage provider pool present fields =>
    rw [hpay] at h
    obtain ⟨kind, hkind, rfl⟩ := Option.map_eq_some_iff.1 h
    rw [ProviderKind.ofName?_eq_some_iff] at hkind
    subst hkind
    simp only [VolumeData.Fits]
    refine and_congr_right fun _ => ⟨?_, ?_⟩
    · rintro ⟨other, found, hname, hfound, hprovider⟩
      exact ⟨found, hfound, hprovider.trans (ProviderKind.name_injective hname)⟩
    · rintro ⟨found, hfound, hprovider⟩
      exact ⟨kind, found, rfl, hfound, hprovider⟩
  | replication _ | encryption _ _ | remoteAttach =>
    rw [hpay] at h
    cases h
    rfl

theorem VolumeData.Fits.congr (hcatalog : next.catalog = doc.catalog) {old row : LayerRow}
    (halike : old.Alike row) {number : UInt32} {a b : VolumeData} (h : a.authored = b.authored)
    (ha : a.Fits doc old number) : b.Fits next row number := by
  unfold VolumeData.Fits at ha ⊢
  rw [settingsOf?_congr hcatalog halike, hcatalog, ← halike.kind, ← halike.owner]
  cases a with
  | storage volume =>
    cases b with
    | storage other =>
      simp only [VolumeData.authored, VolumeData.storage.injEq, StorageVolume.mk.injEq] at h
      dsimp only at ha ⊢
      rwa [← h.1, ← h.2.1]
    | replication _ | encryption _ _ | remoteAttach => cases h
  | replication _ | encryption _ _ | remoteAttach => cases b <;> first | exact ha | cases h

/-! ## Replacing rows -/

namespace Document

variable {key : ResourceKey} {rows : Rows}

theorem Consistent.keyed (h : doc.Consistent) : doc.Keyed where
  distinct := h.distinct
  belong volume hvolume := by
    obtain ⟨row, hrow, hid, -⟩ := h.volumes volume hvolume
    exact hid ▸ List.mem_map_of_mem hrow

/-- The volume rows of the layers of the resource are the new ones. -/
theorem volumesOf_replaced {id : UInt64} (hid : id ∈ doc.ownedIds key) :
    volumesOf (doc.replaceResource key rows).volumes id = volumesOf rows.volumes id := by
  unfold replaceResource volumesOf
  rw [List.filter_append, List.filter_filter]
  have : doc.volumes.filter (fun volume => decide (volume.layer = id) &&
      !(doc.ownedIds key).contains volume.layer) = [] := by
    refine List.filter_eq_nil_iff.2 fun volume _ hv => ?_
    simp only [Bool.and_eq_true, decide_eq_true_eq, Bool.not_eq_true', List.contains_eq_mem,
      decide_eq_false_iff_not] at hv
    exact hv.2 (hv.1 ▸ hid)
  rw [this, List.nil_append]

/-- The volume rows of all other layers are as before. -/
theorem volumesOf_kept (hrows : ∀ volume ∈ rows.volumes, volume.layer ∈ doc.ownedIds key)
    {id : UInt64} (hid : id ∉ doc.ownedIds key) :
    volumesOf (doc.replaceResource key rows).volumes id = volumesOf doc.volumes id := by
  unfold replaceResource volumesOf
  rw [List.filter_append, List.filter_filter]
  have hnew : rows.volumes.filter (fun volume => decide (volume.layer = id)) = [] :=
    List.filter_eq_nil_iff.2 fun volume hv hlayer => hid (of_decide_eq_true hlayer ▸ hrows volume hv)
  rw [hnew, List.append_nil]
  refine List.filter_congr fun volume _ => ?_
  by_cases hlayer : volume.layer = id
  · simp [hlayer, hid]
  · simp [hlayer]

end Document

/-! ## A resource after reports -/

/-- A resource of a document after reports: `old` is what the rows of the document stand for, and
`now` differs from it only in what satellites observe. -/
structure Renewal (doc : Document) (old now : Resource) : Prop where
  consistent : doc.Consistent
  key : now.key = old.key
  depicts : old.tree.Depicts doc.volumes (ownedBy old.key doc.layers)
  authored : now.tree.authored = old.tree.authored
  plain : ∀ node ∈ now.tree.nodes, node.Plain

namespace Renewal

variable {old now : Resource}

theorem wellFormed (h : Renewal doc old now) : now.tree.WellFormed :=
  LayerTree.wellFormed_authored_congr h.authored.symm h.depicts.wellFormed

theorem exists_authored {a b : LayerTree} (h : a.authored = b.authored) {node : LayerNode}
    (hnode : node ∈ a.nodes) : ∃ other ∈ b.nodes, other.authored = node.authored := by
  have hnodes : a.nodes.map LayerNode.authored = b.nodes.map LayerNode.authored :=
    congrArg LayerTree.nodes h
  have : node.authored ∈ b.nodes.map LayerNode.authored := hnodes ▸ List.mem_map_of_mem hnode
  obtain ⟨other, hother, he⟩ := List.mem_map.1 this
  exact ⟨other, hother, he⟩

/-- The row of a node is like the row that the node stands for. -/
theorem alike_row {volumes : List VolumeRow} {a b : LayerNode} {row : LayerRow}
    (hstands : a.unsized.Stands volumes row) (h : a.authored = b.authored) :
    row.Alike (b.row row.owner) := by
  have hkind : row.kind = a.kind.name := hstands.kind_eq
  have hid : a.id = b.id := show a.authored.id = b.authored.id by rw [h]
  have hparent : a.parent = b.parent := show a.authored.parent = b.authored.parent by rw [h]
  have hsame : a.payload = b.payload := show a.authored.payload = b.authored.payload by rw [h]
  have hsuffix : a.suffix = b.suffix := MergeContext.suffix_eq_of_authored h
  refine ⟨hstands.id_eq.symm.trans hid, hstands.parent_eq.symm.trans hparent, ?_,
    hstands.suffix_eq.symm.trans hsuffix, rfl, fun hrep => ?_⟩
  · rw [hkind, MergeContext.kind_eq_of_authored h]
    rfl
  · rw [hkind] at hrep
    have hrep : a.payload.kind = .replication := LayerKind.name_injective hrep
    have hpayload : row.payload? = some a.payload := hstands.payload?_eq
    cases hp : a.payload with
    | replication settings =>
      rw [hp] at hpayload
      rw [LayerRow.replication_of_payload? hpayload, LayerNode.row, ← hsame, hp]
    | encryption | remoteAttach | storage =>
      rw [hp] at hrep
      cases hrep

/-- The rows of a resource after reports are like its rows in the document. -/
theorem exists_alike (h : Renewal doc old now) {node : LayerNode} (hnode : node ∈ now.tree.nodes) :
    ∃ row ∈ doc.layers, row.owner = now.key ∧ row.Alike (node.row now.key) ∧
      ∃ before ∈ old.tree.nodes, before.authored = node.authored ∧
        before.unsized.Stands doc.volumes row := by
  obtain ⟨before, hbefore, he⟩ := exists_authored h.authored hnode
  obtain ⟨row, hrow, hstands⟩ := h.depicts.exists_row hbefore
  obtain ⟨hrow, howner⟩ := mem_ownedBy.1 hrow
  have halike := alike_row hstands he
  rw [howner, ← h.key] at halike
  exact ⟨row, hrow, howner.trans h.key.symm, halike, before, hbefore, he, hstands⟩

theorem mem_ids_iff (h : Renewal doc old now) {id : LayerId} :
    id ∈ now.tree.ids ↔ id ∈ doc.ownedIds now.key := by
  rw [LayerTree.ids_authored_congr h.authored, h.depicts.mem_ids_iff, h.key]
  rfl

/-! ## The document after the replacement -/

theorem mem_rows (h : Renewal doc old now) {row : LayerRow} :
    row ∈ now.rows.layers ↔ ∃ node ∈ now.tree.nodes, node.row now.key = row := by
  rw [Resource.layers_rows, List.mem_map]
  simp only [h.wellFormed.preOrderNodes_perm.mem_iff]

theorem mem_volumeRows (h : Renewal doc old now) {volume : VolumeRow} :
    volume ∈ now.rows.volumes ↔ ∃ node ∈ now.tree.nodes, volume ∈ node.volumeRows := by
  rw [Resource.volumes_rows, List.mem_flatMap]
  simp only [h.wellFormed.preOrderNodes_perm.mem_iff]

theorem owner_rows (h : Renewal doc old now) : ∀ row ∈ now.rows.layers, row.owner = now.key := by
  intro row hrow
  obtain ⟨node, -, rfl⟩ := h.mem_rows.1 hrow
  rfl

theorem layer_volumeRows (h : Renewal doc old now) :
    ∀ volume ∈ now.rows.volumes, volume.layer ∈ doc.ownedIds now.key := by
  intro volume hvolume
  obtain ⟨node, hnode, hmem⟩ := h.mem_volumeRows.1 hvolume
  rw [LayerNode.layer_of_mem_volumeRows hmem, ← h.mem_ids_iff]
  exact List.mem_map_of_mem hnode

theorem volumesOf_node (h : Renewal doc old now) {node : LayerNode} (hnode : node ∈ now.tree.nodes) :
    volumesOf (doc.replaceResource now.key now.rows).volumes node.id = node.volumeRows := by
  rw [Document.volumesOf_replaced (h.mem_ids_iff.1 (List.mem_map_of_mem hnode)),
    Resource.volumes_rows, volumesOf_flatMap (Resource.nodup_preOrderNodes h.wellFormed)
      (h.wellFormed.preOrderNodes_perm.mem_iff.2 hnode)]

theorem alikeRows (h : Renewal doc old now) :
    AlikeRows doc.layers (doc.replaceResource now.key now.rows).layers where
  left row hrow := by
    rcases Document.mem_replaceResource.1 hrow with ⟨hrow, -⟩ | hrow
    · exact ⟨row, hrow, .refl row⟩
    · obtain ⟨node, hnode, rfl⟩ := h.mem_rows.1 hrow
      obtain ⟨before, hbefore, -, halike, -⟩ := h.exists_alike hnode
      exact ⟨before, hbefore, halike⟩
  right before hbefore := by
    by_cases howner : before.owner = now.key
    · have hid := h.mem_ids_iff.2 ((Document.mem_ownedIds h.consistent.distinct hbefore).2 howner)
      obtain ⟨node, hnode, hid⟩ := List.mem_map.1 hid
      obtain ⟨row, hrow, -, halike, -⟩ := h.exists_alike hnode
      have : row = before :=
        List.inj_on_of_nodup_map h.consistent.distinct hrow hbefore (halike.id.trans hid)
      exact ⟨node.row now.key, Document.mem_replaceResource.2 (.inr (h.mem_rows.2 ⟨node, hnode, rfl⟩)),
        this ▸ halike⟩
    · exact ⟨before, Document.mem_replaceResource.2 (.inl ⟨hbefore, howner⟩), .refl before⟩

/-- The rows of a resource after reports can take the place of those before. -/
theorem admits (h : Renewal doc old now) : doc.Admits now.key now.rows where
  owned := h.owner_rows
  distinct := by
    rw [Resource.layers_rows, List.map_map]
    exact Resource.nodup_preOrderNodes h.wellFormed
  apart row hrow hne hid := by
    obtain ⟨other, hother, hid⟩ := List.mem_map.1 hid
    obtain ⟨node, hnode, rfl⟩ := h.mem_rows.1 hother
    have howned : row.id ∈ doc.ownedIds now.key :=
      hid ▸ h.mem_ids_iff.1 (List.mem_map_of_mem hnode)
    exact hne ((Document.mem_ownedIds h.consistent.distinct hrow).1 howned)
  belong _ := Resource.layer_of_mem_rows

/-- The volume rows of a node fit the row of the node. -/
theorem fits_volumeRow (h : Renewal doc old now) {node : LayerNode} (hnode : node ∈ now.tree.nodes)
    {volume : VolumeRow} (hvolume : volume ∈ node.volumeRows) :
    volume.Fits (doc.replaceResource now.key now.rows) (node.row now.key) := by
  obtain ⟨leaf, hleaf, rfl⟩ := List.mem_map.1 hvolume
  obtain ⟨number, hget⟩ := SortedMap.mem_values_iff.1 hleaf
  obtain ⟨hnumber, hplain⟩ := h.plain node hnode number leaf hget
  obtain ⟨row, hrow, -, halike, before, -, hsame, hstands⟩ := h.exists_alike hnode
  -- the volume row of the document that the volume was loaded from
  obtain ⟨first, hfirst, hauthored⟩ := MergeContext.get?_volumes_authored hsame.symm hget
  obtain ⟨source, hsource, hsnumber, -, hdata⟩ := hstands.exists_volume hfirst
  have hplaced := ((Document.consistent_iff.1 h.consistent).2.2.1 row hrow).2
  have hfits := (fits_iff_data hdata).1 (hplaced.volumes source hsource)
  have hrowdata : (leaf.row node.id).payload.data? = some leaf.data.unsized :=
    VolumeData.data?_payload hplain
  have hnumber' : (leaf.row node.id).number = source.number := hnumber.trans hsnumber.symm
  refine (fits_iff_data hrowdata).2 ?_
  rw [hnumber']
  refine hfits.congr rfl halike ?_
  have hfd : first.data.authored = leaf.data.authored :=
    show first.authored.data = leaf.authored.data by rw [hauthored]
  have unsized_authored : ∀ d : VolumeData, d.unsized.authored = d.authored := by
    intro d
    cases d <;> rfl
  rw [unsized_authored, unsized_authored, hfd]

theorem nodup_numbers (h : Renewal doc old now) {node : LayerNode} (hnode : node ∈ now.tree.nodes) :
    (node.volumeRows.map (·.number)).Nodup := by
  rw [(h.plain node hnode).numbers_volumeRows]
  exact SortedMap.nodup_keys _

/-- With the rows of the resource replaced the document is consistent again. -/
theorem consistent_replaced (h : Renewal doc old now) :
    (doc.replaceResource now.key now.rows).Consistent := by
  obtain ⟨hdef, hdistinct, hrows, -⟩ := Document.consistent_iff.1 h.consistent
  have halike := h.alikeRows
  have hkeyed : (doc.replaceResource now.key now.rows).Keyed := .replaced h.consistent.keyed h.admits
  refine Document.consistent_iff.2 ⟨hdef, hkeyed.distinct, fun row hrow => ?_,
    fun _ => hkeyed.exists_row⟩
  obtain ⟨before, hbefore, hb⟩ := halike.left row hrow
  obtain ⟨hrooted, hplaced⟩ := hrows before hbefore
  refine ⟨halike.rooted hrooted row hrow hb, ?_⟩
  obtain ⟨kind, hfits⟩ := hplaced.fits
  have hfits' := halike.fits rfl hb hfits
  rcases Document.mem_replaceResource.1 hrow with ⟨hrow, hne⟩ | hrow
  · have hid := mt (Document.mem_ownedIds hdistinct hrow).1 hne
    have hkept := Document.volumesOf_kept h.layer_volumeRows hid
    refine ⟨⟨kind, hfits'⟩, ?_, ?_⟩
    · rw [hkept]
      exact (hrows row hrow).2.volumes
    · rw [hkept]
      exact (hrows row hrow).2.numbered
  · obtain ⟨node, hnode, rfl⟩ := h.mem_rows.1 hrow
    have hown := h.volumesOf_node hnode
    refine ⟨⟨kind, hfits'⟩, ?_, ?_⟩
    · rw [show (node.row now.key).id = node.id from rfl, hown]
      exact fun volume => h.fits_volumeRow hnode
    · rw [show (node.row now.key).id = node.id from rfl, hown]
      exact h.nodup_numbers hnode

/-- The rows stand for the resource as it is now. -/
theorem depicts_replaced (h : Renewal doc old now) :
    now.tree.Depicts (doc.replaceResource now.key now.rows).volumes
      (ownedBy now.key (doc.replaceResource now.key now.rows).layers) := by
  rw [Document.ownedBy_replaced h.owner_rows]
  refine (Resource.depicts_rows h.wellFormed h.plain).congr (fun _ => rfl) fun row hrow => ?_
  obtain ⟨node, hnode, rfl⟩ := h.mem_rows.1 hrow
  exact Document.volumesOf_replaced (h.mem_ids_iff.1 (List.mem_map_of_mem hnode))

/-- All other rows stand for what they stood for before. -/
theorem depicts_kept (h : Renewal doc old now) {key : ResourceKey} (hne : key ≠ now.key)
    {tree : LayerTree} (ht : tree.Depicts doc.volumes (ownedBy key doc.layers)) :
    tree.Depicts (doc.replaceResource now.key now.rows).volumes
      (ownedBy key (doc.replaceResource now.key now.rows).layers) := by
  rw [Document.ownedBy_kept h.owner_rows hne]
  refine ht.congr (fun _ => rfl) fun row hrow => ?_
  obtain ⟨hrow, howner⟩ := mem_ownedBy.1 hrow
  refine Document.volumesOf_kept h.layer_volumeRows fun hid => hne ?_
  exact howner.symm.trans ((Document.mem_ownedIds h.consistent.distinct hrow).1 hid)

end Renewal
end BlockStack
