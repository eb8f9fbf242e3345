import BlockStack.Record
import Mathlib.Data.List.Nodup

/-!
# BlockStack.Proofs.ResourceRows

The rows of one resource among those of all resources, and what it does to them to replace its rows.

* `ownedBy`, `volumesWithin`, `volumesOutside`: the layers of a resource, and the volumes that belong
  to some layers or to none of them.
* `Document.rowsFor`: the rows of one resource, in their order.
* `Document.DiffersOnlyIn`: nothing but the rows of one resource differs.
* `Document.Keyed`: layers have ids of their own, and volumes belong to layers.
* `Document.Admits`: rows that can take the place of those of a resource. `Document.Keyed.replaced`
  is preservation.
* `Document.rows_replaced`: new rows of one resource leave those of all others alone, and the last
  replacement counts.
-/

namespace BlockStack

/-! ## Layers of a resource -/

/-- The rows that belong to a resource. -/
def ownedBy (key : ResourceKey) (rows : List LayerRow) : List LayerRow :=
  rows.filter (fun row => row.owner = key)

/-- The rows that belong to other resources. -/
def ownedByOthers (key : ResourceKey) (rows : List LayerRow) : List LayerRow :=
  rows.filter (fun row => row.owner ≠ key)

section Layers

variable {key other : ResourceKey} {rows more : List LayerRow} {row : LayerRow}

@[simp] theorem mem_ownedBy : row ∈ ownedBy key rows ↔ row ∈ rows ∧ row.owner = key := by
  simp [ownedBy]

@[simp] theorem mem_ownedByOthers : row ∈ ownedByOthers key rows ↔ row ∈ rows ∧ row.owner ≠ key := by
  simp [ownedByOthers]

theorem ownedBy_append : ownedBy key (rows ++ more) = ownedBy key rows ++ ownedBy key more :=
  List.filter_append ..

theorem ownedByOthers_append :
    ownedByOthers key (rows ++ more) = ownedByOthers key rows ++ ownedByOthers key more :=
  List.filter_append ..

theorem ownedBy_eq_self (h : ∀ row ∈ rows, row.owner = key) : ownedBy key rows = rows :=
  List.filter_eq_self.2 fun row hrow => decide_eq_true (h row hrow)

theorem ownedBy_eq_nil (h : ∀ row ∈ rows, row.owner ≠ key) : ownedBy key rows = [] :=
  List.filter_eq_nil_iff.2 fun row hrow howner => h row hrow (of_decide_eq_true howner)

theorem ownedByOthers_eq_self (h : ∀ row ∈ rows, row.owner ≠ key) : ownedByOthers key rows = rows :=
  List.filter_eq_self.2 fun row hrow => decide_eq_true (h row hrow)

theorem ownedByOthers_eq_nil (h : ∀ row ∈ rows, row.owner = key) : ownedByOthers key rows = [] :=
  List.filter_eq_nil_iff.2 fun row hrow howner => of_decide_eq_true howner (h row hrow)

theorem ownedBy_others (hne : other ≠ key) :
    ownedBy other (ownedByOthers key rows) = ownedBy other rows := by
  unfold ownedBy ownedByOthers
  rw [List.filter_filter]
  refine List.filter_congr fun row _ => ?_
  by_cases howner : row.owner = other
  · simp [howner, hne]
  · simp [howner]

theorem ownedByOthers_comm :
    ownedByOthers key (ownedByOthers other rows) = ownedByOthers other (ownedByOthers key rows) := by
  unfold ownedByOthers
  rw [List.filter_filter, List.filter_filter]
  exact List.filter_congr fun row _ => Bool.and_comm ..

end Layers

/-! ## Volumes of some layers -/

/-- The volumes that belong to some layers. -/
def volumesWithin (ids : List UInt64) (volumes : List VolumeRow) : List VolumeRow :=
  volumes.filter (fun volume => ids.contains volume.layer)

/-- The volumes that belong to other layers. -/
def volumesOutside (ids : List UInt64) (volumes : List VolumeRow) : List VolumeRow :=
  volumes.filter (fun volume => !ids.contains volume.layer)

section Volumes

variable {ids others : List UInt64} {volumes more : List VolumeRow}

theorem volumesWithin_append :
    volumesWithin ids (volumes ++ more) = volumesWithin ids volumes ++ volumesWithin ids more :=
  List.filter_append ..

theorem volumesOutside_append :
    volumesOutside ids (volumes ++ more) = volumesOutside ids volumes ++ volumesOutside ids more :=
  List.filter_append ..

theorem mem_volumesOutside {volume : VolumeRow} :
    volume ∈ volumesOutside ids volumes ↔ volume ∈ volumes ∧ volume.layer ∉ ids := by
  simp [volumesOutside]

theorem volumesWithin_eq_self (h : ∀ volume ∈ volumes, volume.layer ∈ ids) :
    volumesWithin ids volumes = volumes :=
  List.filter_eq_self.2 fun volume hvolume => List.contains_iff_mem.2 (h volume hvolume)

theorem volumesWithin_eq_nil (h : ∀ volume ∈ volumes, volume.layer ∉ ids) :
    volumesWithin ids volumes = [] :=
  List.filter_eq_nil_iff.2 fun volume hvolume hid =>
    h volume hvolume (List.contains_iff_mem.1 hid)

theorem volumesOutside_eq_self (h : ∀ volume ∈ volumes, volume.layer ∉ ids) :
    volumesOutside ids volumes = volumes :=
  List.filter_eq_self.2 fun volume hvolume => by simp [h volume hvolume]

theorem volumesOutside_eq_nil (h : ∀ volume ∈ volumes, volume.layer ∈ ids) :
    volumesOutside ids volumes = [] :=
  List.filter_eq_nil_iff.2 fun volume hvolume => by simp [h volume hvolume]

theorem volumesWithin_outside (h : ∀ id ∈ ids, id ∉ others) :
    volumesWithin ids (volumesOutside others volumes) = volumesWithin ids volumes := by
  unfold volumesWithin volumesOutside
  rw [List.filter_filter]
  refine List.filter_congr fun volume _ => ?_
  by_cases hid : volume.layer ∈ ids
  · simp [hid, h _ hid]
  · simp [hid]

theorem volumesOutside_comm :
    volumesOutside ids (volumesOutside others volumes) =
      volumesOutside others (volumesOutside ids volumes) := by
  unfold volumesOutside
  rw [List.filter_filter, List.filter_filter]
  exact List.filter_congr fun volume _ => Bool.and_comm ..

end Volumes

namespace Document

/-! ## Documents -/

/-- Whether a volume belongs to a layer of a resource. -/
def owns (doc : Document) (key : ResourceKey) (volume : VolumeRow) : Bool :=
  (doc.ownedIds key).contains volume.layer

/-- The rows of a resource: its layers, and the volumes of these, in their order. -/
def rowsFor (doc : Document) (key : ResourceKey) : Rows where
  layers := ownedBy key doc.layers
  volumes := doc.volumes.filter (doc.owns key)

/-- Nothing but the rows of one resource differs: its layers, and the volumes that belong to them
before or after. All other rows stand in their order. -/
structure DiffersOnlyIn (doc next : Document) (key : ResourceKey) : Prop where
  catalog : next.catalog = doc.catalog
  layers : next.layers.filter (fun row => row.owner ≠ key) =
    doc.layers.filter (fun row => row.owner ≠ key)
  volumes : next.volumes.filter (fun volume => !doc.owns key volume && !next.owns key volume) =
    doc.volumes.filter (fun volume => !doc.owns key volume && !next.owns key volume)

/-- Layers have ids of their own, and each volume belongs to a layer. -/
structure Keyed (doc : Document) : Prop where
  distinct : (doc.layers.map (·.id)).Nodup
  belong : ∀ volume ∈ doc.volumes, volume.layer ∈ doc.layers.map (·.id)

/-- Rows that can take the place of those of a resource. -/
structure Admits (doc : Document) (key : ResourceKey) (rows : Rows) : Prop where
  owned : ∀ row ∈ rows.layers, row.owner = key
  distinct : (rows.layers.map (·.id)).Nodup
  /-- No other resource has one of their ids. -/
  apart : ∀ row ∈ doc.layers, row.owner ≠ key → row.id ∉ rows.layers.map (·.id)
  belong : ∀ volume ∈ rows.volumes, volume.layer ∈ rows.layers.map (·.id)

/-- Documents with the same rows in any order. -/
structure SameRows (a b : Document) : Prop where
  catalog : a.catalog = b.catalog
  layers : a.layers.Perm b.layers
  volumes : a.volumes.Perm b.volumes

variable {doc : Document} {key other : ResourceKey} {rows : Rows} {row : LayerRow} {id : UInt64}

theorem mem_ownedIds_iff :
    id ∈ doc.ownedIds key ↔ ∃ row ∈ doc.layers, row.owner = key ∧ row.id = id := by
  simp [ownedIds, and_assoc]

theorem mem_ownedIds (h : (doc.layers.map (·.id)).Nodup) (hrow : row ∈ doc.layers) :
    row.id ∈ doc.ownedIds key ↔ row.owner = key := by
  rw [mem_ownedIds_iff]
  constructor
  · rintro ⟨found, hfound, howner, hid⟩
    rwa [List.inj_on_of_nodup_map h hfound hrow hid] at howner
  · exact fun howner => ⟨row, hrow, howner, rfl⟩

namespace Keyed

/-- A layer has one owner. -/
theorem owner_unique (h : doc.Keyed) (hid : id ∈ doc.ownedIds key) (hid' : id ∈ doc.ownedIds other) :
    key = other := by
  obtain ⟨row, hrow, rfl, rfl⟩ := mem_ownedIds_iff.1 hid
  exact (mem_ownedIds h.distinct hrow).1 hid'

theorem exists_row (h : doc.Keyed) {volume : VolumeRow} (hvolume : volume ∈ doc.volumes) :
    ∃ row ∈ doc.layers, row.id = volume.layer :=
  List.mem_map.1 (h.belong volume hvolume)

end Keyed

/-! ## New rows for a resource -/

theorem layers_replaced :
    (doc.replaceResource key rows).layers = ownedByOthers key doc.layers ++ rows.layers := rfl

theorem volumes_replaced : (doc.replaceResource key rows).volumes =
    volumesOutside (doc.ownedIds key) doc.volumes ++ rows.volumes := rfl

theorem volumes_rowsFor :
    (doc.rowsFor key).volumes = volumesWithin (doc.ownedIds key) doc.volumes := rfl

theorem mem_replaceResource :
    row ∈ (doc.replaceResource key rows).layers ↔
      (row ∈ doc.layers ∧ row.owner ≠ key) ∨ row ∈ rows.layers := by
  simp [layers_replaced]

section Owned

variable (howned : ∀ row ∈ rows.layers, row.owner = key)
include howned

theorem ownedBy_replaced : ownedBy key (doc.replaceResource key rows).layers = rows.layers := by
  rw [layers_replaced, ownedBy_append, ownedBy_eq_self howned,
    ownedBy_eq_nil fun row hrow => (mem_ownedByOthers.1 hrow).2, List.nil_append]

theorem ownedBy_kept (hne : other ≠ key) :
    ownedBy other (doc.replaceResource key rows).layers = ownedBy other doc.layers := by
  rw [layers_replaced, ownedBy_append, ownedBy_others hne,
    ownedBy_eq_nil fun row hrow howner => hne (howner.symm.trans (howned row hrow)),
    List.append_nil]

theorem ownedByOthers_replaced :
    ownedByOthers key (doc.replaceResource key rows).layers = ownedByOthers key doc.layers := by
  rw [layers_replaced, ownedByOthers_append, ownedByOthers_eq_nil howned, List.append_nil]
  exact ownedByOthers_eq_self fun row hrow => (mem_ownedByOthers.1 hrow).2

theorem ownedIds_replaced :
    (doc.replaceResource key rows).ownedIds key = rows.layers.map (·.id) :=
  congrArg (List.map LayerRow.id) (ownedBy_replaced howned)

theorem ownedIds_kept (hne : other ≠ key) :
    (doc.replaceResource key rows).ownedIds other = doc.ownedIds other :=
  congrArg (List.map LayerRow.id) (ownedBy_kept howned hne)

/-- New rows of a resource, each volume in one of the layers, leave all other rows as they are. -/
theorem replaceResource_differs
    (hvolumes : ∀ volume ∈ rows.volumes, volume.layer ∈ rows.layers.map (·.id)) :
    doc.DiffersOnlyIn (doc.replaceResource key rows) key where
  catalog := rfl
  layers := ownedByOthers_replaced howned
  volumes := by
    simp only [owns, ownedIds_replaced howned]
    have hnew : rows.volumes.filter (fun volume => !(doc.ownedIds key).contains volume.layer &&
        !(rows.layers.map (·.id)).contains volume.layer) = [] :=
      List.filter_eq_nil_iff.2 fun volume hvolume => by simp [hvolumes volume hvolume]
    rw [replaceResource, List.filter_append, hnew, List.append_nil, List.filter_filter]
    -- what was owned before is dropped on both sides
    refine List.filter_congr fun volume _ => ?_
    cases (doc.ownedIds key).contains volume.layer <;> simp

end Owned

/-- The new volumes belong to no layer of another resource. -/
theorem Admits.volumes_apart (hrows : doc.Admits key rows) (hne : other ≠ key) :
    ∀ volume ∈ rows.volumes, volume.layer ∉ doc.ownedIds other := by
  intro volume hvolume hid
  obtain ⟨row, hrow, howner, hid⟩ := mem_ownedIds_iff.1 hid
  refine hrows.apart row hrow (fun hkey => hne (howner.symm.trans hkey)) ?_
  rw [hid]
  exact hrows.belong volume hvolume

section Admitted

variable (hdoc : doc.Keyed) (hrows : doc.Admits key rows)
include hdoc hrows

/-- The volumes that are kept belong to none of the new layers. -/
theorem kept_apart : ∀ volume ∈ volumesOutside (doc.ownedIds key) doc.volumes,
    volume.layer ∉ rows.layers.map (·.id) := by
  intro volume hvolume
  obtain ⟨hvolume, hfree⟩ := mem_volumesOutside.1 hvolume
  obtain ⟨row, hrow, hid⟩ := hdoc.exists_row hvolume
  rw [← hid] at hfree ⊢
  exact hrows.apart row hrow fun howner => hfree ((mem_ownedIds hdoc.distinct hrow).2 howner)

/-- The rows of the resource are the new ones. -/
theorem rowsFor_replaced : (doc.replaceResource key rows).rowsFor key = rows := by
  have hvolumes : ((doc.replaceResource key rows).rowsFor key).volumes = rows.volumes := by
    rw [volumes_rowsFor, ownedIds_replaced hrows.owned, volumes_replaced, volumesWithin_append,
      volumesWithin_eq_nil (kept_apart hdoc hrows), volumesWithin_eq_self hrows.belong,
      List.nil_append]
  exact congrArg₂ Rows.mk (ownedBy_replaced hrows.owned) hvolumes

/-- Those of another resource are as before. -/
theorem rowsFor_kept (hne : other ≠ key) :
    (doc.replaceResource key rows).rowsFor other = doc.rowsFor other := by
  have hvolumes : ((doc.replaceResource key rows).rowsFor other).volumes =
      (doc.rowsFor other).volumes := by
    rw [volumes_rowsFor, ownedIds_kept hrows.owned hne, volumes_replaced, volumesWithin_append,
      volumesWithin_outside fun id hid hid' => hne (hdoc.owner_unique hid hid'),
      volumesWithin_eq_nil (hrows.volumes_apart hne), List.append_nil, volumes_rowsFor]
  exact congrArg₂ Rows.mk (ownedBy_kept hrows.owned hne) hvolumes

theorem Keyed.replaced : (doc.replaceResource key rows).Keyed := by
  constructor
  · rw [layers_replaced, List.map_append]
    refine List.nodup_append.2 ⟨hdoc.distinct.sublist (List.filter_sublist.map _), hrows.distinct,
      fun a ha b hb hab => ?_⟩
    obtain ⟨row, hrow, rfl⟩ := List.mem_map.1 ha
    obtain ⟨hrow, hne⟩ := mem_ownedByOthers.1 hrow
    exact hrows.apart row hrow hne (hab ▸ hb)
  · intro volume hvolume
    rw [layers_replaced, List.map_append, List.mem_append]
    rcases List.mem_append.1 hvolume with hkept | hnew
    · obtain ⟨hvolume, hfree⟩ := mem_volumesOutside.1 hkept
      obtain ⟨row, hrow, hid⟩ := hdoc.exists_row hvolume
      rw [← hid] at hfree ⊢
      have hne : row.owner ≠ key := fun howner =>
        hfree ((mem_ownedIds hdoc.distinct hrow).2 howner)
      exact .inl (List.mem_map_of_mem (mem_ownedByOthers.2 ⟨hrow, hne⟩))
    · exact .inr (hrows.belong volume hnew)

/-- Of two replacements of a resource the second counts. -/
theorem replaceResource_twice (later : Rows) :
    (doc.replaceResource key rows).replaceResource key later = doc.replaceResource key later := by
  refine congrArg₂ (Document.mk doc.catalog) (congrArg (· ++ later.layers) ?_)
    (congrArg (· ++ later.volumes) ?_)
  · exact ownedByOthers_replaced hrows.owned
  · show volumesOutside ((doc.replaceResource key rows).ownedIds key)
      (doc.replaceResource key rows).volumes = volumesOutside (doc.ownedIds key) doc.volumes
    rw [ownedIds_replaced hrows.owned, volumes_replaced, volumesOutside_append,
      volumesOutside_eq_self (kept_apart hdoc hrows), volumesOutside_eq_nil hrows.belong,
      List.append_nil]

end Admitted

/-- What rows can take the place of a resource does not depend on the rows that it has. -/
theorem admits_replaced_iff (howned : ∀ row ∈ rows.layers, row.owner = key) {later : Rows} :
    (doc.replaceResource key rows).Admits key later ↔ doc.Admits key later := by
  refine ⟨fun h => ⟨h.owned, h.distinct, fun row hrow hne => ?_, h.belong⟩,
    fun h => ⟨h.owned, h.distinct, fun row hrow hne => ?_, h.belong⟩⟩
  · exact h.apart row (mem_replaceResource.2 (.inl ⟨hrow, hne⟩)) hne
  · rcases mem_replaceResource.1 hrow with ⟨hrow, -⟩ | hrow
    · exact h.apart row hrow hne
    · exact absurd (howned row hrow) hne

theorem Admits.replaced {others : Rows} (h : doc.Admits other others)
    (hdisjoint : ∀ id ∈ rows.layers.map (·.id), id ∉ others.layers.map (·.id)) :
    (doc.replaceResource key rows).Admits other others := by
  refine ⟨h.owned, h.distinct, fun row hrow hne => ?_, h.belong⟩
  rcases mem_replaceResource.1 hrow with ⟨hrow, -⟩ | hrow
  · exact h.apart row hrow hne
  · exact hdisjoint _ (List.mem_map_of_mem hrow)

theorem volumes_replaced_other {others : Rows} (hne : other ≠ key) (hrows : doc.Admits key rows) :
    ((doc.replaceResource key rows).replaceResource other others).volumes =
      volumesOutside (doc.ownedIds other) (volumesOutside (doc.ownedIds key) doc.volumes) ++
        (rows.volumes ++ others.volumes) := by
  rw [volumes_replaced, ownedIds_kept hrows.owned hne, volumes_replaced, volumesOutside_append,
    volumesOutside_eq_self (hrows.volumes_apart hne), List.append_assoc]

theorem layers_replaced_other {others : Rows} (hne : other ≠ key) (hrows : doc.Admits key rows) :
    ((doc.replaceResource key rows).replaceResource other others).layers =
      ownedByOthers other (ownedByOthers key doc.layers) ++ (rows.layers ++ others.layers) := by
  rw [layers_replaced, layers_replaced, ownedByOthers_append,
    ownedByOthers_eq_self fun row hrow howner => hne (howner.symm.trans (hrows.owned row hrow)),
    List.append_assoc]

/-- Rows of two resources can be replaced in either order. -/
theorem replaceResource_comm {others : Rows} (hne : other ≠ key) (hrows : doc.Admits key rows)
    (hothers : doc.Admits other others) :
    ((doc.replaceResource key rows).replaceResource other others).SameRows
      ((doc.replaceResource other others).replaceResource key rows) where
  catalog := rfl
  layers := by
    rw [layers_replaced_other hne hrows, layers_replaced_other hne.symm hothers, ownedByOthers_comm]
    exact List.perm_append_comm.append_left _
  volumes := by
    rw [volumes_replaced_other hne hrows, volumes_replaced_other hne.symm hothers,
      volumesOutside_comm]
    exact List.perm_append_comm.append_left _

/-! ## What a replacement comes to -/

/-- What new rows of a resource do to a document. -/
structure Replaces (doc : Document) (key : ResourceKey) (rows : Rows) : Prop where
  catalog : (doc.replaceResource key rows).catalog = doc.catalog
  own : (doc.replaceResource key rows).rowsFor key = rows
  /-- Each other resource has the rows that it had, in their order. -/
  others : ∀ other, other ≠ key →
    (doc.replaceResource key rows).rowsFor other = doc.rowsFor other
  /-- So have all other resources together. -/
  rest : doc.DiffersOnlyIn (doc.replaceResource key rows) key
  keyed : (doc.replaceResource key rows).Keyed
  /-- Other rows can take the place of the new ones exactly if they could before, and then nothing is
  left of the new ones. -/
  again : ∀ later,
    ((doc.replaceResource key rows).Admits key later ↔ doc.Admits key later) ∧
      (doc.replaceResource key rows).replaceResource key later = doc.replaceResource key later
  /-- The rows of another resource can be replaced before or after. -/
  commutes : ∀ other later, other ≠ key → doc.Admits other later →
    (∀ id ∈ rows.layers.map (·.id), id ∉ later.layers.map (·.id)) →
      (doc.replaceResource key rows).Admits other later ∧
      (doc.replaceResource other later).Admits key rows ∧
      ((doc.replaceResource key rows).replaceResource other later).SameRows
        ((doc.replaceResource other later).replaceResource key rows)

/-- New rows of one resource leave those of all others alone. -/
theorem rows_replaced (hdoc : doc.Keyed) (hrows : doc.Admits key rows) : doc.Replaces key rows where
  catalog := rfl
  own := rowsFor_replaced hdoc hrows
  others _ := rowsFor_kept hdoc hrows
  rest := replaceResource_differs hrows.owned hrows.belong
  keyed := .replaced hdoc hrows
  again later := ⟨admits_replaced_iff hrows.owned, replaceResource_twice hdoc hrows later⟩
  commutes _ _ hne hlater hdisjoint :=
    ⟨hlater.replaced hdisjoint, hrows.replaced fun id hid hid' => hdisjoint id hid' hid,
      replaceResource_comm hne hrows hlater⟩

/-- Rows of two resources that stand in turn. -/
def interleaved : Document where
  layers := [
    { id := 1, kind := "REMOTE_ATTACH", owner := ⟨"alpha", "a", none⟩ },
    { id := 2, kind := "REMOTE_ATTACH", owner := ⟨"beta", "a", none⟩ },
    { id := 3, parent := some 1, kind := "REMOTE_ATTACH", owner := ⟨"alpha", "a", none⟩ },
    { id := 4, parent := some 2, kind := "REMOTE_ATTACH", owner := ⟨"beta", "a", none⟩ }]
  volumes := [2, 1, 4, 3, 1].map fun layer =>
    { layer, number := 0, expectedSizeKib := 8, payload := .remoteAttach }

/-- New rows for the first resource, one of them with an id that it had, and then for the second. -/
theorem rows_replaced_interleaved :
    let alpha : ResourceKey := ⟨"alpha", "a", none⟩
    let beta : ResourceKey := ⟨"beta", "a", none⟩
    let rows : Rows := {
      layers := [3, 7].map fun id => { id, kind := "REMOTE_ATTACH", owner := alpha }
      volumes := [7, 3].map fun layer =>
        { layer, number := 1, expectedSizeKib := 4, payload := .remoteAttach } }
    let later : Rows := { layers := [{ id := 4, kind := "REMOTE_ATTACH", owner := beta }] }
    interleaved.Keyed ∧ interleaved.Admits alpha rows ∧ interleaved.Replaces alpha rows ∧
      interleaved.Admits beta later ∧ (∀ id ∈ rows.layers.map (·.id), id ∉ later.layers.map (·.id)) ∧
      (interleaved.replaceResource alpha rows).volumes.map (·.layer) = [2, 4, 7, 3] := by
  intro alpha beta rows later
  have hkeyed : interleaved.Keyed := ⟨by decide, by decide⟩
  have hrows : interleaved.Admits alpha rows := ⟨by decide, by decide, by decide, by decide⟩
  exact ⟨hkeyed, hrows, rows_replaced hkeyed hrows, ⟨by decide, by decide, by decide, by decide⟩,
    by simp [rows, later], by decide⟩

end Document
end BlockStack
