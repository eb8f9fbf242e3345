import BlockStack.Proofs.Mentions
import Mathlib.Algebra.BigOperators.Group.Finset.Basic

/-!
# BlockStack.Proofs.Differences

What a merge counts as changed: the observed fields that differ between a resource before and after a
report, over all its volumes.

* `ObservedField`, `VolumeLeaf.read?`: the fields that satellites observe, and their values.
* `LayerTree.differences`: the places and fields in which two trees differ.
* `MergeContext.mergeLevel_changed`: nested layers count what changes at the places that they mention.
* `Resource.take_changed`: a report counts the differences that it makes.
-/

namespace BlockStack

/-! ## Fields -/

/-- The fields of a volume that satellites observe; the attributes are one of them. -/
inductive ObservedField where
  | devicePath
  | allocatedSizeKib
  | usableSizeKib
  | diskState
  | metaDiskPath
  | backingDevice
  | isOpen
  | attributes
  | present
  | sizeState
  deriving DecidableEq, Repr

/-- A value of an observed field. -/
inductive ObservedValue where
  | text (value : Option String)
  | size (value : Option UInt64)
  | flag (value : Bool)
  | attributes (value : Attributes)
  | verdict (value : Option SizeState)
  deriving DecidableEq, Repr

def ObservedField.all : List ObservedField :=
  [.devicePath, .allocatedSizeKib, .usableSizeKib, .diskState, .metaDiskPath, .backingDevice, .isOpen,
    .attributes, .present, .sizeState]

theorem ObservedField.mem_all (field : ObservedField) : field ∈ all := by
  cases field <;> decide

namespace VolumeLeaf

/-- The value of a field of a volume, if its layer is of a kind that has the field. -/
def read? (leaf : VolumeLeaf) : ObservedField → Option ObservedValue
  | .devicePath => some (.text leaf.facts.devicePath)
  | .allocatedSizeKib => some (.size leaf.facts.allocatedSizeKib)
  | .usableSizeKib => some (.size leaf.facts.usableSizeKib)
  | .diskState => some (.text leaf.facts.diskState)
  | .metaDiskPath =>
    match leaf.data with
    | .replication path => some (.text path)
    | _ => none
  | .backingDevice =>
    match leaf.data with
    | .encryption device _ => some (.text device)
    | _ => none
  | .isOpen =>
    match leaf.data with
    | .encryption _ isOpen => some (.flag isOpen)
    | _ => none
  | .attributes => leaf.storage?.map (fun volume => .attributes volume.attributes)
  | .present => leaf.storage?.map (fun volume => .flag volume.present)
  | .sizeState => leaf.storage?.map (fun volume => .verdict volume.sizeState)

end VolumeLeaf

/-- Data of two volumes with one authored part is of one kind. -/
theorem VolumeData.alike {a b : VolumeData} (h : a.authored = b.authored) :
    (∃ x y, a = .replication x ∧ b = .replication y) ∨
    (∃ x y x' y', a = .encryption x y ∧ b = .encryption x' y') ∨
    (a = .remoteAttach ∧ b = .remoteAttach) ∨
    ∃ x y, a = .storage x ∧ b = .storage y ∧ x.provider = y.provider ∧ x.pool = y.pool := by
  cases a <;> cases b <;> simp_all [authored]

/-- The fields in which the volumes at a place differ. -/
def differing (a b : Option VolumeLeaf) : List ObservedField :=
  ObservedField.all.filter (fun field => a.bind (·.read? field) ≠ b.bind (·.read? field))

theorem differing_self (a : Option VolumeLeaf) : differing a a = [] := by simp [differing]

namespace VolumeLeaf

variable {a b : VolumeLeaf}

/-- A merge counts the fields in which a volume differs from what it was. -/
theorem changes_eq (h : a.authored = b.authored) :
    a.changes b = (differing (some a) (some b)).length := by
  simp only [differing, ← List.countP_eq_length_filter, ObservedField.all, List.countP_cons,
    List.countP_nil, Option.bind_some]
  rcases VolumeData.alike (congrArg VolumeLeaf.data h) with ⟨_, _, ha, hb⟩ | ⟨_, _, _, _, ha, hb⟩ |
    ⟨ha, hb⟩ | ⟨_, _, ha, hb, -⟩
  all_goals
    simp [changes, VolumeFacts.changes, VolumeData.changes, differs, read?, storage?, ha, hb]
    ac_rfl

/-- Volumes with one authored part that differ in no field are equal. -/
theorem eq_of_read? (h : a.authored = b.authored) (hread : ∀ field, a.read? field = b.read? field) :
    a = b := by
  have hdevice := hread .devicePath
  have hallocated := hread .allocatedSizeKib
  have husable := hread .usableSizeKib
  have hdisk := hread .diskState
  have hmeta := hread .metaDiskPath
  have hbacking := hread .backingDevice
  have hopen := hread .isOpen
  have hattributes := hread .attributes
  have hpresent := hread .present
  have hsize := hread .sizeState
  obtain ⟨number, expected, ⟨_, _, _, _⟩, data⟩ := a
  obtain ⟨number', expected', ⟨_, _, _, _⟩, data'⟩ := b
  have hnumber : number = number' := congrArg VolumeLeaf.number h
  have hexpected : expected = expected' := congrArg VolumeLeaf.expectedSizeKib h
  rcases VolumeData.alike (congrArg VolumeLeaf.data h) with ⟨_, _, ha, hb⟩ | ⟨_, _, _, _, ha, hb⟩ |
    ⟨ha, hb⟩ | ⟨⟨_, _, _, _, _⟩, ⟨_, _, _, _, _⟩, ha, hb, hprovider, hpool⟩
  all_goals
    dsimp only at ha hb
    subst ha hb hnumber hexpected
    simp_all [read?, storage?]

end VolumeLeaf

namespace LayerTree

/-- The places and fields in which two trees with the same places differ. -/
def differences (before after : LayerTree) : List ((LayerId × UInt32) × ObservedField) :=
  before.places.flatMap (fun place =>
    (differing (before.volume? place.1 place.2) (after.volume? place.1 place.2)).map (place, ·))

variable {before after : LayerTree}

theorem mem_differences_iff {place : LayerId × UInt32} {field : ObservedField} :
    (place, field) ∈ before.differences after ↔ place ∈ before.places ∧
      (before.volume? place.1 place.2).bind (·.read? field) ≠
        (after.volume? place.1 place.2).bind (·.read? field) := by
  simp [differences, differing, ObservedField.mem_all]

/-- How many fields differ at a place. -/
def changesAt (before after : LayerTree) (place : LayerId × UInt32) : Nat :=
  (differing (before.volume? place.1 place.2) (after.volume? place.1 place.2)).length

theorem length_differences :
    (before.differences after).length = (before.places.map (before.changesAt after)).sum := by
  rw [differences, List.length_flatMap]
  exact congrArg List.sum (List.map_congr_left fun place _ => List.length_map _)

/-- Where only some places differ, these hold all differences. -/
theorem length_differences_of_kept (h : before.ids.Nodup) {places : List (LayerId × UInt32)}
    (hnodup : places.Nodup) (hsub : places ⊆ before.places)
    (hkept : ∀ place ∈ before.places, place ∉ places →
      after.volume? place.1 place.2 = before.volume? place.1 place.2) :
    (before.differences after).length = (places.map (before.changesAt after)).sum := by
  rw [length_differences, ← List.sum_toFinset _ (nodup_places h), ← List.sum_toFinset _ hnodup]
  refine (Finset.sum_subset (fun place hplace => ?_) fun place hplace hnot => ?_).symm
  · exact List.mem_toFinset.2 (hsub (List.mem_toFinset.1 hplace))
  · rw [changesAt, hkept place (List.mem_toFinset.1 hplace) fun hm => hnot (List.mem_toFinset.2 hm),
      differing_self]
    rfl

/-- Layers with one authored part and the same volumes are equal. -/
theorem eq_of_volumes {a b : LayerNode} (h : a.authored = b.authored)
    (hvolumes : ∀ number, a.volumes.get? number = b.volumes.get? number) : a = b := by
  obtain ⟨id, parent, children, suffix, suspended, payload, volumes⟩ := a
  obtain ⟨id', parent', children', suffix', suspended', payload', volumes'⟩ := b
  obtain rfl : volumes = volumes' := SortedMap.ext_get? hvolumes
  simp only [LayerNode.authored, LayerNode.mk.injEq, and_true] at h
  obtain ⟨rfl, rfl, rfl, rfl, rfl, rfl⟩ := h
  rfl

/-- Trees with one authored part and the same volumes at all places are equal. -/
theorem eq_of_volume? (h : before.ids.Nodup) (hsame : before.authored = after.authored)
    (hvolumes : ∀ id number, before.volume? id number = after.volume? id number) :
    before = after := by
  have hids := ids_authored_congr hsame
  have hget : ∀ id, before.get? id = after.get? id := by
    intro id
    have hauthored := congrArg (fun tree => tree.get? id) hsame
    simp only [get?_authored] at hauthored
    have hnumbers := hvolumes id
    simp only [volume?] at hnumbers
    cases ha : before.get? id with
    | none =>
      rw [ha, Option.map_none] at hauthored
      exact (Option.map_eq_none_iff.1 hauthored.symm).symm
    | some a =>
      rw [ha, Option.map_some] at hauthored
      obtain ⟨b, hb, he⟩ := Option.map_eq_some_iff.1 hauthored.symm
      simp only [ha, hb, Option.bind_some] at hnumbers
      rw [hb, eq_of_volumes he.symm hnumbers]
  have hnodes : before.nodes = after.nodes := by
    have hbefore : before.ids.filterMap before.get? = before.nodes := filterMap_get? h fun _ hm => hm
    have hafter : after.ids.filterMap after.get? = after.nodes :=
      filterMap_get? (hids ▸ h) fun _ hm => hm
    rw [← hbefore, ← hafter, hids]
    exact List.filterMap_congr fun id _ => hget id
  have hroots : before.roots = after.roots := congrArg (fun tree => tree.roots) hsame
  cases before
  cases after
  simp_all

theorem volume?_authored (tree : LayerTree) (id : LayerId) (number : UInt32) :
    tree.authored.volume? id number = (tree.volume? id number).map VolumeLeaf.authored := by
  rw [volume?, get?_authored, volume?]
  cases tree.get? id with
  | none => rfl
  | some node => exact SortedMap.get?_mapValues ..

theorem differences_self (tree : LayerTree) : tree.differences tree = [] := by
  simp [differences, differing_self]

/-- Trees with one authored part that differ in no field are equal. -/
theorem eq_of_differences (h : before.ids.Nodup) (hsame : before.authored = after.authored)
    (hnil : before.differences after = []) : before = after := by
  refine eq_of_volume? h hsame fun id number => ?_
  have hauthored := congrArg (fun tree => tree.volume? id number) hsame
  simp only [volume?_authored] at hauthored
  cases ha : before.volume? id number with
  | none =>
    rw [ha, Option.map_none] at hauthored
    exact (Option.map_eq_none_iff.1 hauthored.symm).symm
  | some a =>
    rw [ha, Option.map_some] at hauthored
    obtain ⟨b, hb, he⟩ := Option.map_eq_some_iff.1 hauthored.symm
    have hplace : (id, number) ∈ before.places := mem_places_iff.2 ⟨a, ha⟩
    have hread : ∀ field, a.read? field = b.read? field := by
      intro field
      by_contra hne
      have hmem : ((id, number), field) ∈ before.differences after :=
        mem_differences_iff.2 ⟨hplace, by simpa [ha, hb] using hne⟩
      rw [hnil] at hmem
      cases hmem
    rw [hb, VolumeLeaf.eq_of_read? he.symm hread]

end LayerTree

/-! ## Merges -/

namespace MergeContext

variable {ctx : MergeContext} {node : LayerNode}

/-- How many fields differ between volumes with some numbers. -/
def changesAmong (before after : SortedMap UInt32 VolumeLeaf) (numbers : List UInt32) : Nat :=
  (numbers.map (fun number => (differing (before.get? number) (after.get? number)).length)).sum

/-- The volumes that are taken in after one with a number are others. -/
theorem get?_modify_of_mergeVolumes {number : UInt32} {seen : List UInt32}
    {volumes next : SortedMap UInt32 VolumeLeaf} {summary after : MergeSummary} {leaf : VolumeLeaf}
    {rest : List ReportedVolume}
    (hok : ctx.mergeVolumes node (number :: seen) (volumes.modify number (fun _ => leaf)) summary
      rest = .ok (next, after)) :
    (∀ other ∈ rest.filterMap (·.number),
      (volumes.modify number (fun _ => leaf)).get? other = volumes.get? other) ∧
    next.get? number = (volumes.get? number).map (fun _ => leaf) := by
  obtain ⟨-, hnew, hnext⟩ := mergeVolumes_eq_ok_iff.1 ⟨after, hok⟩
  have hrest : ∀ r ∈ rest, r.number ≠ some number :=
    fun r hr => hnew r hr number List.mem_cons_self
  refine ⟨fun other hother => ?_, ?_⟩
  · obtain ⟨r, hr, hnumber⟩ := List.mem_filterMap.1 hother
    exact SortedMap.get?_modify_of_ne _ _ fun he => hrest r hr (he ▸ hnumber)
  · rw [hnext, observedVolumes, SortedMap.get?_mapValues, SortedMap.get?_modify_self,
      reportOf?_eq_none_iff.2 hrest, Option.map_map]
    rfl

/-- Reported volumes that are taken in count the fields in which the volumes come to differ. The
induction is over what is reported; each number comes up once, so the first volume is done with. -/
theorem mergeVolumes_changed {reported : List ReportedVolume} :
    ∀ {seen : List UInt32} {volumes next : SortedMap UInt32 VolumeLeaf} {summary after : MergeSummary},
      ctx.mergeVolumes node seen volumes summary reported = .ok (next, after) →
      after.changed =
        summary.changed + changesAmong volumes next (reported.filterMap (·.number)) := by
  induction reported with
  | nil =>
    intro seen volumes next summary after hok
    cases hok
    rfl
  | cons first rest ih =>
    intro seen volumes next summary after hok
    obtain ⟨number, leaf, drift, hnumber, hleaf, -, hrest⟩ := mergeVolumes_cons hok
    obtain ⟨hothers, hself⟩ := get?_modify_of_mergeVolumes hrest
    have htail : changesAmong (volumes.modify number fun _ => ctx.observed node.suffix number leaf first)
        next (rest.filterMap (·.number)) =
          changesAmong volumes next (rest.filterMap (·.number)) :=
      congrArg List.sum (List.map_congr_left fun other hother => by rw [hothers other hother])
    rw [ih hrest, htail, MergeSummary.append, VolumeLeaf.changes_eq (observed_authored ..).symm,
      List.filterMap_cons_some hnumber, changesAmong, changesAmong, List.map_cons, List.sum_cons,
      hself, hleaf, Option.map_some, Nat.add_assoc]

theorem mergeNode_changed {reported : ReportedLayer} {next : LayerNode} {summary : MergeSummary}
    {missing : List Absence} (hok : ctx.mergeNode node reported = .ok (next, summary, missing)) :
    summary.changed =
      changesAmong node.volumes next.volumes (reported.volumes.filterMap (·.number)) := by
  obtain ⟨-, -, volumes, counted, hvolumes, rfl, rfl⟩ := mergeNode_inv hok
  simpa [MergeSummary.append] using mergeVolumes_changed hvolumes

/-- How many fields differ between two trees at some places. -/
def changesAtAll (before after : LayerTree) (places : List (LayerId × UInt32)) : Nat :=
  (places.map (before.changesAt after)).sum

theorem changesAtAll_congr {a b c d : LayerTree} {places : List (LayerId × UInt32)}
    (h : ∀ place ∈ places, a.volume? place.1 place.2 = c.volume? place.1 place.2 ∧
      b.volume? place.1 place.2 = d.volume? place.1 place.2) :
    changesAtAll a b places = changesAtAll c d places := by
  refine congrArg List.sum (List.map_congr_left fun place hplace => ?_)
  rw [LayerTree.changesAt, LayerTree.changesAt, (h place hplace).1, (h place hplace).2]

theorem volume?_observedTree_of_not_mem {tree : LayerTree} {spoken : List (LayerId × ReportedLayer)}
    {id : LayerId} (h : id ∉ spoken.map (·.1)) (number : UInt32) :
    (ctx.observedTree tree spoken).volume? id number = tree.volume? id number := by
  rw [LayerTree.volume?, get?_observedTree_of_not_mem h, LayerTree.volume?]

theorem mergeLayer_changed {parent : Option LayerId} {taken : List LayerId} {state merged : Merging}
    {reported : ReportedLayer} {id : LayerId}
    (hok : ctx.mergeLayer parent taken state reported = .ok (id, merged)) :
    merged.summary.changed = state.summary.changed + changesAtAll state.tree merged.tree
      ((reported.volumes.filterMap (·.number)).map (id, ·)) := by
  obtain ⟨-, node, next, summary, absences, hget, hmerge, rfl⟩ := mergeLayer_inv hok
  have hnext : next.id = id := by
    have hid : node.id = id := LayerTree.id_of_get? hget
    rw [(mergeNode_eq_ok_iff.1 ⟨_, hmerge⟩).2]
    exact hid
  have hafter : (state.tree.modify id fun _ => next).get? id = some next := by
    rw [LayerTree.get?_modify (fun _ _ => hnext), hget, Option.map_some,
      if_pos (LayerTree.id_of_get? hget)]
  rw [MergeSummary.append, mergeNode_changed hmerge, changesAtAll, List.map_map, changesAmong]
  simp only [Function.comp_def, LayerTree.changesAt, LayerTree.volume?, hget, hafter,
    Option.bind_some]

section Parts

variable {parent : Option LayerId} {taken : List LayerId} {state first middle merged : Merging}
  {layer : ReportedLayer} {children rest : List ReportNode} {id : LayerId}

/-- The layers that are spoken of below a layer and after it are others. -/
theorem LevelStep.apart
    (step : ctx.LevelStep parent taken state layer children rest id first middle merged) :
    id ∉ (state.tree.spoken (some id) children).map (·.1) ∧
      id ∉ (state.tree.spoken parent rest).map (·.1) ∧
      ∀ a ∈ (state.tree.spoken (some id) children).map (·.1),
        ∀ b ∈ (state.tree.spoken parent rest).map (·.1), a ≠ b := by
  have hwhole : ctx.mergeLevel parent taken state (.mk layer children :: rest) = .ok merged := by
    simp only [mergeLevel, step.head, step.below, step.after]
  obtain ⟨hfits, -, -⟩ := (mergeLevel_eq_ok_iff step.wellFormed.1).1 ⟨merged, hwhole, rfl⟩
  have hnodup := hfits.nodup_spoken step.wellFormed.1
  simp only [step.spoken, List.map_cons, List.map_append, List.nodup_cons, List.nodup_append,
    List.mem_append, not_or] at hnodup
  obtain ⟨⟨hbelow, hrest⟩, -, -, hdisjoint⟩ := hnodup
  exact ⟨hbelow, hrest, hdisjoint⟩

/-- Each part keeps the volumes of the layers that it does not speak of. -/
theorem LevelStep.keeps
    (step : ctx.LevelStep parent taken state layer children rest id first middle merged) :
    (∀ other, other ≠ id → ∀ number,
      first.tree.volume? other number = state.tree.volume? other number) ∧
    (∀ other, other ∉ (state.tree.spoken (some id) children).map (·.1) → ∀ number,
      middle.tree.volume? other number = first.tree.volume? other number) ∧
    ∀ other, other ∉ (state.tree.spoken parent rest).map (·.1) → ∀ number,
      merged.tree.volume? other number = middle.tree.volume? other number := by
  obtain ⟨hwf, hwf', hwf''⟩ := step.wellFormed
  obtain ⟨-, -, -, hfirst⟩ := (mergeLayer_eq_ok_iff hwf).1 ⟨first, step.head, rfl⟩
  obtain ⟨-, -, hmiddle⟩ := (mergeLevel_eq_ok_iff hwf').1 ⟨middle, step.below, rfl⟩
  obtain ⟨-, -, hmerged⟩ := (mergeLevel_eq_ok_iff hwf'').1 ⟨merged, step.after, rfl⟩
  rw [LayerTree.spoken_congr step.first_authored] at hmiddle
  rw [LayerTree.spoken_congr step.middle_authored] at hmerged
  refine ⟨fun other hne number => ?_, fun other hnot number => ?_, fun other hnot number => ?_⟩
  · rw [hfirst]
    exact @volume?_observedTree_of_not_mem ctx state.tree [(id, layer)] other
      (by simpa using hne) number
  · exact hmiddle ▸ volume?_observedTree_of_not_mem hnot number
  · exact hmerged ▸ volume?_observedTree_of_not_mem hnot number

end Parts

/-- Nested layers that are taken in count the fields in which the tree comes to differ at the places
that they mention. Each layer is spoken of once, so what one of them changed stays. -/
theorem mergeLevel_changed {parent : Option LayerId} {taken : List LayerId} {state merged : Merging}
    {nodes : List ReportNode} (h : state.tree.WellFormed)
    (hok : ctx.mergeLevel parent taken state nodes = .ok merged) :
    merged.summary.changed = state.summary.changed +
      changesAtAll state.tree merged.tree (mentioned (state.tree.spoken parent nodes)) := by
  refine mergeLevel_rec (fun parent state => ?_) (fun step hbelow hafter => ?_) h hok
  · rw [LayerTree.spoken]
    rfl
  rename_i parent taken state layer children rest id first middle merged
  obtain ⟨hnotBelow, hnotRest, hapart⟩ := step.apart
  obtain ⟨hfirstAt, hmiddleAt, hmergedAt⟩ := step.keeps
  rw [LayerTree.spoken_congr step.first_authored] at hbelow
  rw [LayerTree.spoken_congr step.middle_authored] at hafter
  -- what a part changes is not changed again by the next ones
  have hlayer : changesAtAll state.tree first.tree
      ((layer.volumes.filterMap (·.number)).map (id, ·)) =
        changesAtAll state.tree merged.tree ((layer.volumes.filterMap (·.number)).map (id, ·)) := by
    refine changesAtAll_congr fun place hplace => ⟨rfl, ?_⟩
    obtain ⟨number, -, rfl⟩ := List.mem_map.1 hplace
    rw [hmergedAt _ hnotRest, hmiddleAt _ hnotBelow]
  have hbelowAt : changesAtAll first.tree middle.tree
      (mentioned (state.tree.spoken (some id) children)) =
        changesAtAll state.tree merged.tree (mentioned (state.tree.spoken (some id) children)) := by
    refine changesAtAll_congr fun place hplace => ?_
    have hmem := mem_spoken_of_mentioned hplace
    rw [hfirstAt _ fun he => hnotBelow (by rwa [he] at hmem),
      hmergedAt _ fun hm => hapart _ hmem _ hm rfl]
    exact ⟨rfl, rfl⟩
  have hrestAt : changesAtAll middle.tree merged.tree (mentioned (state.tree.spoken parent rest)) =
      changesAtAll state.tree merged.tree (mentioned (state.tree.spoken parent rest)) := by
    refine changesAtAll_congr fun place hplace => ⟨?_, rfl⟩
    have hmem := mem_spoken_of_mentioned hplace
    rw [hmiddleAt _ fun hm => hapart _ hm _ hmem rfl, hfirstAt _ fun he => hnotRest (he ▸ hmem)]
  rw [hbelowAt] at hbelow
  rw [hrestAt] at hafter
  simp only [step.spoken, mentioned_cons, mentioned_append]
  rw [hafter, hbelow, mergeLayer_changed step.head, hlayer, changesAtAll, changesAtAll,
    changesAtAll, changesAtAll, List.map_append, List.map_append, List.sum_append,
    List.sum_append, Nat.add_assoc, Nat.add_assoc]

end MergeContext

/-- A report that is accepted counts the fields in which the resource comes to differ. -/
theorem Resource.take_changed {resource : Resource} {call : MergeCall}
    (h : resource.tree.WellFormed) {merged : Merged} (hok : resource.take call = .ok merged) :
    merged.summary.changed = (resource.tree.differences merged.resource.tree).length := by
  obtain ⟨hfits, -⟩ := (take_eq_ok_iff h).1 ⟨merged, hok, rfl⟩
  rw [LayerTree.length_differences_of_kept h.nodup (hfits.layers.nodup_mentioned h)
    hfits.layers.mentioned_subset fun _ => take_kept h hok]
  obtain ⟨-, merging, hmerge, rfl⟩ := merge_inv hok
  exact (MergeContext.mergeLevel_changed h hmerge).trans (Nat.zero_add _)

end BlockStack
