import BlockStack.Proofs.JsonNesting
import BlockStack.Proofs.WireRecord
import BlockStack.Wire.Event
import BlockStack.Wire.Report

/-!
# BlockStack.Proofs.WireReport

What goes over the wire reads back as what was sent.

* `Json.TakesWhole`: a reader that takes a value only where there is room for all its levels. The
  readers of reports are such, so that a report that is too deep is refused and never cut short.
* `Report.parse_compact`: a report reads back exactly if its text does not nest too deep.
* `wire_round_trip`: the same with the types whose depth is bounded.
-/

namespace BlockStack

namespace Json

/-! ## Fields of clipped records -/

variable {room : Nat} {α : Type}

/-- What holds of all members of a record holds of all its fields that are there. -/
theorem forall_present {P : Json → Prop} {fields : List (String × Option Json)} :
    (∀ e ∈ present fields, P e.2) ↔ ∀ e ∈ fields, ∀ v, e.2 = some v → P v := by
  simp only [present, List.mem_filterMap, Option.map_eq_some_iff]
  refine ⟨fun h e he v hv => h (e.1, v) ⟨e, he, v, hv, rfl⟩, ?_⟩
  rintro h _ ⟨e, he, v, hv, rfl⟩
  exact h e he v hv

theorem plain_present {fields : List (String × Option Json)} {escaped : Bool} :
    Plain (obj (present fields) escaped) ↔ ∀ e ∈ fields, ∀ v, e.2 = some v → Plain v :=
  plain_obj.trans forall_present

theorem depth_present_le {fields : List (String × Option Json)} {escaped : Bool} :
    depth (obj (present fields) escaped) ≤ room + 1 ↔
      ∀ e ∈ fields, ∀ v, e.2 = some v → depth v ≤ room :=
  depth_obj_le.trans (@forall_present (depth · ≤ room) fields)

/-- The fields of a record are given back as far as there is room. -/
theorem slots_clip (fields : List (String × Option Json)) (h : (fields.map (·.1)).Nodup)
    (escaped : Bool) :
    slots (fields.map (·.1)) (clip (room + 1) (obj (present fields) escaped).reread) =
      some (fields.map (fun e => e.2.map (fun v => clip room v.reread))) := by
  obtain ⟨escaped', hreread⟩ := reread_present fields escaped
  have hmap : (fields.map (fun e => (e.1, e.2.map reread))).map
      (fun e => (e.1, e.2.map (clip room))) =
      fields.map (fun e => (e.1, e.2.map (fun v => clip room v.reread))) := by
    simp [Function.comp_def]
  rw [hreread, clip_obj_succ, present_map, hmap, slots_present h]

/-- A reader that takes a printed value only where there is room for all its levels. -/
def TakesWhole (read : Json → Option α) (v : Json) : Prop :=
  ∀ {room a}, read (clip room v.reread) = some a → depth v ≤ room

variable {read : Json → Option α} {v : Json}

theorem forall_of_mapM {items : List Json} : ∀ {taken : List α}, items.mapM read = some taken →
    ∀ item ∈ items, ∃ a, read item = some a := by
  induction items with
  | nil => exact fun _ _ h => nomatch h
  | cons item rest ih =>
    intro taken htaken
    simp only [List.mapM_cons, Option.bind_eq_bind, Option.bind_eq_some_iff] at htaken
    obtain ⟨a, ha, others, hothers, -⟩ := htaken
    exact List.forall_mem_cons.2 ⟨⟨a, ha⟩, ih hothers⟩

theorem TakesWhole.list {items : List Json} (h : ∀ item ∈ items, TakesWhole read item) :
    TakesWhole (asList? read) (arr items) := by
  intro room taken htaken
  cases room with
  | zero => cases htaken
  | succ room =>
    rw [reread, clip_arr_succ, rereadItems_eq, asList?, List.map_map] at htaken
    refine depth_arr_le.2 fun item hitem => ?_
    obtain ⟨a, ha⟩ := forall_of_mapM htaken _ (List.mem_map_of_mem hitem)
    exact h item hitem ha

theorem TakesWhole.option (h : TakesWhole read v) : TakesWhole (asOption? read) v := by
  intro room taken htaken
  unfold asOption? at htaken
  split at htaken
  · rename_i hnull
    cases v <;> try exact Nat.zero_le _
    all_goals
      simp only [reread, clip, nested] at hnull
      split at hnull <;> cases hnull
  · obtain ⟨a, ha, -⟩ := Option.map_eq_some_iff.1 htaken
    exact h ha

/-- A record is taken as a whole if its fields are. -/
theorem TakesWhole.record {fields : List (String × Option Json)} (hnames : (fields.map (·.1)).Nodup)
    (hnone : read unreadable = none)
    (h : ∀ {room a v}, slots (fields.map (·.1)) v =
      some (fields.map (fun e => e.2.map (fun w => clip room w.reread))) → read v = some a →
      ∀ e ∈ fields, ∀ w, e.2 = some w → depth w ≤ room) :
    TakesWhole read (obj (present fields)) := by
  intro room taken htaken
  cases room with
  | zero => cases hnone.symm.trans htaken
  | succ room => exact depth_present_le.2 (h (slots_clip fields hnames false) htaken)

/-! ## Fields without levels -/

@[simp] theorem plain_str (s : String) : Plain (str s) := trivial

@[simp] theorem plain_bool (b : Bool) : Plain (bool b) := trivial

@[simp] theorem plain_ofUInt64 (n : UInt64) : Plain (ofUInt64 n) := n.toNat_lt_size

@[simp] theorem plain_ofUInt32 (n : UInt32) : Plain (ofUInt32 n) :=
  Nat.lt_trans n.toNat_lt_size (by decide)

@[simp] theorem plain_ofUInt16 (n : UInt16) : Plain (ofUInt16 n) :=
  Nat.lt_trans n.toNat_lt_size (by decide)

@[simp] theorem plain_ofOption {write : α → Json} (h : ∀ a, Plain (write a)) (o : Option α) :
    Plain (ofOption write o) := by
  cases o with
  | none => trivial
  | some a => exact h a

@[simp] theorem depth_str (s : String) : depth (str s) = 0 := rfl

@[simp] theorem depth_bool (b : Bool) : depth (bool b) = 0 := rfl

@[simp] theorem depth_ofUInt64 (n : UInt64) : depth (ofUInt64 n) = 0 := rfl

@[simp] theorem depth_ofUInt32 (n : UInt32) : depth (ofUInt32 n) = 0 := rfl

@[simp] theorem depth_ofUInt16 (n : UInt16) : depth (ofUInt16 n) = 0 := rfl

theorem depth_ofOption {write : α → Json} (h : ∀ a, depth (write a) = 0) (o : Option α) :
    depth (ofOption write o) = 0 := by
  cases o with
  | none => rfl
  | some a => exact h a

theorem plain_map {toJson : α → Json} (h : ∀ a, Plain (toJson a)) (l : List α) :
    Plain (arr (l.map toJson)) :=
  plain_arr.2 (List.forall_mem_map.2 fun a _ => h a)

theorem TakesWhole.map {β : Type} {toJson : β → Json} (h : ∀ b, TakesWhole read (toJson b))
    (l : List β) : TakesWhole (asList? read) (arr (l.map toJson)) :=
  TakesWhole.list (List.forall_mem_map.2 fun b _ => h b)

end Json

open Json

/-! ## Reports -/

namespace ReportedReplication

/-- The settings as fields of a record. -/
def toFields (settings : ReportedReplication) : List (String × Option Json) := [
  ("port", some (ofOption ofUInt16 settings.port)),
  ("transport", some (ofOption str settings.transport)),
  ("peer_slots", some (ofOption ofUInt16 settings.peerSlots)),
  ("volumes", some (arr (settings.volumes.map ofUInt32)))]

theorem toJson_eq (settings : ReportedReplication) :
    settings.toJson = obj (present settings.toFields) := rfl

theorem plain_toJson (settings : ReportedReplication) : Plain settings.toJson := by
  rw [toJson_eq, plain_present]
  simp [toFields, plain_map]

theorem ofJson?_reread (settings : ReportedReplication) :
    ofJson? settings.toJson.reread = some settings := by
  have hslots : slots ["port", "transport", "peer_slots", "volumes"] settings.toJson.reread =
      some _ := slots_reread settings.toFields (by simp [toFields]) false
  have hvolumes := asList?_reread asUInt32?_reread settings.volumes
  simp only [ofJson?, hslots, toFields, List.map_cons, List.map_nil, Option.map_some,
    optional_reread asUInt16?_reread rfl,
    optional_reread asString?_reread rfl, withDefault, hvolumes]
  rfl

/-- Settings are taken with their list of volumes or not at all. -/
theorem takesWhole (settings : ReportedReplication) : TakesWhole ofJson? settings.toJson := by
  rw [toJson_eq]
  refine TakesWhole.record (by simp [toFields]) rfl fun {room _ v} hfields htaken => ?_
  have hslots : slots ["port", "transport", "peer_slots", "volumes"] v = some _ := hfields
  simp only [ofJson?, hslots, toFields, List.map_cons, List.map_nil, Option.map_some,
    Option.bind_eq_bind, Option.bind_eq_some_iff] at htaken
  obtain ⟨-, -, -, -, -, -, volumes, hvolumes, -⟩ := htaken
  have hdepth : depth (arr (settings.volumes.map ofUInt32)) ≤ room :=
    TakesWhole.map (fun _ _ _ _ => Nat.zero_le _) settings.volumes hvolumes
  simp [toFields, hdepth, depth_ofOption depth_ofUInt16, depth_ofOption depth_str]

end ReportedReplication

namespace ReportedVolume

/-- The volume as fields of a record. -/
def toFields (volume : ReportedVolume) : List (String × Option Json) := [
  ("volume_number", some (ofOption ofUInt32 volume.number)),
  ("device_path", some (ofOption str volume.facts.devicePath)),
  ("allocated_size_kib", some (ofOption ofUInt64 volume.facts.allocatedSizeKib)),
  ("usable_size_kib", some (ofOption ofUInt64 volume.facts.usableSizeKib)),
  ("disk_state", some (ofOption str volume.facts.diskState)),
  ("meta_disk_path", volume.metaDiskPath.map str),
  ("backing_device", volume.backingDevice.map str),
  ("opened", volume.isOpen.map Json.bool),
  ("provider", volume.provider.map str),
  ("storage_pool", volume.pool.map str)] ++ volume.attributes.toFields

theorem toJson_eq (volume : ReportedVolume) : volume.toJson = obj (present volume.toFields) := by
  simp only [toJson, AttributeFields.toMembers_eq, List.append_assoc,
    AttributeFields.present_memberIf]
  rfl

theorem plain_toJson (volume : ReportedVolume) : Plain volume.toJson := by
  rw [toJson_eq, plain_present]
  cases hopen : volume.isOpen <;> simp [toFields, AttributeFields.toFields, hopen]

theorem ofJson?_reread (volume : ReportedVolume) : ofJson? volume.toJson.reread = some volume := by
  let others := volume.toFields.map (fun e => (e.1, e.2.map reread))
  obtain ⟨escaped, hreread⟩ := reread_present volume.toFields false
  have hnames : (others.map (·.1)).Nodup := by
    simp [others, toFields, AttributeFields.toFields]
  have hslots : ∀ sub : List (String × Option Json), (∀ e ∈ sub, e ∈ others) →
      memberSlots (sub.map (·.1)) volume.toJson.reread = some (sub.map (·.2)) := by
    intro sub hsub
    rw [toJson_eq, hreread]
    exact memberSlots_present hnames hsub escaped
  have hown : memberSlots ["volume_number", "meta_disk_path", "backing_device", "opened",
      "provider", "storage_pool"] volume.toJson.reread = some _ :=
    hslots [("volume_number", some (ofOption ofUInt32 volume.number).reread),
      ("meta_disk_path", (volume.metaDiskPath.map str).map reread),
      ("backing_device", (volume.backingDevice.map str).map reread),
      ("opened", (volume.isOpen.map Json.bool).map reread),
      ("provider", (volume.provider.map str).map reread),
      ("storage_pool", (volume.pool.map str).map reread)] (by simp [others, toFields])
  have hfacts : memberSlots VolumeFacts.names volume.toJson.reread = some _ :=
    hslots [("device_path", some (ofOption str volume.facts.devicePath).reread),
      ("allocated_size_kib", some (ofOption ofUInt64 volume.facts.allocatedSizeKib).reread),
      ("usable_size_kib", some (ofOption ofUInt64 volume.facts.usableSizeKib).reread),
      ("disk_state", some (ofOption str volume.facts.diskState).reread)]
      (by simp [others, toFields])
  have hattributes : memberSlots AttributeFields.names volume.toJson.reread =
      some (volume.attributes.toFields.map (fun e => e.2.map reread)) :=
    hslots [("volume_group", (volume.attributes.volumeGroup.map str).map reread),
      ("thin_pool", (volume.attributes.thinPool.map str).map reread),
      ("zpool", (volume.attributes.zpool.map str).map reread),
      ("extent_size_kib", (volume.attributes.extentSizeKib.map ofUInt64).map reread),
      ("backing_file", (volume.attributes.backingFile.map str).map reread),
      ("lvol_store", (volume.attributes.lvolStore.map str).map reread)]
      (by simp [others, toFields, AttributeFields.toFields])
  rw [ofJson?, if_pos (isReadable_reread volume.plain_toJson)]
  simp only [hown, hfacts, AttributeFields.ofMembers?, hattributes, VolumeFacts.ofSlots?,
    List.map_cons, List.map_nil, Option.bind_some, AttributeFields.ofSlots?_reread,
    optional_reread asUInt32?_reread rfl,
    optional_reread asUInt64?_reread rfl,
    optional_reread asString?_reread rfl,
    optional_reread_map asString?_reread rfl,
    optional_reread_map asBool?_reread rfl]
  rfl

theorem takesWhole (volume : ReportedVolume) : TakesWhole ofJson? volume.toJson := by
  intro room taken htaken
  rw [ofJson?] at htaken
  split at htaken
  · rename_i hreadable
    exact depth_reread_le.1 (depth_le_of_isReadable hreadable)
  · cases htaken

end ReportedVolume
namespace ReportedLayer

/-- The layer as fields of a record. -/
def toFields (layer : ReportedLayer) : List (String × Option Json) := [
  ("kind", some (ofOption str layer.kind)),
  ("suffix", some (ofOption str layer.suffix)),
  ("suspended", some (ofOption Json.bool layer.suspended)),
  ("parent_id", some (ofOption ofUInt64 layer.parent)),
  ("replication_definition", layer.replication.map ReportedReplication.toJson),
  ("volumes", some (arr (layer.volumes.map ReportedVolume.toJson)))]

theorem ofSlots?_reread (layer : ReportedLayer) :
    ofSlots? (layer.toFields.map (fun e => e.2.map reread)) = some layer := by
  have hvolumes := asList?_reread ReportedVolume.ofJson?_reread layer.volumes
  simp only [toFields, List.map_cons, List.map_nil, Option.map_some, ofSlots?,
    optional_reread asString?_reread rfl,
    optional_reread asBool?_reread rfl,
    optional_reread asUInt64?_reread rfl,
    optional_reread_map ReportedReplication.ofJson?_reread rfl, withDefault, hvolumes]
  rfl

theorem plain_toFields (layer : ReportedLayer) :
    ∀ e ∈ layer.toFields, ∀ v, e.2 = some v → Plain v := by
  have hvolumes := plain_map ReportedVolume.plain_toJson layer.volumes
  simp [toFields, ReportedReplication.plain_toJson, hvolumes]

/-- A layer is taken with its settings and all its volumes or not at all. -/
theorem depth_le_of_ofSlots? {room : Nat} {layer taken : ReportedLayer}
    (h : ofSlots? (layer.toFields.map (fun e => e.2.map (fun v => clip room v.reread))) =
      some taken) : ∀ e ∈ layer.toFields, ∀ v, e.2 = some v → depth v ≤ room := by
  simp only [toFields, List.map_cons, List.map_nil, Option.map_some, ofSlots?,
    Option.bind_eq_bind, Option.bind_eq_some_iff] at h
  obtain ⟨-, -, -, -, -, -, -, -, settings, hsettings, volumes, hvolumes, -⟩ := h
  have hvolumes : depth (arr (layer.volumes.map ReportedVolume.toJson)) ≤ room :=
    TakesWhole.map ReportedVolume.takesWhole layer.volumes hvolumes
  have hsettings : ∀ own, layer.replication = some own → depth own.toJson ≤ room := by
    intro own hown
    rw [hown] at hsettings
    exact TakesWhole.option (ReportedReplication.takesWhole own) hsettings
  simp [toFields, hvolumes, depth_ofOption depth_str, depth_ofOption depth_bool,
    depth_ofOption depth_ofUInt64]
  exact hsettings

end ReportedLayer

namespace ReportNode

theorem toJsonList_eq (nodes : List ReportNode) : toJsonList nodes = nodes.map toJson := by
  induction nodes with
  | nil => rfl
  | cons node rest ih => rw [toJsonList, ih, List.map_cons]

/-- The layer and the layers below it as fields of a record. -/
def toFields (layer : ReportedLayer) (children : List ReportNode) : List (String × Option Json) :=
  layer.toFields ++ [("children", some (arr (children.map toJson)))]

theorem toJson_eq (layer : ReportedLayer) (children : List ReportNode) :
    (mk layer children).toJson = obj (present (toFields layer children)) := by
  rw [toJson, toJsonList_eq]
  cases hreplication : layer.replication <;>
    simp [ReportedLayer.toMembers, toFields, ReportedLayer.toFields, hreplication, memberIf,
      present]

theorem plain_toJson : ∀ node : ReportNode, Plain node.toJson
  | mk layer children => by
    have hchildren : Plain (arr (children.map toJson)) :=
      plain_arr.2 (List.forall_mem_map.2 fun child _ => plain_toJson child)
    rw [toJson_eq, plain_present]
    exact List.forall_mem_append.2 ⟨layer.plain_toFields, by simp [hchildren]⟩
termination_by node => sizeOf node

theorem names_nodup (layer : ReportedLayer) (children : List ReportNode) :
    ((toFields layer children).map (·.1)).Nodup := by
  simp [toFields, ReportedLayer.toFields]

/-- A node reads back, by induction on how deep it may be. -/
theorem read_reread {fuel : Nat} : ∀ {node : ReportNode}, node.toJson.depth ≤ fuel →
    read fuel node.toJson.reread = some node := by
  induction fuel with
  | zero =>
    rintro ⟨layer, children⟩ h
    cases h
  | succ fuel ih =>
    rintro ⟨layer, children⟩ h
    have hslots : slots ["kind", "suffix", "suspended", "parent_id", "replication_definition",
        "volumes", "children"] (mk layer children).toJson.reread =
        some ((toFields layer children).map (fun e => e.2.map reread)) := by
      rw [toJson_eq]
      exact slots_reread (toFields layer children) (names_nodup layer children) false
    rw [toJson_eq, depth_present_le] at h
    have hbelow : ∀ child ∈ children, read fuel child.toJson.reread = some child := by
      intro child hchild
      have hdepth := h _ (List.mem_append_right _ List.mem_cons_self) _ rfl
      exact ih (depth_arr_le.1 (Nat.le_succ_of_le hdepth) _ (List.mem_map_of_mem hchild))
    have hchildren := asList?_reread_of_mem hbelow
    have hlayer := layer.ofSlots?_reread
    rw [read, hslots]
    simp only [toFields, ReportedLayer.toFields, List.map_cons, List.map_nil, Option.map_some,
      List.cons_append, List.nil_append] at hlayer ⊢
    rw [hlayer]
    simp only [withDefault, hchildren]
    rfl

/-- A node is taken with all that is below it or not at all. -/
theorem takesWhole {fuel : Nat} : ∀ node : ReportNode, TakesWhole (read fuel) node.toJson := by
  induction fuel with
  | zero => exact fun _ _ _ h => nomatch h
  | succ fuel ih =>
    rintro ⟨layer, children⟩
    rw [toJson_eq]
    refine TakesWhole.record (names_nodup layer children) rfl fun {room _ v} hfields htaken => ?_
    have hslots : slots ["kind", "suffix", "suspended", "parent_id", "replication_definition",
        "volumes", "children"] v = some _ := hfields
    rw [read, hslots] at htaken
    simp only [toFields, ReportedLayer.toFields, List.map_cons, List.map_nil, Option.map_some,
      List.cons_append, List.nil_append, Option.bind_eq_bind, Option.bind_eq_some_iff] at htaken
    obtain ⟨own, hown, below, hbelow, -⟩ := htaken
    have hchildren : depth (arr (children.map toJson)) ≤ room :=
      TakesWhole.map ih children hbelow
    exact List.forall_mem_append.2
      ⟨ReportedLayer.depth_le_of_ofSlots? hown, by simpa using hchildren⟩

end ReportNode

namespace Report

/-- The report as fields of a record. -/
def toFields (report : Report) : List (String × Option Json) := [
  ("node_name", some (ofOption str report.node)),
  ("resource_name", some (ofOption str report.resource)),
  ("snapshot_name", report.snapshot.map str),
  ("roots", some (arr (report.roots.map ReportNode.toJson)))]

theorem toJson_eq (report : Report) : report.toJson = obj (present report.toFields) := by
  rw [toJson, ReportNode.toJsonList_eq]
  cases hsnapshot : report.snapshot <;> simp [toFields, hsnapshot, memberIf, present]

theorem plain_toJson (report : Report) : Plain report.toJson := by
  have hroots := plain_map ReportNode.plain_toJson report.roots
  rw [toJson_eq, plain_present]
  simp [toFields, hroots]

theorem ofJson?_reread {report : Report} (h : report.toJson.depth ≤ maxDepth) :
    ofJson? report.toJson.reread = some report := by
  have hslots : slots ["node_name", "resource_name", "snapshot_name", "roots"]
      report.toJson.reread = some (report.toFields.map (fun e => e.2.map reread)) := by
    rw [toJson_eq]
    exact slots_reread report.toFields (by simp [toFields]) false
  have hnodes : ∀ node ∈ report.roots, ReportNode.ofJson? node.toJson.reread = some node := by
    intro node hnode
    rw [toJson_eq, maxDepth, depth_present_le] at h
    have hdepth := h ("roots", some (arr (report.roots.map ReportNode.toJson)))
      (by simp [toFields]) _ rfl
    have hnode := depth_arr_le.1 (Nat.le_succ_of_le hdepth) _ (List.mem_map_of_mem hnode)
    exact ReportNode.read_reread (by omega)
  have hroots := asList?_reread_of_mem hnodes
  simp only [ofJson?, hslots, toFields, List.map_cons, List.map_nil, Option.map_some,
    optional_reread asString?_reread rfl,
    optional_reread_map asString?_reread rfl, withDefault, hroots]
  rfl

/-- A report is taken with all its nodes or not at all. -/
theorem takesWhole (report : Report) : TakesWhole ofJson? report.toJson := by
  rw [toJson_eq]
  refine TakesWhole.record (by simp [toFields]) rfl fun {room _ v} hfields htaken => ?_
  have hslots : slots ["node_name", "resource_name", "snapshot_name", "roots"] v = some _ :=
    hfields
  simp only [ofJson?, hslots, toFields, List.map_cons, List.map_nil, Option.map_some,
    Option.bind_eq_bind, Option.bind_eq_some_iff] at htaken
  obtain ⟨-, -, -, -, -, -, roots, hroots, -⟩ := htaken
  have hdepth : depth (arr (report.roots.map ReportNode.toJson)) ≤ room :=
    TakesWhole.map (@ReportNode.takesWhole 128) report.roots hroots
  simp [toFields, hdepth, depth_ofOption depth_str]

/-- A report reads back if its text does not nest too deep, and is refused otherwise. -/
theorem parse_compact (report : Report) : (Json.parse report.toJson.compact).bind ofJson? =
    if nesting report.toJson.compact ≤ maxDepth then some report else none := by
  rw [parse_compact_clip report.plain_toJson, nesting_compact report.plain_toJson, Option.bind_some]
  split
  · rename_i hdepth
    rw [clip_reread hdepth, ofJson?_reread hdepth]
  · rename_i hdepth
    refine Option.eq_none_iff_forall_ne_some.2 fun taken htaken => hdepth ?_
    exact report.takesWhole htaken

theorem parse_compact_of_depth {report : Report} (h : report.toJson.depth ≤ maxDepth) :
    (Json.parse report.toJson.compact).bind ofJson? = some report := by
  rw [parse_compact, if_pos (nesting_compact report.plain_toJson ▸ h)]

end Report

/-! ## Facts and events -/

namespace ObjectFacts

theorem printable_toJson (room : Nat) (facts : ObjectFacts) : Printable (room + 2) facts.toJson := by
  have hattributes : Printable (room + 1) (ofMap str facts.attributes) := by
    rw [ofMap, printable_obj]
    exact List.forall_mem_map.2 fun entry _ => printable_str entry.2
  rw [toJson, printable_obj]
  cases facts.path <;> simp [ofOption, hattributes]

theorem ofJson?_reread (facts : ObjectFacts) : ofJson? facts.toJson.reread = some facts := by
  have hslots : slots ["exists", "path", "size_kib", "attributes"] facts.toJson.reread = some _ :=
    slots_reread [("exists", some (Json.bool facts.present)),
      ("path", some (ofOption str facts.path)), ("size_kib", some (ofUInt64 facts.sizeKib)),
      ("attributes", some (ofMap str facts.attributes))] (by simp) false
  have hattributes := asMap?_reread asString?_reread
  simp only [ofJson?, hslots, List.map_cons, List.map_nil, Option.map_some,
    required_reread asBool?_reread, optional_reread asString?_reread rfl,
    withDefault_reread asUInt64?_reread, withDefault_reread hattributes]
  rfl

end ObjectFacts

namespace FactsMap

theorem printable_toJson (room : Nat) (facts : FactsMap) : Printable (room + 3) facts.toJson := by
  rw [toJson, ofMap, printable_obj]
  exact List.forall_mem_map.2 fun entry _ => entry.2.printable_toJson room

theorem ofJson?_reread (facts : FactsMap) : ofJson? facts.toJson.reread = some facts :=
  asMap?_reread ObjectFacts.ofJson?_reread facts

end FactsMap

namespace Event

theorem printable_toJson (room : Nat) (event : Event) : Printable (room + 2) event.toJson := by
  cases event <;> simp [toJson, printable_obj]

theorem ofJson?_reread (event : Event) : ofJson? event.toJson.reread = some event := by
  cases event with
  | resourcesLoaded resources layers passes =>
    let fields := [("resources", some (ofUInt64 resources)), ("layers", some (ofUInt64 layers)),
      ("passes", some (ofUInt64 passes))]
    have hslots : slots ["resources", "layers", "passes"] (obj (present fields)).reread = some _ :=
      slots_reread fields (by simp [fields]) false
    show resourcesLoadedOfJson? (obj (present fields)).reread = _
    rw [resourcesLoadedOfJson?, hslots]
    simp only [fields, List.map_cons, List.map_nil, Option.map_some,
      required_reread asUInt64?_reread]
    rfl
  | mergeApplied resource merged tolerated changed =>
    let fields := [("resource", some (str resource)), ("merged_volumes", some (ofUInt64 merged)),
      ("tolerated_absences", some (ofUInt64 tolerated)),
      ("changed_fields", some (ofUInt64 changed))]
    have hslots : slots ["resource", "merged_volumes", "tolerated_absences", "changed_fields"]
        (obj (present fields)).reread = some _ := slots_reread fields (by simp [fields]) false
    show mergeAppliedOfJson? (obj (present fields)).reread = _
    rw [mergeAppliedOfJson?, hslots]
    simp only [fields, List.map_cons, List.map_nil, Option.map_some,
      required_reread asString?_reread, required_reread asUInt64?_reread]
    rfl
  | mergeFailed resource fault reason =>
    have hfault : ∀ c : FaultClass, asName? FaultClass.ofName? (str c.name).reread = some c :=
      FaultClass.ofName?_name
    let fields := [("resource", some (str resource)), ("fault", some (str fault.name)),
      ("reason", some (str reason))]
    have hslots : slots ["resource", "fault", "reason"] (obj (present fields)).reread = some _ :=
      slots_reread fields (by simp [fields]) false
    show mergeFailedOfJson? (obj (present fields)).reread = _
    rw [mergeFailedOfJson?, hslots]
    simp only [fields, List.map_cons, List.map_nil, Option.map_some,
      required_reread asString?_reread, required_reread hfault]
    rfl
  | sizeDrift resource identifier state expectedKib actualKib =>
    have hstate : ∀ s : SizeState, asName? SizeState.ofName? (str s.name).reread = some s :=
      SizeState.ofName?_name
    let fields := [("resource", some (str resource)), ("identifier", some (str identifier)),
      ("state", some (str state.name)), ("expected_kib", some (ofUInt64 expectedKib)),
      ("actual_kib", some (ofUInt64 actualKib))]
    have hslots : slots ["resource", "identifier", "state", "expected_kib", "actual_kib"]
        (obj (present fields)).reread = some _ := slots_reread fields (by simp [fields]) false
    show sizeDriftOfJson? (obj (present fields)).reread = _
    rw [sizeDriftOfJson?, hslots]
    simp only [fields, List.map_cons, List.map_nil, Option.map_some,
      required_reread asString?_reread, required_reread hstate, required_reread asUInt64?_reread]
    rfl

end Event

/-! ## Everything that is sent -/

/-- A value of a type whose depth is bounded reads back. -/
theorem parse_compact_bounded {α : Type} {toJson : α → Json} {ofJson? : Json → Option α} {a : α}
    (hprintable : Printable maxDepth (toJson a)) (hread : ofJson? (toJson a).reread = some a) :
    (Json.parse (toJson a).compact).bind ofJson? = some a := by
  rw [Json.parse_compact hprintable, Option.bind_some, hread]

/-- What goes over the wire reads back as what was sent, but for reports whose text nests more than
127 arrays and objects, which are refused. -/
theorem wire_round_trip :
    (∀ report : Report, (Json.parse report.toJson.compact).bind Report.ofJson? =
      if nesting report.toJson.compact ≤ 127 then some report else none) ∧
    (∀ facts : FactsMap, (Json.parse facts.toJson.compact).bind FactsMap.ofJson? = some facts) ∧
    (∀ event : Event, (Json.parse event.toJson.compact).bind Event.ofJson? = some event) ∧
    (∀ definition : ResourceDefinition,
      (Json.parse definition.toJson.compact).bind ResourceDefinition.ofJson? = some definition) ∧
    ∀ pool : StoragePool, (Json.parse pool.toJson.compact).bind StoragePool.ofJson? = some pool :=
  ⟨Report.parse_compact,
    fun facts => parse_compact_bounded (facts.printable_toJson 124) facts.ofJson?_reread,
    fun event => parse_compact_bounded (event.printable_toJson 125) event.ofJson?_reread,
    fun definition =>
      parse_compact_bounded (definition.printable_toJson 122) definition.ofJson?_reread,
    fun pool => parse_compact_bounded (pool.printable_toJson 125) pool.ofJson?_reread⟩

end BlockStack
