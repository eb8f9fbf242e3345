import BlockStack.Proofs.JsonReading
import BlockStack.Wire.Record

/-!
# BlockStack.Proofs.WireRecord

The JSON form of documents is printable and reads back.

* `Json.present`: the members for the fields of a record that are there; `Json.slots_reread` gives
  the fields back.
* `Document.printable_toJson`, `Document.ofJson?_reread`: the same for documents, by way of each
  type of row.
-/

namespace BlockStack

namespace Json

/-! ## Fields -/

/-- The members for the fields that have a value. -/
def present (fields : List (String × Option Json)) : List (String × Json) :=
  fields.filterMap (fun e => e.2.map (e.1, ·))

theorem filter_present (fields : List (String × Option Json)) (p : String → Bool) :
    (present fields).filter (fun e => p e.1) = present (fields.filter (fun e => p e.1)) := by
  induction fields with
  | nil => rfl
  | cons e rest ih =>
    obtain ⟨name, _ | v⟩ := e
    · by_cases hp : p name <;> simp_all [present]
    · by_cases hp : p name <;> simp_all [present]

/-- Of fields with different names each is found under its name. -/
theorem member?_present {fields : List (String × Option Json)} (h : (fields.map (·.1)).Nodup)
    {name : String} {slot : Option Json} (hmem : (name, slot) ∈ fields) :
    member? (present fields) name = some slot := by
  have honly : fields.filter (fun e => decide (e.1 = name)) = [(name, slot)] := by
    induction fields with
    | nil => cases hmem
    | cons e rest ih =>
      rw [List.map_cons, List.nodup_cons] at h
      rcases List.mem_cons.mp hmem with rfl | hrest
      · have hnone : rest.filter (fun e => decide (e.1 = name)) = [] := by
          rw [List.filter_eq_nil_iff]
          intro e he heq
          exact h.1 (List.mem_map.mpr ⟨e, he, of_decide_eq_true heq⟩)
        simp [hnone]
      · have hne : e.1 ≠ name := by
          rintro rfl
          exact h.1 (List.mem_map.mpr ⟨(e.1, slot), hrest, rfl⟩)
        rw [List.filter_cons_of_neg (by simpa using hne)]
        exact ih h.2 hrest
  rw [member?, filter_present fields (fun n => decide (n = name)), honly]
  cases slot <;> rfl

theorem memberSlots_present {fields : List (String × Option Json)} (h : (fields.map (·.1)).Nodup)
    {sub : List (String × Option Json)} (hsub : ∀ e ∈ sub, e ∈ fields) (escaped : Bool) :
    memberSlots (sub.map (·.1)) (obj (present fields) escaped) = some (sub.map (·.2)) := by
  rw [memberSlots]
  induction sub with
  | nil => rfl
  | cons e rest ih =>
    rw [List.map_cons, List.mapM_cons, ih (fun e he => hsub e (.tail _ he)),
      member?_present h (hsub e (.head _))]
    rfl

theorem present_map (f : Json → Json) (fields : List (String × Option Json)) :
    (present fields).map (fun e => (e.1, f e.2)) =
      present (fields.map (fun e => (e.1, e.2.map f))) := by
  rw [present, present, List.map_filterMap, List.filterMap_map]
  congr 1
  funext e
  cases h : e.2 <;> simp [h]

theorem reread_present (fields : List (String × Option Json)) (escaped : Bool) :
    ∃ escaped', (obj (present fields) escaped).reread =
      obj (present (fields.map (fun e => (e.1, e.2.map reread)))) escaped' :=
  ⟨(present fields).any (fun e => isEscaped e.1),
    by rw [reread, rereadMembers_eq, present_map reread]⟩

theorem slots_present {fields : List (String × Option Json)} (h : (fields.map (·.1)).Nodup)
    (f : Json → Json) (escaped : Bool) :
    slots (fields.map (·.1)) (obj (present (fields.map (fun e => (e.1, e.2.map f)))) escaped) =
      some (fields.map (fun e => e.2.map f)) := by
  have hnames : (fields.map (fun e => (e.1, e.2.map f))).map (·.1) = fields.map (·.1) := by simp
  have hslots := memberSlots_present (hnames ▸ h) (fun _ h => h) escaped
  rw [slots, ← hnames, hslots]
  all_goals simp

/-- The fields of a record are given back. -/
theorem slots_reread (fields : List (String × Option Json)) (h : (fields.map (·.1)).Nodup)
    (escaped : Bool) :
    slots (fields.map (·.1)) (obj (present fields) escaped).reread =
      some (fields.map (fun e => e.2.map reread)) := by
  obtain ⟨escaped', hreread⟩ := reread_present fields escaped
  rw [hreread, slots_present h]

/-! ## Values of fields -/

theorem asUInt64?_reread (n : UInt64) : asUInt64? (ofUInt64 n).reread = some n := by
  simp [ofUInt64, reread, asUInt64?, n.toNat_lt]

theorem asUInt32?_reread (n : UInt32) : asUInt32? (ofUInt32 n).reread = some n := by
  simp [ofUInt32, reread, asUInt32?, n.toNat_lt]

theorem asUInt16?_reread (n : UInt16) : asUInt16? (ofUInt16 n).reread = some n := by
  simp [ofUInt16, reread, asUInt16?, n.toNat_lt]

@[simp] theorem printable_ofUInt64 {room : Nat} (n : UInt64) : Printable room (ofUInt64 n) :=
  printable_nat.mpr n.toNat_lt_size

@[simp] theorem printable_ofUInt32 {room : Nat} (n : UInt32) : Printable room (ofUInt32 n) :=
  printable_nat.mpr (Nat.lt_trans n.toNat_lt_size (by decide))

@[simp] theorem printable_ofUInt16 {room : Nat} (n : UInt16) : Printable room (ofUInt16 n) :=
  printable_nat.mpr (Nat.lt_trans n.toNat_lt_size (by decide))

theorem asString?_reread (s : String) : asString? (str s).reread = some s := rfl

theorem asBool?_reread (b : Bool) : asBool? (bool b).reread = some b := rfl

theorem asList?_reread_of_mem {α : Type} {read : Json → Option α} {toJson : α → Json} {l : List α}
    (h : ∀ a ∈ l, read (toJson a).reread = some a) :
    asList? read (arr (l.map toJson)).reread = some l := by
  rw [reread, rereadItems_eq, asList?]
  induction l with
  | nil => rfl
  | cons a rest ih =>
    obtain ⟨ha, hrest⟩ := List.forall_mem_cons.1 h
    simp only [List.map_cons, List.mapM_cons, ha, ih hrest]
    rfl

section
variable {α : Type} {read : Json → Option α} {toJson : α → Json}
  (hread : ∀ a, read (toJson a).reread = some a)
include hread

theorem required_reread (a : α) : required read (some (toJson a).reread) = some a := hread a

theorem withDefault_reread (default a : α) :
    withDefault default read (some (toJson a).reread) = some a := hread a

/-- A field that is written `null` when there is no value. -/
theorem optional_reread (hnull : read null = none) (o : Option α) :
    optional read (some (ofOption toJson o).reread) = some o := by
  cases o with
  | none => rfl
  | some a =>
    have hsome : asOption? read (toJson a).reread = (read (toJson a).reread).map some := by
      unfold asOption?
      split
      · rename_i heq
        have ha := hread a
        rw [heq, hnull] at ha
        cases ha
      · rfl
    show asOption? read (toJson a).reread = some (some a)
    rw [hsome, hread]
    rfl

/-- A field that is left out when there is no value. -/
theorem optional_reread_map (hnull : read null = none) (o : Option α) :
    optional read ((o.map toJson).map reread) = some o := by
  cases o with
  | none => rfl
  | some a => exact optional_reread hread hnull (some a)

theorem asList?_reread (l : List α) : asList? read (arr (l.map toJson)).reread = some l :=
  asList?_reread_of_mem fun a _ => hread a

/-- A map from strings reads back, whatever its keys are. -/
theorem asMap?_reread (m : SortedMap String α) : asMap? read (ofMap toJson m).reread = some m := by
  have hmembers : (rereadMembers (m.entries.map (fun e => (e.1, toJson e.2)))).mapM
      (fun e => (read e.2).map (e.1, ·)) = some m.entries := by
    rw [rereadMembers_eq]
    induction m.entries with
    | nil => rfl
    | cons e rest ih =>
      simp only [List.map_cons, List.mapM_cons, hread]
      rw [ih]
      rfl
  rw [asMap?, ofMap, reread, asMembers?, hmembers]
  exact congrArg some m.ofList_entries

end

theorem printable_map {α : Type} {room : Nat} {toJson : α → Json}
    (h : ∀ a, Printable room (toJson a)) (l : List α) : Printable (room + 1) (arr (l.map toJson)) := by
  rw [printable_arr]
  intro item hitem
  obtain ⟨a, -, rfl⟩ := List.mem_map.mp hitem
  exact h a

/-! ## Numbers as names -/

theorem escape_of_isDigit {c : Char} (h : c.isDigit = true) : escape c = [c] := by
  have hrange : 48 ≤ c.toNat ∧ c.toNat ≤ 57 := by
    simpa [Char.isDigit, UInt32.le_iff_toNat_le] using h
  have hcontrol : ¬ c.toNat < 0x20 := by omega
  unfold escape
  repeat rw [if_neg (by rintro rfl; exact absurd h (by decide))]
  rw [if_neg hcontrol]

theorem isEscaped_toString (n : Nat) : isEscaped (toString n) = false := by
  have hlist : (toString n).toList = Nat.toDigits 10 n := by simp
  rw [isEscaped, hlist, List.any_eq_false]
  intro c hc
  simp [escape_of_isDigit (Nat.isDigit_of_mem_toDigits (by decide) (by decide) hc)]

theorem decimal?_toDigits (n : Nat) : decimal? (Nat.toDigits 10 n) = some n := by
  have hne : (Nat.toDigits 10 n).isEmpty = false := by
    rw [List.isEmpty_eq_false_iff]
    exact Nat.toDigits_ne_nil
  have hall : (Nat.toDigits 10 n).all Char.isDigit = true := by
    rw [List.all_eq_true]
    intro c hc
    exact Nat.isDigit_of_mem_toDigits (by decide) (by decide) hc
  have hzero : Nat.toDigits 10 n = ['0'] ∨ (Nat.toDigits 10 n).head? ≠ some '0' := by
    by_cases hhead : (Nat.toDigits 10 n).head? = some '0'
    · exact .inl (head?_toDigits hhead ▸ Nat.toDigits_zero 10)
    · exact .inr hhead
  simp [decimal?, hne, hall, hzero, Nat.ofDigitChars_ten_toDigits]

theorem number32?_toString (n : UInt32) : number32? (toString n.toNat) = some n := by
  have hlist : (toString n.toNat).toList = Nat.toDigits 10 n.toNat := by simp
  rw [number32?, hlist, decimal?_toDigits, Option.bind_some]
  exact asUInt32?_reread n

theorem asNumberedMap?_reread {α : Type} {read : Json → Option α} {toJson : α → Json}
    (hread : ∀ a, read (toJson a).reread = some a) (m : SortedMap UInt32 α) :
    asNumberedMap? read (ofNumberedMap toJson m).reread = some m := by
  have hescaped : (m.entries.map (fun e => (toString e.1.toNat, toJson e.2))).any
      (fun e => isEscaped e.1) = false := by
    rw [List.any_eq_false]
    intro e he
    obtain ⟨entry, -, rfl⟩ := List.mem_map.mp he
    exact ne_true_of_eq_false (isEscaped_toString entry.1.toNat)
  have hmembers : (rereadMembers (m.entries.map (fun e => (toString e.1.toNat, toJson e.2)))).mapM
      (fun e => (number32? e.1).bind (fun number => (read e.2).map (number, ·))) =
      some m.entries := by
    rw [rereadMembers_eq]
    induction m.entries with
    | nil => rfl
    | cons e rest ih =>
      simp only [List.map_cons, List.mapM_cons, hread, number32?_toString]
      rw [ih]
      rfl
  rw [ofNumberedMap, reread, hescaped, asNumberedMap?, hmembers]
  exact congrArg some m.ofList_entries

end Json

open Json

/-! ## Catalogs -/

namespace ResourceKey

theorem printable_toJson (room : Nat) (key : ResourceKey) : Printable (room + 1) key.toJson := by
  rw [toJson, printable_obj]
  cases key.snapshot <;> simp [memberIf]

theorem toJson_eq (key : ResourceKey) : key.toJson = obj (present [
    ("node_name", some (str key.node)), ("resource_name", some (str key.resource)),
    ("snapshot_name", key.snapshot.map str)]) := by
  rw [toJson]
  cases key.snapshot <;> rfl

theorem ofJson?_reread (key : ResourceKey) : ofJson? key.toJson.reread = some key := by
  have hslots := slots_reread [("node_name", some (str key.node)),
    ("resource_name", some (str key.resource)), ("snapshot_name", key.snapshot.map str)]
    (by simp) false
  simp only [List.map_cons, List.map_nil, Option.map_some, ← toJson_eq] at hslots
  simp only [ofJson?, hslots, required_reread asString?_reread,
    optional_reread_map asString?_reread rfl]
  rfl

end ResourceKey

namespace PoolKey

theorem printable_toJson (room : Nat) (key : PoolKey) : Printable (room + 1) key.toJson := by
  rw [toJson, printable_obj]
  simp

theorem ofJson?_reread (key : PoolKey) : ofJson? key.toJson.reread = some key := by
  have hslots : slots ["node_name", "pool_name"] key.toJson.reread = some _ :=
    slots_reread [("node_name", some (str key.node)), ("pool_name", some (str key.pool))]
      (by simp) false
  simp only [ofJson?, hslots, List.map_cons, List.map_nil, Option.map_some,
    required_reread asString?_reread]
  rfl

end PoolKey

namespace StoragePool

theorem printable_toJson (room : Nat) (pool : StoragePool) : Printable (room + 2) pool.toJson := by
  rw [toJson, printable_obj]
  simp [pool.key.printable_toJson room]

theorem asName?_provider (provider : ProviderKind) :
    asName? ProviderKind.ofName? (str provider.name).reread = some provider :=
  ProviderKind.ofName?_name provider

theorem ofJson?_reread (pool : StoragePool) : ofJson? pool.toJson.reread = some pool := by
  have hslots : slots ["key", "provider", "extent_size_kib", "capacity_kib", "free_kib"]
      pool.toJson.reread = some _ :=
    slots_reread [("key", some pool.key.toJson), ("provider", some (str pool.provider.name)),
      ("extent_size_kib", some (ofUInt64 pool.extentSizeKib)),
      ("capacity_kib", some (ofUInt64 pool.capacityKib)),
      ("free_kib", some (ofUInt64 pool.freeKib))] (by simp) false
  simp only [ofJson?, hslots, List.map_cons, List.map_nil, Option.map_some,
    required_reread PoolKey.ofJson?_reread, required_reread asName?_provider,
    required_reread asUInt64?_reread, withDefault_reread asUInt64?_reread]
  rfl

end StoragePool

namespace ReplicationVolume

theorem printable_toJson (room : Nat) (volume : ReplicationVolume) :
    Printable (room + 1) volume.toJson := by
  rw [toJson, printable_obj]
  simp

theorem ofJson?_reread (volume : ReplicationVolume) :
    ofJson? volume.toJson.reread = some volume := by
  have hslots : slots ["minor"] volume.toJson.reread = some _ :=
    slots_reread [("minor", some (ofUInt32 volume.minor))] (by simp) false
  simp only [ofJson?, hslots, List.map_cons, List.map_nil, Option.map_some,
    required_reread asUInt32?_reread]

end ReplicationVolume

namespace ReplicationDefinition

theorem printable_toJson (room : Nat) (definition : ReplicationDefinition) :
    Printable (room + 3) definition.toJson := by
  have hvolumes : Printable (room + 2)
      (ofNumberedMap ReplicationVolume.toJson definition.volumes) := by
    rw [ofNumberedMap, printable_obj]
    intro e he
    obtain ⟨entry, -, rfl⟩ := List.mem_map.mp he
    exact entry.2.printable_toJson room
  rw [toJson, printable_obj]
  simp [hvolumes]

theorem ofJson?_reread (definition : ReplicationDefinition) :
    ofJson? definition.toJson.reread = some definition := by
  have hslots : slots ["port", "secret", "transport", "peer_slots", "al_stripes", "volumes"]
      definition.toJson.reread = some _ :=
    slots_reread [("port", some (ofUInt16 definition.port)),
      ("secret", some (str definition.secret)), ("transport", some (str definition.transport)),
      ("peer_slots", some (ofUInt16 definition.peerSlots)),
      ("al_stripes", some (ofUInt32 definition.alStripes)),
      ("volumes", some (ofNumberedMap ReplicationVolume.toJson definition.volumes))]
      (by simp) false
  have hvolumes := asNumberedMap?_reread ReplicationVolume.ofJson?_reread
  simp only [ofJson?, hslots, List.map_cons, List.map_nil, Option.map_some,
    required_reread asUInt16?_reread, required_reread asUInt32?_reread,
    required_reread asString?_reread, withDefault_reread hvolumes]
  rfl

end ReplicationDefinition

namespace ResourceDefinition

theorem printable_toJson (room : Nat) (definition : ResourceDefinition) :
    Printable (room + 5) definition.toJson := by
  have hreplication : Printable (room + 4)
      (ofMap ReplicationDefinition.toJson definition.replication) := by
    rw [ofMap, printable_obj]
    intro e he
    obtain ⟨entry, -, rfl⟩ := List.mem_map.mp he
    exact entry.2.printable_toJson room
  rw [toJson, printable_obj]
  simp [hreplication]

theorem ofJson?_reread (definition : ResourceDefinition) :
    ofJson? definition.toJson.reread = some definition := by
  have hslots : slots ["name", "replication"] definition.toJson.reread = some _ :=
    slots_reread [("name", some (str definition.name)),
      ("replication", some (ofMap ReplicationDefinition.toJson definition.replication))]
      (by simp) false
  have hreplication := asMap?_reread ReplicationDefinition.ofJson?_reread
  simp only [ofJson?, hslots, List.map_cons, List.map_nil, Option.map_some,
    required_reread asString?_reread, withDefault_reread hreplication]
  rfl

end ResourceDefinition

namespace ResourceRow

theorem printable_toJson (room : Nat) (row : ResourceRow) : Printable (room + 2) row.toJson := by
  rw [toJson, printable_obj]
  simp [row.key.printable_toJson room]

theorem ofJson?_reread (row : ResourceRow) : ofJson? row.toJson.reread = some row := by
  have hslots : slots ["key", "definition"] row.toJson.reread = some _ :=
    slots_reread [("key", some row.key.toJson), ("definition", some (str row.definition))]
      (by simp) false
  simp only [ofJson?, hslots, List.map_cons, List.map_nil, Option.map_some,
    required_reread ResourceKey.ofJson?_reread, required_reread asString?_reread]
  rfl

end ResourceRow

namespace Catalog

theorem printable_toJson (room : Nat) (catalog : Catalog) :
    Printable (room + 7) catalog.toJson := by
  have hdefinitions := printable_map (fun d => ResourceDefinition.printable_toJson room d)
    catalog.definitions
  have hresources := printable_map (fun r => ResourceRow.printable_toJson (room + 3) r)
    catalog.resources
  have hpools := printable_map (fun p => StoragePool.printable_toJson (room + 3) p) catalog.pools
  rw [toJson, printable_obj]
  simp [hdefinitions, hresources, hpools]

theorem ofJson?_reread (catalog : Catalog) : ofJson? catalog.toJson.reread = some catalog := by
  have hslots : slots ["definitions", "resources", "storage_pools"] catalog.toJson.reread =
      some _ :=
    slots_reread [("definitions", some (arr (catalog.definitions.map ResourceDefinition.toJson))),
      ("resources", some (arr (catalog.resources.map ResourceRow.toJson))),
      ("storage_pools", some (arr (catalog.pools.map StoragePool.toJson)))] (by simp) false
  have hdefinitions := asList?_reread ResourceDefinition.ofJson?_reread
  have hresources := asList?_reread ResourceRow.ofJson?_reread
  have hpools := asList?_reread StoragePool.ofJson?_reread
  simp only [ofJson?, hslots, List.map_cons, List.map_nil, Option.map_some, withDefault,
    hdefinitions, hresources, hpools]
  rfl

end Catalog

/-! ## Layer rows -/

namespace ReplicationNode

theorem printable_toJson (room : Nat) (settings : ReplicationNode) :
    Printable (room + 1) settings.toJson := by
  rw [toJson, printable_obj]
  simp

theorem ofJson?_reread (settings : ReplicationNode) :
    ofJson? settings.toJson.reread = some settings := by
  have hslots : slots ["node_id", "peer_slots", "al_stripes", "al_stripe_size_kib"]
      settings.toJson.reread = some _ :=
    slots_reread [("node_id", some (ofUInt32 settings.nodeId)),
      ("peer_slots", some (ofUInt16 settings.peerSlots)),
      ("al_stripes", some (ofUInt32 settings.alStripes)),
      ("al_stripe_size_kib", some (ofUInt64 settings.alStripeSizeKib))] (by simp) false
  simp only [ofJson?, hslots, List.map_cons, List.map_nil, Option.map_some,
    required_reread asUInt32?_reread, required_reread asUInt16?_reread,
    required_reread asUInt64?_reread]
  rfl

end ReplicationNode

namespace LayerRow

theorem printable_toJson (room : Nat) (row : LayerRow) : Printable (room + 2) row.toJson := by
  have howner := row.owner.printable_toJson room
  have hsettings := fun settings => ReplicationNode.printable_toJson room settings
  rw [toJson, printable_obj]
  cases row.parent <;> cases row.replication <;> simp [memberIf, ofOption, howner, hsettings]

theorem toJson_eq (row : LayerRow) : row.toJson = obj (present [
    ("id", some (ofUInt64 row.id)), ("parent_id", some (ofOption ofUInt64 row.parent)),
    ("kind", some (str row.kind)), ("suffix", some (str row.suffix)),
    ("owner", some row.owner.toJson), ("suspended", some (Json.bool row.suspended)),
    ("replication", row.replication.map ReplicationNode.toJson)]) := by
  rw [toJson]
  cases row.replication <;> rfl

theorem ofJson?_reread (row : LayerRow) : ofJson? row.toJson.reread = some row := by
  have hslots := slots_reread [
    ("id", some (ofUInt64 row.id)), ("parent_id", some (ofOption ofUInt64 row.parent)),
    ("kind", some (str row.kind)), ("suffix", some (str row.suffix)),
    ("owner", some row.owner.toJson), ("suspended", some (Json.bool row.suspended)),
    ("replication", row.replication.map ReplicationNode.toJson)] (by simp) false
  simp only [List.map_cons, List.map_nil, Option.map_some, ← toJson_eq] at hslots
  simp only [ofJson?, hslots, required_reread asUInt64?_reread,
    optional_reread asUInt64?_reread rfl, required_reread asString?_reread,
    withDefault_reread asString?_reread, required_reread ResourceKey.ofJson?_reread,
    withDefault_reread asBool?_reread,
    optional_reread_map ReplicationNode.ofJson?_reread rfl]
  rfl

end LayerRow

/-! ## Volume rows -/

namespace AttributeFields

/-- The attributes as fields of a record. -/
def toFields (fields : AttributeFields) : List (String × Option Json) := [
  ("volume_group", fields.volumeGroup.map str), ("thin_pool", fields.thinPool.map str),
  ("zpool", fields.zpool.map str), ("extent_size_kib", fields.extentSizeKib.map ofUInt64),
  ("backing_file", fields.backingFile.map str), ("lvol_store", fields.lvolStore.map str)]

theorem present_memberIf {α : Type} (name : String) (write : α → Json) (o : Option α)
    (fields : List (String × Option Json)) :
    memberIf name write o ++ present fields = present ((name, o.map write) :: fields) := by
  cases o <;> rfl

theorem toMembers_eq (fields : AttributeFields) : fields.toMembers = present fields.toFields := by
  have hnil : ([] : List (String × Json)) = present [] := rfl
  rw [toMembers, ← List.append_nil (_ ++ memberIf "lvol_store" _ _), hnil]
  simp only [List.append_assoc, present_memberIf]
  rfl

theorem ofSlots?_reread (fields : AttributeFields) :
    ofSlots? (fields.toFields.map (fun e => e.2.map reread)) = some fields := by
  simp only [toFields, List.map_cons, List.map_nil, ofSlots?,
    optional_reread_map asString?_reread rfl,
    optional_reread_map asUInt64?_reread rfl]
  rfl

theorem printable_toMembers (room : Nat) (fields : AttributeFields) :
    ∀ e ∈ fields.toMembers, Printable room e.2 := by
  intro e he
  simp only [toMembers, memberIf, List.mem_append] at he
  rcases he with ((((h | h) | h) | h) | h) | h
  all_goals
    split at h
    · rw [List.mem_singleton] at h
      subst h
      simp
    · cases h

end AttributeFields

namespace VolumePayload

/-- The fields of a payload apart from its kind. -/
def toFields : VolumePayload → List (String × Option Json)
  | replication metaDiskPath => [("meta_disk_path", some (ofOption str metaDiskPath))]
  | encryption backingDevice isOpen =>
    [("backing_device", some (ofOption str backingDevice)), ("opened", some (Json.bool isOpen))]
  | remoteAttach => []
  | storage provider pool present fields =>
    [("provider", some (str provider)), ("storage_pool", some (str pool)),
      ("exists", some (Json.bool present))] ++ fields.toFields

/-- The name of the kind of a payload. -/
def kindName : VolumePayload → String
  | replication _ => "REPLICATION"
  | encryption _ _ => "ENCRYPTION"
  | remoteAttach => "REMOTE_ATTACH"
  | storage _ _ _ _ => "STORAGE"

theorem toJson_eq (payload : VolumePayload) :
    payload.toJson = obj (present (("kind", some (str payload.kindName)) :: payload.toFields)) := by
  cases payload with
  | storage provider pool exists' fields =>
    rw [toJson, AttributeFields.toMembers_eq]
    rfl
  | _ => rfl

theorem names_nodup (payload : VolumePayload) :
    ("kind" :: payload.toFields.map (·.1)).Nodup := by
  cases payload <;> simp [toFields, AttributeFields.toFields]

theorem printable_toJson (room : Nat) (payload : VolumePayload) :
    Printable (room + 1) payload.toJson := by
  cases payload with
  | replication metaDiskPath =>
    rw [toJson, printable_obj]
    cases metaDiskPath <;> simp [ofOption]
  | encryption backingDevice isOpen =>
    rw [toJson, printable_obj]
    cases backingDevice <;> simp [ofOption]
  | remoteAttach =>
    rw [toJson, printable_obj]
    simp
  | storage provider pool exists' fields =>
    rw [toJson, printable_obj]
    intro e he
    rcases List.mem_append.mp he with he | he
    · simp only [List.mem_cons, List.not_mem_nil, or_false] at he
      rcases he with rfl | rfl | rfl | rfl <;> simp
    · exact fields.printable_toMembers room e he

theorem untag_reread {kind : String} {fields : List (String × Option Json)}
    (h : ("kind" :: fields.map (·.1)).Nodup) :
    untag (obj (present (("kind", some (str kind)) :: fields))).reread =
      some (kind, obj (present (fields.map (fun e => (e.1, e.2.map reread))))) := by
  let others := fields.map (fun e => (e.1, e.2.map reread))
  obtain ⟨escaped, hreread⟩ : ∃ escaped,
      (obj (present (("kind", some (str kind)) :: fields))).reread =
        obj (present (("kind", some (str kind)) :: others)) escaped :=
    reread_present (("kind", some (str kind)) :: fields) false
  have hothers : others.map (·.1) = fields.map (·.1) := by simp [others]
  have hkind : member? (present (("kind", some (str kind)) :: others)) "kind" =
      some (some (str kind)) :=
    member?_present (by rw [List.map_cons, hothers]; exact h) (.head _)
  have hrest : (("kind", some (str kind)) :: others).filter (fun e => decide (e.1 ≠ "kind")) =
      others := by
    rw [List.filter_cons_of_neg (by simp), List.filter_eq_self]
    intro e he
    refine decide_eq_true fun heq => (List.nodup_cons.mp h).1 ?_
    rw [← hothers, ← heq]
    exact List.mem_map.mpr ⟨e, he, rfl⟩
  rw [hreread]
  simp only [untag, hkind]
  rw [filter_present _ (fun n => decide (n ≠ "kind")), hrest]

theorem ofJson?_reread (payload : VolumePayload) : ofJson? payload.toJson.reread = some payload := by
  have hreadable := isReadable_reread (printable_iff.1 (payload.printable_toJson 0)).1
  have huntag := @untag_reread payload.kindName _ payload.names_nodup
  rw [← toJson_eq] at huntag
  -- what is behind the tag has the fields of the payload, and only these
  let others := payload.toFields.map (fun e => (e.1, e.2.map reread))
  have hnames : (others.map (·.1)).Nodup := by
    have hothers : others.map (·.1) = payload.toFields.map (·.1) := by simp [others]
    rw [hothers]
    exact (List.nodup_cons.mp payload.names_nodup).2
  have hslots : ∀ sub : List (String × Option Json), (∀ e ∈ sub, e ∈ others) →
      memberSlots (sub.map (·.1)) (obj (present others)) = some (sub.map (·.2)) :=
    fun sub hsub => memberSlots_present hnames hsub false
  rw [ofJson?, if_pos hreadable, huntag]
  cases payload with
  | replication metaDiskPath =>
    have hpath : slots ["meta_disk_path"] (obj (present others)) =
        some [some (ofOption str metaDiskPath).reread] :=
      hslots others (fun _ h => h)
    simp only [kindName, replicationOfJson?]
    rw [hpath]
    simp only [optional_reread asString?_reread rfl, Option.map_some]
  | encryption backingDevice isOpen =>
    have hdevice : slots ["backing_device", "opened"] (obj (present others)) =
        some [some (ofOption str backingDevice).reread, some (Json.bool isOpen).reread] :=
      hslots others (fun _ h => h)
    simp only [kindName, encryptionOfJson?]
    rw [hdevice]
    simp only [optional_reread asString?_reread rfl,
      withDefault_reread asBool?_reread]
    rfl
  | remoteAttach => rfl
  | storage provider pool exists' fields =>
    have hown : memberSlots ["provider", "storage_pool", "exists"] (obj (present others)) =
        some [some (str provider).reread, some (str pool).reread,
          some (Json.bool exists').reread] :=
      hslots [("provider", some (str provider)), ("storage_pool", some (str pool)),
        ("exists", some (Json.bool exists'))] (by simp [others, toFields, reread])
    have hattributes : ∀ e ∈ fields.toFields.map (fun e => (e.1, e.2.map reread)), e ∈ others := by
      intro e he
      simp only [others, toFields, List.map_append]
      exact List.mem_append_right _ he
    have hfields : memberSlots AttributeFields.names (obj (present others)) =
        some (fields.toFields.map (fun e => e.2.map reread)) :=
      hslots _ hattributes
    simp only [kindName, storageOfJson?, AttributeFields.ofMembers?]
    rw [hown, hfields]
    simp only [required_reread asString?_reread, withDefault_reread asBool?_reread,
      Option.bind_some, AttributeFields.ofSlots?_reread]
    rfl

end VolumePayload

namespace VolumeRow

theorem printable_toJson (room : Nat) (row : VolumeRow) : Printable (room + 2) row.toJson := by
  have hpayload := row.payload.printable_toJson room
  obtain ⟨layer, number, expected, ⟨devicePath, allocated, usable, diskState⟩, payload⟩ := row
  rw [toJson, printable_obj]
  cases devicePath <;> cases allocated <;> cases usable <;> cases diskState <;>
    simp [VolumeFacts.toMembers, ofOption, hpayload]

theorem ofJson?_reread (row : VolumeRow) : ofJson? row.toJson.reread = some row := by
  have hslots : slots (["layer_id", "volume_number", "expected_size_kib"] ++ VolumeFacts.names ++
      ["payload"]) row.toJson.reread = some _ :=
    slots_reread [("layer_id", some (ofUInt64 row.layer)),
      ("volume_number", some (ofUInt32 row.number)),
      ("expected_size_kib", some (ofUInt64 row.expectedSizeKib)),
      ("device_path", some (ofOption str row.facts.devicePath)),
      ("allocated_size_kib", some (ofOption ofUInt64 row.facts.allocatedSizeKib)),
      ("usable_size_kib", some (ofOption ofUInt64 row.facts.usableSizeKib)),
      ("disk_state", some (ofOption str row.facts.diskState)),
      ("payload", some row.payload.toJson)] (by simp) false
  simp only [ofJson?, hslots, List.map_cons, List.map_nil, Option.map_some, VolumeFacts.ofSlots?,
    required_reread asUInt64?_reread, required_reread asUInt32?_reread,
    optional_reread asString?_reread rfl,
    optional_reread asUInt64?_reread rfl,
    required_reread VolumePayload.ofJson?_reread]
  rfl

end VolumeRow

/-! ## Documents -/

namespace Document

theorem printable_toJson (doc : Document) : Printable maxDepth doc.toJson := by
  have hlayers := printable_map (fun r => LayerRow.printable_toJson 123 r) doc.layers
  have hvolumes := printable_map (fun r => VolumeRow.printable_toJson 123 r) doc.volumes
  have hcatalog := doc.catalog.printable_toJson 119
  rw [toJson, maxDepth, printable_obj]
  simp [hlayers, hvolumes, hcatalog]

/-- A document that was printed and read back is the document. -/
theorem ofJson?_reread (doc : Document) : ofJson? doc.toJson.reread = some doc := by
  have hslots : slots ["catalog", "layers", "volumes"] doc.toJson.reread = some _ :=
    slots_reread [("catalog", some doc.catalog.toJson),
      ("layers", some (arr (doc.layers.map LayerRow.toJson))),
      ("volumes", some (arr (doc.volumes.map VolumeRow.toJson)))] (by simp) false
  have hlayers := asList?_reread LayerRow.ofJson?_reread
  have hvolumes := asList?_reread VolumeRow.ofJson?_reread
  simp only [ofJson?, hslots, List.map_cons, List.map_nil, Option.map_some, withDefault,
    Catalog.ofJson?_reread, hlayers, hvolumes]
  rfl

/-- The text of a document gives the document back. -/
theorem parse_pretty (doc : Document) :
    (Json.parse doc.toJson.pretty).bind ofJson? = some doc := by
  rw [Json.parse_pretty doc.printable_toJson, Option.bind_some, ofJson?_reread]

end Document
end BlockStack
