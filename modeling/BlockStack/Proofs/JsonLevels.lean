import BlockStack.Proofs.JsonText

/-!
# BlockStack.Proofs.JsonLevels

What of a value comes back when its text is read.

* `Json.reread`: a value as it is read back, where objects know which names have escapes.
* `Json.Printable`: a value that holds numbers of 64 bits only, within so many levels;
  `Json.printable_iff` tells what it holds (`Json.Plain`) from how deep it is (`Json.depth`).
* `Json.clip`: a value of which what lies too deep is unreadable; `Json.clip_reread` and
  `Json.depth_le_of_isReadable` tell when nothing does.
* `Json.levels`: the induction that goes down the levels of a value.
-/

namespace BlockStack
namespace Json

variable {room : Nat}

/-! ## Printed values -/

mutual

/-- A value as it is read back: objects know whether their names have escapes. -/
def reread : Json → Json
  | arr items => arr (rereadItems items)
  | obj members _ => obj (rereadMembers members) (members.any (fun e => isEscaped e.1))
  | null => null
  | bool b => bool b
  | nat n => nat n
  | real lexeme => real lexeme
  | str s => str s
  | unreadable => unreadable

/-- Items as they are read back. -/
def rereadItems : List Json → List Json
  | [] => []
  | item :: rest => reread item :: rereadItems rest

/-- Members as they are read back. -/
def rereadMembers : List (String × Json) → List (String × Json)
  | [] => []
  | (name, value) :: rest => (name, reread value) :: rereadMembers rest

end

mutual

/-- A value that holds nothing but strings, truth values and numbers of 64 bits, within `room`
levels. -/
def Printable : (room : Nat) → Json → Prop
  | room + 1, arr items => ArePrintable room items
  | room + 1, obj members _ => HavePrintable room members
  | _, null => True
  | _, bool _ => True
  | _, nat n => n < UInt64.size
  | _, str _ => True
  | _, _ => False

/-- All items are printable. -/
def ArePrintable : (room : Nat) → List Json → Prop
  | _, [] => True
  | room, item :: rest => Printable room item ∧ ArePrintable room rest

/-- The values of all members are printable. -/
def HavePrintable : (room : Nat) → List (String × Json) → Prop
  | _, [] => True
  | room, (_, value) :: rest => Printable room value ∧ HavePrintable room rest

end

theorem rereadItems_eq (items : List Json) : rereadItems items = items.map reread := by
  induction items with
  | nil => rfl
  | cons item rest ih => simp [rereadItems, ih]

theorem rereadMembers_eq (members : List (String × Json)) :
    rereadMembers members = members.map (fun e => (e.1, e.2.reread)) := by
  induction members with
  | nil => rfl
  | cons e rest ih => simp [rereadMembers, ih]

@[simp] theorem printable_null : Printable room null := by cases room <;> trivial

@[simp] theorem printable_bool (b : Bool) : Printable room (bool b) := by cases room <;> trivial

@[simp] theorem printable_str (s : String) : Printable room (str s) := by cases room <;> trivial

theorem printable_nat {n : Nat} : Printable room (nat n) ↔ n < UInt64.size := by cases room <;> rfl

theorem printable_arr {items : List Json} :
    Printable (room + 1) (arr items) ↔ ∀ item ∈ items, Printable room item := by
  rw [Printable]
  induction items with
  | nil => simp [ArePrintable]
  | cons item rest ih => simp [ArePrintable, ih]

theorem printable_obj {members : List (String × Json)} {escaped : Bool} :
    Printable (room + 1) (obj members escaped) ↔ ∀ e ∈ members, Printable room e.2 := by
  rw [Printable]
  induction members with
  | nil => simp [HavePrintable]
  | cons e rest ih => simp [HavePrintable, ih]

/-! ## Levels -/

mutual

/-- A value that holds nothing but strings, truth values and numbers of 64 bits. -/
def Plain : Json → Prop
  | arr items => ArePlain items
  | obj members _ => HavePlain members
  | nat n => n < UInt64.size
  | null => True
  | bool _ => True
  | str _ => True
  | real _ => False
  | unreadable => False

/-- All items are plain. -/
def ArePlain : List Json → Prop
  | [] => True
  | item :: rest => Plain item ∧ ArePlain rest

/-- The values of all members are plain. -/
def HavePlain : List (String × Json) → Prop
  | [] => True
  | (_, value) :: rest => Plain value ∧ HavePlain rest

end

mutual

/-- How many arrays and objects of a value lie inside each other. -/
def depth : Json → Nat
  | arr items => depthOfItems items + 1
  | obj members _ => depthOfMembers members + 1
  | null => 0
  | bool _ => 0
  | nat _ => 0
  | real _ => 0
  | str _ => 0
  | unreadable => 0

/-- The depth of the deepest item. -/
def depthOfItems : List Json → Nat
  | [] => 0
  | item :: rest => max (depth item) (depthOfItems rest)

/-- The depth of the deepest value of a member. -/
def depthOfMembers : List (String × Json) → Nat
  | [] => 0
  | (_, value) :: rest => max (depth value) (depthOfMembers rest)

end

mutual

/-- A value as it is read with `room` levels to go: what lies deeper is unreadable. -/
def clip (room : Nat) : Json → Json
  | arr items => nested room (arr (clipItems (room - 1) items))
  | obj members escaped => nested room (obj (clipMembers (room - 1) members) escaped)
  | null => null
  | bool b => bool b
  | nat n => nat n
  | real lexeme => real lexeme
  | str s => str s
  | unreadable => unreadable

/-- Items as they are read with `room` levels to go. -/
def clipItems (room : Nat) : List Json → List Json
  | [] => []
  | item :: rest => clip room item :: clipItems room rest

/-- Members as they are read with `room` levels to go. -/
def clipMembers (room : Nat) : List (String × Json) → List (String × Json)
  | [] => []
  | (name, value) :: rest => (name, clip room value) :: clipMembers room rest

end

theorem plain_arr {items : List Json} : Plain (arr items) ↔ ∀ item ∈ items, Plain item := by
  rw [Plain]
  induction items with
  | nil => simp [ArePlain]
  | cons item rest ih => simp [ArePlain, ih]

theorem plain_obj {members : List (String × Json)} {escaped : Bool} :
    Plain (obj members escaped) ↔ ∀ e ∈ members, Plain e.2 := by
  rw [Plain]
  induction members with
  | nil => simp [HavePlain]
  | cons e rest ih => simp [HavePlain, ih]

theorem depth_arr_le {items : List Json} :
    depth (arr items) ≤ room + 1 ↔ ∀ item ∈ items, depth item ≤ room := by
  rw [depth, Nat.add_le_add_iff_right]
  induction items with
  | nil => simp [depthOfItems]
  | cons item rest ih => rw [depthOfItems, Nat.max_le, ih, List.forall_mem_cons]

theorem depth_obj_le {members : List (String × Json)} {escaped : Bool} :
    depth (obj members escaped) ≤ room + 1 ↔ ∀ e ∈ members, depth e.2 ≤ room := by
  rw [depth, Nat.add_le_add_iff_right]
  induction members with
  | nil => simp [depthOfMembers]
  | cons e rest ih => rw [depthOfMembers, Nat.max_le, ih, List.forall_mem_cons]

theorem clipItems_eq (items : List Json) : clipItems room items = items.map (clip room) := by
  induction items with
  | nil => rfl
  | cons item rest ih => simp [clipItems, ih]

theorem clipMembers_eq (members : List (String × Json)) :
    clipMembers room members = members.map (fun e => (e.1, clip room e.2)) := by
  induction members with
  | nil => rfl
  | cons e rest ih => simp [clipMembers, ih]

theorem clip_arr_succ (items : List Json) :
    clip (room + 1) (arr items) = arr (items.map (clip room)) := by
  rw [clip, nested, if_neg (Nat.succ_ne_zero room), Nat.add_sub_cancel, clipItems_eq]

theorem clip_obj_succ (members : List (String × Json)) (escaped : Bool) :
    clip (room + 1) (obj members escaped) =
      obj (members.map (fun e => (e.1, clip room e.2))) escaped := by
  rw [clip, nested, if_neg (Nat.succ_ne_zero room), Nat.add_sub_cancel, clipMembers_eq]

theorem isReadable_arr {items : List Json} :
    (arr items).isReadable = true ↔ ∀ item ∈ items, item.isReadable = true := by
  rw [isReadable]
  induction items with
  | nil => simp [areReadable]
  | cons item rest ih => simp [areReadable, ih]

theorem isReadable_obj {members : List (String × Json)} {escaped : Bool} :
    (obj members escaped).isReadable = true ↔ ∀ e ∈ members, e.2.isReadable = true := by
  rw [isReadable]
  induction members with
  | nil => simp [haveReadable]
  | cons e rest ih => simp [haveReadable, ih]

/-- Induction over a value, through the items of arrays and the members of objects. -/
theorem levels {motive : Json → Prop} (scalar : ∀ v, depth v = 0 → motive v)
    (array : ∀ items, (∀ item ∈ items, motive item) → motive (arr items))
    (object : ∀ members escaped, (∀ e ∈ members, motive e.2) → motive (obj members escaped)) :
    ∀ v, motive v
  | arr items => array items fun item _ => levels scalar array object item
  | obj members escaped =>
    object members escaped fun ⟨_, value⟩ _ => levels scalar array object value
  | null => scalar null rfl
  | bool b => scalar (bool b) rfl
  | nat n => scalar (nat n) rfl
  | real lexeme => scalar (real lexeme) rfl
  | str s => scalar (str s) rfl
  | unreadable => scalar unreadable rfl
termination_by v => sizeOf v
decreasing_by
  · have hitem := List.sizeOf_lt_of_mem ‹_›
    simp only [arr.sizeOf_spec]
    omega
  · have he := List.sizeOf_lt_of_mem ‹_›
    simp only [obj.sizeOf_spec, Prod.mk.sizeOf_spec] at he ⊢
    omega

/-- Where there is room for all its levels, a value stays as it is. -/
theorem clip_of_depth_le {v : Json} : ∀ {room : Nat}, depth v ≤ room → clip room v = v := by
  induction v using levels with
  | scalar v h => cases v <;> first | exact fun _ => rfl | cases h
  | array items ih =>
    intro room h
    cases room with
    | zero => cases h
    | succ room =>
      rw [clip_arr_succ,
        List.map_congr_left fun item hitem => ih item hitem (depth_arr_le.1 h item hitem)]
      simp
  | object members escaped ih =>
    intro room h
    cases room with
    | zero => cases h
    | succ room =>
      rw [clip_obj_succ, List.map_congr_left fun e he => by rw [ih e he (depth_obj_le.1 h e he)]]
      simp

theorem depth_reread_le {v : Json} : ∀ {room : Nat}, depth v.reread ≤ room ↔ depth v ≤ room := by
  induction v using levels with
  | scalar v h => cases v <;> first | exact Iff.rfl | cases h
  | array items ih =>
    intro room
    cases room with
    | zero => simp [reread, depth]
    | succ room =>
      rw [reread, rereadItems_eq, depth_arr_le, depth_arr_le, List.forall_mem_map]
      exact forall₂_congr fun item hitem => ih item hitem
  | object members escaped ih =>
    intro room
    cases room with
    | zero => simp [reread, depth]
    | succ room =>
      rw [reread, rereadMembers_eq, depth_obj_le, depth_obj_le, List.forall_mem_map]
      exact forall₂_congr fun e he => ih e he

theorem clip_reread {v : Json} (h : depth v ≤ room) : clip room v.reread = v.reread :=
  clip_of_depth_le (depth_reread_le.2 h)

/-- To be printable is to be plain and not too deep. -/
theorem printable_iff {v : Json} : ∀ {room : Nat}, Printable room v ↔ Plain v ∧ depth v ≤ room := by
  induction v using levels with
  | scalar v h =>
    intro room
    cases v <;> first | (cases room <;> simp [Printable, Plain, depth]; done) | cases h
  | array items ih =>
    intro room
    cases room with
    | zero => simp [Printable, depth]
    | succ room =>
      simp only [printable_arr, plain_arr, depth_arr_le, ← forall_and]
      exact forall₂_congr fun item hitem => ih item hitem
  | object members escaped ih =>
    intro room
    cases room with
    | zero => simp [Printable, depth]
    | succ room =>
      simp only [printable_obj, plain_obj, depth_obj_le, ← forall_and]
      exact forall₂_congr fun e he => ih e he

/-- What is plain stands for something in all its parts when it is read back. -/
theorem isReadable_reread {v : Json} : Plain v → v.reread.isReadable = true := by
  induction v using levels with
  | scalar v h => cases v <;> first | exact fun _ => rfl | exact False.elim | cases h
  | array items ih =>
    rw [plain_arr, reread, rereadItems_eq, isReadable_arr, List.forall_mem_map]
    exact fun h item hitem => ih item hitem (h item hitem)
  | object members escaped ih =>
    rw [plain_obj, reread, rereadMembers_eq, isReadable_obj, List.forall_mem_map]
    exact fun h e he => ih e he (h e he)

/-- A clipped value is readable only if nothing was clipped. -/
theorem depth_le_of_isReadable {v : Json} : ∀ {room : Nat}, (clip room v).isReadable = true →
    depth v ≤ room := by
  induction v using levels with
  | scalar v h => exact fun _ => h ▸ Nat.zero_le _
  | array items ih =>
    intro room h
    cases room with
    | zero => cases h
    | succ room =>
      rw [clip_arr_succ, isReadable_arr, List.forall_mem_map] at h
      exact depth_arr_le.2 fun item hitem => ih item hitem (h item hitem)
  | object members escaped ih =>
    intro room h
    cases room with
    | zero => cases h
    | succ room =>
      rw [clip_obj_succ, isReadable_obj, List.forall_mem_map] at h
      exact depth_obj_le.2 fun e he => ih e he (h e he)

end Json
end BlockStack
