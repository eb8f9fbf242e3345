import BlockStack.Proofs.JsonLevels

/-!
# BlockStack.Proofs.JsonReading

What is printed is read back.

* `Json.Reads`: a text reads as a value, whatever follows it. One lemma for each form of a value.
* `Json.reads_write`, `Json.reads_layOut`: a plain value of any depth reads back, and what lies too
  deep in it is unreadable.
* `Json.parse_pretty`, `Json.parse_compact`: both printed forms of a printable value read back.
-/

namespace BlockStack
namespace Json

/-! ## Blanks -/

/-- A text of blanks only. -/
def AllBlank (cs : List Char) : Prop := ∀ c ∈ cs, isBlank c = true

theorem allBlank_nil : AllBlank [] := fun _ h => by cases h

theorem allBlank_space : AllBlank [' '] := by simp [AllBlank, isBlank]

theorem allBlank_margin (level : Nat) : AllBlank (margin level) := by
  intro c hc
  rcases List.mem_cons.mp hc with rfl | hc
  · rfl
  · obtain ⟨-, rfl⟩ := List.mem_replicate.mp hc
    rfl

theorem skipBlanks_append {blanks : List Char} (h : AllBlank blanks) (cs : List Char) :
    skipBlanks (blanks ++ cs) = skipBlanks cs :=
  List.dropWhile_append_of_pos h

theorem skipBlanks_cons {c : Char} (h : isBlank c = false) (cs : List Char) :
    skipBlanks (c :: cs) = c :: cs := by
  simp [skipBlanks, h]

theorem skipBlanks_skipBlanks (cs : List Char) : skipBlanks (skipBlanks cs) = skipBlanks cs := by
  induction cs with
  | nil => rfl
  | cons c cs ih =>
    cases hc : isBlank c with
    | true => simpa [skipBlanks, hc] using ih
    | false => rw [skipBlanks_cons hc, skipBlanks_cons hc]

theorem parseValue_skipBlanks (fuel room : Nat) (cs : List Char) :
    parseValue fuel room (skipBlanks cs) = parseValue fuel room cs := by
  cases fuel with
  | zero => simp only [parseValue]
  | succ fuel => simp only [parseValue, skipBlanks_skipBlanks]

theorem parseItems_skipBlanks (fuel room : Nat) (cs : List Char) :
    parseItems fuel room (skipBlanks cs) = parseItems fuel room cs := by
  cases fuel with
  | zero => simp only [parseItems]
  | succ fuel => simp only [parseItems, parseValue_skipBlanks]

theorem parseMembers_skipBlanks (fuel room : Nat) (cs : List Char) :
    parseMembers fuel room (skipBlanks cs) = parseMembers fuel room cs := by
  cases fuel with
  | zero => simp only [parseMembers]
  | succ fuel => simp only [parseMembers, skipBlanks_skipBlanks]

/-! ## Values -/

/-- A text reads as a value with some levels to go, whatever follows that is not part of it. -/
def Reads (room : Nat) (cs : List Char) (v : Json) : Prop :=
  ∀ fuel rest, 2 * cs.length ≤ fuel → Follows rest →
    parseValue (fuel + 1) room (cs ++ rest) = some (v, rest)

/-- A text reads as items up to the closing bracket. -/
def ReadsItems (room : Nat) (cs : List Char) (items : List Json) : Prop :=
  ∀ fuel rest, 2 * cs.length ≤ fuel →
    parseItems (fuel + 1) room (cs ++ rest) = some (items, rest)

/-- A text reads as members up to the closing brace. -/
def ReadsMembers (room : Nat) (cs : List Char) (members : List Member) : Prop :=
  ∀ fuel rest, 2 * cs.length ≤ fuel →
    parseMembers (fuel + 1) room (cs ++ rest) = some (members, rest)

variable {room : Nat} {cs ds blanks : List Char}

theorem Reads.blank {v : Json} (h : Reads room cs v) (hblanks : AllBlank blanks) :
    Reads room (blanks ++ cs) v := by
  intro fuel rest hfuel hrest
  rw [List.length_append] at hfuel
  rw [List.append_assoc, ← parseValue_skipBlanks, skipBlanks_append hblanks, parseValue_skipBlanks]
  exact h fuel rest (by omega) hrest

theorem reads_null : Reads room "null".toList null := by
  intro fuel rest _ _
  rfl

theorem reads_bool (b : Bool) : Reads room (write (bool b)) (bool b) := by
  intro fuel rest _ _
  cases b <;> rfl

theorem reads_str (s : String) : Reads room (quote s) (str s) := by
  intro fuel rest _ _
  have htext : quote s ++ rest = '"' :: (s.toList.flatMap escape ++ '"' :: rest) := by
    simp [quote]
  rw [htext]
  simp only [parseValue, skipBlanks_cons (show isBlank '"' = false from rfl), parseString_quote]

theorem reads_nat {n : Nat} (hn : n < UInt64.size) : Reads room (Nat.toDigits 10 n) (nat n) := by
  intro fuel rest _ hrest
  have hnumber := parseNumber_nat hn hrest
  cases hd : Nat.toDigits 10 n with
  | nil => exact absurd hd Nat.toDigits_ne_nil
  | cons digit digits =>
    have hdigit : digit.isDigit = true :=
      Nat.isDigit_of_mem_toDigits (b := 10) (n := n) (by decide) (by decide) (by rw [hd]; simp)
    have hblank : isBlank digit = false := by
      cases hb : isBlank digit with
      | false => rfl
      | true =>
        simp only [isBlank, Bool.or_eq_true, decide_eq_true_eq] at hb
        rcases hb with ((rfl | rfl) | rfl) | rfl <;> exact absurd hdigit (by decide)
    rw [hd] at hnumber
    unfold parseValue
    rw [List.cons_append, skipBlanks_cons hblank]
    split
    all_goals first
      | exact hnumber
      | (rename_i heq; obtain ⟨rfl, -⟩ := List.cons.inj heq; exact absurd hdigit (by decide))

/-! ## Arrays -/

theorem parseItems_bracket {fuel : Nat} {rest : List Char} (h : skipBlanks cs = ']' :: rest) :
    parseItems fuel room cs = none := by
  cases fuel with
  | zero => simp only [parseItems]
  | succ fuel =>
    have hvalue : parseValue fuel room cs = none := by
      cases fuel with
      | zero => simp only [parseValue]
      | succ fuel =>
        rw [parseValue, h]
        rfl
    simp only [parseItems, hvalue]

theorem reads_arr_nil : Reads room "[]".toList (nested room (arr [])) := by
  intro fuel rest _ _
  rfl

theorem ReadsItems.blank {items : List Json} (h : ReadsItems room cs items)
    (hblanks : AllBlank blanks) : ReadsItems room (blanks ++ cs) items := by
  intro fuel rest hfuel
  rw [List.length_append] at hfuel
  rw [List.append_assoc, ← parseItems_skipBlanks, skipBlanks_append hblanks, parseItems_skipBlanks]
  exact h fuel rest (by omega)

theorem ReadsItems.arr {items : List Json} (h : ReadsItems (room - 1) cs items) :
    Reads room ('[' :: cs) (nested room (arr items)) := by
  intro fuel rest hfuel _
  rw [List.length_cons] at hfuel
  obtain ⟨fuel, rfl⟩ : ∃ f, fuel = f + 1 := ⟨fuel - 1, by omega⟩
  have hitems := h fuel rest (by omega)
  -- a bracket right behind the first one would end an empty array, and items never start with one
  have hbracket : ∀ tail, skipBlanks (cs ++ rest) ≠ ']' :: tail := by
    intro tail hskip
    rw [parseItems_bracket hskip] at hitems
    cases hitems
  rw [← parseItems_skipBlanks] at hitems
  simp only [List.cons_append, parseValue, skipBlanks_cons (show isBlank '[' = false from rfl)]
  rw [hitems]

theorem follows_blank {c : Char} (hblanks : AllBlank blanks) (hc : isNumeric c = false)
    (rest : List Char) : Follows (blanks ++ c :: rest) := by
  cases blanks with
  | nil => exact follows_cons hc
  | cons b blanks =>
    refine follows_cons ?_
    have hb := hblanks b List.mem_cons_self
    simp only [isBlank, Bool.or_eq_true, decide_eq_true_eq] at hb
    rcases hb with ((rfl | rfl) | rfl) | rfl <;> rfl

theorem Reads.last {v : Json} (h : Reads room cs v) (hblanks : AllBlank blanks) :
    ReadsItems room (cs ++ blanks ++ [']']) [v] := by
  intro fuel rest hfuel
  simp only [List.length_append, List.length_cons, List.length_nil] at hfuel
  obtain ⟨fuel, rfl⟩ : ∃ f, fuel = f + 1 := ⟨fuel - 1, by omega⟩
  have hvalue := h fuel (blanks ++ ']' :: rest) (by omega) (follows_blank hblanks rfl rest)
  have htext : cs ++ blanks ++ [']'] ++ rest = cs ++ (blanks ++ ']' :: rest) := by simp
  simp only [parseItems, htext, hvalue, skipBlanks_append hblanks,
    skipBlanks_cons (show isBlank ']' = false from rfl)]

theorem Reads.more {v : Json} {items : List Json} (h : Reads room cs v)
    (hitems : ReadsItems room ds items) : ReadsItems room (cs ++ ',' :: ds) (v :: items) := by
  intro fuel rest hfuel
  simp only [List.length_append, List.length_cons] at hfuel
  obtain ⟨fuel, rfl⟩ : ∃ f, fuel = f + 1 := ⟨fuel - 1, by omega⟩
  have hvalue := h fuel (',' :: (ds ++ rest)) (by omega) (follows_cons rfl)
  have htext : cs ++ ',' :: ds ++ rest = cs ++ (',' :: (ds ++ rest)) := by simp
  rw [htext, parseItems, hvalue]
  simp only [skipBlanks_cons (show isBlank ',' = false from rfl), hitems fuel rest (by omega)]

/-! ## Objects -/

/-- The member that a name in quotes and a value read as. -/
def readMember (name : String) (v : Json) : Member := { name, escaped := isEscaped name, value := v }

theorem reads_obj_nil : Reads room ['\x7b', '\x7d'] (nested room (obj [])) := by
  intro fuel rest _ _
  rfl

theorem parseMembers_brace {fuel : Nat} {rest : List Char} (h : skipBlanks cs = '\x7d' :: rest) :
    parseMembers fuel room cs = none := by
  cases fuel with
  | zero => simp only [parseMembers]
  | succ fuel => simp [parseMembers, h]

theorem ReadsMembers.blank {members : List Member} (h : ReadsMembers room cs members)
    (hblanks : AllBlank blanks) : ReadsMembers room (blanks ++ cs) members := by
  intro fuel rest hfuel
  rw [List.length_append] at hfuel
  rw [List.append_assoc, ← parseMembers_skipBlanks, skipBlanks_append hblanks,
    parseMembers_skipBlanks]
  exact h fuel rest (by omega)

theorem ReadsMembers.obj {members : List Member} (h : ReadsMembers (room - 1) cs members) :
    Reads room ('\x7b' :: cs) (nested room (ofMembers members)) := by
  intro fuel rest hfuel _
  rw [List.length_cons] at hfuel
  obtain ⟨fuel, rfl⟩ : ∃ f, fuel = f + 1 := ⟨fuel - 1, by omega⟩
  have hmembers := h fuel rest (by omega)
  have hbrace : ∀ tail, skipBlanks (cs ++ rest) ≠ '\x7d' :: tail := by
    intro tail hskip
    rw [parseMembers_brace hskip] at hmembers
    cases hmembers
  rw [← parseMembers_skipBlanks] at hmembers
  simp only [List.cons_append, parseValue, skipBlanks_cons (show isBlank '\x7b' = false from rfl)]
  rw [hmembers]

theorem Reads.lastMember {v : Json} (h : Reads room cs v) (name : String)
    (hblanks : AllBlank blanks) :
    ReadsMembers room (quote name ++ ':' :: cs ++ blanks ++ ['\x7d']) [readMember name v] := by
  intro fuel rest hfuel
  simp only [List.length_append, List.length_cons, List.length_nil] at hfuel
  obtain ⟨fuel, rfl⟩ : ∃ f, fuel = f + 1 := ⟨fuel - 1, by omega⟩
  have hvalue := h fuel (blanks ++ '\x7d' :: rest) (by omega) (follows_blank hblanks rfl rest)
  have htext : quote name ++ ':' :: cs ++ blanks ++ ['\x7d'] ++ rest =
      '"' :: (name.toList.flatMap escape ++ '"' :: ':' :: (cs ++ (blanks ++ '\x7d' :: rest))) := by
    simp [quote]
  rw [htext, parseMembers]
  simp only [skipBlanks_cons (show isBlank '"' = false from rfl), parseString_quote,
    skipBlanks_cons (show isBlank ':' = false from rfl), hvalue, skipBlanks_append hblanks,
    skipBlanks_cons (show isBlank '\x7d' = false from rfl), hasEscape_quote]
  rfl

theorem Reads.moreMembers {v : Json} {members : List Member} (h : Reads room cs v) (name : String)
    (hmembers : ReadsMembers room ds members) :
    ReadsMembers room (quote name ++ ':' :: cs ++ ',' :: ds) (readMember name v :: members) := by
  intro fuel rest hfuel
  simp only [List.length_append, List.length_cons] at hfuel
  obtain ⟨fuel, rfl⟩ : ∃ f, fuel = f + 1 := ⟨fuel - 1, by omega⟩
  have hvalue := h fuel (',' :: (ds ++ rest)) (by omega) (follows_cons rfl)
  have htext : quote name ++ ':' :: cs ++ ',' :: ds ++ rest =
      '"' :: (name.toList.flatMap escape ++ '"' :: ':' :: (cs ++ ',' :: (ds ++ rest))) := by
    simp [quote]
  rw [htext, parseMembers]
  simp only [skipBlanks_cons (show isBlank '"' = false from rfl), parseString_quote,
    skipBlanks_cons (show isBlank ':' = false from rfl), hvalue,
    skipBlanks_cons (show isBlank ',' = false from rfl), hmembers fuel rest (by omega),
    hasEscape_quote]
  rfl

/-! ## The members of an object -/

/-- Members read as the object of them. -/
theorem ofMembers_readMember (f : Json → Json) (members : List (String × Json)) :
    ofMembers (members.map (fun e => readMember e.1 (f e.2))) =
      obj (members.map (fun e => (e.1, f e.2))) (members.any (fun e => isEscaped e.1)) := by
  have hnames : (members.map (fun e => readMember e.1 (f e.2))).mapM
      (fun member => member.name.map (·, member.value)) =
      some (members.map (fun e => (e.1, f e.2))) := by
    induction members with
    | nil => rfl
    | cons e rest ih =>
      rw [List.map_cons, List.mapM_cons, ih]
      rfl
  have hescaped : (members.map (fun e => readMember e.1 (f e.2))).any (·.escaped) =
      members.any (fun e => isEscaped e.1) := by
    rw [List.any_map]
    rfl
  simp only [ofMembers, hnames, hescaped]

/-- Members read as what is left of the object of them. -/
theorem ofMembers_clip (members : List (String × Json)) (escaped : Bool) :
    nested room (ofMembers (members.map (fun e => readMember e.1 (clip (room - 1) e.2.reread)))) =
      clip room (obj members escaped).reread := by
  rw [ofMembers_readMember (fun v => clip (room - 1) v.reread), reread, clip, clipMembers_eq,
    rereadMembers_eq, List.map_map]
  rfl

/-! ## The two forms -/

theorem layOut_arr (level : Nat) (item : Json) (rest : List Json) :
    layOut level (arr (item :: rest)) =
      '[' :: (margin (level + 1) ++ (layOut (level + 1) item ++ layOutItems level rest)) :=
  List.append_assoc ..

theorem layOut_obj (level : Nat) (name : String) (value : Json) (rest : List (String × Json))
    (escaped : Bool) : layOut level (obj ((name, value) :: rest) escaped) =
      '\x7b' :: (margin (level + 1) ++
        (quote name ++ ':' :: ([' '] ++ layOut (level + 1) value) ++ layOutMembers level rest)) := by
  show '\x7b' :: margin (level + 1) ++ quote name ++ ':' :: ' ' :: layOut (level + 1) value ++
    layOutMembers level rest = _
  simp

theorem layOutItems_nil (level : Nat) : layOutItems level [] = margin level ++ [']'] := rfl

theorem layOutItems_cons (level : Nat) (item : Json) (rest : List Json) :
    layOutItems level (item :: rest) =
      ',' :: (margin (level + 1) ++ (layOut (level + 1) item ++ layOutItems level rest)) :=
  List.append_assoc ..

theorem layOutMembers_nil (level : Nat) : layOutMembers level [] = margin level ++ ['\x7d'] := rfl

theorem layOutMembers_cons (level : Nat) (name : String) (value : Json)
    (rest : List (String × Json)) : layOutMembers level ((name, value) :: rest) =
      ',' :: (margin (level + 1) ++
        (quote name ++ ':' :: ([' '] ++ layOut (level + 1) value) ++ layOutMembers level rest)) := by
  show ',' :: margin (level + 1) ++ quote name ++ ':' :: ' ' :: layOut (level + 1) value ++
    layOutMembers level rest = _
  simp

mutual

/-- A value in lines reads back as far as there is room, by recursion on the value. -/
theorem reads_layOut (level : Nat) : ∀ (v : Json) (room : Nat), Plain v →
    Reads room (layOut level v) (clip room v.reread)
  | arr [], _, _ => reads_arr_nil
  | arr (item :: rest), room, ⟨hitem, hrest⟩ => by
    have hitems := readsItems_layOut level rest (room - 1) hrest
      (reads_layOut (level + 1) item (room - 1) hitem)
    rw [layOut_arr]
    exact (hitems.blank (allBlank_margin (level + 1))).arr
  | obj [] _, _, _ => reads_obj_nil
  | obj ((name, value) :: rest) escaped, room, ⟨hvalue, hrest⟩ => by
    have hmembers := readsMembers_layOut level rest (room - 1) hrest name
      ((reads_layOut (level + 1) value (room - 1) hvalue).blank allBlank_space)
    rw [layOut_obj, ← ofMembers_clip]
    exact (hmembers.blank (allBlank_margin (level + 1))).obj
  | null, _, _ => reads_null
  | bool true, _, _ => reads_bool true
  | bool false, _, _ => reads_bool false
  | nat _, _, h => reads_nat h
  | str s, _, _ => reads_str s
  | real _, _, h => h.elim
  | unreadable, _, h => h.elim

theorem readsItems_layOut (level : Nat) : ∀ (items : List Json) (room : Nat),
    ArePlain items → ∀ {cs : List Char} {v : Json}, Reads room cs v →
      ReadsItems room (cs ++ layOutItems level items) (v :: clipItems room (rereadItems items))
  | [], room, _, cs, v, h => by
    rw [layOutItems_nil, ← List.append_assoc]
    exact h.last (allBlank_margin level)
  | item :: rest, room, ⟨hitem, hrest⟩, cs, v, h => by
    have hitems := readsItems_layOut level rest room hrest
      (reads_layOut (level + 1) item room hitem)
    rw [layOutItems_cons]
    exact h.more (hitems.blank (allBlank_margin (level + 1)))

theorem readsMembers_layOut (level : Nat) : ∀ (members : List (String × Json)) (room : Nat),
    HavePlain members → ∀ (name : String) {cs : List Char} {v : Json}, Reads room cs v →
      ReadsMembers room (quote name ++ ':' :: cs ++ layOutMembers level members)
        (readMember name v :: members.map (fun e => readMember e.1 (clip room e.2.reread)))
  | [], room, _, name, cs, v, h => by
    rw [layOutMembers_nil, ← List.append_assoc]
    exact h.lastMember name (allBlank_margin level)
  | (other, value) :: rest, room, ⟨hvalue, hrest⟩, name, cs, v, h => by
    have hmembers := readsMembers_layOut level rest room hrest other
      ((reads_layOut (level + 1) value room hvalue).blank allBlank_space)
    rw [layOutMembers_cons]
    exact h.moreMembers name (hmembers.blank (allBlank_margin (level + 1)))

end

mutual

/-- A value without blanks reads back as far as there is room, by recursion on the value. -/
theorem reads_write : ∀ (v : Json) (room : Nat), Plain v →
    Reads room (write v) (clip room v.reread)
  | arr [], _, _ => reads_arr_nil
  | arr (item :: rest), room, ⟨hitem, hrest⟩ =>
    (readsItems_write rest (room - 1) hrest (reads_write item (room - 1) hitem)).arr
  | obj [] _, _, _ => reads_obj_nil
  | obj ((name, value) :: rest) escaped, room, ⟨hvalue, hrest⟩ => by
    rw [← ofMembers_clip]
    exact (readsMembers_write rest (room - 1) hrest name
      (reads_write value (room - 1) hvalue)).obj
  | null, _, _ => reads_null
  | bool true, _, _ => reads_bool true
  | bool false, _, _ => reads_bool false
  | nat _, _, h => reads_nat h
  | str s, _, _ => reads_str s
  | real _, _, h => h.elim
  | unreadable, _, h => h.elim

theorem readsItems_write : ∀ (items : List Json) (room : Nat), ArePlain items →
    ∀ {cs : List Char} {v : Json}, Reads room cs v →
      ReadsItems room (cs ++ writeMoreItems items) (v :: clipItems room (rereadItems items))
  | [], room, _, cs, v, h => by
    have hlast := h.last allBlank_nil
    rwa [List.append_nil] at hlast
  | item :: rest, room, ⟨hitem, hrest⟩, cs, v, h => by
    exact h.more (readsItems_write rest room hrest (reads_write item room hitem))

theorem readsMembers_write : ∀ (members : List (String × Json)) (room : Nat),
    HavePlain members → ∀ (name : String) {cs : List Char} {v : Json}, Reads room cs v →
      ReadsMembers room (quote name ++ ':' :: cs ++ writeMoreMembers members)
        (readMember name v :: members.map (fun e => readMember e.1 (clip room e.2.reread)))
  | [], room, _, name, cs, v, h => by
    have hlast := h.lastMember name allBlank_nil
    rwa [List.append_nil] at hlast
  | (other, value) :: rest, room, ⟨hvalue, hrest⟩, name, cs, v, h => by
    exact h.moreMembers name
      (readsMembers_write rest room hrest other (reads_write value room hvalue))

end

theorem Reads.parse {s : String} {v : Json} (h : Reads maxDepth s.toList v) : parse s = some v := by
  have hvalue := h (2 * s.toList.length + 1) [] (by omega) follows_nil
  rw [List.append_nil] at hvalue
  simp only [Json.parse, hvalue]
  rfl

/-- What is printed in lines reads back. -/
theorem parse_pretty {v : Json} (h : Printable maxDepth v) : parse v.pretty = some v.reread := by
  obtain ⟨hplain, hdepth⟩ := printable_iff.1 h
  refine Reads.parse ?_
  rw [pretty, String.toList_ofList, ← clip_reread hdepth]
  exact reads_layOut 0 v maxDepth hplain

/-- What is printed without blanks reads back, and what lies too deep is unreadable. -/
theorem parse_compact_clip {v : Json} (h : Plain v) :
    parse v.compact = some (clip maxDepth v.reread) := by
  refine Reads.parse ?_
  rw [compact, String.toList_ofList]
  exact reads_write v maxDepth h

/-- What is printed without blanks reads back. -/
theorem parse_compact {v : Json} (h : Printable maxDepth v) : parse v.compact = some v.reread := by
  obtain ⟨hplain, hdepth⟩ := printable_iff.1 h
  rw [parse_compact_clip hplain, clip_reread hdepth]

end Json
end BlockStack
