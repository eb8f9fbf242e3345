import BlockStack.Proofs.JsonLevels

/-!
# BlockStack.Proofs.JsonNesting

How deep a text of JSON nests, told from its characters alone.

* `Json.nesting`: how many brackets and braces are open at once, strings apart.
* `Json.nesting_compact`: for a plain value that is printed, this is the depth of the value.
-/

namespace BlockStack
namespace Json

/-- Where a character of a text stands. -/
inductive Spot where
  | bare
  | quoted
  | escaped
  deriving DecidableEq, Repr

/-- What is known of a text up to some character. -/
structure Scan where
  spot : Spot := .bare
  level : Nat := 0
  deepest : Nat := 0
  deriving DecidableEq, Repr

/-- Go on by one character: brackets and braces count where they are not part of a string. -/
def Scan.step (scan : Scan) (c : Char) : Scan :=
  match scan.spot with
  | .escaped => { scan with spot := .quoted }
  | .quoted =>
    if c = '\\' then { scan with spot := .escaped }
    else if c = '"' then { scan with spot := .bare }
    else scan
  | .bare =>
    if c = '"' then { scan with spot := .quoted }
    else if c = '[' ∨ c = '\x7b' then
      { scan with level := scan.level + 1, deepest := max scan.deepest (scan.level + 1) }
    else if c = ']' ∨ c = '\x7d' then { scan with level := scan.level - 1 }
    else scan

/-- Go on by some characters. -/
def Scan.run (scan : Scan) (cs : List Char) : Scan := cs.foldl Scan.step scan

/-- How many arrays and objects are open at once in a text. -/
def nesting (text : String) : Nat := (Scan.run {} text.toList).deepest

namespace Scan

variable {scan : Scan} {level deepest : Nat}

@[simp] theorem run_nil : scan.run [] = scan := rfl

@[simp] theorem run_cons (c : Char) (cs : List Char) : scan.run (c :: cs) = (scan.step c).run cs :=
  rfl

@[simp] theorem run_append (cs ds : List Char) : scan.run (cs ++ ds) = (scan.run cs).run ds :=
  List.foldl_append

/-! ## Strings and numbers -/

theorem step_hexDigit {n : Nat} (hn : n < 16) :
    step ⟨.quoted, level, deepest⟩ (hexDigit n) = ⟨.quoted, level, deepest⟩ := by
  have hdigit : ∀ n, n < 16 → hexDigit n ≠ '\\' ∧ hexDigit n ≠ '"' := by decide
  simp [step, hdigit n hn]

/-- What stands for a character in a string leaves the string open. -/
theorem run_escape (c : Char) :
    run ⟨.quoted, level, deepest⟩ (escape c) = ⟨.quoted, level, deepest⟩ := by
  by_cases hquote : c = '"'
  · subst hquote
    rfl
  by_cases hslash : c = '\\'
  · subst hslash
    rfl
  unfold escape
  rw [if_neg hquote, if_neg hslash]
  split
  · rfl
  split
  · rfl
  split
  · rfl
  split
  · rfl
  split
  · rfl
  split
  · have hhigh := @step_hexDigit level deepest (c.toNat / 16) (by omega)
    have hlow := @step_hexDigit level deepest (c.toNat % 16) (by omega)
    simp only [run_cons, run_nil]
    show (step (step ⟨.quoted, level, deepest⟩ _) _) = _
    rw [hhigh, hlow]
  · simp [step, hquote, hslash]

theorem run_quote (s : String) :
    run ⟨.bare, level, deepest⟩ (quote s) = ⟨.bare, level, deepest⟩ := by
  have hinside : run ⟨.quoted, level, deepest⟩ (s.toList.flatMap escape) =
      ⟨.quoted, level, deepest⟩ := by
    induction s.toList with
    | nil => rfl
    | cons c cs ih => rw [List.flatMap_cons, run_append, run_escape, ih]
  rw [quote, run_append]
  show run (run ⟨.quoted, level, deepest⟩ _) _ = _
  rw [hinside]
  rfl

/-- The name of a member does not count. -/
theorem run_name (name : String) (cs : List Char) :
    run ⟨.bare, level, deepest⟩ (quote name ++ ':' :: cs) = run ⟨.bare, level, deepest⟩ cs := by
  rw [run_append, run_quote]
  rfl

theorem run_digits {digits : List Char} (hdigits : ∀ c ∈ digits, c.isDigit = true) :
    run ⟨.bare, level, deepest⟩ digits = ⟨.bare, level, deepest⟩ := by
  induction digits with
  | nil => rfl
  | cons c cs ih =>
    have hne : ∀ d : Char, d.isDigit = false → c ≠ d := by
      rintro d hd rfl
      rw [hdigits c List.mem_cons_self] at hd
      cases hd
    have hstep : step ⟨.bare, level, deepest⟩ c = ⟨.bare, level, deepest⟩ := by
      simp [step, hne '"' rfl, hne '[' rfl, hne '\x7b' rfl, hne ']' rfl, hne '\x7d' rfl]
    rw [run_cons, hstep]
    exact ih fun d hd => hdigits d (List.mem_cons_of_mem c hd)

/-! ## Values -/

mutual

/-- A value goes as deep as its depth, and closes what it opens. -/
theorem run_write : ∀ (v : Json) {level deepest : Nat}, Plain v → level ≤ deepest →
    run ⟨.bare, level, deepest⟩ (write v) = ⟨.bare, level, max deepest (level + depth v)⟩
  | arr [], _, _, _, _ => rfl
  | arr (item :: rest), level, deepest, ⟨hitem, hrest⟩, h => by
    rw [write, writeItems, run_cons, run_append]
    show run (run ⟨.bare, level + 1, max deepest (level + 1)⟩ _) _ = _
    rw [run_write item hitem (by omega), run_writeMoreItems rest hrest (by omega), depth,
      depthOfItems]
    congr 1
    omega
  | obj [] _, _, _, _, _ => rfl
  | obj ((name, value) :: rest) _, level, deepest, ⟨hvalue, hrest⟩, h => by
    rw [write, writeMembers, run_cons, run_append]
    show run (run ⟨.bare, level + 1, max deepest (level + 1)⟩ _) _ = _
    rw [run_name, run_write value hvalue (by omega), run_writeMoreMembers rest hrest (by omega),
      depth, depthOfMembers]
    congr 1
    omega
  | null, _, _, _, h => by
    rw [depth, Nat.add_zero, Nat.max_eq_left h]
    rfl
  | bool b, _, _, _, h => by
    rw [depth, Nat.add_zero, Nat.max_eq_left h]
    cases b <;> rfl
  | nat n, _, _, _, h => by
    rw [depth, Nat.add_zero, Nat.max_eq_left h]
    exact run_digits fun c hc => Nat.isDigit_of_mem_toDigits (by decide) (by decide) hc
  | str s, _, _, _, h => by
    rw [depth, Nat.add_zero, Nat.max_eq_left h]
    exact run_quote s
  | real _, _, _, hplain, _ => hplain.elim
  | unreadable, _, _, hplain, _ => hplain.elim

theorem run_writeMoreItems : ∀ (items : List Json) {level deepest : Nat}, ArePlain items →
    level + 1 ≤ deepest → run ⟨.bare, level + 1, deepest⟩ (writeMoreItems items) =
      ⟨.bare, level, max deepest (level + 1 + depthOfItems items)⟩
  | [], _, _, _, h => by
    rw [depthOfItems, Nat.add_zero, Nat.max_eq_left h]
    rfl
  | item :: rest, level, deepest, ⟨hitem, hrest⟩, h => by
    rw [writeMoreItems, List.cons_append, run_cons, run_append]
    show run (run ⟨.bare, level + 1, deepest⟩ _) _ = _
    rw [run_write item hitem h, run_writeMoreItems rest hrest (by omega), depthOfItems]
    congr 1
    omega

theorem run_writeMoreMembers : ∀ (members : List (String × Json)) {level deepest : Nat},
    HavePlain members → level + 1 ≤ deepest →
      run ⟨.bare, level + 1, deepest⟩ (writeMoreMembers members) =
        ⟨.bare, level, max deepest (level + 1 + depthOfMembers members)⟩
  | [], _, _, _, h => by
    rw [depthOfMembers, Nat.add_zero, Nat.max_eq_left h]
    rfl
  | (name, value) :: rest, level, deepest, ⟨hvalue, hrest⟩, h => by
    rw [writeMoreMembers, List.cons_append, List.cons_append, run_cons, run_append]
    show run (run ⟨.bare, level + 1, deepest⟩ _) _ = _
    rw [run_name, run_write value hvalue h, run_writeMoreMembers rest hrest (by omega),
      depthOfMembers]
    congr 1
    omega

end

end Scan

/-- A plain value that is printed nests as deep as it is. -/
theorem nesting_compact {v : Json} (h : Plain v) : nesting v.compact = depth v := by
  have hrun := Scan.run_write v h (Nat.le_refl 0)
  rw [nesting, compact, String.toList_ofList, hrun, Nat.zero_add, Nat.max_eq_right (Nat.zero_le _)]

example : nesting (obj [("[", arr [arr [], str "]["])]).compact = 3 := by decide

end Json
end BlockStack
