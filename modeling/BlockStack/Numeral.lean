/-!
# BlockStack.Numeral

Numbers in plain text, as they stand on a command line or in a variable.

* `Numeral.read?`: the number that decimal digits stand for, with or without a plus sign in front
  (`Numeral.read?_toString`).
-/

namespace BlockStack
namespace Numeral

/-- The digits of a text behind its plus sign, if it has one. -/
def digitsOf (s : String) : List Char :=
  match s.toList with
  | '+' :: digits => digits
  | digits => digits

/-- The number that decimal digits stand for, with or without a plus sign in front. -/
def read? (s : String) : Option Nat :=
  let digits := digitsOf s
  if digits.isEmpty || !digits.all Char.isDigit then none
  else some (Nat.ofDigitChars 10 digits 0)

theorem digitsOf_toString (n : Nat) : digitsOf (toString n) = Nat.toDigits 10 n := by
  have hlist : (toString n).toList = Nat.toDigits 10 n := by simp
  unfold digitsOf
  rw [hlist]
  split
  · rename_i rest h
    have hmem : '+' ∈ Nat.toDigits 10 n := by rw [h]; exact .head _
    have := Nat.isDigit_of_mem_toDigits (by decide) (by decide) hmem
    simp at this
  · rfl

/-- The text of a number reads back as the number. -/
theorem read?_toString (n : Nat) : read? (toString n) = some n := by
  have hall : (Nat.toDigits 10 n).all Char.isDigit = true := by
    rw [List.all_eq_true]
    intro c hc
    exact Nat.isDigit_of_mem_toDigits (by decide) (by decide) hc
  simp only [read?, digitsOf_toString, hall]
  simp [Nat.ofDigitChars_ten_toDigits]

/-- The number in a text, if 64 bits hold it. -/
def read64? (s : String) : Option UInt64 :=
  (read? s).bind (fun n => if n < UInt64.size then some (UInt64.ofNat n) else none)

end Numeral
end BlockStack
