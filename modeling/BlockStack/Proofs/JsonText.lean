import BlockStack.Json.Fields
import BlockStack.Json.Reader

/-!
# BlockStack.Proofs.JsonText

Strings and numbers as JSON text, with any text behind them.

* `Json.parseString_quote`: a string in quotes reads back as the string.
* `Json.hasEscape_quote`: whether a backslash stands in it.
* `Json.parseNumber_nat`: a number that 64 bits hold reads back as the number.
-/

namespace BlockStack
namespace Json

/-! ## Strings -/

theorem hexValue4?_hexDigit : ∀ n, n < 0x20 →
    hexValue4? '0' '0' (hexDigit (n / 16)) (hexDigit (n % 16)) = some n := by
  decide

/-- An escaped character reads back as the code of the character. -/
theorem codes_escape (c : Char) (cs : List Char) :
    codes (escape c ++ cs) = (codes cs).map (fun r => (c.toNat :: r.1, r.2)) := by
  have named : ∀ letter : Char, letter ≠ 'u' → unescape? letter = some c →
      codes ('\\' :: letter :: cs) = (codes cs).map (fun r => (c.toNat :: r.1, r.2)) := by
    intro letter hu hletter
    rw [codes.eq_4 _ _ (by rintro _ _ _ _ _ rfl; exact absurd rfl hu)]
    rw [hletter]
    cases codes cs <;> rfl
  unfold escape
  split
  · subst_vars
    exact named '"' (by decide) rfl
  split
  · subst_vars
    exact named '\\' (by decide) rfl
  split
  · subst_vars
    exact named 'b' (by decide) rfl
  split
  · subst_vars
    exact named 't' (by decide) rfl
  split
  · subst_vars
    exact named 'n' (by decide) rfl
  split
  · subst_vars
    exact named 'f' (by decide) rfl
  split
  · subst_vars
    exact named 'r' (by decide) rfl
  split
  · rename_i hcontrol
    simp only [List.cons_append, List.nil_append, codes, hexValue4?_hexDigit c.toNat hcontrol]
    cases codes cs <;> rfl
  · rename_i hquote hslash _ _ _ _ _ hcontrol
    rw [List.singleton_append, codes.eq_5 _ _ hquote (by rintro _ _ _ _ _ rfl; exact absurd rfl hslash)
      (by rintro _ _ rfl; exact absurd rfl hslash)]
    simp only [hcontrol, hslash, or_self, if_false]
    cases codes cs <;> rfl

theorem codes_quote (cs rest : List Char) :
    codes (cs.flatMap escape ++ '"' :: rest) = some (cs.map Char.toNat, rest) := by
  induction cs with
  | nil => rfl
  | cons c cs ih =>
    rw [List.flatMap_cons, List.append_assoc, codes_escape, ih]
    rfl

theorem not_surrogate (c : Char) :
    isHighSurrogate c.toNat = false ∧ isLowSurrogate c.toNat = false := by
  have hvalid : c.toNat < 0xD800 ∨ (0xDFFF < c.toNat ∧ c.toNat < 0x110000) := c.valid
  simp only [isHighSurrogate, isLowSurrogate, Bool.and_eq_false_iff, decide_eq_false_iff_not]
  omega

theorem characters_toNat (cs : List Char) : characters (cs.map Char.toNat) = some cs := by
  induction cs with
  | nil => rfl
  | cons c cs ih =>
    obtain ⟨hhigh, hlow⟩ := not_surrogate c
    cases cs with
    | nil => simp [characters, hhigh, hlow]
    | cons d ds =>
      rw [List.map_cons] at ih
      simp [characters, hhigh, hlow, ih]

/-- A string in quotes reads back as the string. -/
theorem parseString_quote (s : String) (rest : List Char) :
    parseString (s.toList.flatMap escape ++ '"' :: rest) = some (some s, rest) := by
  simp only [parseString, codes_quote, characters_toNat, Option.map_some, String.ofList_toList]

/-- Whether a string is spelled with a backslash. -/
def isEscaped (s : String) : Bool := s.toList.any (fun c => escape c ≠ [c])

theorem hasEscape_quote (s : String) (rest : List Char) :
    hasEscape (s.toList.flatMap escape ++ '"' :: rest) = isEscaped s := by
  unfold isEscaped
  induction s.toList with
  | nil => rfl
  | cons c cs ih =>
    rw [List.flatMap_cons, List.append_assoc, List.any_cons]
    by_cases hc : escape c = [c]
    · have hquote : c ≠ '"' := by
        rintro rfl
        exact absurd hc (by decide)
      have hslash : c ≠ '\\' := by
        rintro rfl
        exact absurd hc (by decide)
      rw [hc, List.singleton_append, hasEscape.eq_4 _ _ hquote hslash, ih]
      simp
    · have hslash : ∃ tail, escape c = '\\' :: tail := by
        unfold escape at hc ⊢
        repeat' split at hc
        all_goals first | exact absurd rfl hc | simp_all
      obtain ⟨tail, htail⟩ := hslash
      have hany : decide (escape c ≠ [c]) = true := decide_eq_true hc
      rw [hany, htail]
      rfl

/-! ## Numbers -/

/-- A text does not go on with a number. -/
def Follows (rest : List Char) : Prop := ∀ c, rest.head? = some c → isNumeric c = false

theorem follows_nil : Follows [] := fun _ h => by cases h

theorem follows_cons {c : Char} {rest : List Char} (h : isNumeric c = false) : Follows (c :: rest) :=
  fun _ hc => Option.some.inj hc ▸ h

theorem isNumeric_of_isDigit {c : Char} (h : c.isDigit = true) : isNumeric c = true := by
  simp [isNumeric, h]

theorem spanDigits_append {digits rest : List Char} (hdigits : ∀ c ∈ digits, c.isDigit = true)
    (hrest : Follows rest) : spanDigits (digits ++ rest) = (digits, rest) := by
  rw [spanDigits, List.takeWhile_append_of_pos hdigits, List.dropWhile_append_of_pos hdigits]
  cases rest with
  | nil => simp
  | cons c rest =>
    have hc : c.isDigit = false := by
      have := hrest c rfl
      cases hd : c.isDigit with
      | false => rfl
      | true => rw [isNumeric_of_isDigit hd] at this; cases this
    simp [hc]

theorem parseFraction_follows {rest : List Char} (h : Follows rest) :
    parseFraction rest = some ([], rest) := by
  cases rest with
  | nil => rfl
  | cons c rest =>
    unfold parseFraction
    split
    · rename_i heq
      cases heq
      exact absurd (h '.' rfl) (by decide)
    · rfl

theorem parseExponent_follows {rest : List Char} (h : Follows rest) :
    parseExponent rest = some (none, rest) := by
  cases rest with
  | nil => rfl
  | cons c rest =>
    have hc : ¬ (c = 'e' ∨ c = 'E') := by
      rintro (rfl | rfl)
      · exact absurd (h 'e' rfl) (by decide)
      · exact absurd (h 'E' rfl) (by decide)
    simp only [parseExponent, hc, if_false]

theorem le_ofDigitChars (digits : List Char) (init : Nat) :
    init ≤ Nat.ofDigitChars 10 digits init := by
  induction digits generalizing init with
  | nil => simp
  | cons c cs ih =>
    rw [Nat.ofDigitChars_cons]
    exact Nat.le_trans (by omega) (ih _)

/-- Digits of a number that 64 bits hold are all taken into the significand. -/
theorem gather_eq {digits : List Char} : ∀ {init taken : Nat},
    Nat.ofDigitChars 10 digits init < UInt64.size →
    Magnitude.gather init taken digits =
      (Nat.ofDigitChars 10 digits init, taken + digits.length, 0) := by
  induction digits with
  | nil => intro init taken _; rfl
  | cons c cs ih =>
    intro init taken h
    rw [Nat.ofDigitChars_cons] at h ⊢
    have hle := le_ofDigitChars cs (10 * init + (c.toNat - '0'.toNat))
    have hnext : init * 10 + (c.toNat - '0'.toNat) = 10 * init + (c.toNat - '0'.toNat) := by omega
    simp only [Magnitude.gather, hnext]
    rw [if_pos (by omega), ih h, List.length_cons]
    simp only [Prod.mk.injEq, true_and, and_true]
    omega

theorem isFinite_nat {digits : List Char} (h : Nat.ofDigitChars 10 digits 0 < UInt64.size) :
    Magnitude.isFinite digits [] 0 = true := by
  simp [Magnitude.isFinite, gather_eq h, Magnitude.gather, Magnitude.scales]

theorem digitChar_eq_zero : ∀ n, n < 10 → Nat.digitChar n = '0' → n = 0 := by
  decide

/-- Only zero has a zero in front. -/
theorem head?_toDigits {n : Nat} (h : (Nat.toDigits 10 n).head? = some '0') : n = 0 := by
  induction n using Nat.strongRecOn with
  | ind n ih =>
    by_cases hn : n < 10
    · rw [Nat.toDigits_of_lt_base hn] at h
      exact digitChar_eq_zero n hn (Option.some.inj h)
    · have hlong : Nat.toDigits 10 n = Nat.toDigits 10 (n / 10) ++ [Nat.digitChar (n % 10)] :=
        Nat.toDigits_of_base_le (by decide) (by omega)
      have hhead : (Nat.toDigits 10 (n / 10)).head? = some '0' := by
        cases hd : Nat.toDigits 10 (n / 10) with
        | nil => exact absurd hd Nat.toDigits_ne_nil
        | cons c cs => rwa [hlong, hd] at h
      have := ih (n / 10) (by omega) hhead
      omega

/-- A number that 64 bits hold reads back as the number. -/
theorem parseNumber_nat {n : Nat} (hn : n < UInt64.size) {rest : List Char} (hrest : Follows rest) :
    parseNumber (Nat.toDigits 10 n ++ rest) = some (nat n, rest) := by
  have hdigits : ∀ c ∈ Nat.toDigits 10 n, c.isDigit = true :=
    fun c => Nat.isDigit_of_mem_toDigits (by decide) (by decide)
  have hvalue : Nat.ofDigitChars 10 (Nat.toDigits 10 n) 0 = n := Nat.ofDigitChars_ten_toDigits
  have hspan := spanDigits_append hdigits hrest
  cases hd : Nat.toDigits 10 n with
  | nil => exact absurd hd Nat.toDigits_ne_nil
  | cons digit digits =>
    rw [hd] at hdigits hvalue hspan
    have hsign : digit ≠ '-' := by
      rintro rfl
      exact absurd (hdigits '-' List.mem_cons_self) (by decide)
    have hzero : ¬ (digit = '0' ∧ digits ≠ []) := by
      rintro ⟨rfl, hne⟩
      have : n = 0 := head?_toDigits (by rw [hd]; rfl)
      subst this
      rw [Nat.toDigits_zero] at hd
      exact hne (List.cons.inj hd).2.symm
    have hnumber : parseNumber ((digit :: digits) ++ rest) =
        parseUnsigned false ((digit :: digits) ++ rest) ((digit :: digits) ++ rest) := by
      unfold parseNumber
      split
      · rename_i heq
        exact absurd (List.cons.inj heq).1 hsign
      · rfl
    have hfinite : Magnitude.isFinite (digit :: digits) [] 0 = true :=
      isFinite_nat (by rw [hvalue]; exact hn)
    rw [hnumber]
    simp only [parseUnsigned, hspan, hzero, if_false, parseFraction_follows hrest,
      parseExponent_follows hrest, numberValue, Option.getD_none, hfinite, hvalue]
    rfl

end Json
end BlockStack
