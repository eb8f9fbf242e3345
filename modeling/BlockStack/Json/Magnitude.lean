import BlockStack.Decimal

/-!
# BlockStack.Json.Magnitude

Which numbers with a fraction or an exponent are in the range of doubles.

* `Magnitude.gather`: the digits that a significand of 64 bits takes, and how many are left.
* `Magnitude.isFinite`: whether the significand times its power of ten is in range. Both factors
  and the product are rounded to doubles.
-/

namespace BlockStack
namespace Magnitude

/-- Take digits into a significand as long as 64 bits hold it; the number of digits taken, and of
those left over. -/
def gather (significand taken : Nat) : List Char → Nat × Nat × Nat
  | [] => (significand, taken, 0)
  | digit :: rest =>
    let next := significand * 10 + (digit.toNat - '0'.toNat)
    if next < UInt64.size then gather next (taken + 1) rest else (significand, taken, rest.length + 1)

/-- The least number that rounds to no double. -/
def overflow : Nat := (1 <<< 1024) - (1 <<< 970)

/-- Whether a significand times a power of ten is in the range of doubles. -/
def scales (significand : Nat) (exponent : Int) : Bool :=
  if significand = 0 || exponent ≤ 0 then true
  else if 308 < exponent then false
  else
    Decimal.nearestDouble significand * Decimal.nearestDouble (Nat.pow 10 exponent.toNat) < overflow

/-- Whether a number of some digits, decimal places and an exponent is in the range of doubles. -/
def isFinite (digits places : List Char) (exponent : Int) : Bool :=
  let (whole, _, dropped) := gather 0 0 digits
  let (significand, taken, _) := gather whole 0 places
  scales significand (dropped - taken + exponent)

end Magnitude
end BlockStack
