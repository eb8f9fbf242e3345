/-!
# BlockStack.Decimal

Natural numbers as doubles hold and print them.

* `Decimal.nearestDouble`: the nearest number with 53 significant bits, a tie going to the even one.
* `Decimal.shortest`: of the numbers that a double cannot tell from a given one, that with the most
  zeros at its end, and of these the nearest.
* `Decimal.text`: a number as a double prints it, with all its digits and no exponent.
-/

namespace BlockStack
namespace Decimal

/-- The nearest multiple of a unit; a tie goes to the even multiple. -/
def roundTo (unit n : Nat) : Nat :=
  let quotient := n / unit
  let rest := n % unit
  if 2 * rest < unit ∨ (2 * rest = unit ∧ quotient % 2 = 0) then quotient * unit
  else (quotient + 1) * unit

/-- The nearest number that a double holds. -/
def nearestDouble (n : Nat) : Nat :=
  if n < 1 <<< 53 then n else roundTo (1 <<< (n.log2 - 52)) n

/-- The neighbour of a number on the grid of a unit that reads back as the number; the nearer of
two, and the upper one of two that are equally near. -/
def onGrid? (n unit : Nat) : Option Nat :=
  let below := n / unit * unit
  let above := below + unit
  let lower := nearestDouble below = n
  let upper := nearestDouble above = n
  if lower ∧ (upper → n - below < above - n) then some below
  else if upper then some above
  else none

/-- Try the grids of falling powers of ten. -/
def shortestFrom (n : Nat) : (places : Nat) → Nat
  | 0 => n
  | places + 1 =>
    match onGrid? n (Nat.pow 10 (places + 1)) with
    | some short => short
    | none => shortestFrom n places

/-- The number with the most zeros at its end that reads back as a number a double holds. -/
def shortest (n : Nat) : Nat := shortestFrom n (Nat.toDigits 10 n).length

def text (n : Nat) : String := toString (shortest (nearestDouble n))

end Decimal
end BlockStack
