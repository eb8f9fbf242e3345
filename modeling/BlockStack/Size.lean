/-!
# BlockStack.Size

Comparing the size a backend provisioned with the size that was asked for. Backends round up to
their extent size, so an overshoot below a number of extents is tolerated.

* `Sizes.classify`: the verdict, with 64-bit sums and products that stop at the largest value
  (`Sizes.toNat_add`, `Sizes.toNat_mul`).
* `SizeState`: the verdicts; `SizeState.isDrift` holds of those that operators should see.
-/

namespace BlockStack

/-- How a provisioned size relates to the expected one. -/
inductive SizeState where
  | asExpected
  | tooSmall
  | tooLarge
  | tooLargeWithinTolerance
  deriving DecidableEq, Repr, Inhabited

namespace SizeState

def all : List SizeState := [asExpected, tooSmall, tooLarge, tooLargeWithinTolerance]

def name : SizeState → String
  | asExpected => "AS_EXPECTED"
  | tooSmall => "TOO_SMALL"
  | tooLarge => "TOO_LARGE"
  | tooLargeWithinTolerance => "TOO_LARGE_WITHIN_TOLERANCE"

def ofName? (s : String) : Option SizeState := all.find? (fun v => v.name = s)

def display : SizeState → String
  | asExpected => "as-expected"
  | tooSmall => "too-small"
  | tooLarge => "too-large"
  | tooLargeWithinTolerance => "too-large-within-tolerance"

def isDrift : SizeState → Bool
  | tooSmall | tooLarge => true
  | asExpected | tooLargeWithinTolerance => false

theorem ofName?_name (v : SizeState) : ofName? v.name = some v := by
  cases v <;> decide

end SizeState

namespace Sizes

/-- The 64-bit number nearest to a natural number. -/
def clamp (n : Nat) : UInt64 := if n < UInt64.size then UInt64.ofNat n else UInt64.ofNat (UInt64.size - 1)

/-- The sum, or the largest 64-bit number if the sum is beyond it. -/
def add (a b : UInt64) : UInt64 := clamp (a.toNat + b.toNat)

/-- The product, or the largest 64-bit number if the product is beyond it. -/
def mul (a b : UInt64) : UInt64 := clamp (a.toNat * b.toNat)

theorem toNat_clamp (n : Nat) : (clamp n).toNat = min n (UInt64.size - 1) := by
  unfold clamp
  split
  · rename_i h
    rw [UInt64.toNat_ofNat_of_lt' h]
    omega
  · rw [UInt64.toNat_ofNat_of_lt' (by decide)]
    omega

theorem toNat_add (a b : UInt64) : (add a b).toNat = min (a.toNat + b.toNat) (UInt64.size - 1) :=
  toNat_clamp _

theorem toNat_mul (a b : UInt64) : (mul a b).toNat = min (a.toNat * b.toNat) (UInt64.size - 1) :=
  toNat_clamp _

/-- How many extents a volume may overshoot its expected size by unless configured otherwise. -/
def defaultTolerance : UInt64 := 3

/-- The verdict on an actual size; an overshoot below `extent * tolerance` is tolerated. -/
def classify (expected actual extent tolerance : UInt64) : SizeState :=
  if actual = expected then .asExpected
  else if actual < expected then .tooSmall
  else if actual < add expected (mul extent tolerance) then .tooLargeWithinTolerance
  else .tooLarge

end Sizes
end BlockStack
