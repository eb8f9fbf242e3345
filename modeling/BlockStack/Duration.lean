/-!
# BlockStack.Duration

The text of a time span that is a whole number of milliseconds.

* `Duration.text`: `0ns`, milliseconds below one second, else seconds with at most three decimal
  places and no trailing zero.
-/

namespace BlockStack
namespace Duration

/-- Three decimal places without trailing zeros, after a point; nothing for zero. -/
def fraction (n : Nat) : String :=
  if n = 0 then ""
  else if n % 100 = 0 then s!".{n / 100}"
  else if n % 10 = 0 then (if n < 100 then s!".0{n / 10}" else s!".{n / 10}")
  else if n < 10 then s!".00{n}"
  else if n < 100 then s!".0{n}"
  else s!".{n}"

def text (ms : UInt64) : String :=
  let n := ms.toNat
  if n = 0 then "0ns"
  else if n < 1000 then s!"{n}ms"
  else s!"{n / 1000}" ++ fraction (n % 1000) ++ "s"

end Duration
end BlockStack
