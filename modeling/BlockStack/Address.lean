/-!
# BlockStack.Address

Which texts are addresses of servers: an IPv4 address, or an IPv6 address in square brackets, then
a colon and a port.

* `Address.number`: a number below a bound, with a limit on its digits.
* `Address.v4`, `Address.v6`: the two kinds of addresses. An address of the second kind has eight
  groups; two colons stand for groups that are left out, and its end may be an IPv4 address.
* `Address.isSocketAddress`: the whole rule.

All readers tell what is left of the text.
-/

namespace BlockStack
namespace Address

/-- What is left after a text was read from the start of another. -/
abbrev Rest := Option (List Char)

/-- The digits of a number at the start of a text, and what is left. -/
def digits (base : Nat) (cs : List Char) : List Char × List Char :=
  let isDigit (c : Char) : Bool :=
    c.isDigit || (base = 16 && (('a' ≤ c && c ≤ 'f') || ('A' ≤ c && c ≤ 'F')))
  (cs.takeWhile isDigit, cs.dropWhile isDigit)

def digitValue (c : Char) : Nat :=
  if c.isDigit then c.toNat - '0'.toNat else c.toLower.toNat - 'a'.toNat + 10

def valueOf (base : Nat) (ds : List Char) : Nat := ds.foldl (fun n d => n * base + digitValue d) 0

def number (base bound : Nat) (mayStartWithZero : Bool) (maxDigits : Option Nat)
    (cs : List Char) : Rest :=
  let (ds, rest) := digits base cs
  let fits := match maxDigits with
    | some most => ds.length ≤ most
    | none => true
  if !ds.isEmpty && fits && valueOf base ds < bound &&
      (mayStartWithZero || ds.length = 1 || ds.head? ≠ some '0') then some rest
  else none

def char (c : Char) : List Char → Rest
  | c' :: rest => if c' = c then some rest else none
  | [] => none

def octet : List Char → Rest := number 10 256 false (some 3)

def v4 (cs : List Char) : Rest := do
  let cs ← octet cs
  let cs ← char '.' cs
  let cs ← octet cs
  let cs ← char '.' cs
  let cs ← octet cs
  let cs ← char '.' cs
  octet cs

def group : List Char → Rest := number 16 65536 true (some 4)

/-- Read something, after a colon unless it comes first. -/
def separated (isFirst : Bool) (read : List Char → Rest) (cs : List Char) : Rest :=
  if isFirst then read cs else (char ':' cs).bind read

/-- Groups that were read: how many, whether an IPv4 address ends them, and what is left. -/
structure Groups where
  count : Nat
  endsInV4 : Bool
  rest : List Char

/-- Read as many groups as there are, up to a limit. An IPv4 address counts as two. -/
def groups (isFirst : Bool) : (limit : Nat) → List Char → Groups
  | 0, cs => ⟨0, false, cs⟩
  | 1, cs =>
    match separated isFirst group cs with
    | some rest => ⟨1, false, rest⟩
    | none => ⟨0, false, cs⟩
  | limit + 2, cs =>
    match separated isFirst v4 cs with
    | some rest => ⟨2, true, rest⟩
    | none =>
      match separated isFirst group cs with
      | some rest =>
        let more := groups false (limit + 1) rest
        { more with count := more.count + 1 }
      | none => ⟨0, false, cs⟩

def v6 (cs : List Char) : Rest :=
  let head := groups true 8 cs
  if head.count = 8 then some head.rest
  else if head.endsInV4 then none
  else
    match head.rest with
    | ':' :: ':' :: rest => some (groups true (7 - head.count) rest).rest
    | _ => none

def port (cs : List Char) : Rest := (char ':' cs).bind (number 10 65536 true none)

/-- Read the number of a zone after a percent sign, if there is one. -/
def zone (cs : List Char) : List Char :=
  ((char '%' cs).bind (number 10 UInt32.size true none)).getD cs

def socketV4 (cs : List Char) : Rest := (v4 cs).bind port

def socketV6 (cs : List Char) : Rest := do
  let cs ← char '[' cs
  let cs ← v6 cs
  let cs ← char ']' (zone cs)
  port cs

def isSocketAddress (s : String) : Bool :=
  socketV4 s.toList = some [] || socketV6 s.toList = some []

end Address
end BlockStack
