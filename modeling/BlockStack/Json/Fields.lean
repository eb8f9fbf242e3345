import BlockStack.Json
import BlockStack.SortedMap

/-!
# BlockStack.Json.Fields

Reading typed values off JSON values, and building objects.

* `Json.slots`: the values of named fields. A record may be written as an object, where unknown
  members do not matter but none may repeat a field, or as the array of its fields in order.
* `Json.required`, `Json.optional`, `Json.withDefault`: what a field may look like.
* `Json.asUInt64?` and its kin: scalars, whose range is checked.
* `Json.asList?`, `Json.asMap?`, `Json.asNumberedMap?`: lists and maps; of two members of a map
  with one key the later one counts.
-/

namespace BlockStack
namespace Json

mutual

/-- Whether all parts of a value stand for something. -/
def isReadable : Json → Bool
  | unreadable => false
  | arr items => areReadable items
  | obj members _ => haveReadable members
  | _ => true

/-- Whether all parts of some items stand for something. -/
def areReadable : List Json → Bool
  | [] => true
  | item :: rest => isReadable item && areReadable rest

/-- Whether all parts of the values of some members stand for something. -/
def haveReadable : List (String × Json) → Bool
  | [] => true
  | (_, value) :: rest => isReadable value && haveReadable rest

end

def asString? : Json → Option String
  | str s => some s
  | _ => none

def asBool? : Json → Option Bool
  | bool b => some b
  | _ => none

def asUInt64? : Json → Option UInt64
  | nat n => if n < UInt64.size then some (UInt64.ofNat n) else none
  | _ => none

def asUInt32? : Json → Option UInt32
  | nat n => if n < UInt32.size then some (UInt32.ofNat n) else none
  | _ => none

def asUInt16? : Json → Option UInt16
  | nat n => if n < UInt16.size then some (UInt16.ofNat n) else none
  | _ => none

/-- Nothing or a value; nothing is written `null`. -/
def asOption? {α : Type} (read : Json → Option α) : Json → Option (Option α)
  | null => some none
  | v => (read v).map some

/-- A list, each item read alike. -/
def asList? {α : Type} (read : Json → Option α) : Json → Option (List α)
  | arr items => items.mapM read
  | _ => none

/-- The members of an object, each value read alike. -/
def asMembers? {α : Type} (read : Json → Option α) : Json → Option (List (String × α))
  | obj members _ => members.mapM (fun e => (read e.2).map (e.1, ·))
  | _ => none

def asMap? {α : Type} (read : Json → Option α) (v : Json) : Option (SortedMap String α) :=
  (asMembers? read v).map .ofList

/-- A number in decimal digits without leading zeros. -/
def decimal? (cs : List Char) : Option Nat :=
  if !cs.isEmpty && cs.all Char.isDigit && (cs = ['0'] || cs.head? ≠ some '0') then
    some (Nat.ofDigitChars 10 cs 0)
  else none

def number32? (name : String) : Option UInt32 :=
  (decimal? name.toList).bind (fun n => asUInt32? (nat n))

/-- A map from numbers of 32 bits, which are written as plain decimal digits. -/
def asNumberedMap? {α : Type} (read : Json → Option α) : Json → Option (SortedMap UInt32 α)
  | obj members false =>
    (members.mapM (fun (e : String × Json) =>
      (number32? e.1).bind (fun number => (read e.2).map (number, ·)))).map .ofList
  | _ => none

/-- A value given by its name, alone or as the name of a member that is `null`. -/
def asName? {α : Type} (ofName? : String → Option α) : Json → Option α
  | str name => ofName? name
  | obj [(name, null)] _ => ofName? name
  | _ => none

/-- The only value under a name: `none` if the name repeats. -/
def member? (members : List (String × Json)) (name : String) : Option (Option Json) :=
  match members.filter (fun e => e.1 = name) with
  | [] => some none
  | [(_, value)] => some (some value)
  | _ => none

def memberSlots (names : List String) : Json → Option (List (Option Json))
  | obj members _ => names.mapM (member? members)
  | _ => none

/-- The values of the named fields of an object, or of an array in their order. -/
def slots (names : List String) : Json → Option (List (Option Json))
  | arr items =>
    if items.length ≤ names.length then
      some (items.map some ++ List.replicate (names.length - items.length) none)
    else none
  | v => memberSlots names v

def required {α : Type} (read : Json → Option α) : Option Json → Option α
  | some v => read v
  | none => none

/-- A field that has a value when it is not there. -/
def withDefault {α : Type} (default : α) (read : Json → Option α) : Option Json → Option α
  | some v => read v
  | none => some default

/-- A field that may be missing or `null`. -/
def optional {α : Type} (read : Json → Option α) : Option Json → Option (Option α) :=
  withDefault none (asOption? read)

def ofUInt64 (n : UInt64) : Json := nat n.toNat

def ofUInt32 (n : UInt32) : Json := nat n.toNat

def ofUInt16 (n : UInt16) : Json := nat n.toNat

/-- A value or `null`. -/
def ofOption {α : Type} (write : α → Json) : Option α → Json
  | some a => write a
  | none => null

/-- A member that is left out when there is no value. -/
def memberIf {α : Type} (name : String) (write : α → Json) : Option α → List (String × Json)
  | some a => [(name, write a)]
  | none => []

def ofMap {α : Type} (write : α → Json) (m : SortedMap String α) : Json :=
  obj (m.entries.map (fun e => (e.1, write e.2)))

def ofNumberedMap {α : Type} (write : α → Json) (m : SortedMap UInt32 α) : Json :=
  obj (m.entries.map (fun e => (toString e.1.toNat, write e.2)))

end Json
end BlockStack
