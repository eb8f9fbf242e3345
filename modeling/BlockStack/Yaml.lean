/-!
# BlockStack.Yaml

YAML values, and how their scalars are read as typed values.

* `Yaml`: a scalar, with how it was written, a sequence, or a mapping.
* `Yaml.asNat?`: a plain scalar that is a natural number, decimal or in base 2, 8 or 16.
* `Yaml.asText?`: any scalar as text.
* `Yaml.slots`: the values of named fields of a mapping; an empty scalar is an empty mapping.
-/

namespace BlockStack

/-- A YAML value; a scalar is plain if it was written without quotes. -/
inductive Yaml where
  | scalar (plain : Bool) (text : String)
  | seq (items : List Yaml)
  | map (entries : List (Yaml × Yaml))
  deriving Repr, Inhabited

namespace Yaml

/-- The value of a place where nothing is written. -/
def empty : Yaml := scalar true ""

/-- The value of a digit in bases up to 16. -/
def digitValue? (c : Char) : Option Nat :=
  if c.isDigit then some (c.toNat - '0'.toNat)
  else if 'a' ≤ c ∧ c ≤ 'f' then some (c.toNat - 'a'.toNat + 10)
  else if 'A' ≤ c ∧ c ≤ 'F' then some (c.toNat - 'A'.toNat + 10)
  else none

def ofDigits? (base : Nat) (cs : List Char) : Option Nat :=
  if cs.isEmpty then none
  else cs.foldl (fun acc c =>
    match acc, digitValue? c with
    | some n, some d => if d < base then some (n * base + d) else none
    | _, _ => none) (some 0)

/-- A number without sign; decimal digits have no leading zero. -/
def unsigned? (cs : List Char) : Option Nat :=
  match cs with
  | '0' :: 'x' :: rest => ofDigits? 16 rest
  | '0' :: 'o' :: rest => ofDigits? 8 rest
  | '0' :: 'b' :: rest => ofDigits? 2 rest
  | ['0'] => some 0
  | '0' :: _ => none
  | cs => ofDigits? 10 cs

/-- A natural number, which may have a plus sign; none is written with a minus sign. -/
def natural? (cs : List Char) : Option Nat :=
  match cs with
  | '+' :: rest => unsigned? rest
  | cs => unsigned? cs

def asNat? : Yaml → Option Nat
  | scalar true text => natural? text.toList
  | _ => none

def asUInt64? (v : Yaml) : Option UInt64 :=
  match asNat? v with
  | some n => if n < UInt64.size then some (UInt64.ofNat n) else none
  | none => none

def asUInt32? (v : Yaml) : Option UInt32 :=
  match asNat? v with
  | some n => if n < UInt32.size then some (UInt32.ofNat n) else none
  | none => none

def asText? : Yaml → Option String
  | scalar _ text => some text
  | _ => none

def nullNames : List String := ["", "~", "null", "Null", "NULL"]

def asOptionalText? : Yaml → Option (Option String)
  | scalar plain text => some (if plain && nullNames.contains text then none else some text)
  | _ => none

/-- The only value under a name: `none` if the name repeats. -/
def member? (entries : List (Yaml × Yaml)) (name : String) : Option (Option Yaml) :=
  match entries.filter (fun e => e.1.asText? = some name) with
  | [] => some none
  | [(_, value)] => some (some value)
  | _ => none

/-- The values of the named fields of a mapping with scalar keys. -/
def slots (names : List String) : Yaml → Option (List (Option Yaml))
  | scalar true "" => some (names.map (fun _ => none))
  | map entries =>
    if entries.all (fun e => e.1.asText?.isSome) then names.mapM (member? entries) else none
  | _ => none

/-- A field that has a value when it is not there. -/
def withDefault {α : Type} (default : α) (read : Yaml → Option α) : Option Yaml → Option α
  | some v => read v
  | none => some default

end Yaml
end BlockStack
