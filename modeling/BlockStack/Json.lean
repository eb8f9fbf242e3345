/-!
# BlockStack.Json

JSON values and their two printed forms.

* `Json`: a value as it was read; an object keeps its members in order, repeated names included, and
  knows whether one of its names is spelled with an escape.
* `Json.compact`: without any blank.
* `Json.pretty`: one element or member a line, two spaces for each level.
-/

namespace BlockStack

/-- A JSON value. `real` is a number that is no natural number in decimal digits, `unreadable` a
value that has the form of JSON but stands for nothing: it holds half of a surrogate pair, is a
number out of the range of doubles, or lies too deep. An object is `escaped` when one of its names
is spelled with a backslash. -/
inductive Json where
  | null
  | bool (value : Bool)
  | nat (value : Nat)
  | real (lexeme : String)
  | str (value : String)
  | arr (items : List Json)
  | obj (members : List (String × Json)) (escaped : Bool := false)
  | unreadable
  deriving Repr, Inhabited

namespace Json

def hexDigit (n : Nat) : Char := (Nat.digitChar n)

/-- A character inside quotes: quotes, backslashes and control characters are escaped. -/
def escape (c : Char) : List Char :=
  if c = '"' then ['\\', '"']
  else if c = '\\' then ['\\', '\\']
  else if c = '\x08' then ['\\', 'b']
  else if c = '\x09' then ['\\', 't']
  else if c = '\x0a' then ['\\', 'n']
  else if c = '\x0c' then ['\\', 'f']
  else if c = '\x0d' then ['\\', 'r']
  else if c.toNat < 0x20 then ['\\', 'u', '0', '0', hexDigit (c.toNat / 16), hexDigit (c.toNat % 16)]
  else [c]

def quote (s : String) : List Char := '"' :: s.toList.flatMap escape ++ ['"']

mutual

def write : Json → List Char
  | null => "null".toList
  | bool true => "true".toList
  | bool false => "false".toList
  | nat n => Nat.toDigits 10 n
  | real lexeme => lexeme.toList
  | str s => quote s
  | arr items => '[' :: writeItems items
  | obj members _ => '\x7b' :: writeMembers members
  | unreadable => "null".toList

def writeItems : List Json → List Char
  | [] => [']']
  | item :: rest => write item ++ writeMoreItems rest

/-- Further items, each after a comma, and the closing bracket. -/
def writeMoreItems : List Json → List Char
  | [] => [']']
  | item :: rest => ',' :: write item ++ writeMoreItems rest

def writeMembers : List (String × Json) → List Char
  | [] => ['\x7d']
  | (name, value) :: rest => quote name ++ ':' :: write value ++ writeMoreMembers rest

/-- Further members, each after a comma, and the closing brace. -/
def writeMoreMembers : List (String × Json) → List Char
  | [] => ['\x7d']
  | (name, value) :: rest => ',' :: quote name ++ ':' :: write value ++ writeMoreMembers rest

end

def compact (v : Json) : String := String.ofList v.write

def margin (level : Nat) : List Char := '\n' :: List.replicate (2 * level) ' '

mutual

/-- The characters of a value in lines; `level` is that of the line it starts on. -/
def layOut (level : Nat) : Json → List Char
  | arr [] => ['[', ']']
  | arr (item :: rest) =>
    '[' :: margin (level + 1) ++ layOut (level + 1) item ++ layOutItems level rest
  | obj [] _ => ['\x7b', '\x7d']
  | obj ((name, value) :: rest) _ =>
    '\x7b' :: margin (level + 1) ++ quote name ++ ':' :: ' ' :: layOut (level + 1) value ++
      layOutMembers level rest
  | null => "null".toList
  | bool true => "true".toList
  | bool false => "false".toList
  | nat n => Nat.toDigits 10 n
  | real lexeme => lexeme.toList
  | str s => quote s
  | unreadable => "null".toList

/-- Further items on lines of their own, and the closing bracket at `level`. -/
def layOutItems (level : Nat) : List Json → List Char
  | [] => margin level ++ [']']
  | item :: rest =>
    ',' :: margin (level + 1) ++ layOut (level + 1) item ++ layOutItems level rest

/-- Further members on lines of their own, and the closing brace at `level`. -/
def layOutMembers (level : Nat) : List (String × Json) → List Char
  | [] => margin level ++ ['\x7d']
  | (name, value) :: rest =>
    ',' :: margin (level + 1) ++ quote name ++ ':' :: ' ' :: layOut (level + 1) value ++
      layOutMembers level rest

end

def pretty (v : Json) : String := String.ofList (v.layOut 0)

end Json
end BlockStack
