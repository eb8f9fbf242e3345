import BlockStack.Json
import BlockStack.Json.Magnitude

/-!
# BlockStack.Json.Reader

Reading JSON text.

* `Json.parse`: the value of a text that holds one value and blanks around it.
* `Json.parseValue`: the first value of a list of characters, with the characters behind it.
* `Json.maxDepth`: how many arrays and objects may lie inside each other; a deeper one is
  `Json.unreadable`.
-/

namespace BlockStack
namespace Json

/-- How many arrays and objects may lie inside each other. -/
def maxDepth : Nat := 127

def isBlank (c : Char) : Bool := c = ' ' || c = '\n' || c = '\t' || c = '\r'

def skipBlanks (cs : List Char) : List Char := cs.dropWhile isBlank

def hexValue? (c : Char) : Option Nat :=
  if c.isDigit then some (c.toNat - '0'.toNat)
  else if 'a' ≤ c ∧ c ≤ 'f' then some (c.toNat - 'a'.toNat + 10)
  else if 'A' ≤ c ∧ c ≤ 'F' then some (c.toNat - 'A'.toNat + 10)
  else none

def hexValue4? (a b c d : Char) : Option Nat :=
  match hexValue? a, hexValue? b, hexValue? c, hexValue? d with
  | some a, some b, some c, some d => some (((a * 16 + b) * 16 + c) * 16 + d)
  | _, _, _, _ => none

/-- The character that a letter behind a backslash stands for. -/
def unescape? : Char → Option Char
  | '"' => some '"'
  | '\\' => some '\\'
  | '/' => some '/'
  | 'b' => some '\x08'
  | 'f' => some '\x0c'
  | 'n' => some '\n'
  | 'r' => some '\r'
  | 't' => some '\t'
  | _ => none

/-- The code points, and halves of surrogate pairs, up to a closing quote. -/
def codes : List Char → Option (List Nat × List Char)
  | [] => none
  | '"' :: rest => some ([], rest)
  | '\\' :: 'u' :: a :: b :: c :: d :: rest =>
    match hexValue4? a b c d, codes rest with
    | some n, some (ns, rest) => some (n :: ns, rest)
    | _, _ => none
  | '\\' :: c :: rest =>
    match unescape? c, codes rest with
    | some c, some (ns, rest) => some (c.toNat :: ns, rest)
    | _, _ => none
  | c :: rest =>
    if c.toNat < 0x20 ∨ c = '\\' then none
    else
      match codes rest with
      | some (ns, rest) => some (c.toNat :: ns, rest)
      | none => none

/-- Whether a code is the first half of a surrogate pair. -/
def isHighSurrogate (n : Nat) : Bool := 0xD800 ≤ n && n < 0xDC00

/-- Whether a code is the second half of a surrogate pair. -/
def isLowSurrogate (n : Nat) : Bool := 0xDC00 ≤ n && n < 0xE000

/-- The characters of a list of codes; halves of surrogate pairs have to stand in pairs. -/
def characters : List Nat → Option (List Char)
  | [] => some []
  | [n] => if isHighSurrogate n || isLowSurrogate n then none else some [Char.ofNat n]
  | n :: m :: rest =>
    if isHighSurrogate n then
      if isLowSurrogate m then
        match characters rest with
        | some cs => some (Char.ofNat (0x10000 + (n - 0xD800) * 0x400 + (m - 0xDC00)) :: cs)
        | none => none
      else none
    else if isLowSurrogate n then none
    else
      match characters (m :: rest) with
      | some cs => some (Char.ofNat n :: cs)
      | none => none

/-- A string behind its opening quote; `none` inside stands for one that holds half of a pair. -/
def parseString (cs : List Char) : Option (Option String × List Char) :=
  match codes cs with
  | some (ns, rest) => some ((characters ns).map String.ofList, rest)
  | none => none

/-- Leading decimal digits with the text behind them. -/
def spanDigits (cs : List Char) : List Char × List Char :=
  (cs.takeWhile Char.isDigit, cs.dropWhile Char.isDigit)

/-- A fraction, if a point follows; the digits behind the point. -/
def parseFraction : List Char → Option (List Char × List Char)
  | '.' :: rest =>
    match spanDigits rest with
    | ([], _) => none
    | (digits, rest) => some (digits, rest)
  | rest => some ([], rest)

def parseExponentDigits (sign : Int) (cs : List Char) : Option (Option Int × List Char) :=
  match spanDigits cs with
  | ([], _) => none
  | (digits, rest) => some (some (sign * (Nat.ofDigitChars 10 digits 0 : Nat)), rest)

def parseExponent : List Char → Option (Option Int × List Char)
  | c :: rest =>
    if c = 'e' ∨ c = 'E' then
      match rest with
      | '+' :: rest => parseExponentDigits 1 rest
      | '-' :: rest => parseExponentDigits (-1) rest
      | rest => parseExponentDigits 1 rest
    else some (none, c :: rest)
  | [] => some (none, [])

/-- The value of a number made of a sign, digits, decimal places and an exponent. -/
def numberValue (negative : Bool) (digits places : List Char) (exponent : Option Int)
    (lexeme : List Char) : Json :=
  if !Magnitude.isFinite digits places (exponent.getD 0) then unreadable
  else if !negative && places.isEmpty && exponent.isNone then nat (Nat.ofDigitChars 10 digits 0)
  else real (String.ofList lexeme)

def isNumeric (c : Char) : Bool := c.isDigit || ['-', '+', '.', 'e', 'E'].contains c

/-- A number behind its sign; a leading zero stands alone. -/
def parseUnsigned (negative : Bool) (start cs : List Char) : Option (Json × List Char) :=
  match spanDigits cs with
  | ([], _) => none
  | (digit :: digits, rest) =>
    if digit = '0' ∧ digits ≠ [] then none
    else
      match parseFraction rest with
      | none => none
      | some (places, rest) =>
        match parseExponent rest with
        | none => none
        | some (exponent, rest) =>
          let lexeme := start.takeWhile isNumeric
          some (numberValue negative (digit :: digits) places exponent lexeme, rest)

def parseNumber : List Char → Option (Json × List Char)
  | '-' :: rest => parseUnsigned true ('-' :: rest) rest
  | cs => parseUnsigned false cs cs

/-- An array or an object, if there is `room` for another level. -/
def nested (room : Nat) (v : Json) : Json :=
  if room = 0 then unreadable else v

/-- Whether there is a backslash before the closing quote. -/
def hasEscape : List Char → Bool
  | [] => false
  | '"' :: _ => false
  | '\\' :: _ => true
  | _ :: rest => hasEscape rest

/-- A member as it was read: its name, unless that is unreadable, and whether it has an escape. -/
structure Member where
  name : Option String
  escaped : Bool
  value : Json

/-- The object with some members, of which none has an unreadable name. -/
def ofMembers (members : List Member) : Json :=
  match members.mapM (fun member => member.name.map (·, member.value)) with
  | some named => obj named (members.any (·.escaped))
  | none => unreadable

mutual

/-- The first value, with the text behind it; `room` is how many levels it may have. -/
def parseValue : (fuel room : Nat) → List Char → Option (Json × List Char)
  | 0, _, _ => none
  | fuel + 1, room, cs =>
    match skipBlanks cs with
    | 'n' :: 'u' :: 'l' :: 'l' :: rest => some (null, rest)
    | 't' :: 'r' :: 'u' :: 'e' :: rest => some (bool true, rest)
    | 'f' :: 'a' :: 'l' :: 's' :: 'e' :: rest => some (bool false, rest)
    | '"' :: rest =>
      match parseString rest with
      | some (some s, rest) => some (str s, rest)
      | some (none, rest) => some (unreadable, rest)
      | none => none
    | '[' :: rest =>
      match skipBlanks rest with
      | ']' :: rest => some (nested room (arr []), rest)
      | rest =>
        match parseItems fuel (room - 1) rest with
        | some (items, rest) => some (nested room (arr items), rest)
        | none => none
    | '\x7b' :: rest =>
      match skipBlanks rest with
      | '\x7d' :: rest => some (nested room (obj []), rest)
      | rest =>
        match parseMembers fuel (room - 1) rest with
        | some (members, rest) => some (nested room (ofMembers members), rest)
        | none => none
    | rest => parseNumber rest

/-- Items up to the closing bracket, at least one. -/
def parseItems : (fuel room : Nat) → List Char → Option (List Json × List Char)
  | 0, _, _ => none
  | fuel + 1, room, cs =>
    match parseValue fuel room cs with
    | none => none
    | some (item, rest) =>
      match skipBlanks rest with
      | ']' :: rest => some ([item], rest)
      | ',' :: rest =>
        match parseItems fuel room rest with
        | some (items, rest) => some (item :: items, rest)
        | none => none
      | _ => none

/-- Members up to the closing brace, at least one. -/
def parseMembers : (fuel room : Nat) → List Char → Option (List Member × List Char)
  | 0, _, _ => none
  | fuel + 1, room, cs =>
    match skipBlanks cs with
    | '"' :: spelling =>
      match parseString spelling with
      | none => none
      | some (name, rest) =>
        match skipBlanks rest with
        | ':' :: rest =>
          match parseValue fuel room rest with
          | none => none
          | some (value, rest) =>
            let member : Member := { name, escaped := hasEscape spelling, value }
            match skipBlanks rest with
            | '\x7d' :: rest => some ([member], rest)
            | ',' :: rest =>
              match parseMembers fuel room rest with
              | some (members, rest) => some (member :: members, rest)
              | none => none
            | _ => none
        | _ => none
    | _ => none

end

/-- The value of a text that holds one value and blanks around it. -/
def parse (s : String) : Option Json :=
  let cs := s.toList
  match parseValue (2 * cs.length + 2) maxDepth cs with
  | some (v, rest) => if (skipBlanks rest).isEmpty then some v else none
  | none => none

end Json
end BlockStack
