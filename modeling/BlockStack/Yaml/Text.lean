/-!
# BlockStack.Yaml.Text

YAML text: its characters and the places in it.

* `Yaml.normalize`: line breaks of all systems written alike. Line and paragraph separators are
  line breaks too, but keep their own characters.
* `Yaml.Cursor`: a place in a text with all that lies ahead.
* `Yaml.atMarker`: whether a mark between documents stands at a place.
-/

namespace BlockStack
namespace Yaml

def isAllowed (c : Char) : Bool :=
  let n := c.toNat
  n = 0x09 || n = 0x0A || n = 0x0D || (0x20 ≤ n && n ≤ 0x7E) || n = 0x85 ||
    (0xA0 ≤ n && n ≤ 0xFFFD) || 0x10000 ≤ n

/-- Carriage returns, alone or before a line feed, and next line marks as line feeds. -/
def normalize : List Char → List Char
  | [] => []
  | '\r' :: '\n' :: rest => '\n' :: normalize rest
  | c :: rest => (if c = '\r' || c.toNat = 0x85 then '\n' else c) :: normalize rest

def isBlank (c : Char) : Bool := c = ' ' || c = '\t'

def isBreak (c : Char) : Bool := c = '\n' || c.toNat = 0x2028 || c.toNat = 0x2029

/-- Whether a character is a space, a tab or a line break. -/
def isSpace (c : Char) : Bool := isBlank c || isBreak c

def atWordEnd : List Char → Bool
  | [] => true
  | c :: _ => isSpace c

/-- Whether a character has a meaning of its own inside brackets. -/
def isFlowIndicator (c : Char) : Bool := [',', '[', ']', '\x7b', '\x7d'].contains c

/-- Whether some text starts with a mark between documents, which is three dashes or points. -/
def startsMarker : List Char → Bool
  | '-' :: '-' :: '-' :: rest => atWordEnd rest
  | '.' :: '.' :: '.' :: rest => atWordEnd rest
  | _ => false

/-- A place in a text: what lies ahead, the lines before it, and the characters and bytes before it
on its line. -/
structure Cursor where
  rest : List Char
  line : Nat := 0
  column : Nat := 0
  offset : Nat := 0
  deriving Repr, Inhabited

namespace Cursor

/-- The place behind a character, with the text that follows it. -/
def past (c : Char) (rest : List Char) (p : Cursor) : Cursor :=
  if isBreak c then { rest, line := p.line + 1 }
  else { rest, line := p.line, column := p.column + 1, offset := p.offset + c.utf8Size }

def advance : Nat → Cursor → Cursor
  | 0, p => p
  | n + 1, p =>
    match p.rest with
    | [] => p
    | c :: rest => (past c rest p).advance n

/-- The place where a later part of the text begins. -/
def upTo (p : Cursor) (rest : List Char) : Cursor := p.advance (p.rest.length - rest.length)

/-- Whether a mark between documents stands at a place, at the start of its line. -/
def atMarker (p : Cursor) : Bool := p.column = 0 && startsMarker p.rest

end Cursor

/-- The start of a text. A byte order mark there takes up a column. -/
def Cursor.ofText (s : String) : Cursor :=
  match normalize s.toList with
  | c :: rest => if c.toNat = 0xFEFF then Cursor.past c rest ⟨[], 0, 0, 0⟩ else ⟨c :: rest, 0, 0, 0⟩
  | [] => ⟨[], 0, 0, 0⟩

end Yaml
end BlockStack
