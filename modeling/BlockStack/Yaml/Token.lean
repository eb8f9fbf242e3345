import BlockStack.Yaml.Scalar

/-!
# BlockStack.Yaml.Token

The tokens of YAML text. Collections that are told by indentation have tokens of their own where
they start and end, so that the tokens alone say how a text is built.

* `Yaml.Token`: a token.
* `Yaml.Lexer`: how far a text is read, with the block collections that are open and the places
  where a key may have begun.
* `Yaml.tokens`: the tokens of a text. Tags, anchors, directives and block scalars are not read.
-/

namespace BlockStack
namespace Yaml

/-- A token. A key is told by the mark behind it, a colon, or by the one before it. -/
inductive Token where
  | documentStart
  | documentEnd
  | blockSeq
  | blockMap
  | blockEnd
  | flowSeq
  | flowSeqEnd
  | flowMap
  | flowMapEnd
  | item
  | comma
  | key
  | value
  | scalar (plain : Bool) (text : String)
  deriving DecidableEq, Repr, Inhabited

/-- A place where a key may have begun: the number of tokens before it, and whether only a key may
stand there. -/
structure KeyStart where
  before : Nat
  required : Bool
  line : Nat
  column : Nat
  offset : Nat
  deriving Repr, Inhabited

/-- How far a text is read. `tokens` has the newest first, `indents` the columns of the open block
collections, innermost first. `key` is where a key may have begun inside the innermost brackets,
and `outer` holds the same for all that is around them. -/
structure Lexer where
  cursor : Cursor
  tokens : List Token := []
  count : Nat := 0
  indents : List Nat := []
  mayStartKey : Bool := true
  key : Option KeyStart := none
  outer : List (Option KeyStart) := []
  deriving Repr, Inhabited

namespace Lexer

def inFlow (lx : Lexer) : Bool := !lx.outer.isEmpty

def emit (lx : Lexer) (token : Token) : Lexer :=
  { lx with tokens := token :: lx.tokens, count := lx.count + 1 }

/-- Add some tokens, newest first, behind the first `before` ones. -/
def insertAt (lx : Lexer) (before : Nat) (added : List Token) : Lexer :=
  let newer := lx.count - before
  { lx with
    tokens := lx.tokens.take newer ++ added ++ lx.tokens.drop newer
    count := lx.count + added.length }

def skip (lx : Lexer) (n : Nat) : Lexer := { lx with cursor := lx.cursor.advance n }

/-! ### Blanks and comments -/

/-- The place of the next token, and whether a key may start there. Blanks, comments and line breaks
are skipped, tabs only inside brackets or where no key may start. -/
def gap (flow : Bool) : (text : List Char) → (mayStartKey comment : Bool) → Cursor → Cursor × Bool
  | [], mayStartKey, _, p => (p, mayStartKey)
  | c :: rest, mayStartKey, comment, p =>
    if isBreak c then gap flow rest (mayStartKey || !flow) false (p.past c rest)
    else if comment || c = '#' then gap flow rest mayStartKey true (p.past c rest)
    else if c = ' ' || (c = '\t' && (flow || !mayStartKey)) then
      gap flow rest mayStartKey false (p.past c rest)
    else (p, mayStartKey)

def toNext (lx : Lexer) : Lexer :=
  let (cursor, mayStartKey) := gap lx.inFlow lx.cursor.rest lx.mayStartKey false lx.cursor
  { lx with cursor, mayStartKey }

/-! ### Keys -/

/-- Whether a key that began at a place can still end at a later one: it has one line and at most
1024 bytes. -/
def reaches (start : KeyStart) (p : Cursor) : Bool :=
  start.line = p.line && p.offset ≤ start.offset + 1024

/-- A possible key if it can still end here; `none` if it cannot and has to be one. -/
def refresh (p : Cursor) : Option KeyStart → Option (Option KeyStart)
  | none => some none
  | some start =>
    if reaches start p then some (some start) else if start.required then none else some none

/-- Forget the possible keys that cannot end here. -/
def refreshKeys (lx : Lexer) : Option Lexer := do
  let key ← refresh lx.cursor lx.key
  let outer ← lx.outer.mapM (refresh lx.cursor)
  pure { lx with key, outer }

/-- Forget the possible key inside the innermost brackets, which must not have to be one. -/
def dropKey (lx : Lexer) : Option Lexer :=
  if lx.key.any (·.required) then none else some { lx with key := none }

def startKey (lx : Lexer) : Option Lexer :=
  if lx.mayStartKey then
    lx.dropKey.map (fun lx =>
      { lx with key := some {
          before := lx.count
          required := !lx.inFlow && lx.indents.head? = some lx.cursor.column
          line := lx.cursor.line
          column := lx.cursor.column
          offset := lx.cursor.offset } })
  else some lx

/-! ### Indentation -/

/-- Whether a column lies right of the innermost block collection. -/
def isDeeper (lx : Lexer) (column : Nat) : Bool := lx.indents.head?.all (· < column)

/-- Start a block collection here, unless one is open in this column. -/
def openBlock (lx : Lexer) (token : Token) : Lexer :=
  if lx.isDeeper lx.cursor.column then
    { lx with indents := lx.cursor.column :: lx.indents }.emit token
  else lx

/-- End the block collections that `ends` tells of, from the innermost on. -/
def closeBlocks (lx : Lexer) (ends : Nat → Bool) : Lexer :=
  let closed := (lx.indents.takeWhile ends).length
  { lx with
    tokens := List.replicate closed .blockEnd ++ lx.tokens
    count := lx.count + closed
    indents := lx.indents.dropWhile ends }

/-- End the block collections that lie right of this place. -/
def dedent (lx : Lexer) : Lexer :=
  if lx.inFlow then lx else lx.closeBlocks (lx.cursor.column < ·)

/-! ### Tokens -/

def marker (lx : Lexer) (token : Token) : Option Lexer :=
  if lx.inFlow then none
  else
    (lx.closeBlocks (fun _ => true)).dropKey.map (fun lx =>
      ({ lx with mayStartKey := false }.emit token).skip 3)

/-- An opening bracket, with which a key may begin. -/
def opening (lx : Lexer) (token : Token) : Option Lexer :=
  lx.startKey.map (fun lx =>
    ({ lx with outer := lx.key :: lx.outer, key := none, mayStartKey := true }.emit token).skip 1)

def closing (lx : Lexer) (token : Token) : Option Lexer :=
  match lx.outer, lx.dropKey with
  | key :: outer, some lx =>
    some (({ lx with outer, key, mayStartKey := false }.emit token).skip 1)
  | _, _ => none

def comma (lx : Lexer) : Option Lexer :=
  lx.dropKey.map (fun lx => ({ lx with mayStartKey := true }.emit .comma).skip 1)

/-- The dash of an item, which stands where a key may start. -/
def item (lx : Lexer) : Option Lexer :=
  if lx.inFlow || !lx.mayStartKey then none
  else (lx.openBlock .blockSeq).dropKey.map (fun lx => (lx.emit .item).skip 1)

def keyMark (lx : Lexer) : Option Lexer :=
  if lx.inFlow then
    lx.dropKey.map (fun lx => ({ lx with mayStartKey := false }.emit .key).skip 1)
  else if lx.mayStartKey then
    (lx.openBlock .blockMap).dropKey.map (fun lx => (lx.emit .key).skip 1)
  else none

/-- The colon between a key and a value. Where a key may have begun it did, and with it a block
mapping, unless one is open in its column. -/
def valueMark (lx : Lexer) : Option Lexer :=
  match lx.key with
  | some start =>
    let opens := !lx.inFlow && lx.isDeeper start.column
    let lx := lx.insertAt start.before (if opens then [.key, .blockMap] else [.key])
    let indents := if opens then start.column :: lx.indents else lx.indents
    some (({ lx with indents, key := none, mayStartKey := false }.emit .value).skip 1)
  | none =>
    if lx.inFlow then some (({ lx with mayStartKey := false }.emit .value).skip 1)
    else if lx.mayStartKey then some (((lx.openBlock .blockMap).emit .value).skip 1)
    else none

def quotedScalar (lx : Lexer) (quote : Char) (rest : List Char) : Option Lexer :=
  match lx.startKey, quoted quote (rest.length + 1) rest with
  | some lx, some (text, rest) =>
    some { lx.emit (.scalar false (String.ofList text)) with
      cursor := lx.cursor.upTo rest, mayStartKey := false }
  | _, _ => none

/-- A scalar without quotes, which goes on over lines right of the innermost block collection. -/
def plainScalar (lx : Lexer) : Option Lexer :=
  let least := match lx.indents with
    | column :: _ => column + 1
    | [] => 0
  match lx.startKey, plain lx.inFlow least (lx.cursor.rest.length + 1) lx.cursor with
  | some lx, some (text, cursor, broken) =>
    some { lx.emit (.scalar true (String.ofList text)) with cursor, mayStartKey := broken }
  | _, _ => none

/-- Read the next token, to which the place has moved. -/
def token (lx : Lexer) : Option Lexer :=
  match lx.cursor.rest with
  | [] => none
  | c :: rest =>
    if lx.cursor.column = 0 && c = '%' then none
    else if lx.cursor.atMarker then lx.marker (if c = '-' then .documentStart else .documentEnd)
    else if c = '[' then lx.opening .flowSeq
    else if c = '\x7b' then lx.opening .flowMap
    else if c = ']' then lx.closing .flowSeqEnd
    else if c = '\x7d' then lx.closing .flowMapEnd
    else if c = ',' then lx.comma
    else if c = '-' && atWordEnd rest then lx.item
    else if c = '?' && (lx.inFlow || atWordEnd rest) then lx.keyMark
    else if c = ':' && (lx.inFlow || atWordEnd rest) then lx.valueMark
    else if c = '\'' || c = '"' then lx.quotedScalar c rest
    else if startsPlain lx.inFlow (c :: rest) then lx.plainScalar
    else none

/-- Read all tokens, each of which takes up some text. -/
def run : (fuel : Nat) → Lexer → Option Lexer
  | 0, _ => none
  | fuel + 1, lx =>
    match lx.toNext.refreshKeys with
    | none => none
    | some lx =>
      let lx := lx.dedent
      if lx.cursor.rest.isEmpty then (lx.closeBlocks (fun _ => true)).dropKey
      else
        match lx.token with
        | none => none
        | some lx => run fuel lx

end Lexer

def tokens (s : String) : Option (List Token) :=
  if s.toList.all isAllowed then
    (Lexer.run (s.length + 1) { cursor := Cursor.ofText s }).map (·.tokens.reverse)
  else none

end Yaml
end BlockStack
