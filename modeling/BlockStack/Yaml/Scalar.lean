import BlockStack.Yaml
import BlockStack.Yaml.Text

/-!
# BlockStack.Yaml.Scalar

The texts of scalars, with the rule by which their lines are joined.

* `Yaml.fold`: what the blanks and line breaks between two words stand for. One line break becomes
  a space, and of more than one the first is dropped.
* `Yaml.plain`: a scalar without quotes, which goes on over lines that are indented enough.
* `Yaml.quoted`: a scalar in single or double quotes.
-/

namespace BlockStack
namespace Yaml

/-- What the blanks and line breaks between two words stand for; a separator of lines or paragraphs
stands for itself. -/
def fold (gap : List Char) : List Char :=
  match gap.filter isBreak with
  | [] => gap
  | ['\n'] => [' ']
  | '\n' :: more => more
  | breaks => breaks

/-! ### Plain scalars -/

/-- Whether a plain scalar may start with some text. -/
def startsPlain (flow : Bool) : List Char → Bool
  | [] => false
  | c :: rest =>
    if c = '-' then !atWordEnd rest
    else if c = '?' || c = ':' then !flow && !atWordEnd rest
    else !(isSpace c || isFlowIndicator c ||
      ['#', '&', '*', '!', '|', '>', '\'', '"', '%', '@', Char.ofNat 0x60].contains c)

/-- The part of a plain scalar on one line, with blanks behind it, and what follows. Inside brackets
a colon must not stand before a character that has a meaning there. -/
def plainLine (flow afterBlank : Bool) : List Char → Option (List Char × List Char)
  | [] => some ([], [])
  | c :: rest =>
    if isBreak c || (c = ':' && atWordEnd rest) || (c = '#' && afterBlank) ||
        (flow && isFlowIndicator c) then some ([], c :: rest)
    else if flow && c = ':' && rest.head?.any (fun d => d = '?' || isFlowIndicator d) then none
    else
      match plainLine flow (isBlank c) rest with
      | some (text, rest) => some (c :: text, rest)
      | none => none

def trimEnd (cs : List Char) : List Char := (cs.reverse.dropWhile isBlank).reverse

/-- Whether a tab stands left of column `least` on a line that begins in a gap. -/
def hasEarlyTab (least : Nat) : (column : Nat) → (gap : List Char) → Bool
  | _, [] => false
  | column, c :: rest =>
    if isBreak c then hasEarlyTab least 0 rest
    else (c = '\t' && column < least) || hasEarlyTab least (column + 1) rest

def goesOn (flow : Bool) (least : Nat) (p : Cursor) : Bool :=
  !p.rest.isEmpty && p.rest.head? ≠ some '#' && !p.atMarker && (flow || least ≤ p.column)

/-- A plain scalar whose further lines start at column `least` or later, the place behind it, and
whether that is behind a line break. -/
def plain (flow : Bool) (least : Nat) : (fuel : Nat) → Cursor → Option (List Char × Cursor × Bool)
  | 0, _ => none
  | fuel + 1, p =>
    match plainLine flow false p.rest with
    | none => none
    | some (line, rest) =>
      let gap := rest.takeWhile isSpace
      let next := p.upTo (rest.dropWhile isSpace)
      if gap.isEmpty then some (trimEnd line, next, false)
      else if hasEarlyTab least least gap then none
      else if goesOn flow least next then
        match plain flow least fuel next with
        | none => none
        | some ([], _) => some (trimEnd line, next, true)
        | some (more, last) => some (trimEnd line ++ fold gap ++ more, last)
      else some (trimEnd line, next, true)

/-! ### Quoted scalars -/

/-- The character that a letter behind a backslash stands for. -/
def unescape? : Char → Option Char
  | '0' => some '\x00'
  | 'a' => some '\x07'
  | 'b' => some '\x08'
  | 't' => some '\t'
  | '\t' => some '\t'
  | 'n' => some '\n'
  | 'v' => some '\x0b'
  | 'f' => some '\x0c'
  | 'r' => some '\r'
  | 'e' => some '\x1b'
  | ' ' => some ' '
  | '"' => some '"'
  | '/' => some '/'
  | '\\' => some '\\'
  | 'N' => some (Char.ofNat 0x85)
  | '_' => some (Char.ofNat 0xa0)
  | 'L' => some (Char.ofNat 0x2028)
  | 'P' => some (Char.ofNat 0x2029)
  | _ => none

/-- How many hexadecimal digits follow a letter behind a backslash. -/
def escapeWidth : Char → Nat
  | 'x' => 2
  | 'u' => 4
  | 'U' => 8
  | _ => 0

def character? (n : Nat) : Option Char :=
  if n.isValidChar then some (Char.ofNat n) else none

/-- The character that the text behind a backslash stands for, and what follows it. -/
def escaped? : List Char → Option (Char × List Char)
  | [] => none
  | c :: rest =>
    let width := escapeWidth c
    let meant :=
      if width = 0 then unescape? c
      else if rest.length < width then none
      else (ofDigits? 16 (rest.take width)).bind character?
    meant.map (·, rest.drop width)

def endsLine (gap : List Char) : Bool := gap.getLast?.any isBreak

/-- The text up to a closing quote, and what follows that. A single quote is written twice inside
single quotes; inside double quotes a backslash escapes, and before a line break it joins the lines
without a space. No line may start with a mark between documents. -/
def quoted (quote : Char) : (fuel : Nat) → List Char → Option (List Char × List Char)
  | 0, _ => none
  | _, [] => none
  | fuel + 1, c :: rest =>
    let gap := (c :: rest).takeWhile isSpace
    let behind := (c :: rest).dropWhile isSpace
    if !gap.isEmpty then
      if endsLine gap && startsMarker behind then none
      else (quoted quote fuel behind).map (fun (text, rest) => (fold gap ++ text, rest))
    else if c = quote then
      match rest with
      | '\'' :: more =>
        if quote = '\'' then (quoted quote fuel more).map (fun (text, rest) => ('\'' :: text, rest))
        else some ([], rest)
      | _ => some ([], rest)
    else if c = '\\' && quote = '"' then
      if rest.head?.any isBreak then
        let gap := rest.takeWhile isSpace
        let behind := rest.dropWhile isSpace
        if endsLine gap && startsMarker behind then none
        else
          (quoted quote fuel behind).map
            (fun (text, rest) => ((gap.filter isBreak).drop 1 ++ text, rest))
      else
        match escaped? rest with
        | none => none
        | some (meant, more) =>
          (quoted quote fuel more).map (fun (text, rest) => (meant :: text, rest))
    else (quoted quote fuel rest).map (fun (text, rest) => (c :: text, rest))

end Yaml
end BlockStack
