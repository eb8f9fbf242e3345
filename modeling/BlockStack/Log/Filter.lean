import BlockStack.Log
import BlockStack.Numeral

/-!
# BlockStack.Log.Filter

Which entries of the log are written.

* `Log.Rule`: from which level on entries of a part of the program, or with a value of some name,
  are written.
* `Log.Filter.allows`: of the rules about an entry the most precise counts.
* `Log.Filter.make`: the rules of a text, with a level for all parts without a rule.
-/

namespace BlockStack
namespace Log

/-- From which level on entries are written; `none` stands for never. -/
abbrev Threshold := Option Level

def passes (threshold : Threshold) (level : Level) : Bool :=
  match threshold with
  | some least => level.atLeast least
  | none => false

/-- A text in small letters; other letters than those from A to Z stay as they are. -/
def small (s : String) : String := String.ofList (s.toList.map Char.toLower)

/-- The level with a name, in small or capital letters. -/
def Level.ofName? (name : String) : Option Level :=
  [trace, debug, info, warn, error].find? (fun level => small level.name = small name)

def Threshold.ofNumber? : Nat → Option Threshold
  | 0 => some none
  | 1 => some (some .error)
  | 2 => some (some .warn)
  | 3 => some (some .info)
  | 4 => some (some .debug)
  | 5 => some (some .trace)
  | _ => none

def Threshold.ofText? (s : String) : Option Threshold :=
  match Level.ofName? s with
  | some level => some (some level)
  | none => if small s = "off" then some none else (Numeral.read? s).bind Threshold.ofNumber?

/-- From which level on entries are written that come from a part of the program, given by the
start of its path, and that have a named value. -/
structure Rule where
  target : String := ""
  field : Option String := none
  threshold : Threshold
  deriving DecidableEq, Repr

def isBlank (c : Char) : Bool :=
  [(0x9, 0xd), (0x20, 0x20), (0x85, 0x85), (0xa0, 0xa0), (0x1680, 0x1680), (0x2000, 0x200a),
    (0x2028, 0x2029), (0x202f, 0x202f), (0x205f, 0x205f), (0x3000, 0x3000)].any
      (fun range => range.1 ≤ c.toNat && c.toNat ≤ range.2)

/-- The threshold behind an equals sign; nothing there lets all entries through. -/
def Threshold.ofEnding? (cs : List Char) : Option Threshold :=
  if cs.isEmpty then some (some .trace) else Threshold.ofText? (String.ofList cs)

/-- The rule of a target with a value's name in brackets and braces, from the brace on. The name of
a span before the brace, or a text for the value behind the name, makes it a rule for spans, of
which there are none. -/
def Rule.ofBrace? (target : String) (cs : List Char) : Option Rule :=
  let field := String.ofList (cs.takeWhile (· ≠ '\x7d'))
  if field.isEmpty || field.toList.contains '=' then none
  else
    match cs.dropWhile (· ≠ '\x7d') with
    | '\x7d' :: ']' :: '=' :: ending =>
      (Threshold.ofEnding? ending).map (fun threshold => { target, field, threshold })
    | '\x7d' :: ']' :: blanks =>
      if blanks.all isBlank then some { target, field, threshold := some .trace } else none
    | _ => none

/-- The rule of a text: a path, or a path with a threshold, or one with the name of a value. A level
alone is no rule: the level of the filter stands for it. -/
def Rule.ofText? (s : String) : Option Rule :=
  let special (c : Char) : Bool := c = '=' || c = '['
  let target := String.ofList (s.toList.takeWhile (fun c => !special c))
  match s.toList.dropWhile (fun c => !special c) with
  | [] =>
    if target.isEmpty || (Threshold.ofText? target).isSome then none
    else some { target, threshold := some .trace }
  | '[' :: '\x7b' :: rest => Rule.ofBrace? target rest
  | '=' :: ending =>
    if target.isEmpty then none
    else (Threshold.ofEnding? ending).map (fun threshold => { target, threshold })
  | _ => none

/-- Which entries are written: some rules, and a level for all other entries. -/
structure Filter where
  rules : List Rule := []
  level : Level := .info
  deriving DecidableEq, Repr

/-- Whether an entry has a value with a name; each has a message. -/
def Entry.hasField (entry : Entry) (name : String) : Bool :=
  name = "message" || entry.fields.any (fun field => field.1 = name)

namespace Rule

def concerns (rule : Rule) (entry : Entry) : Bool :=
  rule.target.toList.isPrefixOf entry.origin.path.toList && rule.field.all entry.hasField

/-- The order of rules by how precise they are: by the length of the target, then one with the name
of a value is more precise, and of two names the greater. -/
def precision (a b : Rule) : Ordering :=
  ((compare a.target.length b.target.length).then (compare a.field.isSome b.field.isSome)).then
    (compare (a.field.getD "") (b.field.getD ""))

end Rule

namespace Filter

/-- The more precise rule of two; of equally precise ones the later. -/
def morePrecise (best : Option Rule) (rule : Rule) : Option Rule :=
  match best with
  | some other => if (other.precision rule).isLE then some rule else some other
  | none => some rule

def allows (filter : Filter) (entry : Entry) : Bool :=
  match (filter.rules.filter (fun rule => rule.concerns entry)).foldl morePrecise none with
  | some rule => passes rule.threshold entry.level
  | none => entry.level.atLeast filter.level

/-- The rules of a text, which are separated by commas, with a level for all other parts. -/
def make (rules : String) (level : Level) : Filter where
  rules := (rules.splitOn ",").filterMap Rule.ofText?
  level := level

end Filter
end Log
end BlockStack
