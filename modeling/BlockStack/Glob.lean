import BlockStack.FileTree

/-!
# BlockStack.Glob

Patterns of paths, and the files and directories that they lead to.

* `Glob.Token`: a question mark stands for any character, a star for any text, a bracket for one
  of some characters or none of them, and two stars alone for any number of directories.
* `Glob.tokens`: the tokens of a pattern, or what is wrong with it and where.
* `Glob.accepts`: whether a name fits a pattern. Names that start with a dot are no exception.
* `Glob.find`: the paths that a pattern leads to, directory by directory, in the order of names.
-/

namespace BlockStack
namespace Glob

/-- A part of a pattern. -/
inductive Token where
  | char (c : Char)
  | anyChar
  | anyText
  | anyDirs
  | oneOf (ranges : List (Char × Char))
  | noneOf (ranges : List (Char × Char))
  deriving DecidableEq, Repr, Inhabited

/-- What can be wrong with a pattern. -/
inductive Flaw where
  | tooManyStars
  | starsInName
  | openRange
  deriving DecidableEq, Repr

def Flaw.text : Flaw → String
  | tooManyStars => "wildcards are either regular `*` or recursive `**`"
  | starsInName => "recursive wildcards must form a single path component"
  | openRange => "invalid range pattern"

/-- A flaw of a pattern with its place, in characters. -/
structure PatternError where
  flaw : Flaw
  position : Nat
  deriving DecidableEq, Repr

def PatternError.text (e : PatternError) : String :=
  s!"Pattern syntax error near position {e.position}: {e.flaw.text}"

/-- The characters before the first closing bracket, and those after it. -/
def untilBracket : List Char → Option (List Char × List Char)
  | [] => none
  | ']' :: rest => some ([], rest)
  | c :: rest => (untilBracket rest).map (fun e => (c :: e.1, e.2))

theorem untilBracket_length {cs inside after : List Char}
    (h : untilBracket cs = some (inside, after)) :
    inside.length + after.length + 1 = cs.length := by
  induction cs generalizing inside with
  | nil => simp [untilBracket] at h
  | cons c rest ih =>
    unfold untilBracket at h
    split at h
    · simp at *
    · simp_all
    · rename_i c' rest' _ heq
      obtain ⟨rfl, rfl⟩ := List.cons.inj heq
      obtain ⟨e, he, hout⟩ := Option.map_eq_some_iff.1 h
      obtain ⟨i, a⟩ := e
      simp only [Prod.mk.injEq] at hout
      obtain ⟨rfl, rfl⟩ := hout
      have := ih he
      simp only [List.length_cons]
      omega

/-- The ranges between brackets; a character alone is a range of itself. -/
def ranges : List Char → List (Char × Char)
  | a :: '-' :: b :: rest => (a, b) :: ranges rest
  | a :: rest => (a, a) :: ranges rest
  | [] => []

/-- The tokens of a pattern from a position on, after the character before it. -/
def tokensFrom (position : Nat) (before : Option Char) (cs : List Char) :
    Except PatternError (List Token) :=
  match cs with
  | [] => .ok []
  | '?' :: rest => (tokensFrom (position + 1) '?' rest).map (.anyChar :: ·)
  | '*' :: '*' :: '*' :: _ => .error ⟨.tooManyStars, position + 2⟩
  | '*' :: '*' :: rest =>
    if before = none ∨ before = some '/' then
      match rest with
      | [] => .ok [.anyDirs]
      | '/' :: rest => (tokensFrom (position + 3) '/' rest).map (.anyDirs :: ·)
      | _ => .error ⟨.starsInName, position + 2⟩
    else .error ⟨.starsInName, position - 1⟩
  | '*' :: rest => (tokensFrom (position + 1) '*' rest).map (.anyText :: ·)
  | '[' :: '!' :: c :: rest =>
    match h : untilBracket rest with
    | some (inside, after) =>
      have := untilBracket_length h
      (tokensFrom (position + inside.length + 4) ']' after).map
        (.noneOf (ranges (c :: inside)) :: ·)
    | none => .error ⟨.openRange, position⟩
  | '[' :: c :: rest =>
    match h : untilBracket rest with
    | some (inside, after) =>
      have := untilBracket_length h
      (tokensFrom (position + inside.length + 3) ']' after).map
        (.oneOf (ranges (c :: inside)) :: ·)
    | none => .error ⟨.openRange, position⟩
  | ['['] => .error ⟨.openRange, position⟩
  | c :: rest => (tokensFrom (position + 1) c rest).map (.char c :: ·)
termination_by cs.length

def tokens (pattern : String) : Except PatternError (List Token) :=
  tokensFrom 0 none pattern.toList

/-- Whether a character lies in one of some ranges. -/
def within (ranges : List (Char × Char)) (c : Char) : Bool :=
  ranges.any (fun r => r.1 ≤ c && c ≤ r.2)

def Token.fits : Token → Char → Bool
  | char c, c' => c = c'
  | oneOf ranges, c => within ranges c
  | noneOf ranges, c => !within ranges c
  | anyChar, _ | anyText, _ | anyDirs, _ => true

/-- Whether a name fits some tokens. A star may stand for any number of characters. -/
def accepts : List Token → List Char → Bool
  | [], cs => cs.isEmpty
  | .anyText :: rest, cs | .anyDirs :: rest, cs =>
    (List.range (cs.length + 1)).any (fun n => accepts rest (cs.drop n))
  | token :: rest, cs =>
    match cs with
    | [] => false
    | c :: cs => token.fits c && accepts rest cs

/-- A pattern for one part of a path: any number of directories, or a name. -/
inductive Part where
  | dirs
  | name (tokens : List Token)
  deriving DecidableEq, Repr

def Part.ofTokens (tokens : List Token) : Part :=
  if tokens = [.anyDirs] then .dirs else .name tokens

/-- The only name that fits tokens, if they are plain characters. -/
def literal? (tokens : List Token) : Option String :=
  (tokens.mapM (fun
    | Token.char c => some c
    | _ => none)).map String.ofList

/-- Of any number of directories in a row one is enough. -/
def Part.joinDirs : List Part → List Part
  | dirs :: dirs :: rest => joinDirs (dirs :: rest)
  | part :: rest => part :: joinDirs rest
  | [] => []

/-- The path of an entry of a directory; the working directory is left out of it. -/
def inside (dir name : String) : String := if Path.isHere dir then name else Path.join dir name

/-- The places below a directory from there, each before those below it. -/
def placesBelow (tree : FileTree) (dir : String) : List Place :=
  match tree.find dir with
  | .error _ => []
  | .ok (place, _) => tree.entries.keys.filterMap (fun other =>
      if place.length < other.length && place.isPrefixOf other then some (other.drop place.length)
      else none)

/-- The paths of all that is below a directory. -/
def allBelow (tree : FileTree) (dir : String) : List String :=
  (placesBelow tree dir).map (fun place => inside dir (String.intercalate "/" place))

/-- The names of the directories here and above that fit tokens which start with a dot. -/
def dotNames (tokens : List Token) : List String :=
  if tokens.head? = some (.char '.') then
    ["..", "."].filter (fun name => accepts tokens name.toList)
  else []

/-- The paths of the entries of a directory whose names fit tokens. -/
def entriesOf (tree : FileTree) (tokens : List Token) (dir : String) : List String :=
  let names := (placesBelow tree dir).filterMap (fun
    | [name] => some name
    | _ => none)
  let dots := if tree.leadsToDir dir then dotNames tokens else []
  dots.map (Path.join dir) ++
    (names.filter (fun name => accepts tokens name.toList)).map (inside dir)

/-- Whether the last name of a path fits tokens. -/
def fitsName (tokens : List Token) (path : String) : Bool :=
  match (Path.pieces path).getLast? with
  | some name => accepts tokens name.toList
  | none => false

/-- The paths that parts of a pattern lead to from a directory. -/
def expand (tree : FileTree) (wantsDir : Bool) : List Part → String → List String
  | [], path => if wantsDir && !tree.leadsToDir path then [] else [path]
  | [.dirs], dir => (allBelow tree dir).filter tree.leadsToDir
  | .dirs :: .name tokens :: rest, dir =>
    ((allBelow tree dir).filter (fitsName tokens)).flatMap (expand tree wantsDir rest)
  | .dirs :: .dirs :: rest, dir => expand tree wantsDir rest dir
  | .name tokens :: rest, dir =>
    match literal? tokens with
    | some name =>
      let path := inside dir name
      let isThere := if name = "." || name = ".." then tree.leadsToDir dir else (tree.find path).isOk
      if isThere then expand tree wantsDir rest path else []
    | none => (entriesOf tree tokens dir).flatMap (expand tree wantsDir rest)

/-- The parts of a pattern between slashes; a slash at the end ends the last one. -/
def components (pattern : String) : List String :=
  match (Path.pieces pattern).reverse with
  | "" :: piece :: rest => (piece :: rest).reverse
  | pieces => pieces.reverse

/-- Whether a pattern ends in a slash, so that only directories fit. -/
def wantsDir (pattern : String) : Bool := pattern.toList.getLast? = some '/'

/-- Where a pattern starts, and what is left of it: the root for one that starts with slashes, else
the working directory. -/
def split (pattern : String) : String × String :=
  if Path.isAbsolute pattern then
    ("/", String.ofList (pattern.toList.dropWhile (· = '/')))
  else (".", pattern)

def find (tree : FileTree) (pattern : String) : Except PatternError (List String) :=
  match tokens pattern with
  | .error e => .error e
  | .ok _ =>
    let (start, rest) := split pattern
    match (components rest).mapM tokens with
    | .error e => .error e
    | .ok parts =>
      .ok (expand tree (wantsDir pattern) (Part.joinDirs (parts.map Part.ofTokens)) start)

end Glob
end BlockStack
