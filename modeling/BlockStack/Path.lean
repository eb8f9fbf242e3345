/-!
# BlockStack.Path

Paths as text, their parts separated by slashes, and places as the names from the root.

* `Path.join`: a path inside a directory; an absolute path stays as it is.
* `Path.pieces`: the parts of a path, also those that name nothing.
* `Path.fileName?`, `Path.parent?`: the name at the end of a path, and the path of its directory.
* `Path.replaceExtension`: a path with another extension of its last name.
* `Path.order`: the order of paths, part by part.
-/

namespace BlockStack

/-- The names of the directories that lead to a file or directory, and its own name. -/
abbrev Place := List String

namespace Path

/-- The parts between slashes, also the empty ones. -/
def pieces (path : String) : List String := (path.toList.splitOn '/').map String.ofList

def isAbsolute (path : String) : Bool := path.toList.head? = some '/'

/-- A path inside a directory; an absolute path stays as it is. -/
def join (dir path : String) : String :=
  if isAbsolute path || dir.isEmpty then path
  else if dir.toList.getLast? = some '/' then dir ++ path
  else dir ++ "/" ++ path

/-- A path from its end on, without the slashes at its end and the dots behind a slash there. -/
def trimmed : (reversed : List Char) → List Char
  | '/' :: rest => trimmed rest
  | '.' :: '/' :: rest => trimmed rest
  | rest => rest

/-- The last part of a path, and the path before it with the slash, both from their ends on. -/
def splitLast (path : String) : List Char × List Char :=
  let r := trimmed path.toList.reverse
  (r.takeWhile (· ≠ '/'), r.dropWhile (· ≠ '/'))

/-- Whether a part of a path is the name of a file or directory. -/
def isName (piece : String) : Bool := piece ≠ "" && piece ≠ "." && piece ≠ ".."

/-- The name that a path ends with, and the path before it. -/
def fileName? (path : String) : Option (String × String) :=
  let (last, above) := splitLast path
  let name := String.ofList last.reverse
  if isName name then some (name, String.ofList above.reverse) else none

/-- The path of the directory that a path lies in; the root lies in none. -/
def parent? (path : String) : Option String :=
  let (last, above) := splitLast path
  let parent := (trimmed above).reverse
  if last.isEmpty then none
  else some (if parent.isEmpty && isAbsolute path then "/" else String.ofList parent)

/-- A path and the paths of the directories it lies in, as long as `fuel` lasts. -/
def ancestorsUpTo : (fuel : Nat) → String → List String
  | 0, _ => []
  | fuel + 1, path =>
    match parent? path with
    | some above => path :: ancestorsUpTo fuel above
    | none => if path = "" then [] else [path]

/-- A path and the paths of the directories it lies in, from the innermost on; each is shorter than
the one before it. -/
def ancestors (path : String) : List String := ancestorsUpTo (path.length + 1) path

/-- What follows the last dot of a name; a dot at its start does not count. -/
def extension? (name : String) : Option String :=
  match name.toList.reverse.dropWhile (· ≠ '.') with
  | [] => none
  | _ :: [] => none
  | _ => some (String.ofList (name.toList.reverse.takeWhile (· ≠ '.')).reverse)

/-- A name without its last dot and what follows it; a dot at its start does not count. -/
def stem (name : String) : String :=
  match name.toList.reverse.dropWhile (· ≠ '.') with
  | [] => name
  | _ :: [] => name
  | _ :: rest => String.ofList rest.reverse

/-- A path without as many characters at its end as its extension has. -/
def cutExtension (path : String) : String :=
  match (fileName? path).bind (fun e => extension? e.1) with
  | some extension => String.ofList (path.toList.take (path.length - extension.length))
  | none => path

/-- A path with another extension. What has no name at its end once the old extension is cut stays
like that, such as the two dots of `..json`. -/
def replaceExtension (extension path : String) : String :=
  let cut := cutExtension path
  match fileName? cut with
  | some (name, above) => above ++ stem name ++ "." ++ extension
  | none => cut

/-- The parts of a path that mean something: a dot does so only at the start. -/
def parts (path : String) : List String :=
  let means (piece : String) : Bool := piece ≠ "" && piece ≠ "."
  match pieces path with
  | "." :: rest => "." :: rest.filter means
  | all => all.filter means

def isHere (path : String) : Bool := parts path = ["."]

/-- The rank of a part: the directory here, the one above, and then all names. -/
def rank (piece : String) : Nat :=
  if piece = "." then 0 else if piece = ".." then 1 else 2

/-- The order of parts. -/
def comparePart (a b : String) : Ordering := (compare (rank a) (rank b)).then (compare a b)

/-- The order of paths, part by part. -/
def order (a b : String) : Ordering := List.compareLex comparePart (parts a) (parts b)

end Path
end BlockStack
