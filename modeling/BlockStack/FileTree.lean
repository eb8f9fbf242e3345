import BlockStack.Fault
import BlockStack.Path
import BlockStack.SortedMap

/-!
# BlockStack.FileTree

Files and directories, and the working directory in which paths start.

* `FileTree.resolve`: the end of a path; all directories on the way have to be there.
* `FileTree.find`: what a path leads to.
* `FileTree.read`, `FileTree.write`, `FileTree.remove`, `FileTree.rename`, `FileTree.createDirs`: the
  operations, with the refusals of a file system.
-/

namespace BlockStack

/-- What stands at a place. -/
inductive FileEntry where
  | file (text : String)
  | dir
  deriving DecidableEq, Repr, Inhabited

/-- Files and directories by their places from the root, and the working directory `home`. -/
structure FileTree where
  entries : SortedMap Place FileEntry := .empty
  home : Place := []
  deriving DecidableEq, Repr, Inhabited

namespace FileTree

/-- What stands at a place; the root is a directory. -/
def entry? (tree : FileTree) (place : Place) : Option FileEntry :=
  match place with
  | [] => some .dir
  | place => tree.entries.get? place

def isDir (tree : FileTree) (place : Place) : Bool := tree.entry? place = some .dir

/-- The longest name, in bytes. -/
def maxName : Nat := 255

/-- The longest path, in bytes. -/
def maxPath : Nat := 4095

def child (tree : FileTree) (dir : Place) (name : String) : Except IoFault (Option FileEntry) :=
  if maxName < name.utf8ByteSize then .error .nameTooLong else .ok (tree.entry? (dir ++ [name]))

/-- The directory that a part of a path leads to; above the root is the root. -/
def enter (tree : FileTree) (here : Place) (piece : String) : Except IoFault Place :=
  if piece = "." then .ok here
  else if piece = ".." then .ok here.dropLast
  else
    match tree.child here piece with
    | .error fault => .error fault
    | .ok (some .dir) => .ok (here ++ [piece])
    | .ok (some (.file _)) => .error .notDirectory
    | .ok none => .error .notFound

/-- The directory that some parts of a path lead to. -/
def descend (tree : FileTree) (here : Place) : List String → Except IoFault Place
  | [] => .ok here
  | piece :: rest =>
    match tree.enter here piece with
    | .error fault => .error fault
    | .ok next => tree.descend next rest

/-- Where a path starts: at the root or in the working directory. -/
def origin (tree : FileTree) (path : String) : Place :=
  if Path.isAbsolute path then [] else tree.home

/-- The end of a path: the directory that all parts but the last lead to, the last part, which is
empty for the root, and whether a slash follows it. -/
structure PathEnd where
  dir : Place
  last : String
  slash : Bool
  deriving DecidableEq, Repr

/-- The place that a path with a name at its end leads to. -/
def PathEnd.place (e : PathEnd) : Place := e.dir ++ [e.last]

def PathEnd.isNamed (e : PathEnd) : Bool := Path.isName e.last

/-- Whether a path holds a character that no path can hold. -/
def hasZeroByte (path : String) : Bool := path.toList.contains '\x00'

/-- The end of a path; nothing needs to stand there, but all directories on the way. -/
def resolve (tree : FileTree) (path : String) : Except IoFault PathEnd :=
  if hasZeroByte path then .error .zeroByte
  else if path = "" then .error .notFound
  else if maxPath < path.utf8ByteSize then .error .nameTooLong
  else
    let pieces := (Path.pieces path).filter (· ≠ "")
    match tree.descend (tree.origin path) pieces.dropLast with
    | .error fault => .error fault
    | .ok dir =>
      .ok { dir, last := pieces.getLast?.getD "", slash := path.toList.getLast? = some '/' }

def find (tree : FileTree) (path : String) : Except IoFault (Place × FileEntry) :=
  match tree.resolve path with
  | .error fault => .error fault
  | .ok e =>
    if !e.isNamed then .ok (if e.last = ".." then e.dir.dropLast else e.dir, .dir)
    else
      match tree.child e.dir e.last with
      | .error fault => .error fault
      | .ok none => .error .notFound
      | .ok (some .dir) => .ok (e.place, .dir)
      | .ok (some (.file text)) =>
        if e.slash then .error .notDirectory else .ok (e.place, .file text)

def leadsToDir (tree : FileTree) (path : String) : Bool :=
  match tree.find path with
  | .ok (_, .dir) => true
  | _ => false

def read (tree : FileTree) (path : String) : Except IoFault String :=
  match tree.find path with
  | .error fault => .error fault
  | .ok (_, .file text) => .ok text
  | .ok (_, .dir) => .error .isDirectory

/-- Put a text into the file that a path leads to, which is made if it is not there. -/
def write (tree : FileTree) (path text : String) : Except IoFault FileTree :=
  match tree.resolve path with
  | .error fault => .error fault
  | .ok e =>
    if !e.isNamed || e.slash then .error .isDirectory
    else
      match tree.child e.dir e.last with
      | .error fault => .error fault
      | .ok (some .dir) => .error .isDirectory
      | .ok _ => .ok { tree with entries := tree.entries.insert e.place (.file text) }

def remove (tree : FileTree) (path : String) : Except IoFault FileTree :=
  match tree.find path with
  | .error fault => .error fault
  | .ok (_, .dir) => .error .isDirectory
  | .ok (place, .file _) => .ok { tree with entries := tree.entries.erase place }

/-- The names of what stands in a directory, in increasing order. -/
def names (tree : FileTree) (place : Place) : List String :=
  tree.entries.keys.filterMap (fun other =>
    if other.length = place.length + 1 && place.isPrefixOf other then other.getLast? else none)

/-- The place that a place moves to when what stands at `source` moves to `target`. -/
def movedTo (source target place : Place) : Place :=
  if source.isPrefixOf place then target ++ place.drop source.length else place

/-- Move what stands at a place, with all below it. -/
def move (tree : FileTree) (source target : Place) : FileTree :=
  let others := tree.entries.erase target
  { tree with
    entries := .ofList (others.entries.map (fun e => (movedTo source target e.1, e.2))) }

/-- Rename what stands at the end of one path to the end of another. A file takes the place of a
file, a directory that of an empty directory outside of it; neither can lie where the other does. -/
def renameEnd (tree : FileTree) (source target : PathEnd) : Except IoFault FileTree :=
  if !source.isNamed || !target.isNamed then .error .busy
  else
    match tree.child source.dir source.last, tree.child target.dir target.last with
    | .error fault, _ => .error fault
    | .ok none, _ => .error .notFound
    | _, .error fault => .error fault
    | .ok (some entry), .ok there =>
      if entry ≠ .dir && (source.slash || target.slash) then .error .notDirectory
      else if source.place.isPrefixOf target.dir then .error .invalid
      else if target.place.isPrefixOf source.dir then .error .notEmpty
      else if source.place = target.place then .ok tree
      else
        match entry, there with
        | .file _, some .dir => .error .isDirectory
        | .dir, some (.file _) => .error .notDirectory
        | .dir, some .dir =>
          if (tree.names target.place).isEmpty then .ok (tree.move source.place target.place)
          else .error .notEmpty
        | _, _ => .ok (tree.move source.place target.place)

def rename (tree : FileTree) (source target : String) : Except IoFault FileTree :=
  if hasZeroByte source || hasZeroByte target then .error .zeroByte
  else
    match tree.resolve source, tree.resolve target with
    | .error fault, _ => .error fault
    | _, .error fault => .error fault
    | .ok source, .ok target => tree.renameEnd source target

def createDir (tree : FileTree) (path : String) : Except IoFault FileTree :=
  match tree.resolve path with
  | .error fault => .error fault
  | .ok e =>
    if !e.isNamed then .error .exists
    else
      match tree.child e.dir e.last with
      | .error fault => .error fault
      | .ok (some _) => .error .exists
      | .ok none => .ok { tree with entries := tree.entries.insert e.place .dir }

/-- Make a directory, unless it is there; whether that went well, and the files then. -/
def ensureDir (tree : FileTree) (path : String) : Except IoFault Unit × FileTree :=
  match tree.createDir path with
  | .ok made => (.ok (), made)
  | .error fault => (if tree.leadsToDir path then .ok () else .error fault, tree)

/-- Make the first of some directories, of which each lies in the next, and before that the others
as far as they are missing. -/
def ensureDirs (tree : FileTree) : List String → Except IoFault Unit × FileTree
  | [] => (.ok (), tree)
  | path :: above =>
    match tree.ensureDir path with
    | (.error .notFound, _) =>
      match tree.ensureDirs above with
      | (.ok (), made) => made.ensureDir path
      | failed => failed
    | result => result

/-- Make a directory with all directories on the way; those that are there stay, and so do those
that were made before one could not be. -/
def createDirs (tree : FileTree) (path : String) : Except IoFault Unit × FileTree :=
  tree.ensureDirs (Path.ancestors path)

/-- Put an entry at a place, making the directories on the way. -/
def plantAt (tree : FileTree) (place : Place) (entry : FileEntry) : FileTree :=
  let above := ((List.range place.length).map place.take).filter (· ≠ [])
  let dirs := above.foldl (fun m dir => m.insert dir .dir) tree.entries
  { tree with entries := dirs.insert place entry }

/-- The place that a path names, whether anything stands there or not. -/
def nominal (tree : FileTree) (path : String) : Place :=
  (Path.pieces path).foldl (fun here piece =>
    if Path.isName piece then here ++ [piece] else if piece = ".." then here.dropLast else here)
    (tree.origin path)

/-- Put a text into the file that a path names, making the directories on the way. -/
def plant (tree : FileTree) (path text : String) : FileTree :=
  tree.plantAt (tree.nominal path) (.file text)

def empty (home : Place) : FileTree := ({ home } : FileTree).plantAt home .dir

/-- Some files, given by their paths, in a working directory. -/
def ofFiles (home : Place) (files : List (String × String)) : FileTree :=
  files.foldl (fun tree e => tree.plant e.1 e.2) (empty home)

/-- All that is below the working directory, with the names from there. -/
def listing (tree : FileTree) : List (Place × FileEntry) :=
  tree.entries.entries.filterMap (fun e =>
    if tree.home.length < e.1.length && tree.home.isPrefixOf e.1 then
      some (e.1.drop tree.home.length, e.2)
    else none)

end FileTree
end BlockStack
