import BlockStack.FileTree
import BlockStack.Json.Reader
import BlockStack.Wire.Record

/-!
# BlockStack.Store

Where the document is kept: in memory, or as JSON text in a file.

* `Store.document`: the document as it is kept.
* `Store.save`: new rows in the place of all rows of a resource. A file is written beside the
  document and then renamed to it, so that the document is whole at any time.
-/

namespace BlockStack

/-- Where the document is kept; a file lies in a tree of files. -/
inductive Store where
  | memory (document : Document)
  | file (path : String) (files : FileTree)
  deriving DecidableEq, Repr

namespace Store

def files : Store → FileTree
  | memory _ => {}
  | file _ files => files

/-- The store among other files; one in memory stays as it is. -/
def withFiles : Store → FileTree → Store
  | memory document, _ => memory document
  | file path _, files => file path files

def parseDocument (text : String) : Except Fault Document :=
  match (Json.parse text).bind Document.ofJson? with
  | some document => .ok document
  | none => .error .json

def readFile (files : FileTree) (path : String) : Except Fault Document :=
  match files.read path with
  | .error cause => .error (.io cause)
  | .ok text => parseDocument text

def document : Store → Except Fault Document
  | memory document => .ok document
  | file path files => readFile files path

/-- Put a document into a file by way of a file beside it. -/
def replaceFile (files : FileTree) (path : String) (document : Document) :
    Except IoFault FileTree :=
  let beside := Path.replaceExtension "json.tmp" path
  match files.write beside document.toJson.pretty with
  | .error cause => .error cause
  | .ok written => written.rename beside path

/-- Put new rows in the place of all rows of a resource. -/
def save (store : Store) (key : ResourceKey) (rows : Rows) : Except Fault Store :=
  match store with
  | memory document => .ok (memory (document.replaceResource key rows))
  | file path files =>
    match readFile files path with
    | .error fault => .error fault
    | .ok document =>
      match replaceFile files path (document.replaceResource key rows) with
      | .error cause => .error (.io cause)
      | .ok files => .ok (file path files)

end Store
end BlockStack
