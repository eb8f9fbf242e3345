import BlockStack.Catalog
import BlockStack.Tree

/-!
# BlockStack.Resource

A resource on a node with its layers, and what is derived from them.

* `Metadata.ofTree`: the kinds down the first branch, whether no volume has a backend object, and
  all volume numbers.
* `volumeIdentifier`: the name under which a backend knows a volume,
  `<resource><suffix>_<volume>` with the volume in at least five digits, and `_<snapshot>` after it
  for a snapshot.
* `Resource.identifiers`: the names of all volumes that have a backend object.
-/

namespace BlockStack

/-- What is derived from the layers of a resource. -/
structure Metadata where
  layerStack : List LayerKind := []
  diskless : Bool := false
  volumeNumbers : SortedMap UInt32 Unit := .empty
  deriving DecidableEq, Repr, Inhabited

namespace Metadata

/-- The kinds from a node down the branch of first children, in at most `fuel` steps. -/
def descend (tree : LayerTree) : (fuel : Nat) → Option LayerId → List LayerKind
  | 0, _ => []
  | _, none => []
  | fuel + 1, some id =>
    match tree.get? id with
    | some node => node.kind :: descend tree fuel node.children.head?
    | none => []

/-- What follows from a forest of layers. -/
def ofTree (tree : LayerTree) : Metadata where
  layerStack := descend tree tree.size tree.roots.head?
  diskless := !tree.storageVolumes.any (fun e => e.2.hasBackingObject)
  volumeNumbers := .ofList (tree.nodes.flatMap (fun node => node.volumes.keys.map (·, ())))

end Metadata

/-- A resource on a node with its layers. -/
structure Resource where
  key : ResourceKey
  definition : ResourceDefinition
  tree : LayerTree := {}
  metadata : Metadata := {}
  deriving DecidableEq, Repr, Inhabited

/-- Digits of a number with zeros in front up to five places. -/
def fiveDigits (n : UInt32) : String :=
  let digits := toString n.toNat
  "".pushn '0' (5 - digits.length) ++ digits

/-- The name under which a backend knows a volume. -/
def volumeIdentifier (key : ResourceKey) (suffix : String) (volume : UInt32) : String :=
  let stem := key.resource ++ suffix ++ "_" ++ fiveDigits volume
  match key.snapshot with
  | some snapshot => stem ++ "_" ++ snapshot
  | none => stem

namespace Resource

/-- The resource with its metadata derived anew. -/
def refresh (resource : Resource) : Resource :=
  { resource with metadata := .ofTree resource.tree }

/-- The names of all volumes that have a backend object, each once, in increasing order. -/
def identifiers (resource : Resource) : List String :=
  let named := (resource.tree.storageVolumes.filter (fun e => e.2.hasBackingObject)).map
    (fun e => (volumeIdentifier resource.key e.1.suffix e.2.number, ()))
  (SortedMap.ofList named).keys

/-- Equality up to the order in which layers were attached. -/
def Same (a b : Resource) : Prop :=
  a.key = b.key ∧ a.definition = b.definition ∧ a.tree.Same b.tree ∧ a.metadata = b.metadata

instance (a b : Resource) : Decidable (Same a b) :=
  inferInstanceAs (Decidable (_ ∧ _ ∧ _ ∧ _))

end Resource
end BlockStack
