import BlockStack.Fault
import BlockStack.Node

/-!
# BlockStack.Tree

The layers of one resource as a forest: a list of nodes in the order in which they were attached,
linked by their numbers, and the list of roots.

* `LayerTree.insertRoot`, `LayerTree.insertChild`: attach a node; links that the node brings along
  are dropped, a number that is in use and a parent that is absent are refused.
* `LayerTree.preOrder`: the numbers depth first, each node before its children.
* `LayerTree.findRoot?`, `LayerTree.findChild?`: the first root or child with a kind and a suffix.
* `LayerTree.Same`: equality of forests up to the order in which nodes were attached.
-/

namespace BlockStack

/-- The layers of one resource. -/
structure LayerTree where
  nodes : List LayerNode := []
  roots : List LayerId := []
  deriving DecidableEq, Repr, Inhabited

namespace LayerTree

def get? (tree : LayerTree) (id : LayerId) : Option LayerNode :=
  tree.nodes.find? (fun node => node.id = id)

def contains (tree : LayerTree) (id : LayerId) : Bool := (tree.get? id).isSome

def size (tree : LayerTree) : Nat := tree.nodes.length

/-- Change the node with a number, if there is one. -/
def modify (tree : LayerTree) (id : LayerId) (f : LayerNode → LayerNode) : LayerTree :=
  { tree with nodes := tree.nodes.map (fun node => if node.id = id then f node else node) }

def insertRoot (tree : LayerTree) (node : LayerNode) : Except Fault LayerTree :=
  if tree.contains node.id then .error (.inconsistent (.repeatedNode node.id))
  else .ok {
    nodes := tree.nodes ++ [{ node with parent := none, children := [] }]
    roots := tree.roots ++ [node.id] }

/-- Attach a node as the last child of another. -/
def insertChild (tree : LayerTree) (parent : LayerId) (node : LayerNode) : Except Fault LayerTree :=
  if tree.contains node.id then .error (.inconsistent (.repeatedNode node.id))
  else if tree.contains parent then
    let linked := tree.modify parent (fun p => { p with children := p.children ++ [node.id] })
    .ok { linked with
      nodes := linked.nodes ++ [{ node with parent := some parent, children := [] }] }
  else .error (.danglingParent node.id parent)

/-- The children of a node in the order in which they were attached. -/
def children (tree : LayerTree) (id : LayerId) : List LayerNode :=
  match tree.get? id with
  | some node => node.children.filterMap tree.get?
  | none => []

def matching (kind : LayerKind) (suffix : String) (node : LayerNode) : Bool :=
  node.kind = kind && node.suffix = suffix

/-- The first root with a kind and a suffix. -/
def findRoot? (tree : LayerTree) (kind : LayerKind) (suffix : String) : Option LayerId :=
  ((tree.roots.filterMap tree.get?).find? (matching kind suffix)).map (·.id)

/-- The first child of a node with a kind and a suffix. -/
def findChild? (tree : LayerTree) (parent : LayerId) (kind : LayerKind) (suffix : String) :
    Option LayerId :=
  ((tree.children parent).find? (matching kind suffix)).map (·.id)

/-- Visit the numbers on a stack, each followed by its children; `fuel` bounds the visits. -/
def visit (tree : LayerTree) : (fuel : Nat) → (stack : List LayerId) → List LayerId
  | 0, _ => []
  | _, [] => []
  | fuel + 1, id :: rest =>
    match tree.get? id with
    | some node => id :: visit tree fuel (node.children ++ rest)
    | none => visit tree fuel rest

/-- All numbers depth first, each before those of its children. -/
def preOrder (tree : LayerTree) : List LayerId := tree.visit tree.size tree.roots

/-- How many steps up it is from a node to a root, in at most `fuel` steps. -/
def climb (tree : LayerTree) : (fuel : Nat) → LayerNode → Option Nat
  | 0, _ => none
  | fuel + 1, node =>
    match node.parent with
    | none => some 0
    | some parent =>
      match tree.get? parent with
      | some above => (climb tree fuel above).map (· + 1)
      | none => none

/-- The depth of a node; roots are at depth zero. -/
def depth? (tree : LayerTree) (id : LayerId) : Option Nat :=
  match tree.get? id with
  | some node => tree.climb tree.size node
  | none => none

/-- All volumes of storage layers, each with its layer. -/
def storageVolumes (tree : LayerTree) : List (LayerNode × VolumeLeaf) :=
  (tree.nodes.filter (fun node => node.kind = .storage)).flatMap
    (fun node => node.volumes.values.map (fun leaf => (node, leaf)))

/-- Equality up to the order in which the nodes were attached. -/
def Same (a b : LayerTree) : Prop :=
  a.roots = b.roots ∧ a.size = b.size ∧ ∀ node ∈ a.nodes, b.get? node.id = some node

instance (a b : LayerTree) : Decidable (Same a b) :=
  inferInstanceAs (Decidable (_ ∧ _ ∧ _))

end LayerTree
end BlockStack
