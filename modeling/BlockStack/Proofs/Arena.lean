import BlockStack.Proofs.DepthFirst
import Mathlib.Logic.Relation

/-!
# BlockStack.Proofs.Arena

Trees that are built by any calls are forests, and the loops over them end.

* `LayerTree.Call`, `LayerTree.callAll`: nodes are attached and labelled in any order, with any
  numbers and parents. A call that is refused leaves the tree as it is.
* `LayerTree.Attached`: what attaching a node changes. `LayerTree.call_takes`: all that a call does.
* `LayerTree.visitOnce`, `LayerTree.climbOnce`: the bodies of the loops behind the depth-first order
  and the depth, which themselves have no bound.
* `LayerTree.branch`: the depth-first order by recursion.
* `LayerTree.Arena`: what holds of links, roots, the depth-first order and the depth.
  `LayerTree.callAll_arena`: it holds after any calls.
-/

namespace BlockStack
namespace LayerTree

/-- What a tree may be asked to do: to attach a node at the top or below another, with whatever links
the node brings along, or to change the suffix and the flag of a node. -/
inductive Call where
  | root (node : LayerNode)
  | child (parent : LayerId) (node : LayerNode)
  | label (id : LayerId) (suffix : String) (suspended : Bool)

/-- What a tree answers to a call. -/
def answer (tree : LayerTree) : Call → Except Fault LayerTree
  | .root node => tree.insertRoot node
  | .child parent node => tree.insertChild parent node
  | .label id suffix suspended => .ok (tree.modify id ({ · with suffix, suspended }))

/-- The tree after a call. -/
def call (tree : LayerTree) (c : Call) : LayerTree :=
  match tree.answer c with
  | .ok next => next
  | .error _ => tree

/-- The tree after some calls, from an empty one on. -/
def callAll (calls : List Call) : LayerTree := calls.foldl call {}

/-! ## One call -/

/-- A node with a new number was attached at the end, without children, and nothing else has changed
but the children of its parent. -/
structure Attached (tree : LayerTree) (parent : Option LayerId) (node : LayerNode)
    (next : LayerTree) : Prop where
  fresh : node.id ∉ tree.ids
  known : ∀ p, parent = some p → p ∈ tree.ids
  ids : next.ids = tree.ids ++ [node.id]
  attached : next.get? node.id = some { node with parent, children := [] }
  others : ∀ id ∈ tree.ids, next.get? id = (tree.get? id).map (fun n =>
    if parent = some id then { n with children := n.children ++ [node.id] } else n)
  roots : next.roots = if parent = none then tree.roots ++ [node.id] else tree.roots

/-- What a call does to a tree. -/
inductive Takes (tree : LayerTree) : Call → LayerTree → Prop where
  | root {node : LayerNode} {next : LayerTree} (h : tree.Attached none node next) :
    Takes tree (.root node) next
  | child {parent : LayerId} {node : LayerNode} {next : LayerTree}
    (h : tree.Attached (some parent) node next) : Takes tree (.child parent node) next
  | label (id : LayerId) (suffix : String) (suspended : Bool) :
    Takes tree (.label id suffix suspended) (tree.modify id ({ · with suffix, suspended }))
  | refusedRoot {node : LayerNode} (hused : node.id ∈ tree.ids)
    (hfault : tree.answer (.root node) = .error (.inconsistent (.repeatedNode node.id))) :
    Takes tree (.root node) tree
  | refusedChild {parent : LayerId} {node : LayerNode} (hused : node.id ∈ tree.ids)
    (hfault : tree.answer (.child parent node) = .error (.inconsistent (.repeatedNode node.id))) :
    Takes tree (.child parent node) tree
  | orphan {parent : LayerId} {node : LayerNode} (hfresh : node.id ∉ tree.ids)
    (hparent : parent ∉ tree.ids)
    (hfault : tree.answer (.child parent node) = .error (.danglingParent node.id parent)) :
    Takes tree (.child parent node) tree

variable {tree next : LayerTree} {node : LayerNode} {id parent : LayerId}

theorem get?_append_of_mem {a b : List LayerNode} {roots : List LayerId}
    (h : id ∈ a.map (·.id)) : get? ⟨a ++ b, roots⟩ id = a.find? (fun n => n.id = id) := by
  rw [get?, List.find?_append, Option.or_of_isSome]
  obtain ⟨n, hn, hid⟩ := List.mem_map.1 h
  exact List.find?_isSome.2 ⟨n, hn, decide_eq_true hid⟩

theorem get?_append_new {a : List LayerNode} {roots : List LayerId} (h : node.id ∉ a.map (·.id)) :
    get? ⟨a ++ [node], roots⟩ node.id = some node := by
  have hnone : a.find? (fun n => n.id = node.id) = none :=
    List.find?_eq_none.2 fun n hn hid => h (List.mem_map.2 ⟨n, hn, of_decide_eq_true hid⟩)
  rw [get?, List.find?_append, hnone, Option.none_or, List.find?_singleton,
    if_pos (decide_eq_true rfl)]

theorem attached_root (hfresh : node.id ∉ tree.ids) :
    tree.Attached none node {
      nodes := tree.nodes ++ [{ node with parent := none, children := [] }]
      roots := tree.roots ++ [node.id] } where
  fresh := hfresh
  known p hp := by cases hp
  ids := by simp [LayerTree.ids]
  attached := get?_append_new hfresh
  others id hid := by
    rw [get?_append_of_mem hid]
    simp [get?]
  roots := by simp

theorem attached_child (hfresh : node.id ∉ tree.ids) (hparent : parent ∈ tree.ids) :
    tree.Attached (some parent) node {
      nodes := addChild tree.nodes parent node.id ++
        [{ node with parent := some parent, children := [] }]
      roots := tree.roots } where
  fresh := hfresh
  known p hp := by cases hp; exact hparent
  ids := by simp [LayerTree.ids, map_addChild]
  attached := get?_append_new (by rwa [map_addChild _ fun _ _ => rfl])
  others id hid := by
    rw [get?_append_of_mem (by rwa [map_addChild _ fun _ _ => rfl])]
    let extended (n : LayerNode) : LayerNode := { n with children := n.children ++ [node.id] }
    have hget : (tree.modify parent extended).get? id = _ :=
      get?_modify (f := extended) (fun _ h => h) id
    refine hget.trans (Option.map_congr fun n hn => ?_)
    simp only [extended, Option.some.injEq, id_of_get? hn, eq_comm]
  roots := by simp

theorem insertChild_dangling (hfresh : node.id ∉ tree.ids) (hparent : parent ∉ tree.ids) :
    tree.insertChild parent node = .error (.danglingParent node.id parent) := by
  simp [insertChild, contains_iff, hfresh, hparent]

/-- All that a call may do; it keeps the forest. -/
theorem call_cases (tree : LayerTree) (c : Call) :
    tree.Takes c (tree.call c) ∧ (tree.WellFormed → (tree.call c).WellFormed) := by
  cases c with
  | root node =>
    by_cases hused : node.id ∈ tree.ids
    · simp only [call, answer, insertRoot_error hused]
      exact ⟨.refusedRoot hused (insertRoot_error hused), id⟩
    · simp only [call, answer, insertRoot_ok hused]
      exact ⟨.root (attached_root hused), fun h => h.insertRoot hused⟩
  | child parent node =>
    by_cases hused : node.id ∈ tree.ids
    · simp only [call, answer, insertChild_error hused]
      exact ⟨.refusedChild hused (insertChild_error hused), id⟩
    by_cases hparent : parent ∈ tree.ids
    · simp only [call, answer, insertChild_ok hused hparent]
      exact ⟨.child (attached_child hused hparent), fun h => h.insertChild hused hparent⟩
    · simp only [call, answer, insertChild_dangling hused hparent]
      exact ⟨.orphan hused hparent (insertChild_dangling hused hparent), id⟩
  | label id suffix suspended =>
    refine ⟨.label id suffix suspended, fun h => ?_⟩
    let labelled (n : LayerNode) : LayerNode := { n with suffix, suspended }
    have hlinks : (tree.modify id labelled).nodes.map LayerNode.links = _ :=
      map_modify LayerNode.links (f := labelled) fun _ _ _ => rfl
    exact wellFormed_congr (a := tree) rfl hlinks.symm h

theorem wellFormed_callAll (calls : List Call) : (callAll calls).WellFormed := by
  have hkept : ∀ (calls : List Call) (tree : LayerTree), tree.WellFormed →
      (calls.foldl call tree).WellFormed := by
    intro calls
    induction calls with
    | nil => exact fun _ h => h
    | cons c rest ih => exact fun tree h => ih _ ((tree.call_cases c).2 h)
  exact hkept calls {} wellFormed_empty

/-! ## The loops -/

/-- A loop goes from one state to another, turn by turn, and ends there. -/
def Ends {α : Type} (turn : α → Option α) (start last : α) : Prop :=
  Relation.ReflTransGen (fun a b => turn a = some b) start last ∧ turn last = none

/-- One turn of the loop behind the depth-first order: the number on top of the stack comes off, and
if it has a node then it is listed and the children of the node go on the stack. -/
def visitOnce (tree : LayerTree) :
    List LayerId × List LayerId → Option (List LayerId × List LayerId)
  | ([], _) => none
  | (id :: rest, order) =>
    match tree.get? id with
    | some node => some (node.children ++ rest, order ++ [id])
    | none => some (rest, order)

/-- One turn of the loop behind the depth: a step up to the parent. -/
def climbOnce (tree : LayerTree) : LayerNode × Nat → Option (LayerNode × Nat)
  | (node, depth) => (node.parent.bind tree.get?).map (·, depth + 1)

/-- The loop takes a part of the stack off and lists the nodes on it in their depth-first order. -/
theorem Walk.turns {s l : List LayerId} (h : Walk tree s l) : ∀ rest order,
    Relation.ReflTransGen (fun a b => tree.visitOnce a = some b) (s ++ rest, order)
      (rest, order ++ l) := by
  induction h with
  | done =>
    intro rest order
    rw [List.append_nil]
    exact .refl
  | @node id n more below after hget _ _ ihb iha =>
    intro rest order
    have hturn : tree.visitOnce (id :: more ++ rest, order) =
        some (n.children ++ (more ++ rest), order ++ [id]) := by
      simp only [List.cons_append, visitOnce, hget]
    have hlisted : order ++ id :: (below ++ after) = order ++ [id] ++ below ++ after := by simp
    rw [hlisted]
    exact .head hturn ((ihb _ _).trans (iha _ _))

/-- A node with all nodes below it, each followed by the nodes below it, so many levels down. -/
def branch (tree : LayerTree) : (levels : Nat) → LayerId → List LayerId
  | 0, _ => []
  | levels + 1, id => id :: ((tree.children id).map (·.id)).flatMap (tree.branch levels)

theorem Walk.unique {s l m : List LayerId} (h : Walk tree s l) (h' : Walk tree s m) : l = m := by
  have hl := h.visit_eq (Nat.le_max_left l.length m.length)
  have hm := h'.visit_eq (Nat.le_max_right l.length m.length)
  exact hl.symm.trans hm

theorem walk_flatMap {f : LayerId → List LayerId} {s : List LayerId}
    (h : ∀ id ∈ s, Walk tree [id] (f id)) : Walk tree s (s.flatMap f) := by
  induction s with
  | nil => exact .done
  | cons id rest ih =>
    rw [List.flatMap_cons]
    exact (h id List.mem_cons_self).append (ih fun x hx => h x (List.mem_cons_of_mem _ hx))

theorem WellFormed.children_ids (h : tree.WellFormed) (hget : tree.get? id = some node) :
    (tree.children id).map (·.id) = node.children := by
  have hfound : ∀ c ∈ node.children, (tree.get? c).map (·.id) = some c := by
    intro c hc
    obtain ⟨n, hn, rfl⟩ := List.mem_map.1 (h.children_mem_ids (mem_of_get? hget) hc).1
    rw [get?_of_mem h.nodup hn, Option.map_some]
  simp only [children, hget]
  rw [List.map_filterMap, List.filterMap_congr hfound, List.filterMap_some]

/-- The recursion lists a node and the nodes below it, if it goes down far enough. Children stand
behind their parents in the list of nodes, so this is a matter of how much of the list is left. -/
theorem WellFormed.walk_branch (h : tree.WellFormed) : ∀ (levels : Nat) (id : LayerId),
    id ∈ tree.ids → tree.ids.length - tree.ids.idxOf id ≤ levels →
      Walk tree [id] (tree.branch levels id) := by
  intro levels
  induction levels with
  | zero =>
    intro id hid hle
    have := List.idxOf_lt_length_of_mem hid
    omega
  | succ levels ih =>
    intro id hid hle
    obtain ⟨node, hnode, rfl⟩ := List.mem_map.1 hid
    have hget := get?_of_mem h.nodup hnode
    have hbelow : Walk tree node.children (node.children.flatMap (tree.branch levels)) := by
      refine walk_flatMap fun c hc => ?_
      obtain ⟨hmem, hlt⟩ := h.children_mem_ids hnode hc
      exact ih c hmem (by omega)
    have hwalk := Walk.node hget hbelow .done
    rwa [List.append_nil, ← h.children_ids hget] at hwalk

theorem WellFormed.preOrder_eq_branch (h : tree.WellFormed) {levels : Nat}
    (hle : tree.size ≤ levels) : tree.preOrder = tree.roots.flatMap (tree.branch levels) := by
  refine h.walk_preOrder.unique (walk_flatMap fun id hid => ?_)
  refine h.walk_branch levels id (h.roots_mem_ids hid) ?_
  have hlength : tree.ids.length = tree.size := List.length_map ..
  omega

/-! ## Depths -/

/-- With enough fuel the climb is the loop, which ends at a node without a parent. -/
theorem WellFormed.climb_ends (h : tree.WellFormed) : ∀ (fuel : Nat) (node : LayerNode),
    node ∈ tree.nodes → tree.ids.idxOf node.id < fuel →
    ∃ top depth, tree.climb fuel node = some depth ∧ top.parent = none ∧
      ∀ start, Ends tree.climbOnce (node, start) (top, start + depth) := by
  intro fuel
  induction fuel with
  | zero => intro node _ hlt; omega
  | succ fuel ih =>
    intro node hmem hlt
    cases hparent : node.parent with
    | none =>
      refine ⟨node, 0, by simp only [climb, hparent], hparent, fun start => ⟨.refl, ?_⟩⟩
      simp only [climbOnce, hparent, Option.bind_none, Option.map_none]
    | some p =>
      obtain ⟨hp, hbefore⟩ := h.parent_first node hmem p hparent
      obtain ⟨above, habove, rfl⟩ := List.mem_map.1 hp
      have hget := get?_of_mem h.nodup habove
      obtain ⟨top, depth, hclimb, htop, hends⟩ := ih above habove (by omega)
      refine ⟨top, depth + 1, by simp only [climb, hparent, hget, hclimb, Option.map_some], htop,
        fun start => ?_⟩
      have hturn : tree.climbOnce (node, start) = some (above, start + 1) := by
        simp only [climbOnce, hparent, Option.bind_some, hget, Option.map_some]
      have hsum : start + (depth + 1) = start + 1 + depth := by omega
      rw [hsum]
      exact ⟨.head hturn (hends (start + 1)).1, (hends (start + 1)).2⟩

theorem climb_succ {fuel : Nat} : ∀ {node : LayerNode} {depth : Nat},
    tree.climb fuel node = some depth → tree.climb (fuel + 1) node = some depth := by
  induction fuel with
  | zero => intro node depth h; cases h
  | succ fuel ih =>
    intro node depth h
    cases hparent : node.parent with
    | none => simpa only [climb, hparent] using h
    | some p =>
      cases hget : tree.get? p with
      | none =>
        simp only [climb, hparent, hget] at h
        cases h
      | some above =>
        simp only [climb, hparent, hget] at h
        obtain ⟨up, hup, rfl⟩ := Option.map_eq_some_iff.1 h
        rw [climb, hparent]
        simp only [hget, ih hup, Option.map_some]

theorem WellFormed.depth?_eq (h : tree.WellFormed) (hget : tree.get? id = some node) :
    tree.depth? id = match node.parent with
      | none => some 0
      | some p => (tree.depth? p).map (· + 1) := by
  have hmem := mem_of_get? hget
  have hsize : tree.ids.length = tree.size := List.length_map ..
  have hlt := List.idxOf_lt_length_of_mem (List.mem_map_of_mem (f := LayerNode.id) hmem)
  have hdepth : tree.depth? id = tree.climb tree.size node := by simp only [depth?, hget]
  -- a node has at least one step to go, and its parent needs one step less
  obtain ⟨steps, hsteps⟩ : ∃ steps, tree.size = steps + 1 :=
    Nat.exists_eq_succ_of_ne_zero (by rw [← hsize]; exact Nat.ne_of_gt (Nat.zero_lt_of_lt hlt))
  rw [hdepth, hsteps]
  cases hparent : node.parent with
  | none => simp only [climb, hparent]
  | some p =>
    obtain ⟨hp, hbefore⟩ := h.parent_first node hmem p hparent
    obtain ⟨above, habove, rfl⟩ := List.mem_map.1 hp
    have hgetAbove := get?_of_mem h.nodup habove
    have hnear : tree.ids.idxOf above.id < steps := by
      change tree.ids.idxOf node.id < tree.ids.length at hlt
      omega
    obtain ⟨top, depth, hclimb, -⟩ := h.climb_ends steps above habove hnear
    simp only [climb, hparent, hgetAbove, hclimb, depth?, hsteps, climb_succ hclimb]

/-! ## All trees that are built by calls -/

/-- A forest whose links agree in both directions, with loops over it that end. -/
structure Arena (tree : LayerTree) : Prop where
  distinct : tree.ids.Nodup
  /-- A node is a child of another exactly if that one is its parent. -/
  links : ∀ above ∈ tree.nodes, ∀ node ∈ tree.nodes,
    node.id ∈ above.children ↔ node.parent = some above.id
  /-- Children and parents are nodes of the tree. -/
  present : ∀ node ∈ tree.nodes, (∀ c ∈ node.children, c ∈ tree.ids) ∧
    ∀ p, node.parent = some p → p ∈ tree.ids
  /-- A node is a child once, and of one node only. -/
  once : ∀ above ∈ tree.nodes, above.children.Nodup ∧
    ∀ other ∈ tree.nodes, ∀ c ∈ above.children, c ∈ other.children → other = above
  /-- The roots are the nodes without a parent, each once. -/
  roots : tree.roots.Nodup ∧
    ∀ id, id ∈ tree.roots ↔ ∃ node, tree.get? id = some node ∧ node.parent = none
  /-- Roots and children stand in the order in which they were attached. -/
  attachOrder : tree.roots.Sublist tree.ids ∧ ∀ node ∈ tree.nodes, node.children.Sublist tree.ids
  /-- The loop over the stack ends with the depth-first order. -/
  ends : Ends tree.visitOnce (tree.roots, []) ([], tree.preOrder)
  /-- The depth-first order lists every node once. -/
  listed : tree.preOrder.Perm tree.ids
  /-- It lists every node after its parent. -/
  parentFirst : ∀ before id after, tree.preOrder = before ++ id :: after →
    ∀ node p, tree.get? id = some node → node.parent = some p → p ∈ before
  /-- It is what the recursion over roots and children lists. -/
  recursive : ∀ levels, tree.size ≤ levels →
    tree.preOrder = tree.roots.flatMap (tree.branch levels)
  /-- The loop up the parents ends at a root, with the depth. -/
  climbs : ∀ id node, tree.get? id = some node → ∃ top depth, top.parent = none ∧
    tree.depth? id = some depth ∧ Ends tree.climbOnce (node, 0) (top, depth)
  /-- Roots are at depth zero, every other node is one below its parent. -/
  depths : ∀ id node, tree.get? id = some node → tree.depth? id = match node.parent with
    | none => some 0
    | some p => (tree.depth? p).map (· + 1)
  /-- What is no node has no depth. -/
  absent : ∀ id, id ∉ tree.ids → tree.depth? id = none

theorem WellFormed.arena (h : tree.WellFormed) : tree.Arena where
  distinct := h.nodup
  links above habove node hnode := by
    rw [h.children_eq above habove, mem_hanging]
    constructor
    · rintro ⟨other, hother, hparent, hid⟩
      rwa [List.inj_on_of_nodup_map h.nodup hother hnode hid] at hparent
    · exact fun hparent => ⟨node, hnode, hparent, rfl⟩
  present node hnode :=
    ⟨fun c hc => (h.children_mem_ids hnode hc).1, fun p hp => (h.parent_first node hnode p hp).1⟩
  once above habove := by
    refine ⟨h.children_eq above habove ▸ h.nodup_hanging _, fun other hother c hc hc' => ?_⟩
    rw [h.children_eq above habove] at hc
    rw [h.children_eq other hother] at hc'
    obtain ⟨n, hn, hparent⟩ := exists_of_mem_hanging h.nodup hc
    obtain ⟨m, hm, hparent'⟩ := exists_of_mem_hanging h.nodup hc'
    cases hn.symm.trans hm
    exact List.inj_on_of_nodup_map h.nodup hother habove
      (Option.some.inj (hparent'.symm.trans hparent))
  roots := by
    refine ⟨h.roots_eq ▸ h.nodup_hanging none, fun id => ?_⟩
    rw [h.roots_eq]
    refine ⟨exists_of_mem_hanging h.nodup, fun ⟨node, hget, hparent⟩ => ?_⟩
    exact mem_hanging.2 ⟨node, mem_of_get? hget, hparent, id_of_get? hget⟩
  attachOrder := by
    refine ⟨h.roots_eq ▸ hanging_sublist _ _, fun node hnode => ?_⟩
    exact h.children_eq node hnode ▸ hanging_sublist _ _
  ends := by
    have hturns := h.walk_preOrder.turns [] []
    rw [List.append_nil, List.nil_append] at hturns
    exact ⟨hturns, rfl⟩
  listed := h.preOrder_perm
  parentFirst before id after hsplit node p hget hparent := by
    rcases h.parent_before_walk h.walk_preOrder hsplit with hroot | ⟨other, q, hother, hq, hbefore⟩
    · rw [h.roots_eq] at hroot
      obtain ⟨root, hgetRoot, hnone⟩ := exists_of_mem_hanging h.nodup hroot
      cases hget.symm.trans hgetRoot
      cases hparent.symm.trans hnone
    · cases hget.symm.trans hother
      cases hparent.symm.trans hq
      exact hbefore
  recursive levels := h.preOrder_eq_branch
  climbs id node hget := by
    have hlt : tree.ids.idxOf node.id < tree.size := by
      rw [← show tree.ids.length = tree.size from List.length_map ..]
      exact List.idxOf_lt_length_of_mem (List.mem_map_of_mem (mem_of_get? hget))
    obtain ⟨top, depth, hclimb, htop, hends⟩ := h.climb_ends tree.size node (mem_of_get? hget) hlt
    refine ⟨top, depth, htop, by simp only [depth?, hget, hclimb], ?_⟩
    simpa only [Nat.zero_add] using hends 0
  depths id node := h.depth?_eq
  absent id hid := by simp only [depth?, get?_eq_none_iff.2 hid]

/-- Whatever nodes are attached and labelled, the tree is a forest whose links agree, and the loops
over it end; and each further call does what it is to do, or it is refused and leaves the tree. -/
theorem callAll_arena (calls : List Call) :
    (callAll calls).Arena ∧ ∀ c, (callAll calls).Takes c (callAll (calls ++ [c])) := by
  refine ⟨(wellFormed_callAll calls).arena, fun c => ?_⟩
  have hlast : callAll (calls ++ [c]) = (callAll calls).call c := List.foldl_append ..
  rw [hlast]
  exact (call_cases _ c).1

end LayerTree
end BlockStack
