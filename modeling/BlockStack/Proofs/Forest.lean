import BlockStack.Tree
import Mathlib.Data.List.Nodup
import Mathlib.Data.List.Basic

/-!
# BlockStack.Proofs.Forest

The list of nodes of a tree is a forest, linked consistently in both directions.

* `LayerTree.WellFormed`: numbers are unique, roots and children are the nodes that name the
  parent, in the order of the list, and every parent stands before its children.
* `WellFormed.insertRoot`, `WellFormed.insertChild`: attaching a node keeps the forest;
  `wellFormed_congr`: so does any change that leaves the links alone.
* `WellFormed.below_sibling`: two nodes with one parent have no node below them in common.
-/

namespace BlockStack

/-- How a node is linked: its number, its parent and its children. -/
def LayerNode.links (node : LayerNode) : LayerId × Option LayerId × List LayerId :=
  (node.id, node.parent, node.children)

namespace LayerTree

/-- The numbers of all nodes, in the order in which they were attached. -/
def ids (tree : LayerTree) : List LayerId := tree.nodes.map (·.id)

/-- The numbers of the nodes below `parent`, or at the top, in the order of the list. -/
def hanging (nodes : List LayerNode) (parent : Option LayerId) : List LayerId :=
  (nodes.filter (fun node => node.parent = parent)).map (·.id)

/-- The nodes form a forest that is linked consistently. -/
structure WellFormed (tree : LayerTree) : Prop where
  nodup : tree.ids.Nodup
  roots_eq : tree.roots = hanging tree.nodes none
  children_eq : ∀ node ∈ tree.nodes, node.children = hanging tree.nodes (some node.id)
  parent_first : ∀ node ∈ tree.nodes, ∀ p, node.parent = some p →
    p ∈ tree.ids ∧ tree.ids.idxOf p < tree.ids.idxOf node.id

/-! ## Look-ups -/

theorem id_of_get? {tree : LayerTree} {id : LayerId} {node : LayerNode}
    (h : tree.get? id = some node) : node.id = id := by
  simpa using List.find?_some h

theorem mem_of_get? {tree : LayerTree} {id : LayerId} {node : LayerNode}
    (h : tree.get? id = some node) : node ∈ tree.nodes :=
  List.mem_of_find?_eq_some h

theorem get?_eq_none_iff {tree : LayerTree} {id : LayerId} :
    tree.get? id = none ↔ id ∉ tree.ids := by
  simp [get?, ids]

theorem contains_iff {tree : LayerTree} {id : LayerId} : tree.contains id = true ↔ id ∈ tree.ids := by
  rw [contains, Option.isSome_iff_ne_none, ne_eq, get?_eq_none_iff, not_not]

theorem get?_of_mem {tree : LayerTree} (h : tree.ids.Nodup) {node : LayerNode}
    (hmem : node ∈ tree.nodes) : tree.get? node.id = some node := by
  cases hget : tree.get? node.id with
  | none => exact absurd (List.mem_map_of_mem hmem) (get?_eq_none_iff.1 hget)
  | some other =>
    have := List.inj_on_of_nodup_map h (mem_of_get? hget) hmem (id_of_get? hget)
    rw [this]

theorem mem_hanging {nodes : List LayerNode} {parent : Option LayerId} {id : LayerId} :
    id ∈ hanging nodes parent ↔ ∃ node ∈ nodes, node.parent = parent ∧ node.id = id := by
  simp [hanging, and_assoc]

theorem exists_of_mem_hanging {tree : LayerTree} (h : tree.ids.Nodup) {parent : Option LayerId}
    {id : LayerId} (hid : id ∈ hanging tree.nodes parent) :
    ∃ node, tree.get? id = some node ∧ node.parent = parent := by
  obtain ⟨node, hmem, hparent, rfl⟩ := mem_hanging.1 hid
  exact ⟨node, get?_of_mem h hmem, hparent⟩

theorem hanging_sublist (nodes : List LayerNode) (parent : Option LayerId) :
    (hanging nodes parent).Sublist (nodes.map (·.id)) :=
  List.filter_sublist.map _

@[simp] theorem hanging_append (a b : List LayerNode) (parent : Option LayerId) :
    hanging (a ++ b) parent = hanging a parent ++ hanging b parent := by
  simp [hanging]

theorem hanging_singleton (node : LayerNode) (parent : Option LayerId) :
    hanging [node] parent = if node.parent = parent then [node.id] else [] := by
  by_cases h : node.parent = parent <;> simp [hanging, h]

/-! ## Links -/

theorem hanging_congr {a b : List LayerNode}
    (h : a.map LayerNode.links = b.map LayerNode.links) (parent : Option LayerId) :
    hanging a parent = hanging b parent := by
  have key : ∀ nodes : List LayerNode, hanging nodes parent =
      ((nodes.map LayerNode.links).filter (fun l => l.2.1 = parent)).map (·.1) := by
    intro nodes
    rw [List.filter_map, List.map_map]
    rfl
  rw [key, key, h]

theorem ids_congr {a b : LayerTree} (h : a.nodes.map LayerNode.links = b.nodes.map LayerNode.links) :
    a.ids = b.ids := by
  have := congrArg (List.map (·.1)) h
  simpa [List.map_map, Function.comp_def, ids, LayerNode.links] using this

/-- A change that leaves roots and links alone keeps the forest. -/
theorem wellFormed_congr {a b : LayerTree} (hroots : a.roots = b.roots)
    (h : a.nodes.map LayerNode.links = b.nodes.map LayerNode.links) (ha : a.WellFormed) :
    b.WellFormed := by
  have linked : ∀ node ∈ b.nodes, ∃ old ∈ a.nodes, old.links = node.links := by
    intro node hmem
    have : node.links ∈ a.nodes.map LayerNode.links := h ▸ List.mem_map_of_mem hmem
    simpa using this
  have hids := ids_congr h
  refine ⟨hids ▸ ha.nodup, ?_, ?_, ?_⟩
  · rw [← hroots, ha.roots_eq, hanging_congr h]
  · intro node hmem
    obtain ⟨old, hold, hl⟩ := linked node hmem
    simp only [LayerNode.links, Prod.mk.injEq] at hl
    rw [← hl.2.2, ha.children_eq old hold, hl.1, hanging_congr h]
  · intro node hmem p hp
    obtain ⟨old, hold, hl⟩ := linked node hmem
    simp only [LayerNode.links, Prod.mk.injEq] at hl
    have := ha.parent_first old hold p (hl.2.1.trans hp)
    rwa [hids, hl.1] at this

/-! ## Attaching nodes -/

theorem wellFormed_empty : ({} : LayerTree).WellFormed :=
  ⟨by simp [ids], rfl, by simp, by simp⟩

theorem hanging_eq_nil {tree : LayerTree} (h : tree.WellFormed) {id : LayerId} (hid : id ∉ tree.ids) :
    hanging tree.nodes (some id) = [] := by
  refine List.eq_nil_iff_forall_not_mem.2 fun child hchild => ?_
  obtain ⟨node, hmem, hparent, -⟩ := mem_hanging.1 hchild
  exact hid (h.parent_first node hmem id hparent).1

theorem idxOf_lt_of_mem {l : List LayerId} {a b : LayerId} (ha : a ∈ l) (hb : b ∉ l) :
    (l ++ [b]).idxOf a < (l ++ [b]).idxOf b := by
  rw [List.idxOf_append_of_mem ha, List.idxOf_append_of_notMem hb]
  have := List.idxOf_lt_length_of_mem ha
  omega

/-- Adding a node at the end of the list, where `old` are the nodes before it, up to the children of
its parent. -/
theorem parent_first_append {tree : LayerTree} (h : tree.WellFormed) {old : List LayerNode}
    {node : LayerNode} (hold : old.map (fun n => (n.id, n.parent)) =
      tree.nodes.map (fun n => (n.id, n.parent)))
    (hid : node.id ∉ tree.ids) (hparent : ∀ p, node.parent = some p → p ∈ tree.ids) :
    ∀ n ∈ old ++ [node], ∀ p, n.parent = some p →
      p ∈ (old ++ [node]).map (·.id) ∧
        ((old ++ [node]).map (·.id)).idxOf p < ((old ++ [node]).map (·.id)).idxOf n.id := by
  have hids : old.map (·.id) = tree.ids := by
    have := congrArg (List.map (·.1)) hold
    simpa [List.map_map, Function.comp_def, ids] using this
  rw [List.map_append, hids, List.map_singleton]
  intro n hn p hp
  rcases List.mem_append.1 hn with hn | hn
  · have : (n.id, n.parent) ∈ tree.nodes.map (fun n => (n.id, n.parent)) :=
      hold ▸ List.mem_map_of_mem hn
    obtain ⟨m, hm, he⟩ := List.mem_map.1 this
    simp only [Prod.mk.injEq] at he
    obtain ⟨hpmem, hlt⟩ := h.parent_first m hm p (he.2.trans hp)
    have hnmem : n.id ∈ tree.ids := he.1 ▸ List.mem_map_of_mem hm
    rw [List.idxOf_append_of_mem hpmem, List.idxOf_append_of_mem hnmem]
    exact ⟨List.mem_append_left _ hpmem, he.1 ▸ hlt⟩
  · rw [List.mem_singleton.1 hn] at hp ⊢
    exact ⟨List.mem_append_left _ (hparent p hp), idxOf_lt_of_mem (hparent p hp) hid⟩

theorem insertRoot_ok {tree : LayerTree} {node : LayerNode} (h : node.id ∉ tree.ids) :
    tree.insertRoot node = .ok {
      nodes := tree.nodes ++ [{ node with parent := none, children := [] }]
      roots := tree.roots ++ [node.id] } := by
  simp [insertRoot, contains_iff, h]

theorem insertRoot_error {tree : LayerTree} {node : LayerNode} (h : node.id ∈ tree.ids) :
    tree.insertRoot node = .error (.inconsistent (.repeatedNode node.id)) := by
  simp [insertRoot, contains_iff, h]

/-- The nodes with a child added to one of them. -/
def addChild (nodes : List LayerNode) (parent child : LayerId) : List LayerNode :=
  nodes.map (fun n => if n.id = parent then { n with children := n.children ++ [child] } else n)

theorem insertChild_ok {tree : LayerTree} {parent : LayerId} {node : LayerNode}
    (h : node.id ∉ tree.ids) (hparent : parent ∈ tree.ids) :
    tree.insertChild parent node = .ok {
      nodes := addChild tree.nodes parent node.id ++
        [{ node with parent := some parent, children := [] }]
      roots := tree.roots } := by
  simp [insertChild, contains_iff, h, hparent, modify, addChild]

theorem insertChild_error {tree : LayerTree} {parent : LayerId} {node : LayerNode}
    (h : node.id ∈ tree.ids) :
    tree.insertChild parent node = .error (.inconsistent (.repeatedNode node.id)) := by
  simp [insertChild, contains_iff, h]

theorem map_addChild {α : Type} (f : LayerNode → α)
    (hf : ∀ n children, f { n with children := children } = f n)
    (nodes : List LayerNode) (parent child : LayerId) :
    (addChild nodes parent child).map f = nodes.map f := by
  rw [addChild, List.map_map]
  refine List.map_congr_left fun n _ => ?_
  simp only [Function.comp_apply]
  split
  · exact hf n _
  · rfl

theorem hanging_addChild (nodes : List LayerNode) (parent child : LayerId)
    (above : Option LayerId) :
    hanging (addChild nodes parent child) above = hanging nodes above := by
  have key : ∀ l : List LayerNode, hanging l above =
      ((l.map (fun n => (n.id, n.parent))).filter (fun e => e.2 = above)).map (·.1) := by
    intro l
    rw [List.filter_map, List.map_map]
    rfl
  rw [key, key, map_addChild _ (fun _ _ => rfl)]

theorem nodup_append_new {l : List LayerId} (h : l.Nodup) {a : LayerId} (ha : a ∉ l) :
    (l ++ [a]).Nodup := by
  rw [List.nodup_append]
  refine ⟨h, List.nodup_singleton a, fun b hb c hc => ?_⟩
  rw [List.mem_singleton.1 hc]
  rintro rfl
  exact ha hb

theorem WellFormed.insertRoot {tree : LayerTree} (h : tree.WellFormed) {node : LayerNode}
    (hid : node.id ∉ tree.ids) :
    WellFormed {
      nodes := tree.nodes ++ [{ node with parent := none, children := [] }]
      roots := tree.roots ++ [node.id] } := by
  refine ⟨?_, ?_, ?_, ?_⟩
  · simpa [ids] using nodup_append_new h.nodup hid
  · simp [hanging_singleton, h.roots_eq]
  · intro n hn
    rcases List.mem_append.1 hn with hn | hn
    · simp [h.children_eq n hn, hanging_singleton]
    · rw [List.mem_singleton.1 hn]
      simp [hanging_singleton, hanging_eq_nil h hid]
  · exact parent_first_append h rfl hid (by simp)

theorem WellFormed.insertChild {tree : LayerTree} (h : tree.WellFormed) {parent : LayerId}
    {node : LayerNode} (hid : node.id ∉ tree.ids) (hparent : parent ∈ tree.ids) :
    WellFormed {
      nodes := addChild tree.nodes parent node.id ++
        [{ node with parent := some parent, children := [] }]
      roots := tree.roots } := by
  have hne : parent ≠ node.id := fun e => hid (e ▸ hparent)
  refine ⟨?_, ?_, ?_, ?_⟩
  · have := nodup_append_new h.nodup hid
    simpa [ids, map_addChild] using this
  · simpa [hanging_addChild, hanging_singleton] using h.roots_eq
  · intro n hn
    rcases List.mem_append.1 hn with hn | hn
    · obtain ⟨m, hm, rfl⟩ := List.mem_map.1 hn
      by_cases hmp : m.id = parent
      · simp [hmp, hanging_addChild, h.children_eq m hm, hanging_singleton]
      · have : ¬ parent = m.id := fun e => hmp e.symm
        simp [hmp, hanging_addChild, h.children_eq m hm, hanging_singleton, this]
    · rw [List.mem_singleton.1 hn]
      simp [hanging_addChild, hanging_eq_nil h hid, hanging_singleton, hne]
  · refine parent_first_append h (map_addChild _ (fun _ _ => rfl) _ _ _) hid ?_
    rintro p hp
    cases hp
    exact hparent

/-! ## Changing nodes in place -/

@[simp] theorem modify_roots (tree : LayerTree) (id : LayerId) (f : LayerNode → LayerNode) :
    (tree.modify id f).roots = tree.roots := rfl

theorem map_modify {α : Type} (g : LayerNode → α) {tree : LayerTree} {id : LayerId}
    {f : LayerNode → LayerNode} (hf : ∀ node ∈ tree.nodes, node.id = id → g (f node) = g node) :
    (tree.modify id f).nodes.map g = tree.nodes.map g := by
  simp only [modify, List.map_map]
  refine List.map_congr_left fun node hmem => ?_
  simp only [Function.comp_apply]
  split
  · exact hf node hmem ‹_›
  · rfl

theorem get?_modify {tree : LayerTree} {id : LayerId} {f : LayerNode → LayerNode}
    (hf : ∀ node, node.id = id → (f node).id = id) (id' : LayerId) :
    (tree.modify id f).get? id' =
      (tree.get? id').map (fun node => if node.id = id then f node else node) := by
  have same : (fun node : LayerNode => decide (node.id = id')) ∘
      (fun node => if node.id = id then f node else node) = fun node => decide (node.id = id') := by
    funext node
    by_cases h : node.id = id
    · simp [h, hf node h]
    · simp [h]
  rw [get?, modify, List.find?_map, same, get?]

/-! ## Ancestors -/

/-- `top` is a node or stands above it, some steps of parents up. -/
inductive Below (tree : LayerTree) (top : LayerId) : LayerId → Prop where
  | here : Below tree top top
  | up {id parent : LayerId} {node : LayerNode} : tree.get? id = some node →
      node.parent = some parent → Below tree top parent → Below tree top id

theorem WellFormed.idxOf_parent_lt {tree : LayerTree} (h : tree.WellFormed) {id parent : LayerId}
    {node : LayerNode} (hget : tree.get? id = some node) (hparent : node.parent = some parent) :
    tree.ids.idxOf parent < tree.ids.idxOf id := by
  rw [← id_of_get? hget]
  exact (h.parent_first node (mem_of_get? hget) parent hparent).2

theorem WellFormed.idxOf_le_of_below {tree : LayerTree} (h : tree.WellFormed) {top id : LayerId}
    (hb : Below tree top id) : tree.ids.idxOf top ≤ tree.ids.idxOf id := by
  induction hb with
  | here => exact Nat.le_refl _
  | up hget hparent _ ih => exact Nat.le_trans ih (Nat.le_of_lt (h.idxOf_parent_lt hget hparent))

theorem Below.trans {tree : LayerTree} {a b c : LayerId} (hab : Below tree a b)
    (hbc : Below tree b c) : Below tree a c := by
  induction hbc with
  | here => exact hab
  | up hget hparent _ ih => exact .up hget hparent ih

/-- A node stands below at most one of the nodes with one parent. -/
theorem WellFormed.below_sibling {tree : LayerTree} (h : tree.WellFormed) {a b id : LayerId}
    {na nb : LayerNode} (ha : tree.get? a = some na) (hb : tree.get? b = some nb)
    (hparent : na.parent = nb.parent) (hia : Below tree a id) (hib : Below tree b id) : a = b := by
  induction hia with
  | here =>
    cases hib with
    | here => rfl
    | up hget hp hbelow =>
      rw [ha] at hget
      cases hget
      have h1 := h.idxOf_le_of_below hbelow
      have h2 := h.idxOf_parent_lt hb (hparent ▸ hp)
      omega
  | up hget hp hbelow ih =>
    cases hib with
    | here =>
      rw [hb] at hget
      cases hget
      have h1 := h.idxOf_le_of_below hbelow
      have h2 := h.idxOf_parent_lt ha (hparent.trans hp)
      omega
    | up hget' hp' hbelow' =>
      rw [hget] at hget'
      cases hget'
      rw [hp] at hp'
      cases hp'
      exact ih hbelow'

end LayerTree
end BlockStack
