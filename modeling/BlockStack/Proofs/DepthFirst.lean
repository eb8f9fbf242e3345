import BlockStack.Proofs.Forest
import Mathlib.Data.List.Perm.Basic

/-!
# BlockStack.Proofs.DepthFirst

The depth-first order of a forest.

* `LayerTree.Walk`: the depth-first order as a relation, without a bound on the steps.
* `WellFormed.walk_preOrder`: `LayerTree.preOrder` is that order of the roots.
* `WellFormed.preOrder_perm`: it lists every node once.
* `WellFormed.hanging_preOrder`: roots, and the children of each node, keep their order in it.
* `WellFormed.parent_before`: each node comes after its parent.
-/

namespace BlockStack
namespace LayerTree

/-- `order` lists the nodes of `stack` one after the other, each followed by all nodes below it. -/
inductive Walk (tree : LayerTree) : (stack order : List LayerId) → Prop where
  | done : Walk tree [] []
  | node {id : LayerId} {node : LayerNode} {rest below after : List LayerId} :
      tree.get? id = some node → Walk tree node.children below → Walk tree rest after →
      Walk tree (id :: rest) (id :: (below ++ after))

variable {tree : LayerTree}

theorem Walk.append {s t l m : List LayerId} (h : Walk tree s l) (h' : Walk tree t m) :
    Walk tree (s ++ t) (l ++ m) := by
  induction h with
  | done => exact h'
  | node hget hbelow _ _ ih =>
    rw [List.cons_append, List.cons_append, List.append_assoc]
    exact .node hget hbelow ih

theorem Walk.mem_ids {s l : List LayerId} (h : Walk tree s l) : ∀ id ∈ l, id ∈ tree.ids := by
  induction h with
  | done => simp
  | @node id n rest below after hget _ _ ihb iha =>
    intro x hx
    rcases List.mem_cons.1 hx with rfl | hx
    · rw [← id_of_get? hget]
      exact List.mem_map_of_mem (mem_of_get? hget)
    · rcases List.mem_append.1 hx with hx | hx
      · exact ihb x hx
      · exact iha x hx

/-- With enough fuel, visiting a stack goes through its depth-first order. -/
theorem Walk.visit_eq {fuel : Nat} {s l : List LayerId} (h : Walk tree s l) (hl : l.length ≤ fuel) :
    tree.visit fuel s = l := by
  induction fuel generalizing s l with
  | zero =>
    have : l = [] := List.length_eq_zero_iff.1 (Nat.le_zero.1 hl)
    rw [this, visit]
  | succ fuel ih =>
    cases h with
    | done => rfl
    | @node id n rest below after hget hbelow hafter =>
      simp only [visit, hget]
      rw [ih (hbelow.append hafter) (by simpa using hl)]

theorem WellFormed.children_mem_ids {node : LayerNode} (h : tree.WellFormed)
    (hmem : node ∈ tree.nodes) {x : LayerId} (hx : x ∈ node.children) :
    x ∈ tree.ids ∧ tree.ids.idxOf node.id < tree.ids.idxOf x := by
  rw [h.children_eq node hmem] at hx
  obtain ⟨m, hm, hp, rfl⟩ := mem_hanging.1 hx
  exact ⟨List.mem_map_of_mem hm, (h.parent_first m hm node.id hp).2⟩

/-- Every stack of nodes has a depth-first order. The induction is on how far from the end of the
list of nodes the stack begins; children stand behind their parents there. -/
theorem WellFormed.exists_walk_of_bound (h : tree.WellFormed) (n : Nat) :
    ∀ s : List LayerId, (∀ id ∈ s, id ∈ tree.ids ∧ tree.ids.length - tree.ids.idxOf id ≤ n) →
      ∃ l, Walk tree s l := by
  induction n with
  | zero =>
    intro s hs
    cases s with
    | nil => exact ⟨[], .done⟩
    | cons id rest =>
      obtain ⟨hmem, hle⟩ := hs id List.mem_cons_self
      have := List.idxOf_lt_length_of_mem hmem
      omega
  | succ n ih =>
    intro s
    induction s with
    | nil => exact fun _ => ⟨[], .done⟩
    | cons id rest ihs =>
      intro hs
      obtain ⟨hmem, hle⟩ := hs id List.mem_cons_self
      obtain ⟨node, hnode, rfl⟩ := List.mem_map.1 hmem
      obtain ⟨after, hafter⟩ := ihs fun x hx => hs x (List.mem_cons_of_mem _ hx)
      obtain ⟨below, hbelow⟩ := ih node.children fun x hx => by
        obtain ⟨hxmem, hlt⟩ := h.children_mem_ids hnode hx
        exact ⟨hxmem, by omega⟩
      exact ⟨_, .node (get?_of_mem h.nodup hnode) hbelow hafter⟩

theorem WellFormed.roots_mem_ids (h : tree.WellFormed) {id : LayerId} (hid : id ∈ tree.roots) :
    id ∈ tree.ids := by
  rw [h.roots_eq] at hid
  exact (hanging_sublist _ _).subset hid

theorem WellFormed.exists_walk (h : tree.WellFormed) : ∃ l, Walk tree tree.roots l :=
  h.exists_walk_of_bound tree.ids.length tree.roots fun _ hid =>
    ⟨h.roots_mem_ids hid, Nat.sub_le _ _⟩

/-! ## Every node once -/

theorem WellFormed.nodup_hanging (h : tree.WellFormed) (parent : Option LayerId) :
    (hanging tree.nodes parent).Nodup :=
  h.nodup.sublist (hanging_sublist _ _)

theorem WellFormed.count_hanging (h : tree.WellFormed) (parent : Option LayerId) {x : LayerId}
    {nx : LayerNode} (hx : tree.get? x = some nx) :
    (hanging tree.nodes parent).count x = if nx.parent = parent then 1 else 0 := by
  split
  · rename_i hp
    refine List.count_eq_one_of_mem (h.nodup_hanging parent) ?_
    exact mem_hanging.2 ⟨nx, mem_of_get? hx, hp, id_of_get? hx⟩
  · rename_i hp
    refine List.count_eq_zero.2 fun hmem => hp ?_
    obtain ⟨m, hm, hmp, rfl⟩ := mem_hanging.1 hmem
    rw [get?_of_mem h.nodup hm] at hx
    cases hx
    exact hmp

/-- A node comes up as often as it is on the stack and as its parent comes up. -/
theorem WellFormed.count_walk (h : tree.WellFormed) {s l : List LayerId} (hw : Walk tree s l)
    {x : LayerId} {nx : LayerNode} (hx : tree.get? x = some nx) :
    l.count x = s.count x + nx.parent.elim 0 (fun p => l.count p) := by
  induction hw with
  | done => cases nx.parent <;> rfl
  | @node id n rest below after hget _ _ ihb iha =>
    have hchildren : n.children.count x = if nx.parent = some id then 1 else 0 := by
      rw [h.children_eq n (mem_of_get? hget), id_of_get? hget]
      exact h.count_hanging _ hx
    rw [List.count_cons, List.count_append, ihb, iha, hchildren, List.count_cons]
    cases nx.parent with
    | none => simp
    | some p =>
      simp only [Option.elim_some, List.count_cons, List.count_append, Option.some.injEq, beq_iff_eq]
      by_cases hp : p = id
      · simp [hp]; omega
      · have : ¬ id = p := fun e => hp e.symm
        simp [hp, this]; omega

theorem WellFormed.count_walk_roots (h : tree.WellFormed) {l : List LayerId}
    (hw : Walk tree tree.roots l) : ∀ x ∈ tree.ids, l.count x = 1 := by
  have bounded : ∀ n, ∀ x ∈ tree.ids, tree.ids.idxOf x < n → l.count x = 1 := by
    intro n
    induction n with
    | zero => intro x _ hlt; omega
    | succ n ih =>
      intro x hx hlt
      obtain ⟨nx, hmem, rfl⟩ := List.mem_map.1 hx
      have hget := get?_of_mem h.nodup hmem
      have hroot := h.count_hanging none hget
      rw [h.count_walk hw hget, h.roots_eq, hroot]
      cases hp : nx.parent with
      | none => simp
      | some p =>
        obtain ⟨hpmem, hplt⟩ := h.parent_first nx hmem p hp
        have := ih p hpmem (by omega)
        simp [this]
  exact fun x hx => bounded _ x hx (Nat.lt_succ_self _)

theorem WellFormed.walk_perm (h : tree.WellFormed) {l : List LayerId}
    (hw : Walk tree tree.roots l) : l.Perm tree.ids := by
  refine List.perm_iff_count.2 fun x => ?_
  by_cases hx : x ∈ tree.ids
  · rw [h.count_walk_roots hw x hx, List.count_eq_one_of_mem h.nodup hx]
  · rw [List.count_eq_zero.2 hx, List.count_eq_zero.2 fun hm => hx (hw.mem_ids x hm)]

theorem WellFormed.walk_preOrder (h : tree.WellFormed) : Walk tree tree.roots tree.preOrder := by
  obtain ⟨l, hw⟩ := h.exists_walk
  have hlen : l.length ≤ tree.size := by
    rw [(h.walk_perm hw).length_eq]
    simp [ids, size]
  rwa [preOrder, hw.visit_eq hlen]

/-- The depth-first order lists every node once. -/
theorem WellFormed.preOrder_perm (h : tree.WellFormed) : tree.preOrder.Perm tree.ids :=
  h.walk_perm h.walk_preOrder

/-! ## Siblings in order -/

/-- The numbers on a list whose nodes have a given parent. -/
def below (tree : LayerTree) (parent : Option LayerId) (l : List LayerId) : List LayerId :=
  l.filter (fun id => (tree.get? id).any (fun node => node.parent = parent))

theorem below_append (parent : Option LayerId) (a b : List LayerId) :
    tree.below parent (a ++ b) = tree.below parent a ++ tree.below parent b :=
  List.filter_append ..

theorem below_cons {id : LayerId} {node : LayerNode} (hget : tree.get? id = some node)
    (parent : Option LayerId) (l : List LayerId) :
    tree.below parent (id :: l) =
      if node.parent = parent then id :: tree.below parent l else tree.below parent l := by
  by_cases hp : node.parent = parent <;> simp [below, hget, hp]

theorem WellFormed.below_hanging (h : tree.WellFormed) (parent above : Option LayerId) :
    tree.below parent (hanging tree.nodes above) =
      if above = parent then hanging tree.nodes above else [] := by
  split
  · rename_i he
    refine List.filter_eq_self.2 fun id hid => ?_
    obtain ⟨node, hget, hp⟩ := exists_of_mem_hanging h.nodup hid
    simp [hget, hp, he]
  · rename_i he
    refine List.filter_eq_nil_iff.2 fun id hid => ?_
    obtain ⟨node, hget, hp⟩ := exists_of_mem_hanging h.nodup hid
    simp [hget, hp, he]

theorem WellFormed.below_children (h : tree.WellFormed) {id : LayerId} {node : LayerNode}
    (hget : tree.get? id = some node) (parent : Option LayerId) :
    tree.below parent node.children = if some id = parent then node.children else [] := by
  rw [h.children_eq node (mem_of_get? hget), id_of_get? hget, h.below_hanging]

/-- In a depth-first order that does not come to the parent, its children are those on the stack. -/
theorem WellFormed.below_walk_of_not_mem (h : tree.WellFormed) {s l : List LayerId}
    (hw : Walk tree s l) {parent : Option LayerId} (hp : ∀ p ∈ l, some p ≠ parent) :
    tree.below parent l = tree.below parent s := by
  induction hw with
  | done => rfl
  | @node id n rest down after hget _ _ ihb iha =>
    have hne : ¬ some id = parent := hp id List.mem_cons_self
    have hdown := ihb fun p hm => hp p (List.mem_cons_of_mem _ (List.mem_append_left _ hm))
    have hafter := iha fun p hm => hp p (List.mem_cons_of_mem _ (List.mem_append_right _ hm))
    rw [h.below_children hget, if_neg hne] at hdown
    rw [below_cons hget, below_cons hget, below_append, hdown, hafter, List.nil_append]

theorem ne_of_not_mem {l : List LayerId} {p : LayerId} (h : p ∉ l) : ∀ q ∈ l, some q ≠ some p :=
  fun _ hq e => h (Option.some.inj e ▸ hq)

/-- In a depth-first order without repetition that comes to a node, its children are in order. -/
theorem WellFormed.below_walk (h : tree.WellFormed) {s l : List LayerId} (hw : Walk tree s l)
    (hnodup : l.Nodup) {p : LayerId} {np : LayerNode} (hp : tree.get? p = some np) (hmem : p ∈ l)
    (hs : tree.below (some p) s = []) : tree.below (some p) l = np.children := by
  induction hw with
  | done => simp at hmem
  | @node id n rest down after hget hwb hwa ihb iha =>
    obtain ⟨hnot, hrest⟩ := List.nodup_cons.1 hnodup
    obtain ⟨hnd, hna, hdisj⟩ := List.nodup_append.1 hrest
    have hself : ¬ n.parent = some p ∧ tree.below (some p) rest = [] := by
      rw [below_cons hget] at hs
      split at hs
      · cases hs
      · exact ⟨‹_›, hs⟩
    rw [below_cons hget, if_neg hself.1, below_append]
    have hchildren := h.below_children hget (some p)
    rcases List.mem_cons.1 hmem with rfl | hmem
    · -- the node itself comes first: its children are the stack of what follows
      rw [hp] at hget
      cases hget
      rw [h.below_walk_of_not_mem hwb (ne_of_not_mem fun hm => hnot (List.mem_append_left _ hm)),
        h.below_walk_of_not_mem hwa (ne_of_not_mem fun hm => hnot (List.mem_append_right _ hm)),
        hchildren, hself.2]
      simp
    · have hne : ¬ some id = some p := fun e => hnot (Option.some.inj e ▸ hmem)
      rw [if_neg hne] at hchildren
      rcases List.mem_append.1 hmem with hm | hm
      · rw [ihb hnd hm hchildren,
          h.below_walk_of_not_mem hwa (ne_of_not_mem fun hm' => hdisj p hm p hm' rfl), hself.2,
          List.append_nil]
      · rw [iha hna hm hself.2,
          h.below_walk_of_not_mem hwb (ne_of_not_mem fun hm' => hdisj p hm' p hm rfl), hchildren,
          List.nil_append]

/-- The nodes in depth-first order. -/
def preOrderNodes (tree : LayerTree) : List LayerNode := tree.preOrder.filterMap tree.get?

theorem hanging_filterMap (l : List LayerId) (parent : Option LayerId) :
    hanging (l.filterMap tree.get?) parent = tree.below parent l := by
  induction l with
  | nil => rfl
  | cons id rest ih =>
    cases hget : tree.get? id with
    | none => simpa [hget, below] using ih
    | some node =>
      rw [List.filterMap_cons_some hget, below_cons hget, ← ih]
      by_cases hp : node.parent = parent <;> simp [hanging, hp, id_of_get? hget]

/-- Roots, and the children of each node, keep their order in the depth-first order. -/
theorem WellFormed.hanging_preOrder (h : tree.WellFormed) (parent : Option LayerId) :
    hanging tree.preOrderNodes parent = hanging tree.nodes parent := by
  have hw := h.walk_preOrder
  rw [preOrderNodes, hanging_filterMap]
  cases parent with
  | none =>
    rw [h.below_walk_of_not_mem hw (by simp), h.roots_eq, h.below_hanging, if_pos rfl]
  | some p =>
    have hroots : tree.below (some p) tree.roots = [] := by
      rw [h.roots_eq, h.below_hanging, if_neg (by simp)]
    by_cases hp : p ∈ tree.ids
    · obtain ⟨np, hmem, rfl⟩ := List.mem_map.1 hp
      rw [h.below_walk hw (h.preOrder_perm.nodup_iff.2 h.nodup) (get?_of_mem h.nodup hmem)
        (h.preOrder_perm.mem_iff.2 hp) hroots, h.children_eq np hmem]
    · rw [h.below_walk_of_not_mem hw (ne_of_not_mem fun hm => hp (hw.mem_ids p hm)), hroots,
        hanging_eq_nil h hp]

theorem filterMap_get?_ids (h : tree.ids.Nodup) : tree.ids.filterMap tree.get? = tree.nodes := by
  rw [ids, List.filterMap_map]
  have : ∀ node ∈ tree.nodes, (tree.get? ∘ LayerNode.id) node = some node :=
    fun node hmem => get?_of_mem h hmem
  rw [List.filterMap_congr this, List.filterMap_some]

theorem WellFormed.preOrderNodes_perm (h : tree.WellFormed) :
    tree.preOrderNodes.Perm tree.nodes := by
  have := h.preOrder_perm.filterMap tree.get?
  rwa [filterMap_get?_ids h.nodup] at this

/-! ## Parents first -/

/-- In a depth-first order each node is on the stack, or its parent came before. -/
theorem WellFormed.parent_before_walk (h : tree.WellFormed) {s l : List LayerId} (hw : Walk tree s l) :
    ∀ {before after : List LayerId} {id : LayerId}, l = before ++ id :: after →
      id ∈ s ∨ ∃ node p, tree.get? id = some node ∧ node.parent = some p ∧ p ∈ before := by
  induction hw with
  | done => intro before after id he; simp at he
  | @node top n rest down tail hget _ _ ihd iht =>
    intro before after id he
    rcases List.cons_eq_append_iff.1 he with ⟨-, hfirst⟩ | ⟨passed, rfl, hrest⟩
    · cases hfirst
      exact .inl List.mem_cons_self
    have hsplit : (∃ more, passed = down ++ more ∧ tail = more ++ id :: after) ∨
        ∃ more, down = passed ++ id :: more := by
      rcases List.append_eq_append_iff.1 hrest with ⟨more, hp, ht⟩ | ⟨more, hd, ht⟩
      · exact .inl ⟨more, hp, ht⟩
      · cases more with
        | nil => exact .inl ⟨[], by simpa using hd.symm, ht.symm⟩
        | cons first more =>
          cases ht
          exact .inr ⟨more, hd⟩
    rcases hsplit with ⟨more, rfl, ht⟩ | ⟨more, hd⟩
    · rcases iht ht with hmem | ⟨node, p, hnode, hp, hin⟩
      · exact .inl (List.mem_cons_of_mem _ hmem)
      · exact .inr ⟨node, p, hnode, hp, by simp [hin]⟩
    · rcases ihd hd with hmem | ⟨node, p, hnode, hp, hin⟩
      · rw [h.children_eq n (mem_of_get? hget), id_of_get? hget] at hmem
        obtain ⟨node, hnode, hp⟩ := exists_of_mem_hanging h.nodup hmem
        exact .inr ⟨node, top, hnode, hp, List.mem_cons_self⟩
      · exact .inr ⟨node, p, hnode, hp, List.mem_cons_of_mem _ hin⟩

/-- In the depth-first order of the whole forest each node comes after its parent. -/
theorem WellFormed.parent_before (h : tree.WellFormed) {before after : List LayerNode}
    {node : LayerNode} (he : tree.preOrderNodes = before ++ node :: after) {p : LayerId}
    (hp : node.parent = some p) : p ∈ before.map (·.id) := by
  have hw := h.walk_preOrder
  have hids : tree.preOrderNodes.map (·.id) = tree.preOrder := by
    have hnodes : ∀ id ∈ tree.preOrder, (tree.get? id).map (·.id) = some id := by
      intro id hid
      obtain ⟨n, hn, rfl⟩ := List.mem_map.1 (hw.mem_ids id hid)
      rw [get?_of_mem h.nodup hn, Option.map_some]
    rw [preOrderNodes, List.map_filterMap, List.filterMap_congr hnodes, List.filterMap_some]
  have hmem : node ∈ tree.nodes := h.preOrderNodes_perm.mem_iff.1 (by simp [he])
  rw [he, List.map_append, List.map_cons] at hids
  rcases h.parent_before_walk hw hids.symm with hroot | ⟨n, q, hget, hq, hin⟩
  · rw [h.roots_eq] at hroot
    obtain ⟨n, hn, hnone, hid⟩ := mem_hanging.1 hroot
    rw [List.inj_on_of_nodup_map h.nodup hn hmem hid, hp] at hnone
    cases hnone
  · rw [get?_of_mem h.nodup hmem] at hget
    cases hget
    rw [hp] at hq
    cases hq
    exact hin

end LayerTree
end BlockStack
