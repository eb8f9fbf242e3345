import BlockStack.Proofs.Arena
import BlockStack.Proofs.Depiction

/-!
# BlockStack.Proofs.Levels

The passes of a load are the levels of the forest.

* `Graph.Passed`: what the passes listed so far, beside `Graph.Progress`. `Passed.pass` is the step
  from one pass to the next, `runPasses_passed` the whole run.
* `Graph.Stepped`: a row of the first pass has no parent, and a row of each later pass has its
  parent in the pass before. `Stepped.exists_ancestors` counts the ancestors from it.
* `Graph.levelled_ofDocument`: the forest that a load builds, level by level.
-/

namespace BlockStack

open BlockStack.Graph (withParent)

namespace Graph

/-! ## What the passes list -/

variable {doc : Document} {done pending leftover : List LayerRow} {graph next final : Graph}
  {passes : List (List LayerId)} {previous : Option (List UInt64)} {volumes : List VolumeRow}

/-- The pass right before the pass with a number. -/
def before (passes : List (List LayerId)) (k : Nat) : Option (List LayerId) :=
  (passes.take k).getLast?

/-- What holds of the passes so far: they list the rows attached, each pass rows whose turn had come
after the pass before, in the order of the document. -/
structure Passed (doc : Document) (done : List LayerRow) (passes : List (List LayerId))
    (previous : Option (List UInt64)) (pending : List LayerRow) : Prop where
  flatten : passes.flatten = done.map (·.id)
  last : passes.getLast? = previous
  filled : ∀ pass ∈ passes, pass ≠ []
  ordered : ∀ pass ∈ passes, pass.Sublist (doc.layers.map (·.id))
  turns : ∀ k pass, passes[k]? = some pass → ∀ row ∈ doc.layers, row.id ∈ pass →
    isReady (before passes k) row = true
  pending : pending.Sublist doc.layers

theorem Passed.start (doc : Document) : Passed doc [] [] none doc.layers where
  flatten := rfl
  last := rfl
  filled := by simp
  ordered := by simp
  turns := by simp
  pending := List.Sublist.refl _

/-- Another pass takes the rows whose turn has come. -/
theorem Passed.pass (h : Passed doc done passes previous pending)
    (hdistinct : (doc.layers.map (·.id)).Nodup)
    (hfound : ¬ (pending.filter (isReady previous)).isEmpty = true) :
    Passed doc (done ++ pending.filter (isReady previous))
      (passes ++ [(pending.filter (isReady previous)).map (·.id)])
      (some ((pending.filter (isReady previous)).map (·.id)))
      (pending.filter (fun row => !isReady previous row)) where
  flatten := by simp [h.flatten]
  last := by simp
  filled := by
    have hne : (pending.filter (isReady previous)).map (·.id) ≠ [] := by simpa using hfound
    exact List.forall_mem_append.2 ⟨h.filled, by simpa using hne⟩
  ordered := by
    have hsub : (pending.filter (isReady previous)).Sublist doc.layers :=
      List.filter_sublist.trans h.pending
    exact List.forall_mem_append.2 ⟨h.ordered, by simpa using hsub.map _⟩
  turns k pass hget row hrow hid := by
    rcases Nat.lt_or_ge k passes.length with hlt | hge
    · rw [List.getElem?_append_left hlt] at hget
      rw [before, List.take_append_of_le_length (Nat.le_of_lt hlt)]
      exact h.turns k pass hget row hrow hid
    · -- the pass is the last one, and the one before it is `previous`
      rw [List.getElem?_append_right hge, List.getElem?_singleton] at hget
      split at hget
      · rename_i hzero
        cases hget
        obtain ⟨taken, htaken, hsame⟩ := List.mem_map.1 hid
        obtain ⟨hmem, hready⟩ := List.mem_filter.1 htaken
        rw [List.inj_on_of_nodup_map hdistinct (h.pending.subset hmem) hrow hsame] at hready
        obtain rfl : k = passes.length := by omega
        rwa [before, List.take_append_of_le_length Nat.le.refl, List.take_length, h.last]
      · cases hget
  pending := List.filter_sublist.trans h.pending

theorem attach_passes {row : LayerRow} (h : graph.attach row volumes = .ok next) :
    next.passes = graph.passes := by
  unfold attach at h
  repeat' split at h
  all_goals cases h
  rfl

theorem attachAll_passes {rows : List LayerRow} :
    ∀ {graph : Graph}, attachAll volumes graph rows = .ok next → next.passes = graph.passes := by
  induction rows with
  | nil =>
    intro graph h
    cases h
    rfl
  | cons row rest ih =>
    intro graph h
    simp only [attachAll] at h
    split at h
    · cases h
    · rename_i mid hattach
      exact (ih h).trans (attach_passes hattach)

/-- What the passes of a whole run list. -/
theorem runPasses_passed (hdef : doc.catalog.Defined) {fuel : Nat} :
    ∀ {done pending : List LayerRow} {graph : Graph} {previous : Option (List UInt64)},
      Progress doc done graph previous pending → Passed doc done graph.passes previous pending →
      runPasses doc.volumes fuel graph previous pending = .ok (final, leftover) →
      ∃ done' previous', Progress doc done' final previous' leftover ∧
        Passed doc done' final.passes previous' leftover := by
  induction fuel with
  | zero =>
    intro done pending graph previous h hpassed hrun
    cases hrun
    exact ⟨done, previous, h, hpassed⟩
  | succ fuel ih =>
    intro done pending graph previous h hpassed hrun
    simp only [runPasses] at hrun
    split at hrun
    · rename_i hempty
      cases hrun
      rw [filter_not_eq_self hempty]
      exact ⟨done, previous, h, hpassed⟩
    · rename_i hfound
      split at hrun
      · cases hrun
      · rename_i next hok
        have hnext := hpassed.pass h.distinct hfound
        rw [← attachAll_passes hok] at hnext
        exact ih (h.pass hdef hok _) hnext hrun

/-! ## From one pass to the next -/

/-- The passes of a graph are steps down the links of the rows. -/
structure Stepped (doc : Document) (graph : Graph) : Prop where
  distinct : (doc.layers.map (·.id)).Nodup
  listed : ∀ id k, graph.passOf? id = some k ↔ ∃ pass, graph.passes[k]? = some pass ∧ id ∈ pass
  placed : ∀ row ∈ doc.layers, ∃ k, graph.passOf? row.id = some k
  first : ∀ row ∈ doc.layers, graph.passOf? row.id = some 0 → row.parent = none
  later : ∀ row ∈ doc.layers, ∀ k, graph.passOf? row.id = some (k + 1) →
    ∃ above, row.HasParent doc.layers above ∧ graph.passOf? above.id = some k

/-- As no number is in two passes, the pass that is found for a number is any that lists it. -/
theorem passOf?_eq_some_iff (hnodup : graph.passes.flatten.Nodup) {id : LayerId} {k : Nat} :
    graph.passOf? id = some k ↔ ∃ pass, graph.passes[k]? = some pass ∧ id ∈ pass := by
  rw [passOf?, List.findIdx?_eq_some_iff_getElem]
  constructor
  · rintro ⟨hlt, hmem, -⟩
    exact ⟨graph.passes[k], List.getElem?_eq_getElem hlt, by simpa using hmem⟩
  · rintro ⟨pass, hget, hmem⟩
    obtain ⟨hlt, rfl⟩ := List.getElem?_eq_some_iff.1 hget
    refine ⟨hlt, by simpa using hmem, fun j hj hother => ?_⟩
    have hapart := List.pairwise_iff_getElem.1 (List.nodup_flatten.1 hnodup).2 j k (by omega) hlt hj
    exact hapart (by simpa using hother) hmem

theorem before_succ {k : Nat} (h : k < passes.length) : before passes (k + 1) = passes[k]? := by
  rw [before, List.take_succ_eq_append_getElem h, List.getLast?_concat, List.getElem?_eq_getElem h]

theorem Passed.perm (h : Passed doc done passes previous pending) (hall : done.Perm doc.layers) :
    passes.flatten.Perm (doc.layers.map (·.id)) := h.flatten ▸ hall.map _

theorem Passed.stepped (h : Passed doc done graph.passes previous pending)
    (hdistinct : (doc.layers.map (·.id)).Nodup) (hall : done.Perm doc.layers) :
    Stepped doc graph := by
  have hnodup : graph.passes.flatten.Nodup := (h.perm hall).nodup_iff.2 hdistinct
  refine ⟨hdistinct, fun id k => passOf?_eq_some_iff hnodup, fun row hrow => ?_,
    fun row hrow hzero => ?_, fun row hrow k hsucc => ?_⟩
  · obtain ⟨pass, hpass, hmem⟩ :=
      List.mem_flatten.1 ((h.perm hall).mem_iff.2 (List.mem_map_of_mem hrow))
    obtain ⟨k, hget⟩ := List.mem_iff_getElem?.1 hpass
    exact ⟨k, (passOf?_eq_some_iff hnodup).2 ⟨pass, hget, hmem⟩⟩
  · obtain ⟨pass, hget, hmem⟩ := (passOf?_eq_some_iff hnodup).1 hzero
    simpa [isReady, before] using h.turns 0 pass hget row hrow hmem
  · obtain ⟨pass, hget, hmem⟩ := (passOf?_eq_some_iff hnodup).1 hsucc
    have hlt : k < graph.passes.length := by
      have := (List.getElem?_eq_some_iff.1 hget).1
      omega
    have hready := h.turns (k + 1) pass hget row hrow hmem
    rw [before_succ hlt, List.getElem?_eq_getElem hlt] at hready
    cases hp : row.parent with
    | none => simp [isReady, hp] at hready
    | some p =>
      have hp' : p ∈ graph.passes[k] := by simpa [isReady, hp] using hready
      obtain ⟨above, habove, rfl⟩ :=
        List.mem_map.1 ((h.ordered _ (List.getElem_mem hlt)).subset hp')
      exact ⟨above, ⟨habove, hp⟩,
        (passOf?_eq_some_iff hnodup).2 ⟨_, List.getElem?_eq_getElem hlt, hp'⟩⟩

/-- The ancestors of a row are in earlier passes. -/
theorem Stepped.passOf?_lt (h : Stepped doc graph) {k : Nat} :
    ∀ {row above : LayerRow}, row ∈ doc.layers → graph.passOf? row.id = some k →
      row.HasAncestor doc.layers above → ∃ j < k, graph.passOf? above.id = some j := by
  induction k with
  | zero =>
    intro row above hrow hzero habove
    exact absurd habove (LayerRow.not_hasAncestor (h.first row hrow hzero))
  | succ k ih =>
    intro row x hrow hsucc hx
    obtain ⟨above, hparent, habove⟩ := h.later row hrow k hsucc
    rcases (LayerRow.hasAncestor_iff h.distinct hparent).1 hx with rfl | hx
    · exact ⟨k, Nat.lt_succ_self k, habove⟩
    · obtain ⟨j, hj, hpass⟩ := ih hparent.1 habove hx
      exact ⟨j, by omega, hpass⟩

/-- A row has as many ancestors as there are passes before its own. -/
theorem Stepped.exists_ancestors (h : Stepped doc graph) {k : Nat} :
    ∀ {row : LayerRow}, row ∈ doc.layers → graph.passOf? row.id = some k →
      ∃ line, row.Ancestors doc.layers line ∧ line.length = k := by
  induction k with
  | zero => exact fun hrow hzero => ⟨[], .top (h.first _ hrow hzero), rfl⟩
  | succ k ih =>
    intro row hrow hsucc
    obtain ⟨above, hparent, habove⟩ := h.later row hrow k hsucc
    obtain ⟨line, hline, hlength⟩ := ih hparent.1 habove
    refine ⟨above :: line, .under h.distinct hparent hline fun hmem => ?_, by simp [hlength]⟩
    obtain ⟨j, hj, hpass⟩ := h.passOf?_lt hparent.1 habove ((hline.mem_iff above).1 hmem)
    rw [habove] at hpass
    cases hpass
    omega

/-- A row is in the pass that its ancestors count up to. -/
theorem Stepped.passOf?_eq_iff (h : Stepped doc graph) {row : LayerRow} (hrow : row ∈ doc.layers)
    {k : Nat} : graph.passOf? row.id = some k ↔
      ∃ line, row.Ancestors doc.layers line ∧ line.length = k := by
  refine ⟨h.exists_ancestors hrow, ?_⟩
  rintro ⟨line, hline, hlength⟩
  obtain ⟨found, hfound⟩ := h.placed row hrow
  obtain ⟨other, hother, hcount⟩ := h.exists_ancestors hrow hfound
  rw [hfound, ← hcount, hother.length_eq hline, hlength]

/-- The depth of a node in a tree of the rows of one owner is the pass of its row. -/
theorem Stepped.depth?_eq (h : Stepped doc graph) {key : ResourceKey} {tree : LayerTree}
    (htree : tree.Depicts doc.volumes (ownedBy key doc.layers))
    (howner : ∀ row ∈ doc.layers, ∀ above, row.HasParent doc.layers above →
      above.owner = row.owner) {k : Nat} :
    ∀ {row : LayerRow}, row ∈ ownedBy key doc.layers → graph.passOf? row.id = some k →
      tree.depth? row.id = some k := by
  have hparents : ∀ row ∈ ownedBy key doc.layers, ∃ node, tree.get? row.id = some node ∧
      node.parent = row.parent := by
    intro row hrow
    obtain ⟨node, hnode, hstands⟩ := htree.each row hrow
    have hid : node.id = row.id := hstands.id_eq
    exact ⟨node, hid ▸ LayerTree.get?_of_mem htree.wellFormed.nodup hnode, hstands.parent_eq⟩
  induction k with
  | zero =>
    intro row hrow hzero
    obtain ⟨node, hget, hparent⟩ := hparents row hrow
    rw [htree.wellFormed.depth?_eq hget, hparent, h.first row (mem_ownedBy.1 hrow).1 hzero]
  | succ k ih =>
    intro row hrow hsucc
    obtain ⟨hmem, rfl⟩ := mem_ownedBy.1 hrow
    obtain ⟨node, hget, hparent⟩ := hparents row hrow
    obtain ⟨above, habove, hpass⟩ := h.later row hmem k hsucc
    have hdepth := ih (mem_ownedBy.2 ⟨habove.1, howner row hmem above habove⟩) hpass
    rw [htree.wellFormed.depth?_eq hget, hparent, habove.2]
    simp [hdepth]

/-! ## The forest of a document -/

/-- A graph holds the rows of a document as a forest along their parents, built level by level. -/
structure Levelled (doc : Document) (graph : Graph) : Prop where
  /-- The passes together list the number of each row once. -/
  once : graph.passes.flatten.Nodup ∧ graph.passes.flatten.Perm (doc.layers.map (·.id))
  /-- The pass of a number is the one that lists it. -/
  listed : ∀ id k, graph.passOf? id = some k ↔ ∃ pass, graph.passes[k]? = some pass ∧ id ∈ pass
  /-- A row is in the pass whose number is the number of its ancestors. -/
  level : ∀ row ∈ doc.layers, ∀ k, graph.passOf? row.id = some k ↔
    ∃ line, row.Ancestors doc.layers line ∧ line.length = k
  /-- No pass is empty, and in each the numbers stand in the order of the document. -/
  ordered : ∀ pass ∈ graph.passes, pass ≠ [] ∧ pass.Sublist (doc.layers.map (·.id))
  /-- The tree of a resource has nodes for its own rows and for no others. -/
  owned : ∀ key resource, graph.resources.get? key = some resource → ∀ id,
    id ∈ resource.tree.ids ↔ ∃ row ∈ doc.layers, row.id = id ∧ row.owner = key
  /-- The node of a row is in the tree of the owner, below the parent of the row, at the depth of
  its pass, and has its children in the order of the document. -/
  node : ∀ row ∈ doc.layers, ∃ resource node,
    graph.resources.get? row.owner = some resource ∧ resource.tree.get? row.id = some node ∧
      node.parent = row.parent ∧ resource.tree.depth? row.id = graph.passOf? row.id ∧
      node.children = (withParent (some row.id) doc.layers).map (·.id)
  /-- The roots of a resource stand in the order of the document. -/
  roots : ∀ key resource, graph.resources.get? key = some resource →
    resource.tree.roots = (withParent none (ownedBy key doc.layers)).map (·.id)
  /-- As many layers are counted as there are rows. -/
  count : graph.layerCount = doc.layers.length

/-- A tree of a graph is what the rows of its owner stand for. -/
theorem Loaded.depicts_tree (h : Loaded doc graph) {key : ResourceKey} {resource : Resource}
    (hget : graph.resources.get? key = some resource) :
    resource.tree.Depicts doc.volumes (ownedBy key doc.layers) := by
  obtain ⟨definition, -, -, hdef, -⟩ := h.exists_grown hget
  obtain ⟨tree, hget', htree, -⟩ := h.depicts hdef
  rw [hget] at hget'
  cases hget'
  exact htree

/-- The node of a row is in the tree of its owner, and its children are the rows below it. -/
theorem Loaded.exists_node (hdoc : doc.Consistent) (h : Loaded doc graph) {row : LayerRow}
    (hrow : row ∈ doc.layers) : ∃ resource node,
    graph.resources.get? row.owner = some resource ∧ resource.tree.get? row.id = some node ∧
      node.parent = row.parent ∧
      node.children = (withParent (some row.id) doc.layers).map (·.id) := by
  obtain ⟨kind, hfits⟩ := hdoc.layers row hrow
  obtain ⟨definition, hdef⟩ := Option.isSome_iff_exists.1
    ((Catalog.definitionOf?_isSome_iff hdoc.defined).2 hfits.owned)
  obtain ⟨tree, hget, htree, -⟩ := h.depicts hdef
  obtain ⟨node, hnode, hstands⟩ := htree.each row (mem_ownedBy.2 ⟨hrow, rfl⟩)
  have hid : node.id = row.id := hstands.id_eq
  -- the rows below a row have its owner
  have hbelow : withParent (some row.id) (ownedBy row.owner doc.layers) =
      withParent (some row.id) doc.layers := by
    rw [withParent_ownedBy]
    refine List.filter_eq_self.2 fun lower hlower => decide_eq_true ?_
    obtain ⟨hmem, hlink⟩ := mem_withParent.1 hlower
    obtain ⟨_, hlowerFits⟩ := hdoc.layers lower hmem
    exact (hlowerFits.sameOwner row hrow hlink).symm
  refine ⟨_, node, hget, hid ▸ LayerTree.get?_of_mem htree.wellFormed.nodup hnode,
    hstands.parent_eq, ?_⟩
  rw [htree.wellFormed.children_eq node hnode, hid, ← htree.siblings, hbelow]

/-- What the passes of a load list, and which owners it notes down. -/
theorem load_passed (hok : load doc = .ok graph) : ∃ done previous, done.Perm doc.layers ∧
    Passed doc done graph.passes previous [] ∧
    graph.owners = done.map (fun row => (row.id, row.owner)) := by
  obtain ⟨bare, final, hdef, hb, hdistinct, hrun, -, rfl⟩ := load_inv hok
  have hstart : Passed doc [] bare.passes none doc.layers := hb.passes ▸ .start doc
  obtain ⟨done, previous, hprogress, hpassed⟩ :=
    runPasses_passed hdef (hb.progress hdistinct) hstart hrun
  exact ⟨done, previous, by simpa using hprogress.split, hpassed, hprogress.holds.owners⟩

/-- A load builds the forest of the rows along their parents, one level with each pass, whatever the
order of the rows. -/
theorem levelled_ofDocument (hok : ofDocument doc = .ok graph) : Levelled doc graph := by
  obtain ⟨hdoc, hloaded⟩ := loaded_ofDocument hok
  obtain ⟨done, previous, hall, hpassed, howners⟩ := load_passed (ofDocument_eq_ok_iff.1 hok)
  have hstepped := hpassed.stepped hdoc.distinct hall
  exact {
    once := ⟨(hpassed.perm hall).nodup_iff.2 hdoc.distinct, hpassed.perm hall⟩
    listed := hstepped.listed
    level := fun row hrow k => hstepped.passOf?_eq_iff hrow
    ordered := fun pass hpass => ⟨hpassed.filled pass hpass, hpassed.ordered pass hpass⟩
    owned := fun key resource hget id => by
      rw [(hloaded.depicts_tree hget).mem_ids_iff, List.mem_map]
      simp only [mem_ownedBy, and_assoc, and_comm]
    node := fun row hrow => by
      obtain ⟨resource, node, hget, hnode, hparent, hchildren⟩ := hloaded.exists_node hdoc hrow
      obtain ⟨k, hk⟩ := hstepped.placed row hrow
      refine ⟨resource, node, hget, hnode, hparent, ?_, hchildren⟩
      rw [hk]
      refine hstepped.depth?_eq (hloaded.depicts_tree hget) (fun lower hlower above habove => ?_)
        (mem_ownedBy.2 ⟨hrow, rfl⟩) hk
      obtain ⟨_, hfits⟩ := hdoc.layers lower hlower
      exact hfits.sameOwner above habove.1 habove.2
    roots := fun key resource hget => by
      have htree := hloaded.depicts_tree hget
      rw [htree.wellFormed.roots_eq, htree.siblings]
    count := by rw [layerCount, howners, List.length_map, hall.length_eq] }

/-! ## Two resources with their rows mixed -/

/-- A row of an encryption layer of a resource on the node `n`. -/
def encryptionRow (resource : String) (id : UInt64) (parent : Option UInt64) : LayerRow where
  id := id
  parent := parent
  kind := "ENCRYPTION"
  owner := { node := "n", resource }

/-- Two resources with their rows mixed, most of them before the row of their parent. -/
def mixedDocument : Document where
  catalog := {
    definitions := [{ name := "d" }]
    resources := [
      { key := { node := "n", resource := "r" }, definition := "d" },
      { key := { node := "n", resource := "s" }, definition := "d" }] }
  layers := [
    encryptionRow "r" 9 (some 2), encryptionRow "s" 4 (some 1), encryptionRow "r" 2 (some 5),
    encryptionRow "s" 1 none, encryptionRow "r" 5 none, encryptionRow "r" 3 (some 5),
    encryptionRow "s" 6 none]

/-- The graph of the two resources. -/
def mixedGraph : Graph := (ofDocument mixedDocument).toOption.getD {}

/-- The rows are attached in three passes, of which the last has the only row with two ancestors. -/
theorem levelled_ofDocument_mixed :
    ofDocument mixedDocument = .ok mixedGraph ∧
      mixedGraph.passes = [[1, 5, 6], [4, 2, 3], [9]] ∧ Levelled mixedDocument mixedGraph := by
  have hok : ofDocument mixedDocument = .ok mixedGraph := by decide
  exact ⟨hok, by decide, levelled_ofDocument hok⟩

end Graph
end BlockStack
