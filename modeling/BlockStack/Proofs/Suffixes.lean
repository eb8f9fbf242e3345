import BlockStack.Proofs.Loading

/-!
# BlockStack.Proofs.Suffixes

How the suffixes of the layers of a loaded tree are nested.

A row is checked against the suffix of its parent unless it is a replication row, which is only
checked against the suffixes of its definition.

* `LayerTree.Above`: a layer stands above another, and those on the way down have a property.
* `LayerTree.Nested`: layers with a property extend the suffix of their parent.
  `Nested.above`: and so of all layers from which only such layers lead down.
* `Graph.suffixes_nested`: layers of a loaded tree do, other than replication layers; and these do,
  in all trees, exactly if their rows do in the document.
-/

namespace BlockStack

/-- A layer extends the suffix of another. -/
def LayerNode.Extends (node above : LayerNode) : Prop := above.suffix.toList <+: node.suffix.toList

namespace LayerTree

/-- `top` is a layer or stands above it, and the layers on the way down from it have a property. -/
inductive Above (tree : LayerTree) (P : LayerNode → Prop) (top : LayerNode) : LayerNode → Prop where
  | here : Above tree P top top
  | down {node above : LayerNode} {p : LayerId} (hmem : node ∈ tree.nodes) (hP : P node)
    (hparent : node.parent = some p) (hget : tree.get? p = some above)
    (habove : Above tree P top above) : Above tree P top node

/-- All layers with a property extend the suffix of their parent. -/
def Nested (tree : LayerTree) (P : LayerNode → Prop) : Prop :=
  ∀ node ∈ tree.nodes, P node → ∀ p above, node.parent = some p → tree.get? p = some above →
    node.Extends above

theorem Nested.above {tree : LayerTree} {P : LayerNode → Prop} (h : tree.Nested P)
    {top node : LayerNode} (habove : tree.Above P top node) : node.Extends top := by
  induction habove with
  | here => exact List.prefix_rfl
  | down hmem hP hparent hget _ ih => exact ih.trans (h _ hmem hP _ _ hparent hget)

/-- A layer of a grown tree and its parent, with the rows that they stand for. -/
theorem Grown.exists_rows {volumes : List VolumeRow} {rows : List LayerRow} {tree : LayerTree}
    (h : tree.Grown volumes rows) {node above : LayerNode} {p : LayerId} (hmem : node ∈ tree.nodes)
    (hparent : node.parent = some p) (hget : tree.get? p = some above) :
    ∃ row ∈ rows, ∃ rowAbove ∈ rows, node.Stands volumes row ∧ above.Stands volumes rowAbove ∧
      row.parent = some rowAbove.id := by
  have hexists : ∀ n ∈ tree.nodes, ∃ row ∈ rows, n.Stands volumes row :=
    fun n hn => exists_of_forall₂ h.nodes.flip hn
  obtain ⟨row, hrow, hstands⟩ := hexists node hmem
  obtain ⟨rowAbove, hrowAbove, hstandsAbove⟩ := hexists above (mem_of_get? hget)
  refine ⟨row, hrow, rowAbove, hrowAbove, hstands, hstandsAbove, ?_⟩
  rw [← hstands.parent_eq, hparent, ← hstandsAbove.id_eq, id_of_get? hget]

end LayerTree

/-- The replication rows of a document extend the suffix of their parent. -/
def Document.ReplicationNested (doc : Document) : Prop :=
  ∀ row ∈ doc.layers, row.kind = LayerKind.replication.name → ∀ above ∈ doc.layers,
    row.parent = some above.id → above.suffix.toList <+: row.suffix.toList

namespace Graph

variable {doc : Document} {graph : Graph} {resource : Resource}

/-- A layer of a loaded tree and its parent, with their rows in the document. -/
theorem Loaded.exists_rows (h : Loaded doc graph) (hmem : resource ∈ graph.resources.values)
    {node above : LayerNode} {p : LayerId} (hnode : node ∈ resource.tree.nodes)
    (hparent : node.parent = some p) (hget : resource.tree.get? p = some above) :
    ∃ row ∈ doc.layers, ∃ rowAbove ∈ doc.layers, node.Stands doc.volumes row ∧
      above.Stands doc.volumes rowAbove ∧ row.parent = some rowAbove.id := by
  obtain ⟨key, hkey⟩ := SortedMap.mem_values_iff.1 hmem
  obtain ⟨_, tree, rows, -, rfl, hperm, hgrown⟩ := h.exists_grown hkey
  obtain ⟨row, hrow, rowAbove, hrowAbove, hstands⟩ := hgrown.exists_rows hnode hparent hget
  have hlayers : ∀ r ∈ rows, r ∈ doc.layers :=
    fun r hr => (mem_ownedBy.1 (hperm.mem_iff.1 hr)).1
  exact ⟨row, hlayers row hrow, rowAbove, hlayers rowAbove hrowAbove, hstands⟩

/-- The checks of a load nest all layers but replication layers. -/
theorem Loaded.nested (hdoc : doc.Consistent) (h : Loaded doc graph)
    (hmem : resource ∈ graph.resources.values) :
    resource.tree.Nested (·.kind ≠ .replication) := by
  intro node hnode hkind p above hparent hget
  obtain ⟨row, hrow, rowAbove, hrowAbove, hstands, hstandsAbove, hlink⟩ :=
    h.exists_rows hmem hnode hparent hget
  obtain ⟨kind, hfits⟩ := hdoc.layers row hrow
  have hsame : kind = node.kind := LayerKind.name_injective (hfits.named.symm.trans hstands.kind_eq)
  have hextends := hfits.extendsSuffix (hsame ▸ hkind) rowAbove hrowAbove hlink
  rwa [LayerNode.Extends, hstands.suffix_eq, hstandsAbove.suffix_eq]

/-- The nodes of a row and of the row of its parent are in one tree. -/
theorem Loaded.exists_nodes (hdoc : doc.Consistent) (h : Loaded doc graph) {row above : LayerRow}
    (hrow : row ∈ doc.layers) (habove : above ∈ doc.layers) (hlink : row.parent = some above.id) :
    ∃ resource ∈ graph.resources.values, ∃ node ∈ resource.tree.nodes, ∃ nodeAbove,
      node.parent = some above.id ∧ resource.tree.get? above.id = some nodeAbove ∧
      node.Stands doc.volumes row ∧ nodeAbove.Stands doc.volumes above := by
  obtain ⟨kind, hfits⟩ := hdoc.layers row hrow
  obtain ⟨definition, hdefinition⟩ := Option.isSome_iff_exists.1
    ((Catalog.definitionOf?_isSome_iff hdoc.defined).2 hfits.owned)
  obtain ⟨done, hperm, -, hpresent⟩ := h.present
  obtain ⟨tree, hget, hgrown⟩ := hpresent _ _ hdefinition
  have howned : ∀ r ∈ doc.layers, r.owner = row.owner → r ∈ ownedBy row.owner done :=
    fun r hr howner => mem_ownedBy.2 ⟨hperm.mem_iff.2 hr, howner⟩
  obtain ⟨node, hnode, hstands⟩ := hgrown.exists_node (howned row hrow rfl)
  obtain ⟨nodeAbove, hnodeAbove, hstandsAbove⟩ :=
    hgrown.exists_node (howned above habove (hfits.sameOwner above habove hlink))
  refine ⟨_, SortedMap.mem_values_iff.2 ⟨_, hget⟩, node, hnode, nodeAbove, ?_, ?_, hstands,
    hstandsAbove⟩
  · rw [hstands.parent_eq, hlink]
  · rw [← hstandsAbove.id_eq]
    exact LayerTree.get?_of_mem hgrown.wellFormed.nodup hnodeAbove

/-- In a loaded tree a layer extends the suffix of each layer above it from which no replication
layer leads down to it; and all layers extend the suffixes of all layers above them, in every tree,
exactly if each replication row of the document extends the suffix of its parent. -/
theorem suffixes_nested (hok : ofDocument doc = .ok graph) :
    (∀ resource ∈ graph.resources.values, ∀ top node,
      resource.tree.Above (·.kind ≠ .replication) top node → node.Extends top) ∧
    ((∀ resource ∈ graph.resources.values, ∀ top node,
      resource.tree.Above (fun _ => True) top node → node.Extends top) ↔
        doc.ReplicationNested) := by
  obtain ⟨hdoc, hloaded⟩ := loaded_ofDocument hok
  refine ⟨fun resource hmem top node => (hloaded.nested hdoc hmem).above, ?_, ?_⟩
  · intro hall row hrow _ above habove hlink
    obtain ⟨resource, hmem, node, hnode, nodeAbove, hparent, hget, hstands, hstandsAbove⟩ :=
      hloaded.exists_nodes hdoc hrow habove hlink
    have hextends := hall resource hmem nodeAbove node (.down hnode trivial hparent hget .here)
    rwa [LayerNode.Extends, hstands.suffix_eq, hstandsAbove.suffix_eq] at hextends
  · intro hrows resource hmem top node
    refine LayerTree.Nested.above fun node hnode _ p above hparent hget => ?_
    by_cases hkind : node.kind = .replication
    · obtain ⟨row, hrow, rowAbove, hrowAbove, hstands, hstandsAbove, hlink⟩ :=
        hloaded.exists_rows hmem hnode hparent hget
      rw [LayerNode.Extends, hstands.suffix_eq, hstandsAbove.suffix_eq]
      exact hrows row hrow (hstands.kind_eq.trans (congrArg _ hkind)) rowAbove hrowAbove hlink
    · exact hloaded.nested hdoc hmem node hnode hkind p above hparent hget

/-! ## Three layers -/

/-- An encryption layer for the suffix `a`, a replication layer for a suffix below it, and an
encryption layer for the suffix `ab` below that one. -/
def stackedDocument (suffix : String) : Document where
  catalog := {
    definitions := [{
      name := "d"
      replication := .ofList [(suffix,
        { port := 7000, secret := "s", transport := "TCP", peerSlots := 7, alStripes := 1 })] }]
    resources := [{ key := ⟨"n", "r", none⟩, definition := "d" }] }
  layers := [
    { id := 1, kind := "ENCRYPTION", suffix := "a", owner := ⟨"n", "r", none⟩ },
    { id := 2, parent := some 1, kind := "REPLICATION", suffix, owner := ⟨"n", "r", none⟩
      replication := some { nodeId := 0, peerSlots := 7, alStripes := 1, alStripeSizeKib := 32 } },
    { id := 3, parent := some 2, kind := "ENCRYPTION", suffix := "ab", owner := ⟨"n", "r", none⟩ }]

/-- The graph of the three layers. -/
def stackedGraph (suffix : String) : Graph :=
  (ofDocument (stackedDocument suffix)).toOption.getD {}

/-- With the suffix `ab` in the middle all layers are nested. -/
theorem suffixes_nested_stacked :
    ofDocument (stackedDocument "ab") = .ok (stackedGraph "ab") ∧
      (stackedDocument "ab").ReplicationNested ∧
      ∀ resource ∈ (stackedGraph "ab").resources.values, ∀ top node,
        resource.tree.Above (fun _ => True) top node → node.Extends top := by
  have hok : ofDocument (stackedDocument "ab") = .ok (stackedGraph "ab") := by decide
  have hrows : (stackedDocument "ab").ReplicationNested := by
    unfold Document.ReplicationNested
    decide
  exact ⟨hok, hrows, (suffixes_nested hok).2.2 hrows⟩

/-- With no suffix in the middle the document is loaded all the same, and the replication layer does
not extend the suffix of the layer above it. -/
theorem replication_outside_suffix :
    ofDocument (stackedDocument "") = .ok (stackedGraph "") ∧
      ∃ resource ∈ (stackedGraph "").resources.values, ∃ node ∈ resource.tree.nodes,
        ∃ above ∈ resource.tree.nodes, node.parent = some above.id ∧ ¬ node.Extends above := by
  refine ⟨by decide, ?_⟩
  unfold LayerNode.Extends
  decide

end Graph
end BlockStack
