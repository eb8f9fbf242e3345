import BlockStack.Proofs.Forest
import BlockStack.Proofs.ResourceRows
import BlockStack.Proofs.Rows

/-!
# BlockStack.Proofs.Attach

One step of a load: attaching a row to what was attached before.

* `LayerTree.Grown`: a tree is what some rows stand for, attached in their order.
* `Graph.Holds`: a graph is what a catalog and the rows attached so far stand for.
* `Graph.attach_ok`, `Graph.attach_placed`: a row is attached exactly if it fits its document, and
  the graph then holds it as well.
-/

namespace BlockStack

open BlockStack.Graph (volumesOf)

/-- A node is what a row stands for, up to the children that the node got since. -/
def LayerNode.Stands (volumes : List VolumeRow) (node : LayerNode) (row : LayerRow) : Prop :=
  row.node? (volumesOf volumes row.id) = some { node with children := [] }

/-- A tree is what some rows stand for, attached in their order. -/
structure LayerTree.Grown (volumes : List VolumeRow) (rows : List LayerRow) (tree : LayerTree) :
    Prop where
  wellFormed : tree.WellFormed
  nodes : List.Forall₂ (LayerNode.Stands volumes) tree.nodes rows

theorem map_eq_of_forall₂ {α β γ : Type} {R : α → β → Prop} {f : α → γ} {g : β → γ}
    (hfg : ∀ a b, R a b → f a = g b) {l : List α} {m : List β} (h : List.Forall₂ R l m) :
    l.map f = m.map g := by
  induction h with
  | nil => rfl
  | cons hab _ ih => rw [List.map_cons, List.map_cons, hfg _ _ hab, ih]

theorem exists_of_forall₂ {α β : Type} {R : α → β → Prop} {l : List α} {m : List β}
    (h : List.Forall₂ R l m) {b : β} (hb : b ∈ m) : ∃ a ∈ l, R a b := by
  induction h with
  | nil => cases hb
  | cons hab _ ih =>
    rcases List.mem_cons.1 hb with rfl | hb
    · exact ⟨_, List.mem_cons_self, hab⟩
    · obtain ⟨a, ha, hr⟩ := ih hb
      exact ⟨a, List.mem_cons_of_mem _ ha, hr⟩

variable {volumes : List VolumeRow} {rows : List LayerRow} {tree : LayerTree}

theorem LayerNode.Stands.id_eq {node : LayerNode} {row : LayerRow} (h : node.Stands volumes row) :
    node.id = row.id := by
  obtain ⟨payload, -, he⟩ := Option.map_eq_some_iff.1 h
  exact (congrArg LayerNode.id he).symm

theorem LayerNode.Stands.parent_eq {node : LayerNode} {row : LayerRow}
    (h : node.Stands volumes row) : node.parent = row.parent := by
  obtain ⟨payload, -, he⟩ := Option.map_eq_some_iff.1 h
  exact (congrArg LayerNode.parent he).symm

theorem LayerNode.Stands.suffix_eq {node : LayerNode} {row : LayerRow}
    (h : node.Stands volumes row) : node.suffix = row.suffix := by
  obtain ⟨payload, -, he⟩ := Option.map_eq_some_iff.1 h
  exact (congrArg LayerNode.suffix he).symm

theorem LayerNode.Stands.suspended_eq {node : LayerNode} {row : LayerRow}
    (h : node.Stands volumes row) : node.suspended = row.suspended := by
  obtain ⟨payload, -, he⟩ := Option.map_eq_some_iff.1 h
  exact (congrArg LayerNode.suspended he).symm

theorem LayerNode.Stands.payload?_eq {node : LayerNode} {row : LayerRow}
    (h : node.Stands volumes row) : row.payload? = some node.payload := by
  obtain ⟨payload, hpayload, he⟩ := Option.map_eq_some_iff.1 h
  rw [hpayload, ← show payload = node.payload from congrArg LayerNode.payload he]

theorem LayerNode.Stands.kind_eq {node : LayerNode} {row : LayerRow} (h : node.Stands volumes row) :
    row.kind = node.kind.name :=
  LayerRow.kind_of_payload? h.payload?_eq

namespace LayerTree

theorem grown_empty : Grown volumes [] {} := ⟨wellFormed_empty, .nil⟩

theorem Grown.links (h : Grown volumes rows tree) :
    tree.nodes.map (fun n => (n.id, n.parent)) = rows.map (fun r => (r.id, r.parent)) :=
  map_eq_of_forall₂ (fun _ _ hs => Prod.ext hs.id_eq hs.parent_eq) h.nodes

theorem Grown.ids_eq (h : Grown volumes rows tree) : tree.ids = rows.map (·.id) :=
  map_eq_of_forall₂ (fun _ _ hs => hs.id_eq) h.nodes

theorem Grown.exists_node (h : Grown volumes rows tree) {row : LayerRow} (hrow : row ∈ rows) :
    ∃ node ∈ tree.nodes, node.Stands volumes row :=
  exists_of_forall₂ h.nodes hrow

/-- Attaching the node of a row lets the tree grow by the row. -/
theorem Grown.insertNode (h : Grown volumes rows tree) {row : LayerRow} {node : LayerNode}
    (hnode : row.node? (volumesOf volumes row.id) = some node) (hid : row.id ∉ rows.map (·.id))
    (hparent : ∀ p, row.parent = some p → p ∈ rows.map (·.id)) :
    ∃ next, Graph.insertNode tree row.parent { node with parent := none } = .ok next ∧
      Grown volumes (rows ++ [row]) next := by
  obtain ⟨payload, hpay, rfl⟩ := Option.map_eq_some_iff.1 hnode
  rw [← h.ids_eq] at hid hparent
  cases hp : row.parent with
  | none =>
    refine ⟨_, insertRoot_ok hid, h.wellFormed.insertRoot hid, ?_⟩
    refine List.rel_append h.nodes (.cons ?_ .nil)
    simp [LayerNode.Stands, hnode, hp]
  | some p =>
    refine ⟨_, insertChild_ok hid (hparent p hp), h.wellFormed.insertChild hid (hparent p hp), ?_⟩
    refine List.rel_append (List.forall₂_map_left_iff.2 (h.nodes.imp fun n r hs => ?_)) (.cons ?_ .nil)
    · split
      · exact hs
      · exact hs
    · simp [LayerNode.Stands, hnode, hp]

end LayerTree

theorem ownedBy_append_self (row : LayerRow) :
    ownedBy row.owner (rows ++ [row]) = ownedBy row.owner rows ++ [row] := by
  simp [ownedBy]

theorem ownedBy_append_of_ne {key : ResourceKey} {row : LayerRow} (h : key ≠ row.owner) :
    ownedBy key (rows ++ [row]) = ownedBy key rows := by
  simp [ownedBy, h.symm]

namespace Graph

/-- A graph is what a catalog and the rows attached so far stand for. -/
structure Holds (catalog : Catalog) (volumes : List VolumeRow) (rows : List LayerRow)
    (graph : Graph) : Prop where
  definitions : ∀ name, graph.definitions.get? name = catalog.definition? name
  pools : ∀ key, graph.pools.get? key = catalog.pool? key
  owners : graph.owners = rows.map (fun row => (row.id, row.owner))
  absent : ∀ key, catalog.definitionOf? key = none → graph.resources.get? key = none
  present : ∀ key definition, catalog.definitionOf? key = some definition →
    ∃ tree, graph.resources.get? key = some { key, definition, tree } ∧
      tree.Grown volumes (ownedBy key rows)

theorem Bare.holds {catalog : Catalog} {graph : Graph} (h : Bare catalog graph) :
    graph.Holds catalog volumes [] where
  definitions := h.definitions
  pools := h.pools
  owners := h.owners
  absent key hnone := by rw [h.resources, hnone, Option.map_none]
  present key definition hsome :=
    ⟨{}, by rw [h.resources, hsome, Option.map_some], LayerTree.grown_empty⟩

/-- A row fits its document, with all its volume rows. -/
structure Placed (doc : Document) (row : LayerRow) : Prop where
  fits : ∃ kind, row.Fits doc kind
  volumes : ∀ volume ∈ volumesOf doc.volumes row.id, volume.Fits doc row
  numbered : ((volumesOf doc.volumes row.id).map (·.number)).Nodup

/-- Rows are attached one after the other: each is a row of the document that was not attached
before, and its parent was. -/
structure Due (doc : Document) (done : List LayerRow) (row : LayerRow) : Prop where
  distinct : (doc.layers.map (·.id)).Nodup
  known : ∀ r ∈ done, r ∈ doc.layers
  mem : row ∈ doc.layers
  fresh : row.id ∉ done.map (·.id)
  parent : ∀ p, row.parent = some p → ∃ above ∈ done, above.id = p

variable {doc : Document} {done : List LayerRow} {row : LayerRow} {graph : Graph}

theorem Due.eq_of_id {a b : LayerRow} (h : Due doc done row) (ha : a ∈ doc.layers)
    (hb : b ∈ doc.layers) (hid : a.id = b.id) : a = b :=
  List.inj_on_of_nodup_map h.distinct ha hb hid

theorem Holds.ownerOf?_eq (hg : graph.Holds doc.catalog doc.volumes done) (h : Due doc done row)
    {above : LayerRow} (hmem : above ∈ done) : graph.ownerOf? above.id = some above.owner := by
  rw [ownerOf?, hg.owners]
  cases hfind : (done.map (fun r => (r.id, r.owner))).find? (fun e => e.1 = above.id) with
  | none =>
    have := List.find?_eq_none.1 hfind (above.id, above.owner) (List.mem_map.2 ⟨above, hmem, rfl⟩)
    simp at this
  | some e =>
    obtain ⟨r, hr, rfl⟩ := List.mem_map.1 (List.mem_of_find?_eq_some hfind)
    have hid : r.id = above.id := by simpa using List.find?_some hfind
    rw [h.eq_of_id (h.known r hr) (h.known above hmem) hid]
    rfl

theorem checkOwner_eq_ok_iff (hg : graph.Holds doc.catalog doc.volumes done) (h : Due doc done row) :
    graph.checkOwner row = .ok () ↔
      ∀ above ∈ doc.layers, row.parent = some above.id → above.owner = row.owner := by
  unfold checkOwner
  cases hp : row.parent with
  | none => simp
  | some p =>
    obtain ⟨above, hmem, rfl⟩ := h.parent p hp
    simp only [hg.ownerOf?_eq h hmem, Option.some.injEq]
    constructor
    · intro hok other hother hid
      rw [h.eq_of_id hother (h.known above hmem) hid.symm]
      split at hok
      · assumption
      · cases hok
    · intro hall
      rw [if_pos (hall above (h.known above hmem) rfl)]

theorem checkOwner_fault {fault : Fault} (h : graph.checkOwner row = .error fault) :
    fault.isLoadFault = true := by
  unfold checkOwner at h
  repeat' split at h
  all_goals cases h <;> rfl

section Checks

variable {kind : LayerKind} {definition : ResourceDefinition}

theorem fits_iff_suits (hg : graph.Holds doc.catalog doc.volumes done) (hk : row.kind = kind.name)
    (hd : doc.catalog.definitionOf? row.owner = some definition) (volume : VolumeRow) :
    volume.Fits doc row ↔ row.Suits kind definition graph.pools volume := by
  unfold VolumeRow.Fits LayerRow.Suits
  have hs : doc.settingsOf? row = definition.replication.get? row.suffix := by
    simp [Document.settingsOf?, hd]
  have hne : ∀ {a b : LayerKind}, a ≠ b → ¬ a.name = b.name := 
    fun h e => h (LayerKind.name_injective e)
  rw [hk, hs]
  cases hpay : volume.payload <;> cases kind <;> simp only [hg.pools, true_and] <;>
    first | exact Iff.rfl | simp [hne]

/-- The tree of a resource has the node of the row above, if that row belongs to the resource. -/
theorem Holds.parent_node (h : Due doc done row) {tree : LayerTree}
    (ht : tree.Grown doc.volumes (ownedBy row.owner done)) {above : LayerRow}
    (hmem : above ∈ doc.layers) (hp : row.parent = some above.id) (howner : above.owner = row.owner) :
    ∃ node, tree.get? above.id = some node ∧ node.suffix = above.suffix := by
  obtain ⟨r, hr, hid⟩ := h.parent _ hp
  rw [h.eq_of_id (h.known r hr) hmem hid] at hr
  obtain ⟨node, hnode, hst⟩ := ht.exists_node (mem_ownedBy.2 ⟨hr, howner⟩)
  refine ⟨node, ?_, hst.suffix_eq⟩
  rw [← hst.id_eq]
  exact LayerTree.get?_of_mem ht.wellFormed.nodup hnode

/-- For a row with the owner of its parent, the checks of a load say that the row fits. -/
theorem builds_iff (hg : graph.Holds doc.catalog doc.volumes done) (h : Due doc done row)
    (hk : row.kind = kind.name) (hd : doc.catalog.definitionOf? row.owner = some definition)
    (hso : ∀ above ∈ doc.layers, row.parent = some above.id → above.owner = row.owner)
    {tree : LayerTree} (ht : tree.Grown doc.volumes (ownedBy row.owner done))
    (howned : ∃ entry ∈ doc.catalog.resources, entry.key = row.owner) :
    row.Builds kind { key := row.owner, definition, tree } graph.pools (volumesOf doc.volumes row.id) ↔
      Placed doc row := by
  have hs : doc.settingsOf? row = definition.replication.get? row.suffix := by
    simp [Document.settingsOf?, hd]
  have above_iff : (∀ above, row.parent.bind tree.get? = some above →
        above.suffix.toList <+: row.suffix.toList) ↔
      ∀ above ∈ doc.layers, row.parent = some above.id →
        above.suffix.toList <+: row.suffix.toList := by
    constructor
    · intro hall above hmem hp
      obtain ⟨node, hnode, hsuffix⟩ := Holds.parent_node h ht hmem hp (hso above hmem hp)
      rw [← hsuffix]
      exact hall node (by rw [hp, Option.bind_some, hnode])
    · intro hall node hnode
      obtain ⟨p, hp, hget⟩ := Option.bind_eq_some_iff.1 hnode
      obtain ⟨above, hmem, rfl⟩ := h.parent p hp
      have hmem' := h.known above hmem
      obtain ⟨node', hnode', hsuffix⟩ := Holds.parent_node h ht hmem' hp (hso above hmem' hp)
      rw [hget] at hnode'
      cases hnode'
      rw [hsuffix]
      exact hall above hmem' hp
  constructor
  · intro hb
    exact ⟨⟨kind, hk, howned, hso, fun hne => above_iff.1 (hb.extendsSuffix hne),
      fun he => hs ▸ hb.replicated he⟩,
      fun v hv => (fits_iff_suits hg hk hd v).2 (hb.suits v hv), hb.numbered⟩
  · rintro ⟨⟨kind', hf⟩, hv, hn⟩
    have : kind' = kind := LayerKind.name_injective (hf.named.symm.trans hk)
    subst this
    exact ⟨fun he => hs ▸ hf.replicated he, fun hne => above_iff.2 (hf.extendsSuffix hne),
      fun v hmem => (fits_iff_suits hg hk hd v).1 (hv v hmem), hn⟩

end Checks

/-! ## The step -/

theorem Holds.append (hg : graph.Holds doc.catalog doc.volumes done)
    {definition : ResourceDefinition} (hd : doc.catalog.definitionOf? row.owner = some definition)
    {tree : LayerTree} (ht : tree.Grown doc.volumes (ownedBy row.owner done ++ [row])) :
    Holds doc.catalog doc.volumes (done ++ [row]) { graph with
      resources := graph.resources.insert row.owner { key := row.owner, definition, tree }
      owners := graph.owners ++ [(row.id, row.owner)] } where
  definitions := hg.definitions
  pools := hg.pools
  owners := by simp [hg.owners]
  absent key hnone := by
    have hne : key ≠ row.owner := by
      rintro rfl
      rw [hd] at hnone
      cases hnone
    rw [SortedMap.get?_insert_of_ne _ _ hne, hg.absent key hnone]
  present key d hsome := by
    by_cases hk : key = row.owner
    · subst hk
      rw [hd] at hsome
      cases hsome
      exact ⟨tree, SortedMap.get?_insert_self _ _ _, by rwa [ownedBy_append_self]⟩
    · obtain ⟨t, hget, hgrown⟩ := hg.present key d hsome
      exact ⟨t, by rw [SortedMap.get?_insert_of_ne _ _ hk, hget], by rwa [ownedBy_append_of_ne hk]⟩

/-- A row that fits is attached. -/
theorem attach_ok (hg : graph.Holds doc.catalog doc.volumes done) (hdef : doc.catalog.Defined)
    (h : Due doc done row) (hp : Placed doc row) :
    ∃ next, graph.attach row (volumesOf doc.volumes row.id) = .ok next ∧
      next.Holds doc.catalog doc.volumes (done ++ [row]) ∧ next.passes = graph.passes := by
  obtain ⟨kind, hf⟩ := hp.fits
  have hkind : LayerKind.ofName? row.kind = some kind := LayerKind.ofName?_eq_some_iff.2 hf.named.symm
  obtain ⟨definition, hd⟩ := Option.isSome_iff_exists.1
    ((Catalog.definitionOf?_isSome_iff hdef).2 hf.owned)
  obtain ⟨tree, hget, ht⟩ := hg.present row.owner definition hd
  have hb := (builds_iff hg h hf.named hd hf.sameOwner ht hf.owned).2 hp
  obtain ⟨node, hnode⟩ := hb.exists_node hkind
  have hbuild := (LayerRow.build_eq_ok_iff hkind).2 ⟨hb, node, hnode, rfl⟩
  have hfresh : row.id ∉ (ownedBy row.owner done).map (·.id) := fun hm =>
    h.fresh ((List.filter_sublist.map _).subset hm)
  have hparent : ∀ p, row.parent = some p → p ∈ (ownedBy row.owner done).map (·.id) := by
    intro p hp
    obtain ⟨above, hmem, rfl⟩ := h.parent p hp
    exact List.mem_map_of_mem (mem_ownedBy.2 ⟨hmem, hf.sameOwner above (h.known above hmem) hp⟩)
  obtain ⟨next, hinsert, hgrown⟩ := ht.insertNode hnode hfresh hparent
  refine ⟨_, ?_, hg.append hd hgrown, rfl⟩
  simp only [attach, hkind, (checkOwner_eq_ok_iff hg h).2 hf.sameOwner, hget, hbuild, hinsert]

/-- A row that is attached fits. -/
theorem attach_placed (hg : graph.Holds doc.catalog doc.volumes done) (hdef : doc.catalog.Defined)
    (h : Due doc done row) {next : Graph}
    (hok : graph.attach row (volumesOf doc.volumes row.id) = .ok next) : Placed doc row := by
  unfold attach at hok
  split at hok
  · cases hok
  rename_i kind hkind
  split at hok
  · cases hok
  rename_i hco
  split at hok
  · cases hok
  rename_i resource hres
  split at hok
  · cases hok
  rename_i node hbuild
  have hnamed : row.kind = kind.name := (LayerKind.ofName?_eq_some_iff.1 hkind).symm
  cases hd : doc.catalog.definitionOf? row.owner with
  | none =>
    rw [hg.absent row.owner hd] at hres
    cases hres
  | some definition =>
    obtain ⟨tree, hget, ht⟩ := hg.present row.owner definition hd
    rw [hget] at hres
    cases hres
    refine (builds_iff hg h hnamed hd ((checkOwner_eq_ok_iff hg h).1 hco) ht ?_).1
      ((LayerRow.build_eq_ok_iff hkind).1 hbuild).1
    exact (Catalog.definitionOf?_isSome_iff hdef).1 (by simp [hd])

theorem attach_fault {rows : List VolumeRow} {fault : Fault}
    (h : graph.attach row rows = .error fault) : fault.isLoadFault = true := by
  unfold attach at h
  split at h
  · cases h
    rfl
  split at h
  · rename_i hf
    cases h
    exact checkOwner_fault hf
  split at h
  · cases h
    rfl
  split at h
  · rename_i hf
    cases h
    exact LayerRow.build_fault hf
  split at h
  · rename_i hf
    cases h
    unfold insertNode LayerTree.insertChild LayerTree.insertRoot at hf
    repeat' split at hf
    all_goals cases hf <;> rfl
  · cases h

end Graph
end BlockStack
