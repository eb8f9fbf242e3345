import BlockStack.Proofs.Counting
import BlockStack.Proofs.LastReport
import BlockStack.Proofs.Reload

/-!
# BlockStack.Proofs.Addressing

Which layers of a loaded resource a report can reach. Layers are matched by kind and suffix below
their parent, and a load does not ask for siblings to differ in these.

* `Report.Echoes`: a report that has each layer of a resource in its place, with all its volumes.
* `LayerTree.Distinguishable`: no two siblings, and no two roots, have both kind and suffix in common.
* `LayerTree.Echoed.fitsLevel`: in a tree like that an echo speaks of each layer in its own place.
* `LayerTree.Echoed.spoken_perm`: an echo that is accepted speaks of all layers.
* `Resource.echo_accepted_iff`: so an echo is accepted exactly by trees like that.
-/

namespace BlockStack

/-! ## Echoes -/

/-- A volume is reported under its number and, on a storage layer, with its provider. -/
structure ReportedVolume.Echoes (reported : ReportedVolume) (leaf : VolumeLeaf) : Prop where
  number : reported.number = some leaf.number
  provider : ∀ volume, leaf.data = .storage volume → reported.provider = some volume.provider.name

/-- A layer is reported with its kind and suffix, and each of its volumes once. -/
structure ReportedLayer.Echoes (reported : ReportedLayer) (node : LayerNode) : Prop where
  kind : reported.kind = some node.kind.name
  suffix : reported.suffix = some node.suffix
  replication : reported.replication = none
  volumes : ∃ leaves : List VolumeLeaf, leaves.Perm node.volumes.values ∧
    List.Forall₂ ReportedVolume.Echoes reported.volumes leaves

/-- Nested layers are reported in their order, each with its children below it. -/
inductive LayerTree.Echoed (tree : LayerTree) : List ReportNode → List LayerId → Prop where
  | nil : Echoed tree [] []
  | cons {layer : ReportedLayer} {children rest : List ReportNode} {id : LayerId} {node : LayerNode}
      {ids : List LayerId} : tree.get? id = some node → layer.Echoes node →
      Echoed tree children node.children → Echoed tree rest ids →
      Echoed tree (.mk layer children :: rest) (id :: ids)

/-- A report has the key of a resource and all its layers. -/
structure Report.Echoes (report : Report) (resource : Resource) : Prop where
  onNode : report.node = some resource.key.node
  named : report.resource = some resource.key.resource
  snapshot : report.snapshot = resource.key.snapshot
  roots : resource.tree.Echoed report.roots resource.tree.roots

/-- No two layers below one parent, and no two at the top, have both kind and suffix in common. -/
def LayerTree.Distinguishable (tree : LayerTree) : Prop :=
  ∀ a ∈ tree.nodes, ∀ b ∈ tree.nodes,
    a.parent = b.parent → a.kind = b.kind → a.suffix = b.suffix → a.id = b.id

instance (tree : LayerTree) : Decidable tree.Distinguishable :=
  inferInstanceAs (Decidable (∀ a ∈ tree.nodes, ∀ b ∈ tree.nodes, _ → _ → _ → _))

/-- How many volumes all layers have together. -/
def LayerTree.leafCount (tree : LayerTree) : Nat := (tree.nodes.map (·.volumes.size)).sum

/-! ## Every resource has an echo -/

def VolumeLeaf.echo (leaf : VolumeLeaf) : ReportedVolume where
  number := some leaf.number
  provider := leaf.storage?.map (·.provider.name)

def LayerNode.echo (node : LayerNode) : ReportedLayer where
  kind := some node.kind.name
  suffix := some node.suffix
  volumes := node.volumes.values.map VolumeLeaf.echo

theorem VolumeLeaf.echo_echoes (leaf : VolumeLeaf) : leaf.echo.Echoes leaf where
  number := rfl
  provider volume hdata := by simp [echo, storage?, hdata]

theorem LayerNode.echo_echoes (node : LayerNode) : node.echo.Echoes node where
  kind := rfl
  suffix := rfl
  replication := rfl
  volumes := by
    refine ⟨node.volumes.values, .refl _, ?_⟩
    rw [echo, List.forall₂_map_left_iff]
    exact List.forall₂_same.2 fun leaf _ => leaf.echo_echoes

namespace LayerTree

variable {tree : LayerTree}

theorem Walk.exists_echoed {ids order : List LayerId} (h : Walk tree ids order) :
    ∃ nodes, tree.Echoed nodes ids := by
  induction h with
  | done => exact ⟨[], .nil⟩
  | @node id node rest below after hget _ _ ihb iha =>
    obtain ⟨children, hchildren⟩ := ihb
    obtain ⟨others, hothers⟩ := iha
    exact ⟨_, .cons hget node.echo_echoes hchildren hothers⟩

end LayerTree

/-! ## An echo of one layer -/

/-- What a load makes sure of: replication settings are defined, volumes stand under their numbers,
and their pools are indexed. -/
structure LayerNode.Settled (node : LayerNode) (resource : Resource)
    (pools : SortedMap PoolKey StoragePool) : Prop where
  defined : node.kind = .replication →
    ∃ settings, resource.definition.replication.get? node.suffix = some settings
  numbered : ∀ number leaf, node.volumes.get? number = some leaf → leaf.number = number
  indexed : ∀ number leaf volume, node.volumes.get? number = some leaf → leaf.data = .storage volume →
    (⟨resource.key.node, volume.pool⟩ : PoolKey) ∈ pools.keys

/-- A catalog has a pool with a provider. -/
def Catalog.Offers (catalog : Catalog) (key : PoolKey) (provider : ProviderKind) : Prop :=
  ∃ pool, catalog.pool? key = some pool ∧ pool.provider = provider

/-- The pools of a resource are in the catalog, with the providers of its volumes. -/
theorem Resource.Mirrors.poolsIn {doc : Document} {resource : Resource} (h : resource.Mirrors doc)
    (hdoc : doc.Consistent) : resource.tree.PoolsIn resource.key.node doc.catalog.Offers := by
  intro node hnode number leaf hleaf volume hdata
  obtain ⟨row, hrow, hstands⟩ := h.depicts.exists_row hnode
  obtain ⟨hrow, howner⟩ := mem_ownedBy.1 hrow
  obtain ⟨-, hplaced⟩ := (Document.consistent_iff.1 hdoc).2.2.1 row hrow
  -- the pool was looked up for the row that the volume was read from
  obtain ⟨source, hsource, -, -, hread⟩ := hstands.exists_volume hleaf
  have hsuits := (fits_iff_data hread).1 (hplaced.volumes source hsource)
  rw [hdata] at hsuits
  obtain ⟨-, pool, hpool, hprovider⟩ := hsuits
  exact ⟨pool, howner ▸ hpool, hprovider⟩

open BlockStack.Graph (Loaded) in
theorem settled_of_loaded {doc : Document} {graph : Graph} (hdoc : doc.Consistent)
    (h : Loaded doc graph) {key : ResourceKey} {resource : Resource}
    (hget : graph.resources.get? key = some resource) :
    ∀ node ∈ resource.tree.nodes, node.Settled resource graph.pools := by
  intro node hnode
  obtain ⟨-, hmirrors⟩ := h.mirrors hget
  obtain ⟨row, hrow, hstands⟩ := hmirrors.depicts.exists_row hnode
  obtain ⟨hrow, howner⟩ := mem_ownedBy.1 hrow
  obtain ⟨-, hplaced⟩ := (Document.consistent_iff.1 hdoc).2.2.1 row hrow
  obtain ⟨kind, hfits⟩ := hplaced.fits
  refine ⟨fun hkind => ?_, fun number leaf hleaf => ?_, fun number leaf volume hleaf hdata => ?_⟩
  · have hsame : kind = node.kind := LayerKind.name_injective (hfits.named.symm.trans hstands.kind_eq)
    obtain ⟨-, hsettings⟩ := hfits.replicated (hsame.trans hkind)
    rw [Document.settingsOf?, howner, hmirrors.definition, Option.bind_some, ← hstands.suffix_eq]
      at hsettings
    exact Option.isSome_iff_exists.1 hsettings
  · exact (hmirrors.depicts.plain node hnode number leaf hleaf).1
  · obtain ⟨pool, hpool, -⟩ := hmirrors.poolsIn hdoc node hnode number leaf hleaf volume hdata
    exact SortedMap.mem_keys_iff.2 ⟨pool, (h.pools _).trans hpool⟩

namespace ReportedLayer.Echoes

variable {reported : ReportedLayer} {node : LayerNode}

theorem length_volumes (h : reported.Echoes node) :
    reported.volumes.length = node.volumes.size := by
  obtain ⟨leaves, hperm, hvolumes⟩ := h.volumes
  rw [hvolumes.length_eq, hperm.length_eq]
  exact List.length_map _

/-- The echo of a layer fits the layer, whatever the backend has. -/
theorem fitsLayer (h : reported.Echoes node) {resource : Resource}
    {pools : SortedMap PoolKey StoragePool} (hnode : node.Settled resource pools) (facts : FactsMap)
    (tolerance : UInt64) : (resource.mergeContext pools facts tolerance).FitsLayer node reported := by
  obtain ⟨leaves, hperm, hvolumes⟩ := h.volumes
  have hleaf : ∀ leaf ∈ leaves, node.volumes.get? leaf.number = some leaf := by
    intro leaf hmem
    obtain ⟨number, hget⟩ := SortedMap.mem_values_iff.1 (hperm.mem_iff.1 hmem)
    rwa [hnode.numbered number leaf hget]
  refine ⟨fun hkind => ?_, fun _ => h.replication, ⟨fun r hr => ?_, ?_⟩, fun _ number hnumber => ?_⟩
  · obtain ⟨settings, hsettings⟩ := hnode.defined hkind
    refine ⟨settings, hsettings, fun echoed he => ?_⟩
    rw [h.replication] at he
    cases he
  · obtain ⟨leaf, hmem, he⟩ := exists_of_forall₂ hvolumes.flip hr
    refine ⟨leaf.number, leaf, he.number, hleaf leaf hmem, fun volume hdata => ?_⟩
    exact ⟨he.provider volume hdata, fun _ _ =>
      hnode.indexed leaf.number leaf volume (hleaf leaf hmem) hdata⟩
  · have hnumbers : reported.volumes.map (·.number) = leaves.map (fun leaf => some leaf.number) :=
      map_eq_of_forall₂ (fun _ _ he => he.number) hvolumes
    have hkeys : node.volumes.values.map (fun leaf => some leaf.number) =
        node.volumes.keys.map some := by
      rw [SortedMap.values, SortedMap.keys, List.map_map, List.map_map]
      refine List.map_congr_left fun e he => congrArg some ?_
      exact hnode.numbered e.1 e.2 ((SortedMap.mem_entries_iff _).1 he)
    rw [hnumbers, (hperm.map _).nodup_iff, hkeys]
    exact (SortedMap.nodup_keys _).map fun _ _ => Option.some.inj
  · obtain ⟨leaf, hget⟩ := SortedMap.mem_keys_iff.1 hnumber
    have hmem := hperm.mem_iff.2 (SortedMap.mem_values_iff.2 ⟨number, hget⟩)
    obtain ⟨r, hr, he⟩ := exists_of_forall₂ hvolumes hmem
    exact ⟨r, hr, by rw [he.number, hnode.numbered number leaf hget]⟩

end ReportedLayer.Echoes

/-! ## Each layer in its own place -/

namespace LayerTree

variable {tree : LayerTree} {ctx : MergeContext}

theorem matching_iff {kind : LayerKind} {suffix : String} {node : LayerNode} :
    matching kind suffix node = true ↔ node.kind = kind ∧ node.suffix = suffix := by
  simp [matching]

/-- Among siblings that differ, the echo of a layer speaks of that layer. -/
theorem Distinguishable.spokenOf?_eq (h : tree.Distinguishable) {node : LayerNode}
    (hmem : node ∈ tree.nodes) {layer : ReportedLayer} (he : layer.Echoes node) :
    tree.spokenOf? node.parent layer = some node.id := by
  simp only [spokenOf?, he.kind, he.suffix, Option.bind_some, LayerKind.ofName?_name]
  have hbelow : node ∈ tree.nodesBelow node.parent := by simp [nodesBelow, hmem]
  cases hfind : (tree.nodesBelow node.parent).find? (matching node.kind node.suffix) with
  | none =>
    have := List.find?_eq_none.1 hfind node hbelow
    exact absurd (matching_iff.2 ⟨rfl, rfl⟩) this
  | some found =>
    obtain ⟨hfound, hparent⟩ := List.mem_filter.1 (List.mem_of_find?_eq_some hfind)
    obtain ⟨hkind, hsuffix⟩ := matching_iff.1 (List.find?_some hfind)
    rw [Option.map_some, h found hfound node hmem (of_decide_eq_true hparent) hkind hsuffix]

theorem Echoed.map_spokenOf? (hd : tree.Distinguishable) {parent : Option LayerId}
    {nodes : List ReportNode} {ids : List LayerId} (h : tree.Echoed nodes ids)
    (hids : ∀ id ∈ ids, ∃ node, tree.get? id = some node ∧ node.parent = parent) :
    nodes.map (fun node => tree.spokenOf? parent node.layer) = ids.map some := by
  induction h with
  | nil => rfl
  | @cons layer children rest id node ids hget hlayer _ _ _ ih =>
    obtain ⟨same, hsame, hparent⟩ := hids id List.mem_cons_self
    rw [hget] at hsame
    cases hsame
    have hfirst := hd.spokenOf?_eq (mem_of_get? hget) hlayer
    rw [hparent, id_of_get? hget] at hfirst
    rw [List.map_cons, List.map_cons, ReportNode.layer, hfirst,
      ih fun x hx => hids x (List.mem_cons_of_mem _ hx)]

/-- In a tree whose siblings differ, an echo speaks of each layer in its own place, and fits. -/
theorem Echoed.fitsLevel (hd : tree.Distinguishable) (hwf : tree.WellFormed)
    (hlayers : ∀ node ∈ tree.nodes, ∀ layer : ReportedLayer, layer.Echoes node →
      ctx.FitsLayer node layer)
    {nodes : List ReportNode} {ids : List LayerId} (h : tree.Echoed nodes ids) :
    ∀ {parent : Option LayerId}, ids.Nodup →
      (∀ id ∈ ids, ∃ node, tree.get? id = some node ∧ node.parent = parent) →
      ctx.FitsLevel tree parent nodes := by
  induction h with
  | nil =>
    intro parent _ _
    exact ⟨by simp, by simp⟩
  | @cons layer children rest id node ids hget hlayer _ hrest ihc ihr =>
    intro parent hnodup hids
    have hmem := mem_of_get? hget
    obtain ⟨hnew, hnodup'⟩ := List.nodup_cons.1 hnodup
    have hids' : ∀ x ∈ ids, ∃ n, tree.get? x = some n ∧ n.parent = parent :=
      fun x hx => hids x (List.mem_cons_of_mem _ hx)
    have hspoken : tree.spokenOf? parent layer = some id := by
      obtain ⟨same, hsame, hparent⟩ := hids id List.mem_cons_self
      rw [hget] at hsame
      cases hsame
      rw [← hparent, hd.spokenOf?_eq hmem hlayer, id_of_get? hget]
    have hchildren : node.children = hanging tree.nodes (some id) := by
      rw [hwf.children_eq node hmem, id_of_get? hget]
    have hbelow : ctx.FitsLevel tree (some id) children := by
      refine ihc ?_ fun x hx => exists_of_mem_hanging hwf.nodup (hchildren ▸ hx)
      rw [hchildren]
      exact hwf.nodup_hanging _
    -- no other layer of the level speaks of this one, as each speaks of its own
    refine MergeContext.fitsLevel_cons.2 ⟨id, node, hspoken, hget, hlayers node hmem layer hlayer,
      hbelow, ihr hnodup' hids', fun other hother he => hnew ?_⟩
    have hin : some id ∈ ids.map some := by
      rw [← hrest.map_spokenOf? hd hids', ← he]
      exact List.mem_map_of_mem hother
    simpa using hin

/-! ## All layers -/

/-- An echo that is taken in has as many volumes for each layer that it speaks of as the layers have,
one after the other. -/
theorem Echoed.volumes_spoken {nodes : List ReportNode} {ids : List LayerId}
    (h : tree.Echoed nodes ids) : ∀ {parent : Option LayerId} {order : List LayerId},
      Walk tree ids order → ctx.FitsLevel tree parent nodes →
      (tree.spoken parent nodes).map (·.2.volumes.length) = order.map tree.volumeCount := by
  induction h with
  | nil =>
    intro parent order hwalk _
    cases hwalk
    rw [spoken]
    rfl
  | @cons layer children rest id node ids hget hlayer _ _ ihc ihr =>
    intro parent order hwalk hfits
    cases hwalk with
    | @node _ same _ below after hsame hbelow hafter =>
      rw [hget] at hsame
      cases hsame
      -- the layer that is spoken of need not be this one, but the report has one entry for it
      obtain ⟨top, -, htop, -, -, hchildren, hrest, -⟩ := MergeContext.fitsLevel_cons.1 hfits
      simp only [spoken, htop, List.map_cons, List.map_append, ihc hbelow hchildren,
        ihr hafter hrest, hlayer.length_volumes, volumeCount_of_get? hget]

theorem exists_spokenOf?_of_mem {parent : Option LayerId} {nodes : List ReportNode}
    {p : LayerId × ReportedLayer} (hp : p ∈ tree.spoken parent nodes) :
    ∃ above, tree.spokenOf? above p.2 = some p.1 := by
  induction parent, nodes using spoken.induct tree with
  | case1 parent => simp [spoken] at hp
  | case2 parent layer children rest hnone ih =>
    rw [spoken, hnone] at hp
    exact ih hp
  | case3 parent layer children rest id hsome ihc ihr =>
    rw [spoken, hsome] at hp
    rcases List.mem_cons.1 hp with rfl | hp
    · exact ⟨parent, hsome⟩
    · exact (List.mem_append.1 hp).elim ihc ihr

/-- An echo that is taken in speaks of all layers, as it has as many layers as there are. -/
theorem Echoed.spoken_perm (hwf : tree.WellFormed) {nodes : List ReportNode}
    (h : tree.Echoed nodes tree.roots) (hfits : ctx.FitsLevel tree none nodes) :
    ((tree.spoken none nodes).map (·.1)).Perm tree.ids := by
  have hlength : ((tree.spoken none nodes).map (·.1)).length = tree.ids.length := by
    have := congrArg List.length (h.volumes_spoken hwf.walk_preOrder hfits)
    rw [List.length_map, List.length_map] at this
    rw [List.length_map, this, hwf.preOrder_perm.length_eq]
  have hsub : (tree.spoken none nodes).map (·.1) ⊆ tree.ids := by
    intro id hid
    obtain ⟨p, hp, rfl⟩ := List.mem_map.1 hid
    obtain ⟨above, habove⟩ := exists_spokenOf?_of_mem hp
    obtain ⟨node, hget, -⟩ := exists_of_spokenOf? hwf.nodup habove
    rw [← id_of_get? hget]
    exact List.mem_map_of_mem (mem_of_get? hget)
  have hnodup := MergeContext.FitsLevel.nodup_spoken hwf hfits
  exact (List.subperm_of_subset hnodup hsub).perm_of_length_le (Nat.le_of_eq hlength.symm)

/-- A layer that a report speaks of is the first one with its kind and suffix. -/
theorem find?_of_spokenOf? (h : tree.ids.Nodup) {above : Option LayerId} {layer : ReportedLayer}
    {node : LayerNode} (hmem : node ∈ tree.nodes)
    (hid : tree.spokenOf? above layer = some node.id) :
    (tree.nodesBelow node.parent).find? (matching node.kind node.suffix) = some node := by
  obtain ⟨kind, -, hid⟩ := Option.bind_eq_some_iff.1 hid
  obtain ⟨suffix, -, hid⟩ := Option.bind_eq_some_iff.1 hid
  obtain ⟨found, hfind, he⟩ := Option.map_eq_some_iff.1 hid
  obtain ⟨hfound, hparent⟩ := List.mem_filter.1 (List.mem_of_find?_eq_some hfind)
  obtain ⟨hkind, hsuffix⟩ := matching_iff.1 (List.find?_some hfind)
  have hsame : found = node := List.inj_on_of_nodup_map h hfound hmem he
  subst hsame
  rw [of_decide_eq_true hparent, hkind, hsuffix, hfind]

/-- Where an echo is taken in, siblings differ. -/
theorem Echoed.distinguishable (hwf : tree.WellFormed) {nodes : List ReportNode}
    (h : tree.Echoed nodes tree.roots) (hfits : ctx.FitsLevel tree none nodes) :
    tree.Distinguishable := by
  -- a layer behind another one of its kind and suffix would never be spoken of
  have hfirst : ∀ node ∈ tree.nodes,
      (tree.nodesBelow node.parent).find? (matching node.kind node.suffix) = some node := by
    intro node hmem
    have hid : node.id ∈ (tree.spoken none nodes).map (·.1) :=
      (h.spoken_perm hwf hfits).mem_iff.2 (List.mem_map_of_mem hmem)
    obtain ⟨p, hp, he⟩ := List.mem_map.1 hid
    obtain ⟨above, habove⟩ := exists_spokenOf?_of_mem hp
    exact find?_of_spokenOf? hwf.nodup hmem (he ▸ habove)
  intro a ha b hb hparent hkind hsuffix
  have hsame := hfirst a ha
  rw [hparent, hkind, hsuffix, hfirst b hb] at hsame
  rw [Option.some.inj hsame]

theorem sum_volumeCount (h : tree.ids.Nodup) : (tree.ids.map tree.volumeCount).sum = tree.leafCount := by
  rw [ids, List.map_map, leafCount]
  congr 1
  exact List.map_congr_left fun node hmem => volumeCount_of_get? (get?_of_mem h hmem)

end LayerTree

namespace Resource

variable {doc : Document} {graph : Graph} {resource : Resource}

theorem exists_echo (h : resource.tree.WellFormed) : ∃ report : Report, report.Echoes resource := by
  obtain ⟨nodes, hnodes⟩ := h.walk_preOrder.exists_echoed
  exact ⟨{
    node := some resource.key.node
    resource := some resource.key.resource
    snapshot := resource.key.snapshot
    roots := nodes }, rfl, rfl, rfl, hnodes⟩

/-- An echo that is accepted has each volume of the resource merged. -/
theorem echo_counts (h : resource.tree.WellFormed) {call : MergeCall}
    (hecho : call.report.Echoes resource) {merged : Merged} (hok : resource.take call = .ok merged) :
    merged.summary.merged = resource.tree.leafCount ∧ merged.summary.tolerated = 0 := by
  obtain ⟨hfits, -⟩ := (take_eq_ok_iff h).1 ⟨merged, hok, rfl⟩
  obtain ⟨hmerged, htotal⟩ := take_counts h hok
  have hall := hecho.roots.spoken_perm h hfits.layers
  have hvolumes := hecho.roots.volumes_spoken h.walk_preOrder hfits.layers
  have hreported : volumesReported (resource.tree.spoken none call.report.roots) =
      resource.tree.leafCount := by
    rw [volumesReported, hvolumes, ← LayerTree.sum_volumeCount h.nodup]
    exact (h.preOrder_perm.map _).sum_nat
  have hspoken : resource.tree.volumesSpoken (resource.tree.spoken none call.report.roots) =
      resource.tree.leafCount := by
    have := (hall.map resource.tree.volumeCount).sum_nat
    rwa [List.map_map, LayerTree.sum_volumeCount h.nodup] at this
  omega

/-- A loaded resource has an echo, and it accepts its echoes exactly if its siblings differ, whatever
the backend has; then each of its volumes is merged. Nothing else in an echo can be at fault. -/
theorem echo_accepted_iff (hok : Graph.ofDocument doc = .ok graph)
    (hmem : resource ∈ graph.resources.values) :
    (∃ report : Report, report.Echoes resource) ∧
    ∀ report : Report, report.Echoes resource → ∀ (facts : FactsMap) (tolerance : UInt64),
      ((∃ merged, resource.take { report, facts, pools := graph.pools, tolerance } = .ok merged) ↔
        resource.tree.Distinguishable) ∧
      ∀ merged, resource.take { report, facts, pools := graph.pools, tolerance } = .ok merged →
        merged.summary.merged = resource.tree.leafCount ∧ merged.summary.tolerated = 0 := by
  have hwf := wellFormed_of_loaded hok hmem
  obtain ⟨hdoc, hloaded⟩ := Graph.loaded_ofDocument hok
  obtain ⟨key, hget⟩ := SortedMap.mem_values_iff.1 hmem
  refine ⟨exists_echo hwf, fun report hecho facts tolerance => ⟨⟨?_, fun hd => ?_⟩, ?_⟩⟩
  · rintro ⟨merged, htake⟩
    obtain ⟨hfits, -⟩ := (take_eq_ok_iff hwf).1 ⟨merged, htake, rfl⟩
    exact hecho.roots.distinguishable hwf hfits.layers
  · have hlevel := hecho.roots.fitsLevel hd hwf
      (fun node hnode layer he =>
        he.fitsLayer (settled_of_loaded hdoc hloaded hget node hnode) facts tolerance)
      (hwf.roots_eq ▸ hwf.nodup_hanging none)
      (fun id hid => LayerTree.exists_of_mem_hanging hwf.nodup (hwf.roots_eq ▸ hid))
    have hfits : resource.Fits { report, facts, pools := graph.pools, tolerance } :=
      ⟨hecho.onNode, hecho.named, hecho.snapshot, hlevel⟩
    obtain ⟨merged, htake, -⟩ := (take_eq_ok_iff hwf).2 ⟨hfits, rfl⟩
    exact ⟨merged, htake⟩
  · intro merged htake
    exact echo_counts hwf hecho htake

/-- The report of both layers of a volume is an echo of them, and both volumes are merged. -/
theorem echo_accepted_iff_pair :
    Graph.ofDocument pairDocument = .ok pairGraph ∧ pair ∈ pairGraph.resources.values ∧
    pairCall.report.Echoes pair ∧ pair.tree.Distinguishable ∧
    ∃ merged, pair.take pairCall = .ok merged ∧
      merged.summary.merged = 2 ∧ merged.summary.tolerated = 0 := by
  have hd : pair.tree.Distinguishable := by decide
  have hlower : pair.tree.get? 3 = some {
      id := 3, parent := some 7, suffix := "", payload := .storage
      volumes := .ofList [(0, {
        number := 0, expectedSizeKib := 8, facts := {}
        data := .storage {
          provider := .lvm, pool := "p", attributes := .lvm none none, present := false
          sizeState := none } })] } := by decide
  have hupper : pair.tree.get? 7 = some {
      id := 7, children := [3], suffix := "", payload := .encryption
      volumes := .ofList [(0, {
        number := 0, expectedSizeKib := 8, facts := {}, data := .encryption none false })] } := by
    decide
  have hecho : pairCall.report.Echoes pair := by
    refine ⟨rfl, rfl, rfl, ?_⟩
    rw [show pair.tree.roots = [7] by decide]
    refine .cons hupper ⟨rfl, rfl, rfl, _, .refl _, ?_⟩ (.cons hlower ⟨rfl, rfl, rfl, _, .refl _, ?_⟩
      .nil .nil) .nil
    · exact .cons ⟨rfl, fun volume hdata => by cases hdata⟩ .nil
    · exact .cons ⟨rfl, fun volume hdata => by cases hdata; rfl⟩ .nil
  obtain ⟨hiff, hcounts⟩ := (echo_accepted_iff ofDocument_pair pair_mem).2 _ hecho pairCall.facts 2
  obtain ⟨merged, htake⟩ := hiff.2 hd
  obtain ⟨hmerged, htolerated⟩ := hcounts merged htake
  refine ⟨ofDocument_pair, pair_mem, hecho, hd, merged, htake, hmerged.trans ?_, htolerated⟩
  decide

/-- Two layers of one kind at the top, with one suffix. -/
def twinDocument : Document where
  catalog := {
    definitions := [{ name := "d" }]
    resources := [{ key := pairKey, definition := "d" }] }
  layers := [
    { id := 1, kind := "ENCRYPTION", owner := pairKey },
    { id := 2, kind := "ENCRYPTION", owner := pairKey }]
  volumes := [
    { layer := 1, number := 0, expectedSizeKib := 8, payload := .encryption none false },
    { layer := 2, number := 0, expectedSizeKib := 8, payload := .encryption none false }]

def twinGraph : Graph := (Graph.ofDocument twinDocument).toOption.getD {}

def twin : Resource :=
  (twinGraph.resources.get? pairKey).getD { key := pairKey, definition := { name := "" } }

def twinNode (id : LayerId) : LayerNode where
  id := id
  suffix := ""
  payload := .encryption
  volumes := .ofList [(0, {
    number := 0, expectedSizeKib := 8, facts := {}, data := .encryption none false })]

def twinReport : Report where
  node := some "n"
  resource := some "r"
  roots := [
    .mk { kind := some "ENCRYPTION", suffix := some "", volumes := [{ number := some 0 }] } [],
    .mk { kind := some "ENCRYPTION", suffix := some "", volumes := [{ number := some 0 }] } []]

/-- They are loaded, but their echo is refused: both reported layers speak of the first one. -/
theorem echo_refused_twins :
    Graph.ofDocument twinDocument = .ok twinGraph ∧ twin ∈ twinGraph.resources.values ∧
    twinReport.Echoes twin ∧
    ¬ ∃ merged, twin.take {
      report := twinReport, facts := .empty, pools := twinGraph.pools, tolerance := 3 } = .ok merged := by
  have hfirst : twin.tree.get? 1 = some (twinNode 1) := by decide
  have hsecond : twin.tree.get? 2 = some (twinNode 2) := by decide
  have hecho : twinReport.Echoes twin := by
    refine ⟨rfl, rfl, rfl, ?_⟩
    rw [show twin.tree.roots = [1, 2] by decide]
    refine .cons hfirst ⟨rfl, rfl, rfl, _, .refl _, ?_⟩ .nil
      (.cons hsecond ⟨rfl, rfl, rfl, _, .refl _, ?_⟩ .nil .nil)
    · exact .cons ⟨rfl, fun volume hdata => by cases hdata⟩ .nil
    · exact .cons ⟨rfl, fun volume hdata => by cases hdata⟩ .nil
  refine ⟨by decide, by decide, hecho, ?_⟩
  rintro ⟨merged, htake⟩
  have hrefused : (twin.take {
      report := twinReport, facts := .empty, pools := twinGraph.pools
      tolerance := 3 }).toOption.isSome = false := by cbv
  rw [htake] at hrefused
  cases hrefused

end Resource
end BlockStack
