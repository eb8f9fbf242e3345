import BlockStack.Proofs.Metadata
import BlockStack.Proofs.NormalRows
import BlockStack.Proofs.Replacement

/-!
# BlockStack.Proofs.Reload

Rows that are loaded again give the resources that they were taken from.

* `Resource.Mirrors`: a resource is what the rows of a document stand for. A load makes resources
  that mirror its document (`Graph.Loaded.mirrors`), and only one for each key
  (`Resource.Mirrors.reloaded`).
* `Document.withRows`: a document with other rows; consistent if the rows are the same ones in
  normal form (`Document.Consistent.withRows`).
* `Graph.load_flattened`: a load of all rows of a graph gives the graph.
-/

namespace BlockStack

open BlockStack.Graph (withParent volumesOf Loaded)

/-! ## Resources and documents -/

/-- A resource is what the rows of a document stand for. -/
structure Resource.Mirrors (resource : Resource) (doc : Document) : Prop where
  definition : doc.catalog.definitionOf? resource.key = some resource.definition
  depicts : resource.tree.Depicts doc.volumes (ownedBy resource.key doc.layers)
  metadata : resource.metadata = .ofTree resource.tree

namespace Resource

variable {resource : Resource} {doc : Document}

/-- The resource that a load makes of the rows is the resource without the verdicts on sizes. -/
theorem Mirrors.reloaded (h : resource.Mirrors doc) {graph : Graph} (hgraph : Loaded doc graph) :
    ∃ again, graph.resources.get? resource.key = some again ∧ again.Same resource.unsized := by
  obtain ⟨tree, hget, hdepicts, hunsized⟩ := hgraph.depicts h.definition
  have hsame : tree.Same resource.tree.unsized := by
    have := hdepicts.same h.depicts
    rwa [hunsized] at this
  refine ⟨_, hget, rfl, rfl, hsame, ?_⟩
  show Metadata.ofTree tree = resource.metadata
  rw [h.metadata, ← Metadata.ofTree_unsized resource.tree]
  exact Metadata.ofTree_congr hsame hdepicts.wellFormed.nodup

end Resource

namespace Graph

variable {doc : Document} {graph : Graph}

theorem Loaded.mirrors (h : Loaded doc graph) {key : ResourceKey} {resource : Resource}
    (hget : graph.resources.get? key = some resource) :
    resource.key = key ∧ resource.Mirrors doc := by
  obtain ⟨definition, _, _, hdef, -⟩ := h.exists_grown hget
  obtain ⟨tree, hget', hdepicts, -⟩ := h.depicts hdef
  rw [hget'] at hget
  cases hget
  exact ⟨rfl, hdef, hdepicts, rfl⟩

/-- A load comes to no verdicts on sizes. -/
theorem Loaded.unsized_eq (h : Loaded doc graph) {key : ResourceKey} {resource : Resource}
    (hget : graph.resources.get? key = some resource) : resource.unsized = resource := by
  obtain ⟨definition, tree, rows, -, rfl, -, hgrown⟩ := h.exists_grown hget
  show { key, definition, tree := tree.unsized, metadata := .ofTree tree : Resource } = _
  rw [hgrown.unsized_eq]
  rfl

end Graph

/-! ## A document with its rows in normal form -/

/-- The document with other rows in the place of all its rows. -/
def Document.withRows (doc : Document) (rows : Rows) : Document :=
  { doc with layers := rows.layers, volumes := rows.volumes }

theorem LayerRow.alike_normal (row : LayerRow) : row.Alike row.normal where
  id := rfl
  parent := rfl
  kind := rfl
  suffix := rfl
  owner := rfl
  replication hkind := (if_pos hkind).symm

theorem alikeRows_normal {before after : List LayerRow}
    (h : after.Perm (before.map LayerRow.normal)) : AlikeRows before after where
  left row hrow := by
    obtain ⟨old, hold, rfl⟩ := List.mem_map.1 (h.mem_iff.1 hrow)
    exact ⟨old, hold, old.alike_normal⟩
  right old hold := ⟨old.normal, h.mem_iff.2 (List.mem_map_of_mem hold), old.alike_normal⟩

variable {doc : Document} {rows : Rows}

theorem VolumeRow.Fits.normal {volume : VolumeRow} {row : LayerRow} (h : volume.Fits doc row) :
    volume.normal.Fits (doc.withRows rows) row.normal := by
  obtain ⟨layer, number, size, facts, payload⟩ := volume
  cases payload <;> exact h

/-- Rows that are those of a consistent document in normal form, in any order, are consistent. -/
theorem Document.Consistent.withRows (h : doc.Consistent)
    (hlayers : rows.layers.Perm (doc.layers.map LayerRow.normal))
    (hvolumes : rows.volumes.Perm (doc.volumes.map VolumeRow.normal)) :
    (doc.withRows rows).Consistent := by
  have halike : AlikeRows doc.layers (doc.withRows rows).layers := alikeRows_normal hlayers
  refine ⟨h.defined, ?_, fun row hrow => ?_, fun row hrow => ?_, fun volume hvolume => ?_, ?_⟩
  · have hids : (rows.layers.map (·.id)).Perm (doc.layers.map (·.id)) := by
      have := hlayers.map (·.id)
      rwa [List.map_map] at this
    exact hids.nodup_iff.2 h.distinct
  · obtain ⟨old, hold, ha⟩ := halike.left row hrow
    exact halike.rooted (h.rooted old hold) row hrow ha
  · obtain ⟨old, hold, ha⟩ := halike.left row hrow
    obtain ⟨kind, hfits⟩ := h.layers old hold
    exact ⟨kind, halike.fits rfl ha hfits⟩
  · obtain ⟨old, hold, rfl⟩ := List.mem_map.1 (hvolumes.mem_iff.1 hvolume)
    obtain ⟨row, hrow, hid, hfits⟩ := h.volumes old hold
    exact ⟨row.normal, hlayers.mem_iff.2 (List.mem_map_of_mem hrow), hid, hfits.normal⟩
  · have hpairs : (rows.volumes.map (fun v => (v.layer, v.number))).Perm
        (doc.volumes.map (fun v => (v.layer, v.number))) := by
      have := hvolumes.map (fun v : VolumeRow => (v.layer, v.number))
      rwa [List.map_map] at this
    exact hpairs.nodup_iff.2 h.numbered

/-! ## The rows of all resources -/

namespace Graph

variable {graph : Graph}

theorem key_of_mem_rows {resource : Resource} {row : LayerRow} (h : row ∈ resource.rows.layers) :
    row.owner = resource.key := by
  obtain ⟨node, -, rfl⟩ := List.mem_map.1 h
  rfl

/-- The layer rows of a resource are found again among those of all resources. -/
theorem ownedBy_rowsOf {resources : List Resource} (h : (resources.map (·.key)).Nodup)
    {resource : Resource} (hmem : resource ∈ resources) :
    ownedBy resource.key (rowsOf resources).layers = resource.rows.layers := by
  rw [rowsOf_eq]
  exact filter_flatMap_of_nodup (fun _ _ => key_of_mem_rows) h hmem

/-- So are the volume rows of each of its layers. -/
theorem volumesOf_rowsOf {resources : List Resource}
    (h : ((rowsOf resources).layers.map (·.id)).Nodup) {resource : Resource}
    (hwf : resource.tree.WellFormed) (hmem : resource ∈ resources) {row : LayerRow}
    (hrow : row ∈ resource.rows.layers) :
    volumesOf (rowsOf resources).volumes row.id = volumesOf resource.rows.volumes row.id := by
  rw [rowsOf_eq] at h ⊢
  obtain ⟨node, hnode, rfl⟩ := List.mem_map.1 hrow
  let nodes := resources.flatMap (·.tree.preOrderNodes)
  have hids : (resources.flatMap (·.rows.layers)).map (·.id) = nodes.map (·.id) := by
    rw [List.map_flatMap, List.map_flatMap]
    refine List.flatMap_congr fun r _ => ?_
    rw [Resource.layers_rows, List.map_map]
    rfl
  have hvolumes : resources.flatMap (·.rows.volumes) = nodes.flatMap LayerNode.volumeRows := by
    rw [List.flatMap_assoc]
    rfl
  show volumesOf (resources.flatMap (·.rows.volumes)) node.id = volumesOf resource.rows.volumes node.id
  rw [hvolumes, Resource.volumes_rows, volumesOf_flatMap (Resource.nodup_preOrderNodes hwf) hnode]
  exact volumesOf_flatMap (hids ▸ h) (List.mem_flatMap.2 ⟨resource, hmem, hnode⟩)

/-- A resource is what its rows stand for, also among the rows of all others. -/
theorem Loaded.mirrors_rowsOf (h : Loaded doc graph)
    (hdistinct : ((rowsOf graph.resources.values).layers.map (·.id)).Nodup)
    {key : ResourceKey} {resource : Resource} (hget : graph.resources.get? key = some resource) :
    resource.Mirrors (doc.withRows (rowsOf graph.resources.values)) := by
  obtain ⟨rfl, hmirrors⟩ := h.mirrors hget
  have hmem : resource ∈ graph.resources.values := SortedMap.mem_values_iff.2 ⟨_, hget⟩
  have hkeys : graph.resources.values.map (·.key) = graph.resources.keys := by
    rw [SortedMap.values, SortedMap.keys, List.map_map]
    refine List.map_congr_left fun e he => ?_
    exact (h.mirrors ((SortedMap.mem_entries_iff _).1 he)).1
  have hlayers : ownedBy resource.key (rowsOf graph.resources.values).layers = resource.rows.layers :=
    ownedBy_rowsOf (hkeys ▸ SortedMap.nodup_keys _) hmem
  refine ⟨hmirrors.definition, ?_, hmirrors.metadata⟩
  have hwf := hmirrors.depicts.wellFormed
  refine (Resource.depicts_rows hwf hmirrors.depicts.plain).congr (fun parent => ?_) fun row hrow => ?_
  · exact congrArg (withParent parent) hlayers
  · exact volumesOf_rowsOf hdistinct hwf hmem (hlayers ▸ hrow)

/-- The rows of all resources of a graph load again, with the same catalog, and give the same
resources. -/
theorem load_flattened (hok : ofDocument doc = .ok graph) :
    ∃ again, ofDocument (doc.withRows (rowsOf graph.resources.values)) = .ok again ∧
      again.resources.keys = graph.resources.keys ∧
      ∀ key resource, graph.resources.get? key = some resource →
        ∃ other, again.resources.get? key = some other ∧ other.Same resource := by
  obtain ⟨hdoc, hloaded⟩ := loaded_ofDocument hok
  obtain ⟨hlayers, hvolumes⟩ := hloaded.rowsOf_perm hdoc
  have hconsistent := hdoc.withRows hlayers hvolumes
  obtain ⟨again, hload⟩ := load_complete hconsistent
  obtain ⟨-, hagain⟩ := load_sound hload
  refine ⟨again, ofDocument_eq_ok_iff.2 hload, ?_, fun key resource hget => ?_⟩
  · refine SortedMap.keys_congr fun key => ?_
    rw [hagain.isSome_eq, hloaded.isSome_eq]
    rfl
  · obtain ⟨other, hother, hsame⟩ :=
      (hloaded.mirrors_rowsOf hconsistent.distinct hget).reloaded hagain
    rw [(hloaded.mirrors hget).1] at hother
    rw [hloaded.unsized_eq hget] at hsame
    exact ⟨other, hother, hsame⟩

/-- Rows out of order give the same resources again once they were put in order. -/
theorem load_flattened_untidy :
    ofDocument untidyDocument = .ok untidyGraph ∧
    (rowsOf untidyGraph.resources.values).layers ≠ untidyDocument.layers.map LayerRow.normal ∧
    ∃ again, ofDocument (untidyDocument.withRows (rowsOf untidyGraph.resources.values)) = .ok again ∧
      again.resources.keys = untidyGraph.resources.keys ∧
      ∀ key resource, untidyGraph.resources.get? key = some resource →
        ∃ other, again.resources.get? key = some other ∧ other.Same resource :=
  ⟨ofDocument_untidy, by decide, load_flattened ofDocument_untidy⟩

end Graph
end BlockStack
