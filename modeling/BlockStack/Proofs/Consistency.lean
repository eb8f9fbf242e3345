import BlockStack.Load

/-!
# BlockStack.Proofs.Consistency

When the rows of a document fit together, said without the order in which a load looks at them.

* `Catalog.definitionOf?`, `Catalog.pool?`: what a catalog says; of several entries with one name
  the last one counts.
* `Rooted`: the chain of parents of a row ends at a row without a parent.
* `LayerRow.Fits`, `VolumeRow.Fits`: what one row needs of the others.
* `Document.Consistent`: all rows together.
* `Graph.ofCatalog_ok`, `Graph.ofCatalog_error`: the graph without layers holds what the catalog
  says, unless a resource lacks its definition.
-/

namespace BlockStack

namespace Catalog

/-- The definition with a name; of several the last one counts. -/
def definition? (catalog : Catalog) (name : String) : Option ResourceDefinition :=
  (catalog.definitions.filter (fun d => d.name = name)).getLast?

/-- The definition of a resource; of several rows with its key the last one counts. -/
def definitionOf? (catalog : Catalog) (key : ResourceKey) : Option ResourceDefinition :=
  ((catalog.resources.filter (fun r => r.key = key)).getLast?).bind
    (fun r => catalog.definition? r.definition)

/-- The pool with a key; of several the last one counts. -/
def pool? (catalog : Catalog) (key : PoolKey) : Option StoragePool :=
  (catalog.pools.filter (fun p => p.key = key)).getLast?

/-- Every resource row names a definition. -/
def Defined (catalog : Catalog) : Prop :=
  ∀ entry ∈ catalog.resources, ∃ d ∈ catalog.definitions, d.name = entry.definition

end Catalog

/-- The chain of parents of a row ends at a row without a parent, all among some rows. -/
inductive Rooted (rows : List LayerRow) : LayerRow → Prop where
  | top {row : LayerRow} : row ∈ rows → row.parent = none → Rooted rows row
  | under {row above : LayerRow} : row ∈ rows → row.parent = some above.id → Rooted rows above →
      Rooted rows row

theorem Rooted.mem {rows : List LayerRow} {row : LayerRow} (h : Rooted rows row) : row ∈ rows := by
  cases h <;> assumption

/-- The replication settings of the resource of a row for the suffix of the row. -/
def Document.settingsOf? (doc : Document) (row : LayerRow) : Option ReplicationDefinition :=
  (doc.catalog.definitionOf? row.owner).bind (fun d => d.replication.get? row.suffix)

/-- A layer row of a kind fits its catalog and its parent. -/
structure LayerRow.Fits (doc : Document) (row : LayerRow) (kind : LayerKind) : Prop where
  named : row.kind = kind.name
  owned : ∃ entry ∈ doc.catalog.resources, entry.key = row.owner
  sameOwner : ∀ above ∈ doc.layers, row.parent = some above.id → above.owner = row.owner
  extendsSuffix : kind ≠ .replication → ∀ above ∈ doc.layers, row.parent = some above.id →
    above.suffix.toList <+: row.suffix.toList
  replicated : kind = .replication → row.replication.isSome ∧ (doc.settingsOf? row).isSome

/-- A volume row fits the row of its layer. -/
def VolumeRow.Fits (doc : Document) (row : LayerRow) (volume : VolumeRow) : Prop :=
  match volume.payload with
  | .replication _ => row.kind = LayerKind.replication.name ∧
      ∃ settings, doc.settingsOf? row = some settings ∧ volume.number ∈ settings.volumes.keys
  | .encryption _ _ => row.kind = LayerKind.encryption.name
  | .remoteAttach => row.kind = LayerKind.remoteAttach.name
  | .storage provider pool _ _ => row.kind = LayerKind.storage.name ∧
      ∃ kind found, kind.name = provider ∧ doc.catalog.pool? ⟨row.owner.node, pool⟩ = some found ∧
        found.provider = kind

/-- All rows of a document fit together. -/
structure Document.Consistent (doc : Document) : Prop where
  defined : doc.catalog.Defined
  distinct : (doc.layers.map (·.id)).Nodup
  rooted : ∀ row ∈ doc.layers, Rooted doc.layers row
  layers : ∀ row ∈ doc.layers, ∃ kind, row.Fits doc kind
  volumes : ∀ volume ∈ doc.volumes, ∃ row ∈ doc.layers, row.id = volume.layer ∧ volume.Fits doc row
  numbered : (doc.volumes.map (fun volume => (volume.layer, volume.number))).Nodup

/-! ## Catalogs -/

namespace Catalog

theorem definition?_isSome_iff {catalog : Catalog} {name : String} :
    (catalog.definition? name).isSome ↔ ∃ d ∈ catalog.definitions, d.name = name := by
  simp [definition?]

theorem definitionOf?_isSome_iff {catalog : Catalog} (h : catalog.Defined) {key : ResourceKey} :
    (catalog.definitionOf? key).isSome ↔ ∃ entry ∈ catalog.resources, entry.key = key := by
  rw [definitionOf?, Option.isSome_bind]
  cases hlast : (catalog.resources.filter (fun r => r.key = key)).getLast? with
  | none =>
    rw [List.getLast?_eq_none_iff, List.filter_eq_nil_iff] at hlast
    simpa using hlast
  | some entry =>
    have hmem := List.mem_of_getLast? hlast
    rw [List.mem_filter, decide_eq_true_eq] at hmem
    simp only [Option.any_some, definition?_isSome_iff]
    exact ⟨fun _ => ⟨entry, hmem⟩, fun _ => h entry hmem.1⟩

theorem get?_definitions (catalog : Catalog) (name : String) :
    (SortedMap.ofList (catalog.definitions.map (fun d => (d.name, d)))).get? name =
      catalog.definition? name := by
  rw [SortedMap.get?_ofList, List.filter_map, List.getLast?_map, Option.map_map]
  exact Option.map_id'

theorem get?_pools (catalog : Catalog) (key : PoolKey) :
    (SortedMap.ofList (catalog.pools.map (fun p => (p.key, p)))).get? key = catalog.pool? key := by
  rw [SortedMap.get?_ofList, List.filter_map, List.getLast?_map, Option.map_map]
  exact Option.map_id'

end Catalog

namespace Graph

theorem addResources_ok {rows : List ResourceRow} : ∀ {graph : Graph},
    (∀ row ∈ rows, (graph.definitions.get? row.definition).isSome) →
    ∃ resources, graph.addResources rows = .ok { graph with resources } ∧
      ∀ key, resources.get? key =
        (((rows.filter (fun r => r.key = key)).getLast?).bind (fun r =>
          (graph.definitions.get? r.definition).map (fun d => { key, definition := d }))).or
          (graph.resources.get? key) := by
  induction rows with
  | nil => exact fun _ => ⟨_, rfl, fun key => rfl⟩
  | cons row rest ih =>
    intro graph h
    obtain ⟨d, hd⟩ := Option.isSome_iff_exists.1 (h row List.mem_cons_self)
    obtain ⟨resources, hok, hget⟩ := @ih
      { graph with resources := graph.resources.insert row.key { key := row.key, definition := d } }
      (fun r hr => h r (List.mem_cons_of_mem _ hr))
    refine ⟨resources, by simpa [addResources, hd] using hok, fun key => ?_⟩
    rw [hget, SortedMap.get?_insert]
    by_cases hk : key = row.key
    · subst hk
      cases hlast : (rest.filter (fun r => r.key = row.key)).getLast? with
      | none => simp [List.getLast?_cons, hlast, hd]
      | some r =>
        have hmem := (List.mem_filter.1 (List.mem_of_getLast? hlast)).1
        obtain ⟨d', hd'⟩ := Option.isSome_iff_exists.1 (h r (List.mem_cons_of_mem _ hmem))
        simp [List.getLast?_cons, hlast, hd']
    · have hk' : ¬ row.key = key := fun e => hk e.symm
      simp [hk, hk']

theorem addResources_error {rows : List ResourceRow} : ∀ {graph : Graph},
    ¬ (∀ row ∈ rows, (graph.definitions.get? row.definition).isSome) →
    ∃ key name, graph.addResources rows =
      .error (.inconsistent (.unknownDefinition key name)) := by
  induction rows with
  | nil => simp
  | cons row rest ih =>
    intro graph h
    cases hd : graph.definitions.get? row.definition with
    | none => exact ⟨row.key, row.definition, by simp [addResources, hd]⟩
    | some d =>
      obtain ⟨key, name, he⟩ := @ih
        { graph with resources := graph.resources.insert row.key { key := row.key, definition := d } }
        (by simpa [hd] using h)
      exact ⟨key, name, by simpa [addResources, hd] using he⟩

/-- The graph of a catalog without layers. -/
structure Bare (catalog : Catalog) (graph : Graph) : Prop where
  definitions : ∀ name, graph.definitions.get? name = catalog.definition? name
  pools : ∀ key, graph.pools.get? key = catalog.pool? key
  resources : ∀ key, graph.resources.get? key =
    (catalog.definitionOf? key).map (fun d => { key, definition := d })
  passes : graph.passes = []
  owners : graph.owners = []

theorem ofCatalog_ok {catalog : Catalog} (h : catalog.Defined) :
    ∃ graph, ofCatalog catalog = .ok graph ∧ Bare catalog graph := by
  obtain ⟨resources, hok, hget⟩ := @addResources_ok catalog.resources
    { definitions := .ofList (catalog.definitions.map (fun d => (d.name, d)))
      pools := .ofList (catalog.pools.map (fun p => (p.key, p))) }
    (fun row hrow => by
      rw [catalog.get?_definitions]
      exact Catalog.definition?_isSome_iff.2 (h row hrow))
  refine ⟨_, hok, catalog.get?_definitions, catalog.get?_pools, fun key => ?_, rfl, rfl⟩
  rw [hget]
  simp only [catalog.get?_definitions, Catalog.definitionOf?, Option.map_bind]
  exact Option.or_none

theorem ofCatalog_error {catalog : Catalog} (h : ¬ catalog.Defined) :
    ∃ key name, ofCatalog catalog = .error (.inconsistent (.unknownDefinition key name)) :=
  addResources_error fun hall => h fun row hrow => by
    have := hall row hrow
    rwa [catalog.get?_definitions, Catalog.definition?_isSome_iff] at this

end Graph
end BlockStack
