import BlockStack.Proofs.Ancestors
import BlockStack.Proofs.Passes

/-!
# BlockStack.Proofs.Loading

What a load accepts, and what it makes of a document.

* `Graph.Loaded`: a graph is what the rows of a document stand for, siblings in document order.
* `Graph.ofDocument_ok_iff`: a document is loaded exactly if its rows are consistent, and otherwise
  refused with a load fault.
* `Graph.loaded_ofDocument`: what the graph of a document holds.
-/

namespace BlockStack

/-! ## Checks outside of the passes -/

theorem firstRepeated_eq_none_iff {rows : List LayerRow} : ∀ {seen : List UInt64},
    firstRepeated seen rows = none ↔
      (rows.map (·.id)).Nodup ∧ ∀ row ∈ rows, row.id ∉ seen := by
  induction rows with
  | nil => simp [firstRepeated]
  | cons row rest ih =>
    intro seen
    by_cases hseen : row.id ∈ seen
    · simp [firstRepeated, hseen]
    · simp only [firstRepeated, List.contains_eq_mem, hseen, decide_false, Bool.false_eq_true,
        if_false, ih, List.mem_cons, not_or, List.map_cons, List.nodup_cons, List.mem_map,
        not_exists, not_and, forall_eq_or_imp, not_false_eq_true, true_and]
      constructor
      · rintro ⟨hn, hall⟩
        exact ⟨⟨fun r hr => (hall r hr).1, hn⟩, fun r hr => (hall r hr).2⟩
      · rintro ⟨⟨hne, hn⟩, hall⟩
        exact ⟨hn, fun r hr => ⟨hne r hr, hall r hr⟩⟩

theorem strayVolume_eq_none_iff {layers : List LayerRow} {volumes : List VolumeRow} :
    strayVolume layers volumes = none ↔
      ∀ volume ∈ volumes, ∃ row ∈ layers, row.id = volume.layer := by
  simp [strayVolume, List.min?_eq_none_iff, List.filter_eq_nil_iff]

/-! ## Consistency, row by row -/

theorem nodup_pairs_iff {α : Type} (f : α → UInt64) (g : α → UInt32) {l : List α} :
    (l.map (fun a => (f a, g a))).Nodup ↔
      ∀ k, ((l.filter (fun a => f a = k)).map g).Nodup := by
  induction l with
  | nil => simp
  | cons a rest ih =>
    rw [List.map_cons, List.nodup_cons, ih]
    constructor
    · rintro ⟨hnot, hrest⟩ k
      by_cases hk : f a = k
      · subst hk
        rw [List.filter_cons_of_pos (by simp), List.map_cons, List.nodup_cons]
        refine ⟨fun hm => hnot ?_, hrest _⟩
        obtain ⟨b, hb, he⟩ := List.mem_map.1 hm
        obtain ⟨hb, hf⟩ := List.mem_filter.1 hb
        exact List.mem_map.2 ⟨b, hb, Prod.ext (of_decide_eq_true hf) he⟩
      · rw [List.filter_cons_of_neg (by simpa using hk)]
        exact hrest k
    · intro hall
      refine ⟨fun hm => ?_, fun k => (hall k).sublist (List.Sublist.map _ ?_)⟩
      · obtain ⟨b, hb, he⟩ := List.mem_map.1 hm
        obtain ⟨hf, hg⟩ := Prod.mk.inj he
        have := hall (f a)
        rw [List.filter_cons_of_pos (by simp), List.map_cons, List.nodup_cons] at this
        exact this.1 (hg ▸ List.mem_map_of_mem (List.mem_filter.2 ⟨hb, by simpa using hf⟩))
      · exact (List.sublist_cons_self _ _).filter _

open BlockStack.Graph (volumesOf Placed)

theorem mem_volumesOf {volumes : List VolumeRow} {id : UInt64} {volume : VolumeRow} :
    volume ∈ volumesOf volumes id ↔ volume ∈ volumes ∧ volume.layer = id := by
  simp [volumesOf]

/-- A document is consistent if its catalog is and each row fits with its volume rows. -/
theorem Document.consistent_iff {doc : Document} :
    doc.Consistent ↔ doc.catalog.Defined ∧ (doc.layers.map (·.id)).Nodup ∧
      (∀ row ∈ doc.layers, Rooted doc.layers row ∧ Placed doc row) ∧
      ∀ volume ∈ doc.volumes, ∃ row ∈ doc.layers, row.id = volume.layer := by
  constructor
  · intro h
    have hnum := (nodup_pairs_iff VolumeRow.layer VolumeRow.number).1 h.numbered
    refine ⟨h.defined, h.distinct, fun row hrow => ⟨h.rooted row hrow, h.layers row hrow, ?_,
      hnum row.id⟩, fun volume hv => ?_⟩
    · intro volume hv
      obtain ⟨hv, hlayer⟩ := mem_volumesOf.1 hv
      obtain ⟨other, hother, hid, hfit⟩ := h.volumes volume hv
      rwa [List.inj_on_of_nodup_map h.distinct hother hrow (hid.trans hlayer)] at hfit
    · obtain ⟨row, hrow, hid, -⟩ := h.volumes volume hv
      exact ⟨row, hrow, hid⟩
  · rintro ⟨hdef, hdistinct, hrows, hvols⟩
    refine ⟨hdef, hdistinct, fun row hrow => (hrows row hrow).1,
      fun row hrow => (hrows row hrow).2.fits, fun volume hv => ?_,
      (nodup_pairs_iff VolumeRow.layer VolumeRow.number).2 fun k => ?_⟩
    · obtain ⟨row, hrow, hid⟩ := hvols volume hv
      exact ⟨row, hrow, hid, (hrows row hrow).2.volumes volume (mem_volumesOf.2 ⟨hv, hid.symm⟩)⟩
    · by_cases hk : ∃ row ∈ doc.layers, row.id = k
      · obtain ⟨row, hrow, rfl⟩ := hk
        exact (hrows row hrow).2.numbered
      · have : doc.volumes.filter (fun volume => volume.layer = k) = [] := by
          refine List.filter_eq_nil_iff.2 fun volume hv hlayer => hk ?_
          obtain ⟨row, hrow, hid⟩ := hvols volume hv
          exact ⟨row, hrow, hid.trans (of_decide_eq_true hlayer)⟩
        simp [this]

namespace Graph

/-- A graph is what the rows of a document stand for: `done` are the rows in the order in which they
were attached, siblings in the order of the document. -/
structure Loaded (doc : Document) (graph : Graph) : Prop where
  pools : ∀ key, graph.pools.get? key = doc.catalog.pool? key
  absent : ∀ key, doc.catalog.definitionOf? key = none → graph.resources.get? key = none
  present : ∃ done : List LayerRow, done.Perm doc.layers ∧
    (∀ parent, withParent parent done = withParent parent doc.layers) ∧
    ∀ key definition, doc.catalog.definitionOf? key = some definition → ∃ tree,
      graph.resources.get? key = some (Resource.refresh { key, definition, tree }) ∧
      tree.Grown doc.volumes (ownedBy key done)

variable {doc : Document} {graph : Graph}

/-- A resource of a graph has grown from its rows in the document. -/
theorem Loaded.exists_grown (h : Loaded doc graph) {key : ResourceKey} {resource : Resource}
    (hget : graph.resources.get? key = some resource) :
    ∃ definition tree rows, doc.catalog.definitionOf? key = some definition ∧
      resource = Resource.refresh { key, definition, tree } ∧
      rows.Perm (ownedBy key doc.layers) ∧ tree.Grown doc.volumes rows := by
  cases hdef : doc.catalog.definitionOf? key with
  | none =>
    rw [h.absent key hdef] at hget
    cases hget
  | some definition =>
    obtain ⟨done, hperm, -, hpresent⟩ := h.present
    obtain ⟨tree, hget', hgrown⟩ := hpresent key definition hdef
    rw [hget'] at hget
    cases hget
    exact ⟨definition, tree, _, rfl, rfl, hperm.filter _, hgrown⟩

theorem Bare.progress (h : Bare doc.catalog graph) (hdistinct : (doc.layers.map (·.id)).Nodup) :
    Progress doc [] graph none doc.layers where
  distinct := hdistinct
  split := .refl _
  groups _ := .inr ⟨rfl, rfl⟩
  rooted := by simp
  placed := by simp
  start _ := rfl
  recent := by simp
  holds := h.holds

/-- A row whose chain of parents ends is not left over. -/
theorem Progress.not_leftover {done leftover : List LayerRow} {previous : Option (List UInt64)}
    (h : Progress doc done graph previous leftover)
    (hwaits : ∀ row ∈ leftover, ∃ p, row.parent = some p ∧ p ∉ done.map (·.id)) {row : LayerRow}
    (hrow : Rooted doc.layers row) : row ∉ leftover := by
  have split : ∀ row ∈ doc.layers, row ∈ done ∨ row ∈ leftover :=
    fun row hrow => List.mem_append.1 (h.split.mem_iff.2 hrow)
  induction hrow with
  | top _ hp =>
    intro hm
    obtain ⟨p, hp', -⟩ := hwaits _ hm
    rw [hp] at hp'
    cases hp'
  | @under row above _ hp habove ih =>
    intro hm
    obtain ⟨p, hp', hfree⟩ := hwaits _ hm
    rw [hp] at hp'
    cases hp'
    exact (split above habove.mem).elim (fun hd => hfree (List.mem_map_of_mem hd)) ih

theorem Progress.loaded {done : List LayerRow} {previous : Option (List UInt64)}
    (h : Progress doc done graph previous []) :
    Loaded doc { graph with resources := graph.resources.mapValues (fun _ r => r.refresh) } where
  pools := h.holds.pools
  absent key hnone := by simp [h.holds.absent key hnone]
  present := by
    refine ⟨done, by simpa using h.split, fun parent => ?_, fun key definition hsome => ?_⟩
    · rcases h.groups parent with ⟨-, hdone⟩ | ⟨hdone, hpend⟩
      · exact hdone
      · rw [hdone, ← hpend]
        rfl
    · obtain ⟨tree, hget, hgrown⟩ := h.holds.present key definition hsome
      exact ⟨tree, by simp [hget], hgrown⟩

/-- What a load without a fault went through. -/
theorem load_inv (hok : load doc = .ok graph) : ∃ bare final,
    doc.catalog.Defined ∧ Bare doc.catalog bare ∧ (doc.layers.map (·.id)).Nodup ∧
    runPasses doc.volumes (doc.layers.length + 1) bare none doc.layers = .ok (final, []) ∧
    strayVolume doc.layers doc.volumes = none ∧
    graph = { final with resources := final.resources.mapValues (fun _ r => r.refresh) } := by
  unfold load at hok
  split at hok
  · cases hok
  rename_i bare hbare
  have hdef : doc.catalog.Defined := by
    by_contra h
    obtain ⟨key, name, he⟩ := ofCatalog_error h
    rw [hbare] at he
    cases he
  obtain ⟨bare', hbare', hb⟩ := ofCatalog_ok hdef
  rw [hbare] at hbare'
  cases hbare'
  split at hok
  · cases hok
  rename_i hrepeated
  split at hok
  · cases hok
  rename_i final leftover hrun
  split at hok
  · rename_i hempty
    cases List.isEmpty_iff.1 hempty
    split at hok
    · cases hok
    rename_i hstray
    cases hok
    exact ⟨bare, final, hdef, hb, (firstRepeated_eq_none_iff.1 hrepeated).1, hrun, hstray, rfl⟩
  · cases hok

/-- Without a fault the rows are consistent, and the graph is what they stand for. -/
theorem load_sound (hok : load doc = .ok graph) : doc.Consistent ∧ Loaded doc graph := by
  obtain ⟨bare, final, hdef, hb, hdistinct, hrun, hstray, rfl⟩ := load_inv hok
  obtain ⟨done, previous, hp, -⟩ :=
    runPasses_sound hdef (hb.progress hdistinct) (Nat.lt_succ_self _) hrun
  refine ⟨Document.consistent_iff.2 ⟨hdef, hdistinct, fun row hrow => ?_,
    strayVolume_eq_none_iff.1 hstray⟩, hp.loaded⟩
  have hdone : row ∈ done := by simpa using hp.split.mem_iff.2 hrow
  exact ⟨hp.rooted row hdone, hp.placed row hdone⟩

/-- Consistent rows are loaded. -/
theorem load_complete (h : doc.Consistent) : ∃ graph, load doc = .ok graph := by
  obtain ⟨hdef, hdistinct, hrows, hvols⟩ := Document.consistent_iff.1 h
  obtain ⟨bare, hbare, hb⟩ := ofCatalog_ok hdef
  have hp := hb.progress hdistinct
  obtain ⟨⟨final, leftover⟩, hrun⟩ :=
    runPasses_complete hdef (fun row hrow => (hrows row hrow.mem).2) (doc.layers.length + 1) hp
  obtain ⟨done, previous, hlast, hwaits⟩ := runPasses_sound hdef hp (Nat.lt_succ_self _) hrun
  have hempty : leftover = [] := by
    refine List.eq_nil_iff_forall_not_mem.2 fun row hrow => ?_
    have hmem := hlast.split.mem_iff.1 (List.mem_append_right _ hrow)
    exact hlast.not_leftover hwaits (hrows row hmem).1 hrow
  subst hempty
  have hfirst : firstRepeated [] doc.layers = none :=
    firstRepeated_eq_none_iff.2 ⟨hdistinct, by simp⟩
  refine ⟨{ final with resources := final.resources.mapValues (fun _ r => r.refresh) }, ?_⟩
  simp only [load, hbare, hfirst, hrun, List.isEmpty_nil, if_true,
    strayVolume_eq_none_iff.2 hvols]

theorem load_fault {failure : LoadFailure} (h : load doc = .error failure) :
    failure.fault.isLoadFault = true := by
  unfold load at h
  split at h
  · rename_i fault hcat
    cases h
    by_cases hdef : doc.catalog.Defined
    · obtain ⟨bare, hbare, -⟩ := ofCatalog_ok hdef
      rw [hcat] at hbare
      cases hbare
    · obtain ⟨key, name, he⟩ := ofCatalog_error hdef
      rw [hcat] at he
      cases he
      rfl
  rename_i bare hbare
  have hdef : doc.catalog.Defined := by
    by_contra hnot
    obtain ⟨key, name, he⟩ := ofCatalog_error hnot
    rw [hbare] at he
    cases he
  obtain ⟨bare', hbare', hb⟩ := ofCatalog_ok hdef
  rw [hbare] at hbare'
  cases hbare'
  split at h
  · cases h
    rfl
  rename_i hrepeated
  have hp := hb.progress (firstRepeated_eq_none_iff.1 hrepeated).1
  split at h
  · rename_i hrun
    cases h
    exact runPasses_fault hrun
  rename_i final leftover hrun
  split at h
  · split at h <;> cases h
    rfl
  · rename_i hne
    cases h
    obtain ⟨done, previous, hlast, hwaits⟩ := runPasses_sound hdef hp (Nat.lt_succ_self _) hrun
    refine leftoverFault_isLoadFault hlast.nodup_pending (by simpa using hne) fun row hrow => ?_
    obtain ⟨p, hparent, -⟩ := hwaits row hrow
    simp [hparent]

theorem ofDocument_eq_ok_iff : ofDocument doc = .ok graph ↔ load doc = .ok graph := by
  unfold ofDocument
  split <;> simp_all

/-- What the graph of a document holds. -/
theorem loaded_ofDocument (hok : ofDocument doc = .ok graph) : doc.Consistent ∧ Loaded doc graph :=
  load_sound (ofDocument_eq_ok_iff.1 hok)

/-- A document is loaded exactly if its rows are consistent; otherwise it is refused for its rows,
never for a mistake of the load itself. -/
theorem ofDocument_ok_iff (doc : Document) :
    ((∃ graph, ofDocument doc = .ok graph) ↔ doc.Consistent) ∧
      ∀ fault, ofDocument doc = .error fault → fault.isLoadFault = true := by
  refine ⟨⟨fun ⟨graph, hok⟩ => (loaded_ofDocument hok).1, fun h => ?_⟩, fun fault herr => ?_⟩
  · obtain ⟨graph, hok⟩ := load_complete h
    exact ⟨graph, ofDocument_eq_ok_iff.2 hok⟩
  · cases hload : load doc with
    | ok graph => simp [ofDocument, hload] at herr
    | error failure =>
      have := load_fault hload
      simp only [ofDocument, hload, Except.error.injEq] at herr
      rwa [herr] at this

end Graph
end BlockStack
