import BlockStack.Proofs.Representation

/-!
# BlockStack.Proofs.FactsNeeded

What a backend is asked for before a merge is all that the merge looks up. The names that are asked
for are read off the layers of the resource, with the numbers that the volumes have. The merge makes
up its names as it follows the report, with the numbers that are reported.

* `LayerTree.NamedIn`: the names that a merge may make up are among some names.
* `MergeContext.mergeLevel_withFacts`: nested layers end the same with other facts that agree on these
  names.
* `Resource.mem_identifiers_iff`: the names that are asked for are those of the objects, and
  `Resource.Sound.namedIn`: the merge makes up no other.
* `Service.facts_suffice`: each resource that a service ever holds merges the same with the facts that
  are fetched for it as with all facts of the backend.
-/

namespace BlockStack

/-! ## Names -/

/-- The name of the object behind the volume under a number, if it has one, is among some names. -/
def VolumeLeaf.NamedIn (key : ResourceKey) (suffix : String) (number : UInt32)
    (names : String → Prop) (leaf : VolumeLeaf) : Prop :=
  leaf.hasBackingObject = true → names (volumeIdentifier key suffix number)

/-- The names of the objects behind the volumes of a layer, by the numbers under which these stand,
are among some names. -/
def LayerNode.NamedIn (key : ResourceKey) (names : String → Prop) (node : LayerNode) : Prop :=
  ∀ number leaf, node.volumes.get? number = some leaf →
    leaf.NamedIn key node.suffix number names

/-- The names of the objects behind all volumes are among some names. -/
def LayerTree.NamedIn (key : ResourceKey) (names : String → Prop) (tree : LayerTree) : Prop :=
  ∀ node ∈ tree.nodes, node.NamedIn key names

variable {key : ResourceKey} {names : String → Prop}

theorem VolumeLeaf.hasBackingObject_authored (leaf : VolumeLeaf) :
    leaf.authored.hasBackingObject = leaf.hasBackingObject := by
  cases hdata : leaf.data <;>
    simp [hasBackingObject, storage?, authored, VolumeData.authored, hdata]

theorem VolumeLeaf.NamedIn.congr {suffix : String} {number : UInt32} {a b : VolumeLeaf}
    (ha : a.NamedIn key suffix number names) (h : a.authored = b.authored) :
    b.NamedIn key suffix number names := by
  intro hb
  rw [← hasBackingObject_authored, ← h, hasBackingObject_authored] at hb
  exact ha hb

theorem LayerNode.NamedIn.congr {a b : LayerNode} (ha : a.NamedIn key names)
    (h : a.authored = b.authored) : b.NamedIn key names := by
  intro number leaf hleaf
  obtain ⟨other, hother, hsame⟩ := MergeContext.get?_volumes_authored h.symm hleaf
  exact MergeContext.suffix_eq_of_authored h ▸ (ha number other hother).congr hsame

/-- Which names there are depends on nothing that a report changes. -/
theorem LayerTree.NamedIn.congr {a b : LayerTree} (ha : a.NamedIn key names)
    (h : a.authored = b.authored) : b.NamedIn key names := by
  intro node hnode
  have hnodes : a.nodes.map LayerNode.authored = b.nodes.map LayerNode.authored :=
    congrArg LayerTree.nodes h
  have hmem : node.authored ∈ a.nodes.map LayerNode.authored := hnodes ▸ List.mem_map_of_mem hnode
  obtain ⟨before, hbefore, hsame⟩ := List.mem_map.1 hmem
  exact (ha before hbefore).congr hsame

/-! ## Merges with other facts -/

namespace MergeContext

variable {ctx : MergeContext} {facts : FactsMap}

theorem lookUp_withFacts {identifier : String} {volume : StorageVolume} (expected : UInt64)
    (h : volume.provider.hasBackingObject = true →
      facts.get? identifier = ctx.facts.get? identifier) :
    lookUp { ctx with facts } identifier expected volume = ctx.lookUp identifier expected volume := by
  unfold lookUp
  split
  · rename_i hbacked
    rw [h hbacked]
  · rfl

/-- A volume is observed the same with all facts that agree on the name by which the backend is
asked. -/
theorem observe_withFacts {suffix : String} {number : UInt32} {leaf : VolumeLeaf}
    (h : leaf.NamedIn ctx.key suffix number (fun name => facts.get? name = ctx.facts.get? name))
    (reported : ReportedVolume) :
    observe { ctx with facts } suffix number leaf reported =
      ctx.observe suffix number leaf reported := by
  unfold observe
  cases hdata : leaf.data with
  | replication _ | encryption _ _ | remoteAttach => rfl
  | storage volume =>
    have hagree : volume.provider.hasBackingObject = true →
        facts.get? (volumeIdentifier ctx.key suffix number) =
          ctx.facts.get? (volumeIdentifier ctx.key suffix number) := fun hbacked =>
      h (by simpa [VolumeLeaf.hasBackingObject, VolumeLeaf.storage?, hdata] using hbacked)
    simp only [observeStorage, lookUp_withFacts _ hagree]
    rfl

theorem mergeVolumes_withFacts {node : LayerNode} {reported : List ReportedVolume} :
    ∀ {seen : List UInt32} {volumes : SortedMap UInt32 VolumeLeaf} {summary : MergeSummary},
      (∀ number leaf, volumes.get? number = some leaf → leaf.NamedIn ctx.key node.suffix number
        (fun name => facts.get? name = ctx.facts.get? name)) →
      mergeVolumes { ctx with facts } node seen volumes summary reported =
        ctx.mergeVolumes node seen volumes summary reported := by
  induction reported with
  | nil => exact fun _ => rfl
  | cons first rest ih =>
    intro seen volumes summary h
    simp only [mergeVolumes]
    cases require "volume_number" first.number with
    | error fault => rfl
    | ok number =>
      dsimp only
      cases hleaf : volumes.get? number with
      | none => rfl
      | some leaf =>
        dsimp only
        rw [observe_withFacts (h number leaf hleaf)]
        cases hobserve : ctx.observe node.suffix number leaf first with
        | error fault => rfl
        | ok result =>
          obtain ⟨next, drift⟩ := result
          obtain ⟨-, rfl⟩ := observe_eq_ok_iff.1 ⟨drift, hobserve⟩
          -- the volume that was observed still has its name
          have hnext : ∀ other after,
              (volumes.modify number fun _ => ctx.observed node.suffix number leaf first).get? other =
                some after →
              after.NamedIn ctx.key node.suffix other
                (fun name => facts.get? name = ctx.facts.get? name) := by
            intro other after hafter
            by_cases hsame : other = number
            · subst hsame
              rw [SortedMap.get?_modify_self, hleaf] at hafter
              obtain rfl := Option.some.inj hafter
              exact (h other leaf hleaf).congr (observed_authored ..).symm
            · rw [SortedMap.get?_modify_of_ne _ _ hsame] at hafter
              exact h other after hafter
          dsimp only
          rw [ih hnext]
          rfl

theorem mergeNode_withFacts {node : LayerNode}
    (h : node.NamedIn ctx.key (fun name => facts.get? name = ctx.facts.get? name))
    (reported : ReportedLayer) :
    mergeNode { ctx with facts } node reported = ctx.mergeNode node reported := by
  unfold mergeNode
  rw [mergeVolumes_withFacts h]
  rfl

theorem mergeLayer_withFacts {state : Merging}
    (h : state.tree.NamedIn ctx.key (fun name => facts.get? name = ctx.facts.get? name))
    (parent : Option LayerId) (taken : List LayerId) (reported : ReportedLayer) :
    mergeLayer { ctx with facts } parent taken state reported =
      ctx.mergeLayer parent taken state reported := by
  unfold mergeLayer
  have hidentify : identify { ctx with facts } state.tree parent taken reported =
      ctx.identify state.tree parent taken reported := rfl
  rw [hidentify]
  cases ctx.identify state.tree parent taken reported with
  | error fault => rfl
  | ok id =>
    dsimp only
    cases hget : state.tree.get? id with
    | none => rfl
    | some node =>
      dsimp only
      rw [mergeNode_withFacts (h node (LayerTree.mem_of_get? hget))]

/-- Nested layers end the same with all facts that agree on the names of the objects of the tree, as
no layer on the way changes a name. -/
theorem mergeLevel_withFacts {parent : Option LayerId} {taken : List LayerId} {state : Merging}
    {nodes : List ReportNode} (hnodup : state.tree.ids.Nodup)
    (h : state.tree.NamedIn ctx.key (fun name => facts.get? name = ctx.facts.get? name)) :
    mergeLevel { ctx with facts } parent taken state nodes =
      ctx.mergeLevel parent taken state nodes := by
  induction parent, taken, state, nodes using mergeLevel.induct ctx with
  | case1 parent taken state => rw [mergeLevel, mergeLevel]
  | case2 parent taken state layer children rest fault herr =>
    simp only [mergeLevel, mergeLayer_withFacts h, herr]
  | case3 parent taken state layer children rest id first hfirst rejection herr ih =>
    have hsame := mergeLayer_authored hnodup hfirst
    have hbelow := ih (LayerTree.ids_authored_congr hsame ▸ hnodup) (h.congr hsame.symm)
    simp only [mergeLevel, mergeLayer_withFacts h, hfirst, hbelow, herr]
  | case4 parent taken state layer children rest id first hfirst middle hmiddle ihc ihr =>
    have hsame := mergeLayer_authored hnodup hfirst
    have hnodup' : first.tree.ids.Nodup := LayerTree.ids_authored_congr hsame ▸ hnodup
    have hsame' := (mergeLevel_authored hnodup' hmiddle).trans hsame
    have hbelow := ihc hnodup' (h.congr hsame.symm)
    have hrest := ihr (LayerTree.ids_authored_congr hsame' ▸ hnodup) (h.congr hsame'.symm)
    simp only [mergeLevel, mergeLayer_withFacts h, hfirst, hbelow, hmiddle, hrest]

theorem mergeReport_withFacts {tree : LayerTree} (hnodup : tree.ids.Nodup)
    (h : tree.NamedIn ctx.key (fun name => facts.get? name = ctx.facts.get? name))
    (report : Report) :
    mergeReport { ctx with facts } tree report = ctx.mergeReport tree report := by
  unfold mergeReport
  cases report.key with
  | error fault => rfl
  | ok key =>
    dsimp only
    split
    · exact @mergeLevel_withFacts ctx facts none [] { tree } report.roots hnodup h
    · rfl

end MergeContext

namespace Resource

variable {resource : Resource}

/-- A report ends the same with all facts that agree on the names that the merge makes up. -/
theorem take_withFacts (hnodup : resource.tree.ids.Nodup) {call : MergeCall} {facts : FactsMap}
    (h : resource.tree.NamedIn resource.key
      (fun name => facts.get? name = call.facts.get? name)) :
    resource.take { call with facts } = resource.take call := by
  have hreport := @MergeContext.mergeReport_withFacts (resource.contextOf call) facts _ hnodup h
    call.report
  have hctx : resource.mergeContext call.pools facts call.tolerance =
      { resource.contextOf call with facts } := rfl
  simp only [take, merge, hctx, hreport]
  rfl

/-! ## What is asked for -/

theorem mem_keys_ofList {κ υ : Type} [Ord κ] [Std.TransOrd κ] [Std.LawfulEqOrd κ]
    [DecidableEq κ] {l : List (κ × υ)} {k : κ} :
    k ∈ (SortedMap.ofList l).keys ↔ ∃ e ∈ l, e.1 = k := by
  rw [SortedMap.mem_keys_iff, ← Option.isSome_iff_exists, SortedMap.get?_ofList, Option.isSome_map,
    Option.isSome_iff_ne_none, ne_eq, List.getLast?_eq_none_iff, List.filter_eq_nil_iff]
  simp

/-- The names that a backend is asked for are those of the objects of the resource, by the layers and
the numbers under which the volumes stand. -/
theorem mem_identifiers_iff (hsound : resource.Sound) {name : String} :
    name ∈ resource.identifiers ↔ ∃ node ∈ resource.tree.nodes, ∃ number leaf,
      node.volumes.get? number = some leaf ∧ leaf.hasBackingObject = true ∧
        name = volumeIdentifier resource.key node.suffix number := by
  have hkeys : name ∈ resource.identifiers ↔
      ∃ e ∈ resource.tree.storageVolumes, e.2.hasBackingObject = true ∧
        name = volumeIdentifier resource.key e.1.suffix e.2.number := by
    rw [identifiers, mem_keys_ofList]
    constructor
    · rintro ⟨e, he, rfl⟩
      obtain ⟨volume, hvolume, rfl⟩ := List.mem_map.1 he
      obtain ⟨hstored, hbacked⟩ := List.mem_filter.1 hvolume
      exact ⟨volume, hstored, hbacked, rfl⟩
    · rintro ⟨volume, hstored, hbacked, rfl⟩
      exact ⟨_, List.mem_map_of_mem (List.mem_filter.2 ⟨hstored, hbacked⟩), rfl⟩
  rw [hkeys]
  constructor
  · rintro ⟨⟨node, leaf⟩, he, hbacked, rfl⟩
    obtain ⟨other, hother, hpair⟩ := List.mem_flatMap.1 he
    obtain ⟨value, hvalue, hsame⟩ := List.mem_map.1 hpair
    cases hsame
    have hnode := (List.mem_filter.1 hother).1
    obtain ⟨number, hget⟩ := SortedMap.mem_values_iff.1 hvalue
    have hnumber := ((hsound.layers node hnode).volumes number leaf hget).numbered
    exact ⟨node, hnode, number, leaf, hget, hbacked, by rw [hnumber]⟩
  · rintro ⟨node, hnode, number, leaf, hget, hbacked, rfl⟩
    have hleaf := (hsound.layers node hnode).volumes number leaf hget
    -- only volumes of storage layers have objects
    have hkind : node.kind = .storage := by
      rw [← hleaf.kind]
      cases hdata : leaf.data with
      | storage _ => rfl
      | replication _ | encryption _ _ | remoteAttach =>
        simp [VolumeLeaf.hasBackingObject, VolumeLeaf.storage?, hdata] at hbacked
    refine ⟨(node, leaf), List.mem_flatMap.2 ⟨node, List.mem_filter.2 ⟨hnode, decide_eq_true hkind⟩,
      List.mem_map_of_mem (SortedMap.mem_values_iff.2 ⟨number, hget⟩)⟩, hbacked, ?_⟩
    rw [hleaf.numbered]

/-- A merge makes up no name that was not asked for. It goes by the number under which a volume
stands, and in a sound resource that is the number of the volume. -/
theorem Sound.namedIn (hsound : resource.Sound) :
    resource.tree.NamedIn resource.key (· ∈ resource.identifiers) :=
  fun node hnode number leaf hleaf hbacked =>
    (mem_identifiers_iff hsound).2 ⟨node, hnode, number, leaf, hleaf, hbacked, rfl⟩

theorem Sound.take_agreeing (hsound : resource.Sound) (hnodup : resource.tree.ids.Nodup)
    (call : MergeCall) {facts : FactsMap}
    (h : ∀ name ∈ resource.identifiers, facts.get? name = call.facts.get? name) :
    resource.take { call with facts } = resource.take call :=
  take_withFacts hnodup fun node hnode number leaf hleaf hbacked =>
    h _ (hsound.namedIn node hnode number leaf hleaf hbacked)

end Resource

/-- The facts of some objects only. -/
def FactsMap.only (facts : FactsMap) (names : List String) : FactsMap :=
  facts.filter (fun name _ => names.contains name)

theorem get?_only (facts : FactsMap) (names : List String) (name : String) :
    (facts.only names).get? name = if name ∈ names then facts.get? name else none := by
  refine Option.ext fun object => ?_
  rw [← SortedMap.mem_entries_iff, FactsMap.only, SortedMap.filter, List.mem_filter,
    SortedMap.mem_entries_iff, List.contains_iff_mem]
  split <;> simp_all

/-- A backend that is asked for some objects tells its facts of these only. -/
theorem known_eq_only (facts : FactsMap) (names : List String) :
    Backend.known facts names = facts.only names :=
  SortedMap.ext_get? fun name => (Backend.get?_known facts names name).trans (get?_only ..).symm

namespace Resource

/-- What a backend is asked for before a merge into a resource is what the merge needs. -/
structure FactsSuffice (resource : Resource) : Prop where
  /-- The names of all objects are asked for, by the layers and numbers of their volumes. -/
  named : ∀ name, name ∈ resource.identifiers ↔ ∃ node ∈ resource.tree.nodes, ∃ number leaf,
    node.volumes.get? number = some leaf ∧ leaf.hasBackingObject = true ∧
      name = volumeIdentifier resource.key node.suffix number
  /-- The backend tells its facts of these only. -/
  fetched : ∀ backend : Backend, (Service.factsCall resource).perform backend =
    .ok (backend.objects.only resource.identifiers, backend)
  /-- With these a report ends as with all facts, -/
  restricted : ∀ call : MergeCall,
    resource.take { call with facts := call.facts.only resource.identifiers } = resource.take call
  /-- and so it does with any facts that agree on the names. -/
  agreeing : ∀ (call : MergeCall) (facts : FactsMap),
    (∀ name ∈ resource.identifiers, facts.get? name = call.facts.get? name) →
      resource.take { call with facts } = resource.take call

theorem Sound.factsSuffice {resource : Resource} (hsound : resource.Sound)
    (hnodup : resource.tree.ids.Nodup) : resource.FactsSuffice := by
  refine ⟨fun name => mem_identifiers_iff hsound, fun backend => ?_, fun call => ?_,
    fun call _ => hsound.take_agreeing hnodup call⟩
  · rw [← known_eq_only]
    rfl
  · exact hsound.take_agreeing hnodup call fun name hname => by rw [get?_only, if_pos hname]

end Resource

namespace Service

variable {service : Service} {doc : Document} {graph : Graph}

/-- Whatever a service is asked to do after its load, the resources that it holds are sound. -/
theorem represents_operateAll (hfresh : service.registry.loaded = false)
    (hdoc : service.store.document = .ok doc) (hgraph : Graph.ofDocument doc = .ok graph)
    (operations : List Operation) : (service.load.2.operateAll operations).Represents := by
  obtain ⟨-, hregistry⟩ := load_eq hfresh hdoc (Graph.ofDocument_eq_ok_iff.1 hgraph)
  have hstart : service.load.2.Represents := by
    intro resource hresource
    rw [hregistry] at hresource
    exact Resource.sound_of_mem hgraph hresource []
  have hleads : service.load.2.Leads (service.load.2.operateAll operations) :=
    operateAll_leads (by rw [hregistry])
  exact hleads.keeps Represents.moves hstart

/-- Whatever reports a loaded resource took in, and whatever a service was asked to do after its load:
what a backend is asked for before a merge into a resource is what the merge needs. -/
theorem facts_suffice (hgraph : Graph.ofDocument doc = .ok graph) :
    (∀ resource ∈ graph.resources.values, ∀ calls : List MergeCall,
      (resource.mergeAll calls).FactsSuffice) ∧
    ∀ service : Service, service.registry.loaded = false → service.store.document = .ok doc →
      ∀ operations : List Operation,
      ∀ resource ∈ (service.load.2.operateAll operations).registry.resources.values,
        resource.FactsSuffice := by
  constructor
  · intro resource hmem calls
    obtain ⟨hsound, hwell⟩ := Resource.sound_of_mem hgraph hmem calls
    exact hsound.factsSuffice hwell.nodup
  · intro service hfresh hdoc operations resource hresource
    obtain ⟨hsound, hwell⟩ := represents_operateAll hfresh hdoc hgraph operations resource hresource
    exact hsound.factsSuffice hwell.nodup

/-- After a batch with one report and a further load, the backend is asked for the object of the one
volume; so it is after two reports that were merged without a service. -/
theorem facts_suffice_pair :
    Graph.ofDocument Resource.pairDocument = .ok Resource.pairGraph ∧
      memoryPair.registry.loaded = false ∧ memoryPair.store.document = .ok Resource.pairDocument ∧
      (∀ resource ∈ (memoryPair.load.2.operateAll
        [.batch [Resource.pairCall.report] memoryPair.retry.pauses, .load]).registry.resources.values,
          resource.FactsSuffice) ∧
      (memoryPair.load.2.operateAll
        [.batch [Resource.pairCall.report] memoryPair.retry.pauses, .load]).registry.resources.values.map
          (·.identifiers) = [["r_00000"]] ∧
      (Resource.pair.mergeAll [Resource.pairCall, Resource.pairCall]).FactsSuffice := by
  obtain ⟨hmerged, hheld⟩ := facts_suffice Resource.ofDocument_pair
  exact ⟨Resource.ofDocument_pair, rfl, rfl, hheld memoryPair rfl rfl _, by cbv,
    hmerged _ Resource.pair_mem _⟩

end Service
end BlockStack
