import BlockStack.Proofs.Addressing
import BlockStack.Proofs.Operations

/-!
# BlockStack.Proofs.Representation

What is true of every resource that a service ever holds.

* `VolumeLeaf.Sound`, `LayerNode.Sound`, `Resource.Sound`: a volume, a layer and a resource are as
  their kinds, providers and definitions require.
* `Resource.sound_of_loaded`: a load makes sound resources.
* `Resource.Sound.observed`: reports keep them sound.
* `Service.operateAll_sound`: so does whatever a service is asked to do after its load.
-/

namespace BlockStack

/-- A volume of a layer of a kind, under a number: it has the number and the data of the kind; on a
storage layer its attributes are those of its provider, and there is a verdict on its size only if
the volume is there and its provider has objects. -/
structure VolumeLeaf.Sound (kind : LayerKind) (number : UInt32) (leaf : VolumeLeaf) : Prop where
  numbered : leaf.number = number
  kind : leaf.data.kind = kind
  family : ∀ volume, leaf.data = .storage volume →
    volume.attributes.family = volume.provider.family
  measured : ∀ volume, leaf.data = .storage volume → volume.sizeState.isSome = true →
    volume.present = true ∧ volume.provider.hasBackingObject = true

/-- A layer of a resource with a definition: its volumes are sound, and on a replication layer the
definition has an entry for the suffix, with an entry for each volume. -/
structure LayerNode.Sound (definition : ResourceDefinition) (node : LayerNode) : Prop where
  volumes : ∀ number leaf, node.volumes.get? number = some leaf → leaf.Sound node.kind number
  defined : node.kind = .replication →
    ∃ settings, definition.replication.get? node.suffix = some settings ∧
      ∀ number ∈ node.volumes.keys, number ∈ settings.volumes.keys

/-- A resource whose layers are sound, with what follows from its layers. -/
structure Resource.Sound (resource : Resource) : Prop where
  layers : ∀ node ∈ resource.tree.nodes, node.Sound resource.definition
  metadata : resource.metadata = .ofTree resource.tree

/-! ## Reports -/

namespace MergeContext

variable {ctx : MergeContext}

theorem sound_observed {suffix : String} {kind : LayerKind} {number : UInt32} {leaf : VolumeLeaf}
    (h : leaf.Sound kind number) (reported : ReportedVolume) :
    (ctx.observed suffix number leaf reported).Sound kind number where
  numbered := h.numbered
  kind := by
    rw [← h.kind]
    unfold observed
    cases leaf.data <;> rfl
  family := plain_observed
  measured := by
    intro volume hvolume hsome
    unfold observed at hvolume
    cases hdata : leaf.data with
    | storage old =>
      simp only [hdata, VolumeData.storage.injEq] at hvolume
      subst hvolume
      -- a verdict needs an object, and an object needs a provider that has objects
      have hobject := Option.isSome_of_isSome_bind hsome
      refine ⟨hobject, ?_⟩
      unfold object? at hobject
      split at hobject
      · assumption
      · cases hobject
    | replication _ | encryption _ _ | remoteAttach =>
      simp only [hdata] at hvolume
      cases hvolume

theorem sound_observedNode {definition : ResourceDefinition} (node : LayerNode)
    (reported : ReportedLayer) (h : node.Sound definition) :
    (ctx.observedNode node reported).Sound definition where
  volumes number leaf hget := by
    obtain ⟨before, hbefore, rfl | ⟨volume, rfl⟩⟩ := exists_before hget
    · exact h.volumes number leaf hbefore
    · exact sound_observed (h.volumes number before hbefore) volume
  defined hkind := by
    have hkeys : (ctx.observedNode node reported).volumes.keys = node.volumes.keys :=
      SortedMap.keys_mapValues ..
    rw [hkeys]
    exact h.defined hkind

end MergeContext

namespace Resource

variable {resource : Resource}

/-- A report that is accepted keeps a resource sound. -/
theorem Sound.observed (h : resource.Sound) (call : MergeCall) : (resource.observed call).Sound where
  layers := MergeContext.observedTree_keeps MergeContext.sound_observedNode h.layers
  metadata := rfl

/-- Nor does any number of reports make it unsound. -/
theorem Sound.mergeAll {calls : List MergeCall} : ∀ {resource : Resource}, resource.Sound →
    resource.tree.WellFormed → (resource.mergeAll calls).Sound := by
  induction calls with
  | nil => exact fun h _ => h
  | cons call rest ih =>
    intro resource h hwell
    rcases mergeAll_cons hwell call rest with ⟨-, hmerge, -⟩ | ⟨hmerge, -⟩
    · rw [hmerge]
      exact ih (h.observed call) (wellFormed_observed hwell call)
    · rw [hmerge]
      exact ih h hwell

end Resource

/-! ## Loads -/

theorem VolumeData.Fits.kind_eq {doc : Document} {row : LayerRow} {number : UInt32}
    {data : VolumeData} (h : data.Fits doc row number) : row.kind = data.kind.name := by
  cases data with
  | replication _ | storage _ => exact h.1
  | encryption _ _ | remoteAttach => exact h

namespace Resource

open BlockStack.Graph (Loaded)

variable {doc : Document} {graph : Graph} {resource : Resource}

theorem kind_unsized (data : VolumeData) : data.unsized.kind = data.kind := by
  cases data <;> rfl

theorem unsized_of_loaded (h : Loaded doc graph) {key : ResourceKey}
    (hget : graph.resources.get? key = some resource) {node : LayerNode}
    (hnode : node ∈ resource.tree.nodes) {number : UInt32} {leaf : VolumeLeaf}
    (hleaf : node.volumes.get? number = some leaf) : leaf.data.unsized = leaf.data := by
  have hnodes : resource.tree.nodes.map LayerNode.unsized = resource.tree.nodes.map id := by
    rw [List.map_id]
    exact congrArg (fun r => r.tree.nodes) (h.unsized_eq hget)
  have hsame : node.unsized = node := List.map_inj_left.1 hnodes node hnode
  have hvolumes := congrArg (fun n => n.volumes.get? number) hsame
  simp only [LayerNode.unsized, SortedMap.get?_mapValues, hleaf, Option.map_some,
    Option.some.injEq] at hvolumes
  exact congrArg VolumeLeaf.data hvolumes

/-- A load makes sound resources. -/
theorem sound_of_loaded (hdoc : doc.Consistent) (h : Loaded doc graph) {key : ResourceKey}
    (hget : graph.resources.get? key = some resource) : resource.Sound := by
  obtain ⟨-, hmirrors⟩ := h.mirrors hget
  refine ⟨fun node hnode => ?_, hmirrors.metadata⟩
  obtain ⟨row, hrow, hstands⟩ := hmirrors.depicts.exists_row hnode
  obtain ⟨hrow, howner⟩ := mem_ownedBy.1 hrow
  obtain ⟨-, hplaced⟩ := (Document.consistent_iff.1 hdoc).2.2.1 row hrow
  -- each volume was read from a row that fits the row of the layer
  have hfits : ∀ number leaf, node.volumes.get? number = some leaf →
      leaf.data.unsized.Fits doc row number := by
    intro number leaf hleaf
    obtain ⟨source, hsource, hnumber, -, hread⟩ := hstands.exists_volume hleaf
    exact hnumber ▸ (fits_iff_data hread).1 (hplaced.volumes source hsource)
  have hkind : ∀ number leaf, node.volumes.get? number = some leaf → leaf.data.kind = node.kind := by
    intro number leaf hleaf
    have hname := (hfits number leaf hleaf).kind_eq
    rw [hstands.kind_eq, kind_unsized] at hname
    exact LayerKind.name_injective hname.symm
  constructor
  · intro number leaf hleaf
    obtain ⟨hnumber, hfamily⟩ := hmirrors.depicts.plain node hnode number leaf hleaf
    refine ⟨hnumber, hkind number leaf hleaf, hfamily, fun volume hdata hsome => ?_⟩
    have hunsized := unsized_of_loaded h hget hnode hleaf
    rw [hdata] at hunsized
    rw [← VolumeData.storage.inj hunsized] at hsome
    cases hsome
  · intro hreplication
    obtain ⟨settings, hsettings⟩ := (settled_of_loaded hdoc h hget node hnode).defined hreplication
    have hrow' : doc.settingsOf? row = some settings := by
      rw [Document.settingsOf?, howner, hmirrors.definition, Option.bind_some, ← hstands.suffix_eq]
      exact hsettings
    refine ⟨settings, hsettings, fun number hnumber => ?_⟩
    obtain ⟨leaf, hleaf⟩ := SortedMap.mem_keys_iff.1 hnumber
    have hsame := hkind number leaf hleaf
    have hfit := hfits number leaf hleaf
    rw [hreplication] at hsame
    cases hdata : leaf.data with
    | replication path =>
      rw [hdata] at hfit
      obtain ⟨-, found, hfound, hmem⟩ := hfit
      cases hrow'.symm.trans hfound
      exact hmem
    | encryption _ _ | remoteAttach | storage _ =>
      rw [hdata] at hsame
      cases hsame

/-- A resource that was loaded is sound and hangs together, whatever reports came since. -/
theorem sound_of_mem (hok : Graph.ofDocument doc = .ok graph)
    (hmem : resource ∈ graph.resources.values) (calls : List MergeCall) :
    (resource.mergeAll calls).Sound ∧ (resource.mergeAll calls).tree.WellFormed := by
  obtain ⟨hdoc, hloaded⟩ := Graph.loaded_ofDocument hok
  obtain ⟨key, hget⟩ := SortedMap.mem_values_iff.1 hmem
  have hwell := wellFormed_of_loaded hok hmem
  exact ⟨(sound_of_loaded hdoc hloaded hget).mergeAll hwell, wellFormed_mergeAll hwell calls⟩

end Resource

/-! ## Services -/

namespace Service

variable {service next : Service}

/-- All resources that are held are sound, and their layers hang together. -/
def Represents (service : Service) : Prop :=
  ∀ resource ∈ service.registry.resources.values, resource.Sound ∧ resource.tree.WellFormed

theorem Represents.moves (hmoves : service.Moves next) (h : service.Represents) :
    next.Represents := by
  intro resource hresource
  cases hmoves with
  | kept hagrees => exact h resource (hagrees.registry ▸ hresource)
  | refreshed hkeeps => exact h resource (hkeeps.resources ▸ hresource)
  | @applied report merged happlied =>
    rcases happlied.mem_values hresource with hkept | ⟨rfl, old, hold, pools, facts, hmerge⟩
    · exact h resource hkept
    · obtain ⟨hsound, hwell⟩ := h old hold
      let call : MergeCall := { report, facts, pools, tolerance := service.tolerance }
      obtain ⟨-, hnow⟩ := (@Resource.take_eq_ok_iff old call hwell _).1 ⟨merged, hmerge, rfl⟩
      rw [hnow]
      exact ⟨hsound.observed call,
        LayerTree.wellFormed_authored_congr Resource.observed_authored.symm hwell⟩

/-- Whatever a service is asked to do after its load, all resources that it holds are sound. -/
theorem operateAll_sound {doc : Document} {graph : Graph} (hfresh : service.registry.loaded = false)
    (hdoc : service.store.document = .ok doc) (hgraph : Graph.ofDocument doc = .ok graph)
    (operations : List Operation) :
    ∀ resource ∈ (service.load.2.operateAll operations).registry.resources.values,
      resource.Sound := by
  obtain ⟨-, hregistry⟩ := load_eq hfresh hdoc (Graph.ofDocument_eq_ok_iff.1 hgraph)
  obtain ⟨hconsistent, hloaded⟩ := Graph.loaded_ofDocument hgraph
  have hstart : service.load.2.Represents := by
    intro resource hresource
    rw [hregistry] at hresource
    obtain ⟨key, hget⟩ := SortedMap.mem_values_iff.1 hresource
    exact ⟨Resource.sound_of_loaded hconsistent hloaded hget,
      Resource.wellFormed_of_loaded hgraph hresource⟩
  have hleads : service.load.2.Leads (service.load.2.operateAll operations) :=
    operateAll_leads (by rw [hregistry])
  exact fun resource hresource => (hleads.keeps Represents.moves hstart resource hresource).1

set_option maxRecDepth 10000 in
/-- After a batch with one report and a further load, the stack of two layers is sound, with a verdict
on the size of its volume. -/
theorem operateAll_sound_pair :
    memoryPair.registry.loaded = false ∧ memoryPair.store.document = .ok Resource.pairDocument ∧
      Graph.ofDocument Resource.pairDocument = .ok Resource.pairGraph ∧
      (∀ resource ∈ (memoryPair.load.2.operateAll
        [.batch [Resource.pairCall.report] memoryPair.retry.pauses, .load]).registry.resources.values, resource.Sound) ∧
      (memoryPair.load.2.operateAll
        [.batch [Resource.pairCall.report] memoryPair.retry.pauses, .load]).registry.resources.values.flatMap
          (fun resource => resource.tree.storageVolumes.map (·.2.storage?.bind (·.sizeState))) =
        [some .tooLargeWithinTolerance] :=
  ⟨rfl, rfl, Resource.ofDocument_pair, operateAll_sound rfl rfl Resource.ofDocument_pair _, by cbv⟩

end Service
end BlockStack
