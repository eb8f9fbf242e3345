import BlockStack.Proofs.FactsNeeded
import BlockStack.Proofs.Naming

/-!
# BlockStack.Proofs.Decoding

Within one resource the name of a volume in a backend tells the layer and the number.

* `VolumeName.not_mimics_of_snapshot`: names with the same snapshot do not read as each other.
* `volumeIdentifier_injective`: suffix and number can be told from a name, if the resource is known.
* `Resource.perm_identifiers`: the names that a backend is asked for are those of the volumes, if these
  are told apart by suffix and number.
* `Resource.volumes_decoded`: so there is a name for each volume if no two storage layers share a
  suffix.
-/

namespace BlockStack

/-! ## One resource -/

namespace VolumeName

variable {a b : VolumeName}

/-- A name that reads as another one holds the snapshot of the other one behind its number, so that
its own snapshot is longer. -/
theorem not_mimics_of_snapshot (h : a.snapshot = b.snapshot) : ¬ a.Mimics b := by
  rintro ⟨snapshot, middle, hsnapshot, -, heq⟩
  rw [← h, hsnapshot] at heq
  have hlength := congrArg (fun text => text.toList.length) heq
  simp only [behind, String.toList_append, List.length_append] at hlength
  have hmark : 0 < "_".toList.length := by decide
  omega

end VolumeName

theorem volumeIdentifier_eq_text (key : ResourceKey) (suffix : String) (number : UInt32) :
    volumeIdentifier key suffix number =
      VolumeName.text ⟨key.resource ++ suffix, number, key.snapshot⟩ := by
  unfold volumeIdentifier VolumeName.text
  cases key.snapshot <;> simp [VolumeName.behind, String.append_assoc]

/-- Suffix and number can be told from the name of a volume, if the resource is known. -/
theorem volumeIdentifier_injective {key : ResourceKey} {s t : String} {m n : UInt32}
    (h : volumeIdentifier key s m = volumeIdentifier key t n) : s = t ∧ m = n := by
  rw [volumeIdentifier_eq_text, volumeIdentifier_eq_text, VolumeName.text_eq_iff] at h
  rcases h with hsame | hmimics | hmimics
  · obtain ⟨hstem, hnumber, -⟩ := VolumeName.mk.inj hsame
    have hlist := congrArg String.toList hstem
    rw [String.toList_append, String.toList_append] at hlist
    exact ⟨String.toList_inj.1 (List.append_cancel_left hlist), hnumber⟩
  · exact absurd hmimics (VolumeName.not_mimics_of_snapshot rfl)
  · exact absurd hmimics (VolumeName.not_mimics_of_snapshot rfl)

/-! ## All volumes of a resource -/

/-- The suffixes of all storage layers. -/
def LayerTree.storageSuffixes (tree : LayerTree) : List String :=
  (tree.nodes.filter (fun node => node.kind = .storage)).map LayerNode.suffix

/-- All volumes of storage layers that are objects of a backend. -/
def LayerTree.backedVolumes (tree : LayerTree) : List (LayerNode × VolumeLeaf) :=
  tree.storageVolumes.filter (fun e => e.2.hasBackingObject)

/-- What tells a volume within its resource. -/
def volumeLabel (e : LayerNode × VolumeLeaf) : String × UInt32 := (e.1.suffix, e.2.number)

namespace Resource

variable {resource : Resource}

/-- The volumes of a sound layer have different numbers. -/
theorem nodup_numbers {definition : ResourceDefinition} {node : LayerNode}
    (h : node.Sound definition) : (node.volumes.values.map VolumeLeaf.number).Nodup := by
  have hkeys : node.volumes.values.map VolumeLeaf.number = node.volumes.keys := by
    rw [SortedMap.values, SortedMap.keys, List.map_map]
    refine List.map_congr_left fun e he => ?_
    exact (h.volumes e.1 e.2 ((SortedMap.mem_entries_iff _).1 he)).numbered
  rw [hkeys]
  exact SortedMap.nodup_keys _

/-- Suffix and number tell the volumes of all storage layers apart, if the suffixes tell the layers
apart. -/
theorem nodup_labels (hsound : resource.Sound) (hapart : resource.tree.storageSuffixes.Nodup) :
    (resource.tree.storageVolumes.map volumeLabel).Nodup := by
  rw [LayerTree.storageVolumes, List.map_flatMap, List.nodup_flatMap]
  constructor
  · intro node hnode
    have hnumbers := nodup_numbers (hsound.layers node (List.mem_of_mem_filter hnode))
    rw [List.map_map]
    refine List.Nodup.of_map Prod.snd ?_
    rwa [List.map_map]
  · have hsuffixes : (resource.tree.nodes.filter (fun node => node.kind = .storage)).Pairwise
        (fun a b => a.suffix ≠ b.suffix) := List.pairwise_map.1 hapart
    refine hsuffixes.imp fun {a b} hne label ha hb => hne ?_
    simp only [List.map_map, List.mem_map] at ha hb
    obtain ⟨_, -, rfl⟩ := ha
    obtain ⟨_, -, hsame⟩ := hb
    exact (congrArg Prod.fst hsame).symm

/-- Volumes that are told apart by suffix and number each have a name of their own. -/
theorem perm_identifiers (hlabels : (resource.tree.storageVolumes.map volumeLabel).Nodup) :
    resource.identifiers.Perm (resource.tree.backedVolumes.map
      (fun e => volumeIdentifier resource.key e.1.suffix e.2.number)) := by
  have hbacked : (resource.tree.backedVolumes.map volumeLabel).Nodup :=
    hlabels.sublist (List.filter_sublist.map _)
  have hnames : (resource.tree.backedVolumes.map
      (fun e => volumeIdentifier resource.key e.1.suffix e.2.number)).Nodup := by
    have hinjective : Function.Injective
        (fun label : String × UInt32 => volumeIdentifier resource.key label.1 label.2) :=
      fun _ _ hsame => Prod.ext_iff.2 (volumeIdentifier_injective hsame)
    have hmapped := hbacked.map hinjective
    rwa [List.map_map] at hmapped
  refine (List.perm_ext_iff_of_nodup (SortedMap.nodup_keys _) hnames).2 fun name => ?_
  rw [mem_keys_ofList, LayerTree.backedVolumes]
  simp

/-- There are as many names as volumes, if no two storage layers share a suffix. -/
theorem length_identifiers (hsound : resource.Sound)
    (hapart : resource.tree.storageSuffixes.Nodup) :
    resource.identifiers.length = resource.tree.backedVolumes.length := by
  rw [(perm_identifiers (nodup_labels hsound hapart)).length_eq, List.length_map]

/-- Suffix and number can be told from the name of a volume if the resource is known. So a backend is
asked for as many names as a loaded resource has volumes with objects, whatever reports came since, if
no two of its storage layers share a suffix. -/
theorem volumes_decoded :
    (∀ (key : ResourceKey) (s t : String) (m n : UInt32),
      volumeIdentifier key s m = volumeIdentifier key t n → s = t ∧ m = n) ∧
    ∀ (doc : Document) (graph : Graph), Graph.ofDocument doc = .ok graph →
      ∀ resource ∈ graph.resources.values, ∀ calls : List MergeCall,
        (resource.mergeAll calls).tree.storageSuffixes.Nodup →
          (resource.mergeAll calls).identifiers.length =
            (resource.mergeAll calls).tree.backedVolumes.length :=
  ⟨fun _ _ _ _ _ => volumeIdentifier_injective, fun _ _ hok _ hmem calls hapart =>
    length_identifiers (sound_of_mem hok hmem calls).1 hapart⟩

/-- The key of a snapshot that is named like a number. -/
def numberedKey : ResourceKey := { node := "n", resource := "r", snapshot := some "00000" }

/-- A snapshot with two storage layers, one of them with a suffix like a number, and with numbers of
five and of six digits. -/
def numberedDocument : Document where
  catalog := {
    definitions := [{ name := "d" }]
    resources := [{ key := numberedKey, definition := "d" }]
    pools := [{ key := ⟨"n", "p"⟩, provider := .lvm, extentSizeKib := 4 }] }
  layers := [
    { id := 1, kind := "STORAGE", owner := numberedKey },
    { id := 2, kind := "STORAGE", suffix := "_00000", owner := numberedKey }]
  volumes := [
    { layer := 1, number := 0, expectedSizeKib := 8, payload := .storage "LVM" "p" false {} },
    { layer := 1, number := 100000, expectedSizeKib := 8, payload := .storage "LVM" "p" false {} },
    { layer := 2, number := 0, expectedSizeKib := 8, payload := .storage "LVM" "p" false {} }]

def numberedGraph : Graph := (Graph.ofDocument numberedDocument).toOption.getD {}

def numbered : Resource :=
  (numberedGraph.resources.get? numberedKey).getD { key := numberedKey, definition := { name := "" } }

/-- The three volumes have three names, though a suffix, a number and the snapshot look alike. -/
theorem volumes_decoded_numbered :
    Graph.ofDocument numberedDocument = .ok numberedGraph ∧
      numbered ∈ numberedGraph.resources.values ∧
      (numbered.mergeAll []).tree.storageSuffixes = ["", "_00000"] ∧
      (numbered.mergeAll []).identifiers.length = (numbered.mergeAll []).tree.backedVolumes.length ∧
      (numbered.mergeAll []).tree.backedVolumes.length = 3 ∧
      volumeIdentifier numberedKey "" 0 ≠ volumeIdentifier numberedKey "_00000" 0 := by
  have hok : Graph.ofDocument numberedDocument = .ok numberedGraph := by decide
  have hmem : numbered ∈ numberedGraph.resources.values := by decide
  have hsuffixes : (numbered.mergeAll []).tree.storageSuffixes = ["", "_00000"] := by decide
  refine ⟨hok, hmem, hsuffixes, ?_, by decide, fun hsame => ?_⟩
  · exact volumes_decoded.2 _ _ hok _ hmem [] (by rw [hsuffixes]; decide)
  · exact absurd (volumes_decoded.1 _ _ _ _ _ hsame).1 (by decide)

end Resource
end BlockStack
