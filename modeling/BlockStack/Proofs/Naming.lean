import BlockStack.Proofs.Addressing
import BlockStack.Proofs.LastReport

/-!
# BlockStack.Proofs.Naming

How far the name of a volume in a backend tells the volume.

* `VolumeName`: what a name is made of; `VolumeName.text` is the name.
* `VolumeName.Mimics`: a name reads as another one too, cut in other places.
* `VolumeName.text_eq_iff`: two names are the same text only if they have the same parts or one of them
  mimics the other.
* `PlacedVolume.named_apart`: volumes whose names do not meet are never judged by what the backend knows
  of each other.
-/

namespace BlockStack

/-! ## The digits of a number -/

theorem toList_zeros (n : Nat) : ("".pushn '0' n).toList = List.replicate n '0' := by
  induction n with
  | zero => rfl
  | succ n ih =>
    have hpush : "".pushn '0' (n + 1) = ("".pushn '0' n).push '0' := rfl
    rw [hpush, String.toList_push, ih, List.replicate_succ']

theorem toList_fiveDigits (n : UInt32) :
    ∃ zeros, (fiveDigits n).toList = List.replicate zeros '0' ++ Nat.toDigits 10 n.toNat :=
  ⟨5 - (toString n.toNat).length, by rw [fiveDigits, String.toList_append, toList_zeros]; simp⟩

theorem not_mem_fiveDigits (n : UInt32) : '_' ∉ (fiveDigits n).toList := by
  obtain ⟨zeros, hdigits⟩ := toList_fiveDigits n
  rw [hdigits, List.mem_append, not_or]
  refine ⟨fun h => absurd (List.eq_of_mem_replicate h) (by decide), fun h => ?_⟩
  have := Nat.isDigit_of_mem_toDigits (by decide) (by decide) h
  simp at this

theorem ofDigitChars_zeros (n : Nat) : Nat.ofDigitChars 10 (List.replicate n '0') 0 = 0 := by
  induction n with
  | zero => rfl
  | succ n ih => exact ih

/-- Zeros in front do not change the number that digits stand for. -/
theorem ofDigitChars_fiveDigits (n : UInt32) :
    Nat.ofDigitChars 10 (fiveDigits n).toList 0 = n.toNat := by
  obtain ⟨zeros, hdigits⟩ := toList_fiveDigits n
  rw [hdigits, Nat.ofDigitChars_append, ofDigitChars_zeros, Nat.ofDigitChars_ten_toDigits]

theorem fiveDigits_injective {m n : UInt32} (h : (fiveDigits m).toList = (fiveDigits n).toList) :
    m = n := by
  rw [← UInt32.toNat_inj, ← ofDigitChars_fiveDigits m, h, ofDigitChars_fiveDigits]

/-! ## Names -/

/-- Where a text that starts with a piece without underscores is cut at one: right behind the piece
or later. -/
theorem cut_iff {a b x y : List Char} (h : '_' ∉ a) :
    a ++ '_' :: x = b ++ '_' :: y ↔
      (b = a ∧ x = y) ∨ ∃ middle, b = a ++ '_' :: middle ∧ x = middle ++ '_' :: y := by
  rw [List.append_eq_append_iff]
  constructor
  · rintro (⟨_ | ⟨c, middle⟩, rfl, hx⟩ | ⟨_ | ⟨c, middle⟩, rfl, hy⟩)
    · exact .inl ⟨List.append_nil a, (List.cons.inj hx).2⟩
    · obtain ⟨rfl, rfl⟩ := List.cons.inj hx
      exact .inr ⟨middle, rfl, rfl⟩
    · exact .inl ⟨(List.append_nil b).symm, (List.cons.inj hy).2.symm⟩
    · obtain ⟨rfl, -⟩ := List.cons.inj hy
      exact absurd (List.mem_append_right b List.mem_cons_self) h
  · rintro (⟨rfl, rfl⟩ | ⟨middle, rfl, rfl⟩)
    · exact .inl ⟨[], (List.append_nil _).symm, rfl⟩
    · exact .inl ⟨'_' :: middle, rfl, rfl⟩

/-- What the name of a volume is made of: the resource with the suffix of the layer, the number of the
volume, and for a snapshot its name. -/
structure VolumeName where
  stem : String
  number : UInt32
  snapshot : Option String
  deriving DecidableEq, Repr

namespace VolumeName

/-- A part with an underscore before it, if there is one. -/
def behind : Option String → String
  | none => ""
  | some part => "_" ++ part

/-- A part with an underscore after it, if there is one. -/
def ahead : Option String → String
  | none => ""
  | some part => part ++ "_"

def text (name : VolumeName) : String :=
  name.stem ++ "_" ++ fiveDigits name.number ++ behind name.snapshot

/-- The name of a snapshot reads as another name too: its first parts stand in the stem of the other
one, and the number of the other one in the name of the snapshot. -/
def Mimics (a b : VolumeName) : Prop :=
  ∃ snapshot middle, a.snapshot = some snapshot ∧
    b.stem = a.stem ++ "_" ++ fiveDigits a.number ++ behind middle ∧
    snapshot = ahead middle ++ fiveDigits b.number ++ behind b.snapshot

/-- Two names meet if they have the same parts or one of them reads as the other too. -/
def Meets (a b : VolumeName) : Prop := a = b ∨ a.Mimics b ∨ b.Mimics a

variable {a b : VolumeName}

theorem text_of_mimics (h : a.Mimics b) : a.text = b.text := by
  obtain ⟨snapshot, middle, hsnapshot, hstem, rfl⟩ := h
  rw [text, text, hsnapshot, hstem]
  cases middle <;> simp [behind, ahead, String.append_assoc]

theorem toList_text (name : VolumeName) : name.text.toList = name.stem.toList ++
    '_' :: ((fiveDigits name.number).toList ++ (behind name.snapshot).toList) := by
  simp [text]

/-- There is an underscore behind the stem's own one only for a snapshot. -/
theorem mem_tail_iff {n : UInt32} {s : Option String} :
    '_' ∈ (fiveDigits n).toList ++ (behind s).toList ↔ s.isSome = true := by
  cases s with
  | none => simpa [behind] using not_mem_fiveDigits n
  | some s => simp [behind]

/-- Number and snapshot can be told from the text behind the stem. -/
theorem parts_of_tail {m n : UInt32} {s t : Option String}
    (h : (fiveDigits m).toList ++ (behind s).toList = (fiveDigits n).toList ++ (behind t).toList) :
    m = n ∧ s = t := by
  have hsome : s.isSome = t.isSome := by
    rw [Bool.eq_iff_iff, ← mem_tail_iff, h, mem_tail_iff]
  cases s with
  | none =>
    obtain rfl : t = none := Option.isNone_iff_eq_none.1 (by simpa using hsome)
    exact ⟨fiveDigits_injective (List.append_cancel_right h), rfl⟩
  | some s =>
    obtain ⟨t, rfl⟩ := Option.isSome_iff_exists.1 hsome.symm
    have hcut : (fiveDigits m).toList ++ '_' :: s.toList = (fiveDigits n).toList ++ '_' :: t.toList := by
      simpa [behind] using h
    rcases (cut_iff (not_mem_fiveDigits m)).1 hcut with ⟨hdigits, hrest⟩ | ⟨middle, hdigits, -⟩
    · exact ⟨fiveDigits_injective hdigits.symm, congrArg some (String.toList_inj.1 hrest)⟩
    · have hmem : '_' ∈ (fiveDigits n).toList := by simp [hdigits]
      exact absurd hmem (not_mem_fiveDigits n)

/-- Of two names with one text, that with the shorter stem is the other one or mimics it. -/
theorem mimics_of_text (h : a.text = b.text) {more : List Char}
    (hstem : b.stem.toList = a.stem.toList ++ more) : a = b ∨ a.Mimics b := by
  have htail : '_' :: ((fiveDigits a.number).toList ++ (behind a.snapshot).toList) =
      more ++ '_' :: ((fiveDigits b.number).toList ++ (behind b.snapshot).toList) := by
    have hlist := congrArg String.toList h
    rw [toList_text, toList_text, hstem, List.append_assoc] at hlist
    exact List.append_cancel_left hlist
  cases more with
  | nil =>
    obtain ⟨hnumber, hsnapshot⟩ := parts_of_tail (List.cons.inj htail).2
    have hsame : b.stem = a.stem := String.toList_inj.1 (hstem.trans (List.append_nil _))
    cases a
    cases b
    exact .inl (by simp_all)
  | cons c more =>
    rw [List.cons_append, List.cons.injEq] at htail
    obtain ⟨rfl, htail⟩ := htail
    have hmem : '_' ∈ (fiveDigits a.number).toList ++ (behind a.snapshot).toList := by
      rw [htail]
      exact List.mem_append_right more List.mem_cons_self
    obtain ⟨snapshot, hsnapshot⟩ := Option.isSome_iff_exists.1 (mem_tail_iff.1 hmem)
    have hcut : (fiveDigits a.number).toList ++ '_' :: snapshot.toList = more ++
        '_' :: ((fiveDigits b.number).toList ++ (behind b.snapshot).toList) := by
      simpa [hsnapshot, behind] using htail
    -- the underscore before the number of the longer stem's name comes right behind the digits of
    -- the shorter one's, or later
    rcases (cut_iff (not_mem_fiveDigits a.number)).1 hcut with ⟨hmore, hrest⟩ | ⟨middle, hmore, hrest⟩
    · refine .inr ⟨snapshot, none, hsnapshot, String.toList_inj.1 ?_, String.toList_inj.1 ?_⟩
      · simp [hstem, hmore, behind]
      · simp [hrest, ahead]
    · refine .inr ⟨snapshot, some (.ofList middle), hsnapshot, String.toList_inj.1 ?_,
        String.toList_inj.1 ?_⟩
      · simp [hstem, hmore, behind]
      · simp [hrest, ahead]

/-- Two names are the same text exactly if they meet. -/
theorem text_eq_iff : a.text = b.text ↔ a.Meets b := by
  constructor
  · intro h
    have hlist := congrArg String.toList h
    rw [toList_text, toList_text, List.append_eq_append_iff] at hlist
    rcases hlist with ⟨more, hstem, -⟩ | ⟨more, hstem, -⟩
    · rcases mimics_of_text h hstem with rfl | hmimics
      · exact .inl rfl
      · exact .inr (.inl hmimics)
    · rcases mimics_of_text h.symm hstem with rfl | hmimics
      · exact .inl rfl
      · exact .inr (.inr hmimics)
  · rintro (rfl | hmimics | hmimics)
    · rfl
    · exact text_of_mimics hmimics
    · exact (text_of_mimics hmimics).symm

/-- The snapshot `00001` of a volume and a volume of a resource that is named like the volume. -/
example : Mimics ⟨"r", 0, some "00001"⟩ ⟨"r_00000", 1, none⟩ :=
  ⟨"00001", none, rfl, by decide, by decide⟩

end VolumeName

/-! ## Volumes of a graph -/

/-- A volume with its layer and its resource. -/
structure PlacedVolume where
  resource : Resource
  node : LayerNode
  leaf : VolumeLeaf
  deriving DecidableEq, Repr

/-- The volume is one of the graph, and an object of a backend. -/
structure Graph.Backs (graph : Graph) (volume : PlacedVolume) : Prop where
  resource : volume.resource ∈ graph.resources.values
  stored : (volume.node, volume.leaf) ∈ volume.resource.tree.storageVolumes
  backed : volume.leaf.hasBackingObject = true

/-- The volume of a layer that has a number. -/
def LayerTree.volume? (tree : LayerTree) (id : LayerId) (number : UInt32) : Option VolumeLeaf :=
  (tree.get? id).bind (·.volumes.get? number)

namespace PlacedVolume

/-- Resource, layer and number. -/
def place (volume : PlacedVolume) : ResourceKey × LayerId × UInt32 :=
  (volume.resource.key, volume.node.id, volume.leaf.number)

def name (volume : PlacedVolume) : VolumeName where
  stem := volume.resource.key.resource ++ volume.node.suffix
  number := volume.leaf.number
  snapshot := volume.resource.key.snapshot

/-- The name under which a backend knows the volume. -/
def identifier (volume : PlacedVolume) : String :=
  volumeIdentifier volume.resource.key volume.node.suffix volume.leaf.number

theorem identifier_eq_text (volume : PlacedVolume) : volume.identifier = volume.name.text := by
  unfold identifier volumeIdentifier VolumeName.text name
  cases volume.resource.key.snapshot <;> simp [VolumeName.behind, String.append_assoc]

variable {doc : Document} {graph : Graph} {v w : PlacedVolume}

/-- A volume of a loaded graph is found at its place. -/
theorem found (hok : Graph.ofDocument doc = .ok graph) (h : graph.Backs v) :
    graph.resources.get? v.resource.key = some v.resource ∧
      v.resource.tree.get? v.node.id = some v.node ∧
      v.node.volumes.get? v.leaf.number = some v.leaf := by
  obtain ⟨hdoc, hloaded⟩ := Graph.loaded_ofDocument hok
  obtain ⟨key, hget⟩ := SortedMap.mem_values_iff.1 h.resource
  obtain ⟨_, _, _, -, hmade, -, -⟩ := hloaded.exists_grown hget
  have hkey : v.resource.key = key := congrArg Resource.key hmade
  obtain ⟨node, hnode, hleaf⟩ := List.mem_flatMap.1 h.stored
  obtain ⟨leaf, hvalue, hpair⟩ := List.mem_map.1 hleaf
  obtain ⟨rfl, rfl⟩ := Prod.mk.inj hpair
  have hmem := (List.mem_filter.1 hnode).1
  obtain ⟨number, hnumber⟩ := SortedMap.mem_values_iff.1 hvalue
  have hsettled := settled_of_loaded hdoc hloaded hget v.node hmem
  refine ⟨hkey ▸ hget, LayerTree.get?_of_mem (Resource.wellFormed_of_loaded hok h.resource).nodup hmem,
    ?_⟩
  rw [hsettled.numbered number v.leaf hnumber, hnumber]

/-- A volume of a loaded graph is told by its place. -/
theorem eq_iff_place (hok : Graph.ofDocument doc = .ok graph) (hv : graph.Backs v)
    (hw : graph.Backs w) : v = w ↔ v.place = w.place := by
  refine ⟨congrArg place, fun h => ?_⟩
  simp only [place, Prod.mk.injEq] at h
  obtain ⟨hkey, hid, hnumber⟩ := h
  obtain ⟨hresource, hnode, hleaf⟩ := found hok hv
  obtain ⟨hresource', hnode', hleaf'⟩ := found hok hw
  rw [hkey] at hresource
  cases v
  cases w
  obtain rfl := Option.some.inj (hresource.symm.trans hresource')
  dsimp only at hid
  rw [hid] at hnode
  obtain rfl := Option.some.inj (hnode.symm.trans hnode')
  dsimp only at hnumber
  rw [hnumber] at hleaf
  obtain rfl := Option.some.inj (hleaf.symm.trans hleaf')
  rfl

/-! ## What a volume is judged by -/

/-- A report makes the same of a volume, whatever the backend knows of other objects. -/
theorem observed_withFacts {ctx : MergeContext} {facts : FactsMap} {suffix : String}
    {number : UInt32} (h : facts.get? (volumeIdentifier ctx.key suffix number) =
      ctx.facts.get? (volumeIdentifier ctx.key suffix number)) (leaf : VolumeLeaf)
    (reported : ReportedVolume) :
    MergeContext.observed { ctx with facts } suffix number leaf reported =
      ctx.observed suffix number leaf reported := by
  have hobject : ∀ volume, MergeContext.object? { ctx with facts }
      (volumeIdentifier ctx.key suffix number) volume =
        ctx.object? (volumeIdentifier ctx.key suffix number) volume := fun volume => by
    rw [MergeContext.object?, MergeContext.object?, h]
  simp only [MergeContext.observed, MergeContext.sizeState?, hobject]

/-- A volume after a report that is accepted. -/
theorem volume?_take {resource : Resource} (h : resource.tree.WellFormed) {call : MergeCall}
    {merged : Merged} (hok : resource.take call = .ok merged) {id : LayerId} {node : LayerNode}
    (hget : resource.tree.get? id = some node) (number : UInt32) :
    merged.resource.tree.volume? id number = (node.volumes.get? number).map (fun leaf =>
      ((call.mention? resource.tree id number).map
        ((resource.contextOf call).observed node.suffix number leaf)).getD leaf) := by
  obtain ⟨hfit, hnext⟩ := (Resource.take_eq_ok_iff h).1 ⟨merged, hok, rfl⟩
  obtain ⟨after, hafter, -, hvolumes⟩ :=
    MergeContext.get?_observedTree (hfit.layers.nodup_spoken h) hget
  have htree : merged.resource.tree.get? id = some after := by rw [hnext]; exact hafter
  rw [LayerTree.volume?, htree]
  exact hvolumes number

/-- Two reports that differ only in what the backend knows of objects other than a volume's own make
the same of that volume. -/
theorem judged_alike (hok : Graph.ofDocument doc = .ok graph) (hv : graph.Backs v)
    {calls : List MergeCall} {call : MergeCall} {facts : FactsMap}
    (hfacts : facts.get? v.identifier = call.facts.get? v.identifier) {merged other : Merged}
    (hmerged : (v.resource.mergeAll calls).take call = .ok merged)
    (hother : (v.resource.mergeAll calls).take { call with facts } = .ok other) :
    other.resource.tree.volume? v.node.id v.leaf.number =
      merged.resource.tree.volume? v.node.id v.leaf.number := by
  have hwell := Resource.wellFormed_of_loaded hok hv.resource
  have hagrees : (v.resource.mergeAll calls).Agrees v.resource := Resource.mergeAll_agrees hwell.nodup
  obtain ⟨-, hnode, -⟩ := found hok hv
  -- the reports so far have left the key and the suffix as they were
  obtain ⟨node, hget, hauthored⟩ : ∃ node, (v.resource.mergeAll calls).tree.get? v.node.id = some node ∧
      node.authored = v.node.authored := by
    have hsame := congrArg (fun tree => tree.get? v.node.id) hagrees.tree
    simp only [LayerTree.get?_authored, hnode, Option.map_some] at hsame
    exact Option.map_eq_some_iff.1 hsame
  have hwell' := Resource.wellFormed_mergeAll hwell calls
  rw [volume?_take hwell' hmerged hget, volume?_take hwell' hother hget]
  refine Option.map_congr fun leaf _ => ?_
  have hsuffix := MergeContext.suffix_eq_of_authored hauthored
  have hname : volumeIdentifier ((v.resource.mergeAll calls).contextOf call).key node.suffix
      v.leaf.number = v.identifier := by
    rw [hsuffix]
    exact congrArg (fun key => volumeIdentifier key _ _) hagrees.key
  have hobserved : MergeContext.observed
      { (v.resource.mergeAll calls).contextOf call with facts } node.suffix v.leaf.number leaf =
        ((v.resource.mergeAll calls).contextOf call).observed node.suffix v.leaf.number leaf :=
    funext (observed_withFacts (hname ▸ hfacts) leaf)
  exact congrArg (fun after => (Option.map after _).getD leaf) hobserved

/-- In a loaded graph a place tells a volume, and the name in a backend tells it from those volumes
whose names do not meet its own: such a volume is never judged by what the backend knows of the other
one. -/
theorem named_apart (hok : Graph.ofDocument doc = .ok graph) (hv : graph.Backs v)
    (hw : graph.Backs w) :
    (v = w ↔ v.place = w.place) ∧
    (v.identifier = w.identifier ↔ v.name.Meets w.name) ∧
    (¬ v.name.Meets w.name → ∀ (calls : List MergeCall) (call : MergeCall) (facts : FactsMap),
      (∀ name, name ≠ w.identifier → facts.get? name = call.facts.get? name) →
      ∀ merged other, (v.resource.mergeAll calls).take call = .ok merged →
        (v.resource.mergeAll calls).take { call with facts } = .ok other →
        other.resource.tree.volume? v.node.id v.leaf.number =
          merged.resource.tree.volume? v.node.id v.leaf.number) := by
  have hmeets : v.identifier = w.identifier ↔ v.name.Meets w.name := by
    rw [identifier_eq_text, identifier_eq_text, VolumeName.text_eq_iff]
  refine ⟨eq_iff_place hok hv hw, hmeets, fun hapart calls call facts hfacts merged other => ?_⟩
  exact judged_alike hok hv (hfacts _ (fun h => hapart (hmeets.1 h)))

/-! ## A name that is shared -/

/-- The key of a resource whose layer has a suffix. -/
def splitKey : ResourceKey := { node := "n", resource := "r" }

/-- The key of a resource that is named like the other one with its suffix. -/
def wholeKey : ResourceKey := { node := "n", resource := "ra" }

/-- Two resources on a node, each with a storage layer: `r` with the suffix `a`, and `ra` without
one. -/
def crowdedDocument : Document where
  catalog := {
    definitions := [{ name := "d" }]
    resources := [{ key := splitKey, definition := "d" }, { key := wholeKey, definition := "d" }]
    pools := [{ key := ⟨"n", "p"⟩, provider := .lvm, extentSizeKib := 4 }] }
  layers := [
    { id := 1, kind := "STORAGE", suffix := "a", owner := splitKey },
    { id := 2, kind := "STORAGE", owner := wholeKey }]
  volumes := [
    { layer := 1, number := 0, expectedSizeKib := 16, payload := .storage "LVM" "p" false {} },
    { layer := 2, number := 0, expectedSizeKib := 8, payload := .storage "LVM" "p" false {} },
    { layer := 2, number := 1, expectedSizeKib := 8, payload := .storage "LVM" "p" false {} }]

def crowdedGraph : Graph := (Graph.ofDocument crowdedDocument).toOption.getD {}

/-- A volume of the two resources. -/
def crowdedVolume (key : ResourceKey) (id : LayerId) (number : UInt32) : PlacedVolume :=
  let resource := (crowdedGraph.resources.get? key).getD { key, definition := { name := "" } }
  let node := (resource.tree.get? id).getD default
  { resource, node, leaf := (node.volumes.get? number).getD default }

/-- The volume of `r`, and the two of `ra`. -/
def splitVolume : PlacedVolume := crowdedVolume splitKey 1 0
def wholeVolume : PlacedVolume := crowdedVolume wholeKey 2 0
def otherVolume : PlacedVolume := crowdedVolume wholeKey 2 1

/-- A report of `r`, with a backend that has an object of eight units. -/
def crowdedCall (object : String) : MergeCall where
  report := {
    node := some "n"
    resource := some "r"
    roots := [.mk
      { kind := some "STORAGE", suffix := some "a"
        volumes := [{ number := some 0, provider := some "LVM" }] } []] }
  facts := .ofList [(object, { present := true, sizeKib := 8 })]
  pools := crowdedGraph.pools
  tolerance := 2

theorem ofDocument_crowded : Graph.ofDocument crowdedDocument = .ok crowdedGraph := by decide

theorem backs_split : crowdedGraph.Backs splitVolume :=
  ⟨by decide, by decide, by decide⟩

theorem backs_whole : crowdedGraph.Backs wholeVolume :=
  ⟨by decide, by decide, by decide⟩

theorem backs_other : crowdedGraph.Backs otherVolume :=
  ⟨by decide, by decide, by decide⟩

/-- The volume of `r` and the first one of `ra` are at different places and have one name; a report of
`r` then finds the volume too small by the object of `ra`. -/
theorem name_shared :
    Graph.ofDocument crowdedDocument = .ok crowdedGraph ∧
      crowdedGraph.Backs splitVolume ∧ crowdedGraph.Backs wholeVolume ∧
      splitVolume.resource.key.node = wholeVolume.resource.key.node ∧
      splitVolume.place ≠ wholeVolume.place ∧ splitVolume.identifier = wholeVolume.identifier ∧
      (splitVolume.resource.take (crowdedCall wholeVolume.identifier)).toOption.map
          (fun merged => merged.summary.drift) =
        some [{ identifier := "ra_00000", state := .tooSmall, expectedKib := 16, actualKib := 8 }] :=
  ⟨ofDocument_crowded, backs_split, backs_whole, by decide, by decide,
    by decide, by cbv⟩

/-- The volume of `r` meets the first one of `ra` and not the second one, so it is the same with and
without an object of the second one. -/
theorem named_apart_crowded :
    Graph.ofDocument crowdedDocument = .ok crowdedGraph ∧
      crowdedGraph.Backs splitVolume ∧ crowdedGraph.Backs wholeVolume ∧
      crowdedGraph.Backs otherVolume ∧ splitVolume ≠ wholeVolume ∧
      splitVolume.name.Meets wholeVolume.name ∧ ¬ splitVolume.name.Meets otherVolume.name ∧
      ∃ merged other, (splitVolume.resource.mergeAll []).take (crowdedCall "x") = .ok merged ∧
        (splitVolume.resource.mergeAll []).take { crowdedCall "x" with
          facts := (crowdedCall "x").facts.insert "ra_00001" { present := true } } = .ok other ∧
        other.resource.tree.volume? 1 0 = merged.resource.tree.volume? 1 0 := by
  have hwhole := named_apart ofDocument_crowded backs_split backs_whole
  have hother := named_apart ofDocument_crowded backs_split backs_other
  have hapart : ¬ splitVolume.name.Meets otherVolume.name :=
    fun h => absurd (hother.2.1.2 h) (by decide)
  obtain ⟨merged, hmerged⟩ := Resource.exists_of_isSome
    (show ((splitVolume.resource.mergeAll []).take (crowdedCall "x")).toOption.isSome = true by cbv)
  obtain ⟨other, htaken⟩ := Resource.exists_of_isSome
    (show ((splitVolume.resource.mergeAll []).take { crowdedCall "x" with
      facts := (crowdedCall "x").facts.insert "ra_00001" { present := true } }).toOption.isSome = true
      by cbv)
  refine ⟨ofDocument_crowded, backs_split, backs_whole, backs_other,
    fun h => absurd (hwhole.1.1 h) (by decide), hwhole.2.1.1 (by decide), hapart,
    merged, other, hmerged, htaken, ?_⟩
  have hfacts : ∀ name, name ≠ otherVolume.identifier →
      ((crowdedCall "x").facts.insert "ra_00001" { present := true }).get? name =
        (crowdedCall "x").facts.get? name := fun name hne =>
    SortedMap.get?_insert_of_ne _ _
      (fun h => hne (h.trans (show "ra_00001" = otherVolume.identifier by decide)))
  exact hother.2.2 hapart [] _ _ hfacts merged other hmerged htaken

end PlacedVolume
end BlockStack
