import BlockStack.Proofs.Summary

/-!
# BlockStack.Proofs.Tolerance

Verdicts on sizes against exact sums and products.

* `Sizes.toNat_band`: where the tolerated overshoot ends, at the latest at the largest 64-bit number.
* `Sizes.IsCut`: the one size that is below the exact end and still not tolerated.
* `Sizes.Judged`: when a size gets which verdict. `Sizes.Outside`: the sizes that operators should
  see.
* `Drift.Due`: an entry of a summary is due. `Resource.sizes_judged`: all verdicts are exact but for
  the size that is cut, and so are the entries of each report that is accepted.
-/

namespace BlockStack

namespace Sizes

variable {expected actual extent tolerance : UInt64}

/-! ## Verdicts -/

/-- A size is the largest 64-bit number, and the exact end of the band lies beyond it. -/
def IsCut (expected actual extent tolerance : UInt64) : Prop :=
  expected.toNat < actual.toNat ∧ actual.toNat = UInt64.size - 1 ∧
    actual.toNat < expected.toNat + extent.toNat * tolerance.toNat

instance : Decidable (IsCut expected actual extent tolerance) :=
  inferInstanceAs (Decidable (_ ∧ _ ∧ _))

theorem toNat_band (expected extent tolerance : UInt64) :
    (add expected (mul extent tolerance)).toNat =
      min (expected.toNat + extent.toNat * tolerance.toNat) (UInt64.size - 1) := by
  rw [toNat_add, toNat_mul]
  omega

/-- A size is below the end of the band if it is below the exact end and is not cut. -/
theorem lt_band_iff (h : expected < actual) :
    actual < add expected (mul extent tolerance) ↔
      actual.toNat < expected.toNat + extent.toNat * tolerance.toNat ∧
        ¬ IsCut expected actual extent tolerance := by
  have hlarger := UInt64.lt_iff_toNat_lt.1 h
  have hbound := actual.toNat_lt_size
  -- an end beyond all sizes becomes the largest size, which is not below itself
  rw [UInt64.lt_iff_toNat_lt, toNat_band, IsCut]
  omega

theorem classify_of_lt (h : actual < expected) :
    classify expected actual extent tolerance = .tooSmall := by
  rw [classify, if_neg (UInt64.ne_of_lt h), if_pos h]

theorem classify_self : classify expected expected extent tolerance = .asExpected :=
  if_pos rfl

theorem classify_of_gt (h : expected < actual) :
    classify expected actual extent tolerance =
      if actual < add expected (mul extent tolerance) then .tooLargeWithinTolerance
      else .tooLarge := by
  rw [classify, if_neg (UInt64.ne_of_lt h).symm, if_neg (UInt64.lt_asymm h)]

/-- When a size gets which verdict. -/
structure Judged (expected actual extent tolerance : UInt64) : Prop where
  tooSmall : classify expected actual extent tolerance = .tooSmall ↔ actual.toNat < expected.toNat
  asExpected : classify expected actual extent tolerance = .asExpected ↔
    actual.toNat = expected.toNat
  tolerated : classify expected actual extent tolerance = .tooLargeWithinTolerance ↔
    expected.toNat < actual.toNat ∧
      actual.toNat < expected.toNat + extent.toNat * tolerance.toNat ∧
      ¬ IsCut expected actual extent tolerance
  tooLarge : classify expected actual extent tolerance = .tooLarge ↔
    expected.toNat < actual.toNat ∧
      (expected.toNat + extent.toNat * tolerance.toNat ≤ actual.toNat ∨
        IsCut expected actual extent tolerance)

theorem judged (expected actual extent tolerance : UInt64) :
    Judged expected actual extent tolerance := by
  rcases Nat.lt_trichotomy actual.toNat expected.toNat with hless | hsame | hmore
  · have hverdict := @classify_of_lt _ _ extent tolerance (UInt64.lt_iff_toNat_lt.2 hless)
    constructor <;> rw [hverdict] <;> simp <;> omega
  · obtain rfl := UInt64.toNat_inj.1 hsame
    constructor <;> rw [classify_self] <;> simp
  · have hlarger := UInt64.lt_iff_toNat_lt.2 hmore
    have hverdict := @classify_of_gt _ _ extent tolerance hlarger
    have hband := @lt_band_iff _ _ extent tolerance hlarger
    by_cases hinside : actual < add expected (mul extent tolerance)
    · obtain ⟨hbelow, hcut⟩ := hband.1 hinside
      rw [if_pos hinside] at hverdict
      constructor <;> rw [hverdict] <;> simp [hcut] <;> omega
    · have houtside : actual.toNat < expected.toNat + extent.toNat * tolerance.toNat →
          IsCut expected actual extent tolerance := fun hbelow =>
        Decidable.by_contra fun hcut => hinside (hband.2 ⟨hbelow, hcut⟩)
      rw [if_neg hinside] at hverdict
      refine ⟨?_, ?_, ?_, ?_⟩ <;> rw [hverdict] <;> simp only [reduceCtorEq, false_iff, true_iff]
      · omega
      · omega
      · exact fun ⟨_, hbelow, hcut⟩ => hcut (houtside hbelow)
      · exact ⟨hmore, (Nat.lt_or_ge _ _).symm.imp_right houtside⟩

/-- An overshoot of one KiB, with twelve tolerated. -/
theorem largest_not_tolerated :
    let expected : UInt64 := 18446744073709551614
    let actual : UInt64 := 18446744073709551615
    expected.toNat < actual.toNat ∧ actual.toNat < expected.toNat + 4 * 3 ∧
      classify expected actual 4 3 = .tooLarge := by
  decide

/-- A size is less than the expected one, or larger and not below the exact end of the band, or
cut. -/
def Outside (expected actual extent tolerance : UInt64) : Prop :=
  actual.toNat < expected.toNat ∨
    expected.toNat < actual.toNat ∧
      expected.toNat + extent.toNat * tolerance.toNat ≤ actual.toNat ∨
    IsCut expected actual extent tolerance

/-- The sizes that operators should see. -/
theorem isDrift_classify_iff :
    (classify expected actual extent tolerance).isDrift = true ↔
      Outside expected actual extent tolerance := by
  have h := judged expected actual extent tolerance
  cases hverdict : classify expected actual extent tolerance with
  | tooSmall => exact iff_of_true rfl (.inl (h.tooSmall.1 hverdict))
  | asExpected =>
    have hsame := h.asExpected.1 hverdict
    refine iff_of_false Bool.false_ne_true ?_
    rintro (hless | ⟨hmore, -⟩ | ⟨hmore, -⟩) <;> omega
  | tooLargeWithinTolerance =>
    obtain ⟨hmore, hbelow, hinside⟩ := h.tolerated.1 hverdict
    refine iff_of_false Bool.false_ne_true ?_
    rintro (hless | ⟨-, hbeyond⟩ | hcut)
    · omega
    · omega
    · exact hinside hcut
  | tooLarge =>
    obtain ⟨hmore, houtside⟩ := h.tooLarge.1 hverdict
    exact iff_of_true rfl (.inr (houtside.imp_left (And.intro hmore)))

end Sizes

/-! ## Reports -/

/-- An entry of a summary is due: the backend has the object of a volume of the resource, in the size
of the entry, the entry has the verdict on it, by the extents of the pool, and the size is one that
operators should see. -/
inductive Drift.Due (resource : Resource) (call : MergeCall) (entry : Drift) : Prop where
  | mk {node : LayerNode} {number : UInt32} {leaf : VolumeLeaf} {volume : StorageVolume}
      {pool : StoragePool} {object : ObjectFacts} :
      node ∈ resource.tree.nodes → node.volumes.get? number = some leaf →
      leaf.data = .storage volume →
      call.pools.get? ⟨resource.key.node, volume.pool⟩ = some pool →
      entry.identifier = volumeIdentifier resource.key node.suffix number →
      call.facts.get? entry.identifier = some object → object.present = true →
      entry.actualKib = object.sizeKib → entry.expectedKib = leaf.expectedSizeKib →
      entry.state =
        Sizes.classify entry.expectedKib entry.actualKib pool.extentSizeKib call.tolerance →
      Sizes.Outside entry.expectedKib entry.actualKib pool.extentSizeKib call.tolerance →
      Due resource call entry

theorem VolumeLeaf.data_of_storage? {leaf : VolumeLeaf} {volume : StorageVolume}
    (h : leaf.storage? = some volume) : leaf.data = .storage volume := by
  unfold storage? at h
  cases hdata : leaf.data with
  | storage found =>
    rw [hdata] at h
    rw [Option.some.inj h]
  | replication _ | encryption _ _ | remoteAttach =>
    rw [hdata] at h
    cases h

theorem MergeContext.drift?_eq_some {ctx : MergeContext} {suffix : String} {number : UInt32}
    {leaf : VolumeLeaf} {entry : Drift} (h : ctx.drift? suffix number leaf = some entry) :
    ∃ volume pool object, leaf.data = .storage volume ∧
      ctx.pools.get? ⟨ctx.key.node, volume.pool⟩ = some pool ∧
      entry.identifier = volumeIdentifier ctx.key suffix number ∧
      ctx.facts.get? entry.identifier = some object ∧ object.present = true ∧
      entry.actualKib = object.sizeKib ∧ entry.expectedKib = leaf.expectedSizeKib ∧
      entry.state =
        Sizes.classify entry.expectedKib entry.actualKib pool.extentSizeKib ctx.tolerance ∧
      entry.state.isDrift = true := by
  obtain ⟨volume, hvolume, h⟩ := Option.bind_eq_some_iff.1 h
  obtain ⟨object, hobject, h⟩ := Option.bind_eq_some_iff.1 h
  obtain ⟨state, hstate, h⟩ := Option.bind_eq_some_iff.1 h
  rw [sizeState?, hobject, Option.bind_some] at hstate
  obtain ⟨pool, hpool, rfl⟩ := Option.map_eq_some_iff.1 hstate
  split at h
  · rename_i hdrift
    cases h
    obtain ⟨hfacts, hpresent⟩ := facts_of_object? hobject
    exact ⟨volume, pool, object, VolumeLeaf.data_of_storage? hvolume, hpool, rfl, hfacts, hpresent,
      rfl, rfl, rfl, hdrift⟩
  · cases h

namespace Resource

variable {resource : Resource} {call : MergeCall} {merged : Merged}

theorem take_due (h : resource.tree.WellFormed) (hok : resource.take call = .ok merged) :
    ∀ entry ∈ merged.summary.drift, entry.Due resource call := by
  intro entry hentry
  rw [take_drift h hok] at hentry
  obtain ⟨⟨id, number⟩, -, hplace⟩ := List.mem_filterMap.1 hentry
  obtain ⟨node, hnode, hplace⟩ := Option.bind_eq_some_iff.1 hplace
  obtain ⟨leaf, hleaf, hplace⟩ := Option.bind_eq_some_iff.1 hplace
  obtain ⟨volume, pool, object, hdata, hpool, hname, hfacts, hpresent, hactual, hexpected, hstate,
    hdrift⟩ := MergeContext.drift?_eq_some hplace
  rw [hstate] at hdrift
  exact .mk (LayerTree.mem_of_get? hnode) hleaf hdata hpool hname hfacts hpresent hactual hexpected
    hstate (Sizes.isDrift_classify_iff.1 hdrift)

/-- Verdicts on sizes are those of exact sums and products but for the size that is cut, and the
reports that a loaded resource accepts list no other size that is tolerated. -/
theorem sizes_judged (expected actual extent tolerance : UInt64) :
    Sizes.Judged expected actual extent tolerance ∧
      ∀ (doc : Document) (graph : Graph), Graph.ofDocument doc = .ok graph →
        ∀ resource ∈ graph.resources.values, ∀ (calls : List MergeCall) (call : MergeCall)
          (merged : Merged), (resource.mergeAll calls).take call = .ok merged →
            ∀ entry ∈ merged.summary.drift, entry.Due (resource.mergeAll calls) call :=
  ⟨Sizes.judged .., fun _ _ hok _ hmem calls _ _ htake =>
    take_due (sound_of_mem hok hmem calls).2 htake⟩

/-- A volume has the largest size, in a band that goes beyond it, and is listed. -/
theorem sizes_judged_largest :
    let largest : UInt64 := 18446744073709551615
    let call := { pairCall with
      facts := .ofList [("r_00000", { present := true, sizeKib := largest })]
      tolerance := 4611686018427387904 }
    Sizes.Judged 8 largest 4 call.tolerance ∧
      ∃ merged, (pair.mergeAll [pairCall]).take call = .ok merged ∧
        merged.summary.drift = [{
          identifier := "r_00000"
          state := .tooLarge
          expectedKib := 8
          actualKib := largest }] ∧
        ∀ entry ∈ merged.summary.drift, entry.Due (pair.mergeAll [pairCall]) call := by
  intro largest call
  obtain ⟨merged, htake, hsummary⟩ := exists_of_summary
    (show ((pair.mergeAll [pairCall]).take call).toOption.map (·.summary) = some {
      merged := 2
      changed := 1
      drift := [{
        identifier := "r_00000"
        state := .tooLarge
        expectedKib := 8
        actualKib := largest }] } by cbv)
  obtain ⟨hjudged, hdue⟩ := sizes_judged 8 largest 4 call.tolerance
  exact ⟨hjudged, merged, htake, by rw [hsummary],
    hdue _ _ ofDocument_pair pair pair_mem [pairCall] call merged htake⟩

end Resource
end BlockStack
