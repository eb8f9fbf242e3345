import BlockStack.Merge
import Mathlib.Data.List.Nodup

/-!
# BlockStack.Proofs.Observation

What a reported layer says of a layer, without the order in which a merge looks at its volumes.

* `VolumeLeaf.authored`, `LayerNode.authored`: what no report changes.
* `MergeContext.observed`: a volume after a report, field by field.
* `MergeContext.FitsLayer`: when a reported layer fits a layer.
* `MergeContext.mergeNode_eq_ok_iff`: a merge takes a reported layer in exactly if it fits, and then
  observes the volumes that are reported.
-/

namespace BlockStack

/-! ## What no report changes -/

/-- Volume data without what a satellite observes. -/
def VolumeData.authored : VolumeData → VolumeData
  | .replication _ => .replication none
  | .encryption _ _ => .encryption none false
  | .remoteAttach => .remoteAttach
  | .storage volume => .storage {
      provider := volume.provider
      pool := volume.pool
      attributes := .none
      present := false
      sizeState := none }

/-- A volume without what a satellite observes. -/
def VolumeLeaf.authored (leaf : VolumeLeaf) : VolumeLeaf :=
  { leaf with facts := {}, data := leaf.data.authored }

/-- A layer without what a satellite observes of its volumes. -/
def LayerNode.authored (node : LayerNode) : LayerNode :=
  { node with volumes := node.volumes.mapValues (fun _ leaf => leaf.authored) }

@[simp] theorem VolumeData.kind_authored (data : VolumeData) : data.authored.kind = data.kind := by
  cases data <;> rfl

@[simp] theorem VolumeLeaf.number_authored (leaf : VolumeLeaf) :
    leaf.authored.number = leaf.number := rfl

@[simp] theorem LayerNode.kind_authored (node : LayerNode) : node.authored.kind = node.kind := rfl

@[simp] theorem LayerNode.suffix_authored (node : LayerNode) :
    node.authored.suffix = node.suffix := rfl

/-! ## Pools -/

/-- The pool of a storage volume on a node, with the provider of the volume, is one that is wanted. -/
def VolumeLeaf.PoolIn (host : String) (wanted : PoolKey → ProviderKind → Prop) (leaf : VolumeLeaf) :
    Prop :=
  ∀ volume, leaf.data = .storage volume → wanted ⟨host, volume.pool⟩ volume.provider

/-- The pools of all volumes of a layer are wanted. -/
def PoolsIn (host : String) (wanted : PoolKey → ProviderKind → Prop)
    (volumes : SortedMap UInt32 VolumeLeaf) : Prop :=
  ∀ number leaf, volumes.get? number = some leaf → leaf.PoolIn host wanted

/-- Volumes with the same authored part are in one pool, with one provider. -/
theorem VolumeLeaf.PoolIn.congr {host : String} {wanted : PoolKey → ProviderKind → Prop}
    {a b : VolumeLeaf} (ha : a.PoolIn host wanted) (h : b.authored = a.authored) :
    b.PoolIn host wanted := by
  intro volume hdata
  have hsame := congrArg VolumeLeaf.data h
  simp only [VolumeLeaf.authored, hdata] at hsame
  cases hother : a.data with
  | storage other =>
    simp only [hother, VolumeData.authored, VolumeData.storage.injEq, StorageVolume.mk.injEq] at hsame
    rw [hsame.1, hsame.2.1]
    exact ha other hother
  | replication _ | encryption _ _ | remoteAttach =>
    simp only [hother, VolumeData.authored] at hsame
    cases hsame

namespace MergeContext

variable {ctx : MergeContext}

/-! ## One volume -/

/-- The object behind a storage volume, if its provider has objects and the backend has this one. -/
def object? (ctx : MergeContext) (identifier : String) (volume : StorageVolume) :
    Option ObjectFacts :=
  if volume.provider.hasBackingObject then
    (ctx.facts.get? identifier).filter (·.present)
  else none

/-- How the size of the object behind a storage volume compares, by the extents of its pool. -/
def sizeState? (ctx : MergeContext) (identifier : String) (expected : UInt64)
    (volume : StorageVolume) : Option SizeState :=
  (ctx.object? identifier volume).bind (fun object =>
    (ctx.pools.get? ⟨ctx.key.node, volume.pool⟩).map (fun pool =>
      Sizes.classify expected object.sizeKib pool.extentSizeKib ctx.tolerance))

/-- A volume after a report of it under a number, on a layer with a suffix. -/
def observed (ctx : MergeContext) (suffix : String) (number : UInt32) (leaf : VolumeLeaf)
    (reported : ReportedVolume) : VolumeLeaf where
  number := leaf.number
  expectedSizeKib := leaf.expectedSizeKib
  facts := {
    devicePath := reported.facts.devicePath
    allocatedSizeKib := reported.facts.allocatedSizeKib
    usableSizeKib := reported.facts.usableSizeKib
    diskState :=
      if leaf.data.kind = .storage then leaf.facts.diskState else reported.facts.diskState }
  data :=
    match leaf.data with
    | .replication _ => .replication reported.metaDiskPath
    | .encryption _ _ => .encryption reported.backingDevice (reported.isOpen.getD false)
    | .remoteAttach => .remoteAttach
    | .storage volume =>
      let identifier := volumeIdentifier ctx.key suffix number
      .storage {
        provider := volume.provider
        pool := volume.pool
        attributes := .ofFields volume.provider reported.attributes
        present := (ctx.object? identifier volume).isSome
        sizeState := ctx.sizeState? identifier leaf.expectedSizeKib volume }

/-- A volume that is reported under a number fits: on a storage layer it names the provider, and the
pool of an object that the backend has is known. -/
def FitsVolume (ctx : MergeContext) (suffix : String) (number : UInt32) (leaf : VolumeLeaf)
    (reported : ReportedVolume) : Prop :=
  ∀ volume, leaf.data = .storage volume → reported.provider = some volume.provider.name ∧
    ∀ object, ctx.object? (volumeIdentifier ctx.key suffix number) volume = some object →
      (⟨ctx.key.node, volume.pool⟩ : PoolKey) ∈ ctx.pools.keys

/-- The faults of a merge: something that the report names is not there, a volume that has to be
reported is not, or a pool is not indexed. -/
def Refuses (ctx : MergeContext) : Fault → Prop
  | .unknownObject text _ => text = ctx.key.text
  | .missingVolume text _ _ => text = ctx.key.text
  | .internal message => ∃ key : PoolKey, ctx.pools.get? key = none ∧
      message = s!"storage pool {key.text} is not indexed"
  | _ => False

/-- The faults inside of a merge, where a field may be missing. -/
def Ends (ctx : MergeContext) (fault : Fault) : Prop :=
  ctx.Refuses fault ∨ ∃ field, fault = .missingField field

/-- A fault inside of a merge; if it is that a pool is not indexed, the pool is one that is wanted. -/
structure EndsWanting (ctx : MergeContext) (wanted : PoolKey → ProviderKind → Prop) (fault : Fault) :
    Prop where
  ends : ctx.Ends fault
  lacks : ∀ message, fault = .internal message →
    ∃ key provider, wanted key provider ∧ ctx.pools.get? key = none

variable {wanted : PoolKey → ProviderKind → Prop}

theorem ends_unknown (cause : Discrepancy) : ctx.EndsWanting wanted (ctx.unknown cause) :=
  ⟨.inl rfl, fun _ h => nomatch h⟩

theorem require_eq_ok_iff {α : Type} {field : String} {value : Option α} {a : α} :
    require field value = .ok a ↔ value = some a := by
  cases value <;> simp [require]

theorem require_fault {α : Type} {field : String} {value : Option α} {fault : Fault}
    (h : require field value = .error fault) : ctx.EndsWanting wanted fault := by
  cases value <;> cases h
  exact ⟨.inr ⟨field, rfl⟩, fun _ h => nomatch h⟩

theorem checkProvider_eq_ok_iff {identifier : String} {volume : StorageVolume}
    {reported : ReportedVolume} :
    ctx.checkProvider identifier volume reported = .ok () ↔
      reported.provider = some volume.provider.name := by
  unfold checkProvider
  cases hname : reported.provider with
  | none => simp [require]
  | some name =>
    simp only [require, Option.some.injEq]
    cases hkind : ProviderKind.ofName? name with
    | none =>
      simp only [reduceCtorEq, false_iff]
      rintro rfl
      rw [ProviderKind.ofName?_name] at hkind
      cases hkind
    | some kind =>
      rw [ProviderKind.ofName?_eq_some_iff] at hkind
      subst hkind
      by_cases hk : kind = volume.provider
      · simp [hk]
      · simp only [hk, if_false, reduceCtorEq, false_iff]
        intro he
        have := ProviderKind.ofName?_name kind
        rw [he, ProviderKind.ofName?_name] at this
        exact hk (Option.some.inj this).symm

theorem checkProvider_fault {identifier : String} {volume : StorageVolume}
    {reported : ReportedVolume} {fault : Fault}
    (h : ctx.checkProvider identifier volume reported = .error fault) :
    ctx.EndsWanting wanted fault := by
  unfold checkProvider at h
  split at h
  · rename_i hf
    cases h
    exact require_fault hf
  · repeat' split at h
    all_goals cases h
    all_goals exact ends_unknown _

/-- What a merge looks up is the object with its verdict; it fails only for an object in a pool that
is not indexed. -/
theorem lookUp_eq {identifier : String} {expected : UInt64} {volume : StorageVolume} :
    ctx.lookUp identifier expected volume =
      match ctx.object? identifier volume with
      | none => .ok none
      | some object =>
        match ctx.pools.get? ⟨ctx.key.node, volume.pool⟩ with
        | none => .error (.internal
            s!"storage pool {PoolKey.text ⟨ctx.key.node, volume.pool⟩} is not indexed")
        | some pool =>
          .ok (some (Sizes.classify expected object.sizeKib pool.extentSizeKib ctx.tolerance,
            object.sizeKib)) := by
  unfold lookUp object?
  by_cases hb : volume.provider.hasBackingObject = true
  · cases hf : ctx.facts.get? identifier with
    | none => simp [hb]
    | some facts =>
      by_cases hp : facts.present = true
      · cases hpool : ctx.pools.get? ⟨ctx.key.node, volume.pool⟩ <;>
          simp [hb, hp, hpool, Option.filter]
      · simp [hb, hp, Option.filter]
  · simp [hb]

theorem observeStorage_eq_ok_iff {identifier : String} {expected : UInt64}
    {volume next : StorageVolume} {reported : ReportedVolume} :
    (∃ drift, ctx.observeStorage identifier expected volume reported = .ok (next, drift)) ↔
      (reported.provider = some volume.provider.name ∧
        ∀ object, ctx.object? identifier volume = some object →
          (⟨ctx.key.node, volume.pool⟩ : PoolKey) ∈ ctx.pools.keys) ∧
      next = {
        provider := volume.provider
        pool := volume.pool
        attributes := .ofFields volume.provider reported.attributes
        present := (ctx.object? identifier volume).isSome
        sizeState := ctx.sizeState? identifier expected volume } := by
  rw [← @checkProvider_eq_ok_iff ctx identifier]
  unfold observeStorage
  cases hcheck : ctx.checkProvider identifier volume reported with
  | error fault => simp
  | ok _ =>
    rw [lookUp_eq]
    cases hobj : ctx.object? identifier volume with
    | none => simp [sizeState?, hobj, eq_comm]
    | some object =>
      simp only [SortedMap.mem_keys_iff]
      cases hpool : ctx.pools.get? ⟨ctx.key.node, volume.pool⟩ with
      | none => simp
      | some pool => simp [sizeState?, hobj, hpool, eq_comm]

theorem observeStorage_fault {identifier : String} {expected : UInt64} {volume : StorageVolume}
    {reported : ReportedVolume} {fault : Fault}
    (hwant : wanted ⟨ctx.key.node, volume.pool⟩ volume.provider)
    (h : ctx.observeStorage identifier expected volume reported = .error fault) :
    ctx.EndsWanting wanted fault := by
  unfold observeStorage at h
  split at h
  · rename_i hf
    cases h
    exact checkProvider_fault hf
  · rw [lookUp_eq] at h
    split at h
    · rename_i hf
      cases h
      split at hf
      · cases hf
      · split at hf
        · rename_i hpool
          cases hf
          exact ⟨.inl ⟨_, hpool, rfl⟩, fun _ _ => ⟨_, _, hwant, hpool⟩⟩
        · cases hf
    · cases h

/-- A merge observes a volume exactly if the reported volume fits. -/
theorem observe_eq_ok_iff {suffix : String} {number : UInt32} {leaf next : VolumeLeaf}
    {reported : ReportedVolume} :
    (∃ drift, ctx.observe suffix number leaf reported = .ok (next, drift)) ↔
      ctx.FitsVolume suffix number leaf reported ∧
        next = ctx.observed suffix number leaf reported := by
  unfold observe FitsVolume observed
  cases hdata : leaf.data with
  | storage volume =>
    have key := @observeStorage_eq_ok_iff ctx (volumeIdentifier ctx.key suffix number)
      leaf.expectedSizeKib volume
    simp only [VolumeData.storage.injEq, forall_eq', VolumeData.kind, if_true]
    constructor
    · rintro ⟨drift, h⟩
      split at h
      · cases h
      · rename_i hok
        cases h
        obtain ⟨hfit, rfl⟩ := key.1 ⟨_, hok⟩
        exact ⟨hfit, rfl⟩
    · rintro ⟨hfit, rfl⟩
      obtain ⟨drift, hok⟩ := key.2 ⟨hfit, rfl⟩
      exact ⟨drift, by rw [hok]⟩
  | replication _ | encryption _ _ | remoteAttach =>
    simp [VolumeData.kind, eq_comm]

theorem observe_fault {suffix : String} {number : UInt32} {leaf : VolumeLeaf}
    {reported : ReportedVolume} {fault : Fault} (hwant : leaf.PoolIn ctx.key.node wanted)
    (h : ctx.observe suffix number leaf reported = .error fault) : ctx.EndsWanting wanted fault := by
  unfold observe at h
  split at h
  · cases h
  · cases h
  · cases h
  · rename_i volume hdata
    dsimp only at h
    split at h
    · rename_i hf
      cases h
      exact observeStorage_fault (hwant volume hdata) hf
    · cases h

theorem observed_authored (suffix : String) (number : UInt32) (leaf : VolumeLeaf)
    (reported : ReportedVolume) :
    (ctx.observed suffix number leaf reported).authored = leaf.authored := by
  cases hdata : leaf.data <;>
    simp [observed, VolumeLeaf.authored, VolumeData.authored, hdata]

/-! ## The volumes of a layer -/

/-- Reported volumes fit volumes by number: each number is one of a volume, and comes up once. -/
structure FitsVolumes (ctx : MergeContext) (suffix : String) (volumes : SortedMap UInt32 VolumeLeaf)
    (reported : List ReportedVolume) : Prop where
  each : ∀ r ∈ reported, ∃ number leaf, r.number = some number ∧
    volumes.get? number = some leaf ∧ ctx.FitsVolume suffix number leaf r
  distinct : (reported.map (·.number)).Nodup

/-- What a list of reported volumes has under a number. -/
def reportOf? (reported : List ReportedVolume) (number : UInt32) : Option ReportedVolume :=
  reported.find? (fun r => r.number = some number)

/-- Volumes after a report of some of them. -/
def observedVolumes (ctx : MergeContext) (suffix : String) (volumes : SortedMap UInt32 VolumeLeaf)
    (reported : List ReportedVolume) : SortedMap UInt32 VolumeLeaf :=
  volumes.mapValues (fun number leaf =>
    ((reportOf? reported number).map (ctx.observed suffix number leaf)).getD leaf)

theorem reportOf?_eq_none_iff {reported : List ReportedVolume} {number : UInt32} :
    reportOf? reported number = none ↔ ∀ r ∈ reported, r.number ≠ some number := by
  simp [reportOf?]

theorem observedVolumes_nil {suffix : String} {volumes : SortedMap UInt32 VolumeLeaf} :
    ctx.observedVolumes suffix volumes [] = volumes :=
  SortedMap.ext_get? fun number => by simp [observedVolumes, reportOf?]

/-- The first of some reported volumes is observed before the others. -/
theorem observedVolumes_cons {suffix : String} {volumes : SortedMap UInt32 VolumeLeaf}
    {first : ReportedVolume} {rest : List ReportedVolume} {number : UInt32} {leaf : VolumeLeaf}
    (hnumber : first.number = some number) (hleaf : volumes.get? number = some leaf)
    (hnew : ∀ r ∈ rest, r.number ≠ some number) :
    ctx.observedVolumes suffix (volumes.modify number (fun _ => ctx.observed suffix number leaf first)) rest =
      ctx.observedVolumes suffix volumes (first :: rest) := by
  refine SortedMap.ext_get? fun other => ?_
  simp only [observedVolumes, SortedMap.get?_mapValues]
  by_cases ho : other = number
  · subst ho
    rw [SortedMap.get?_modify_self, hleaf, reportOf?_eq_none_iff.2 hnew]
    simp [reportOf?, hnumber]
  · have ho' : ¬ number = other := fun e => ho e.symm
    rw [SortedMap.get?_modify_of_ne _ _ ho]
    simp [reportOf?, hnumber, ho']

theorem fitsVolumes_cons {suffix : String} {volumes : SortedMap UInt32 VolumeLeaf}
    {first : ReportedVolume} {rest : List ReportedVolume} {number : UInt32} {leaf next : VolumeLeaf}
    (hnumber : first.number = some number) (hleaf : volumes.get? number = some leaf)
    (hnew : ∀ r ∈ rest, r.number ≠ some number) :
    ctx.FitsVolumes suffix volumes (first :: rest) ↔ ctx.FitsVolume suffix number leaf first ∧
      ctx.FitsVolumes suffix (volumes.modify number (fun _ => next)) rest := by
  have same : ∀ r ∈ rest, ∀ n, r.number = some n →
      (volumes.modify number (fun _ => next)).get? n = volumes.get? n := by
    intro r hr n hn
    refine SortedMap.get?_modify_of_ne _ _ fun he => hnew r hr ?_
    rw [hn, he]
  constructor
  · intro h
    obtain ⟨n, l, hn, hl, hfit⟩ := h.each first List.mem_cons_self
    rw [hnumber] at hn
    cases hn
    rw [hleaf] at hl
    cases hl
    refine ⟨hfit, fun r hr => ?_, (List.nodup_cons.1 h.distinct).2⟩
    obtain ⟨n, l, hn, hl, hf⟩ := h.each r (List.mem_cons_of_mem _ hr)
    exact ⟨n, l, hn, by rw [same r hr n hn, hl], hf⟩
  · rintro ⟨hfit, h⟩
    refine ⟨List.forall_mem_cons.2 ⟨⟨number, leaf, hnumber, hleaf, hfit⟩, fun r hr => ?_⟩, ?_⟩
    · obtain ⟨n, l, hn, hl, hf⟩ := h.each r hr
      exact ⟨n, l, hn, by rw [← same r hr n hn, hl], hf⟩
    · rw [List.map_cons, List.nodup_cons, hnumber]
      refine ⟨fun hm => ?_, h.distinct⟩
      obtain ⟨r, hr, he⟩ := List.mem_map.1 hm
      exact hnew r hr he

/-- A merge takes reported volumes in exactly if they fit, and then observes them; `seen` are the
numbers that came before. -/
theorem mergeVolumes_eq_ok_iff {node : LayerNode} {reported : List ReportedVolume} :
    ∀ {seen : List UInt32} {volumes next : SortedMap UInt32 VolumeLeaf} {summary : MergeSummary},
    (∃ after, ctx.mergeVolumes node seen volumes summary reported = .ok (next, after)) ↔
      ctx.FitsVolumes node.suffix volumes reported ∧
      (∀ r ∈ reported, ∀ number ∈ seen, r.number ≠ some number) ∧
      next = ctx.observedVolumes node.suffix volumes reported := by
  induction reported with
  | nil =>
    intro seen volumes next summary
    have hfit : ctx.FitsVolumes node.suffix volumes [] := ⟨by simp, by simp⟩
    simp [mergeVolumes, observedVolumes_nil, hfit, eq_comm]
  | cons first rest ih =>
    intro seen volumes next summary
    simp only [mergeVolumes]
    cases hnumber : first.number with
    | none =>
      simp only [require, reduceCtorEq, exists_false, false_iff]
      rintro ⟨h, -⟩
      obtain ⟨n, l, hn, -⟩ := h.each first List.mem_cons_self
      rw [hnumber] at hn
      cases hn
    | some number =>
      simp only [require]
      cases hleaf : volumes.get? number with
      | none =>
        simp only [reduceCtorEq, exists_false, false_iff]
        rintro ⟨h, -⟩
        obtain ⟨n, l, hn, hl, -⟩ := h.each first List.mem_cons_self
        rw [hnumber] at hn
        cases hn
        rw [hleaf] at hl
        cases hl
      | some leaf =>
        by_cases hseen : number ∈ seen
        · simp only [List.contains_eq_mem, hseen, decide_true, if_true, reduceCtorEq, exists_false,
            false_iff]
          rintro ⟨-, h, -⟩
          exact h first List.mem_cons_self number hseen hnumber
        · simp only [List.contains_eq_mem, hseen, decide_false, Bool.false_eq_true, if_false]
          cases hobs : ctx.observe node.suffix number leaf first with
          | error fault =>
            simp only [reduceCtorEq, exists_false, false_iff]
            rintro ⟨h, -⟩
            obtain ⟨n, l, hn, hl, hfit⟩ := h.each first List.mem_cons_self
            rw [hnumber] at hn
            cases hn
            rw [hleaf] at hl
            cases hl
            obtain ⟨drift, hok⟩ := observe_eq_ok_iff.2 ⟨hfit, rfl⟩
            rw [hobs] at hok
            cases hok
          | ok result =>
            obtain ⟨changed, drift⟩ := result
            obtain ⟨hfit, rfl⟩ := observe_eq_ok_iff.1 ⟨drift, hobs⟩
            dsimp only
            rw [ih]
            constructor
            · rintro ⟨h, hnew, rfl⟩
              have hnew' : ∀ r ∈ rest, r.number ≠ some number :=
                fun r hr => hnew r hr number List.mem_cons_self
              refine ⟨(fitsVolumes_cons hnumber hleaf hnew').2 ⟨hfit, h⟩, ?_,
                observedVolumes_cons hnumber hleaf hnew'⟩
              refine List.forall_mem_cons.2 ⟨fun n hn he => ?_, fun r hr n hn =>
                hnew r hr n (List.mem_cons_of_mem _ hn)⟩
              rw [hnumber] at he
              cases he
              exact hseen hn
            · rintro ⟨h, hall, rfl⟩
              have hnew : ∀ r ∈ rest, r.number ≠ some number := fun r hr he => by
                have := (List.nodup_cons.1 h.distinct).1
                exact this (List.mem_map.2 ⟨r, hr, he.trans hnumber.symm⟩)
              refine ⟨((fitsVolumes_cons hnumber hleaf hnew).1 h).2, fun r hr n hn => ?_,
                (observedVolumes_cons hnumber hleaf hnew).symm⟩
              rcases List.mem_cons.1 hn with rfl | hn
              · exact hnew r hr
              · exact hall r (List.mem_cons_of_mem _ hr) n hn

/-- What the first of some reported volumes that are taken in does: its volume is there and not yet
taken, and is observed before the others. -/
theorem mergeVolumes_cons {node : LayerNode} {first : ReportedVolume} {rest : List ReportedVolume}
    {seen : List UInt32} {volumes next : SortedMap UInt32 VolumeLeaf} {summary after : MergeSummary}
    (hok : ctx.mergeVolumes node seen volumes summary (first :: rest) = .ok (next, after)) :
    ∃ number leaf drift, first.number = some number ∧ volumes.get? number = some leaf ∧
      ctx.observe node.suffix number leaf first = .ok (ctx.observed node.suffix number leaf first, drift) ∧
      ctx.mergeVolumes node (number :: seen)
        (volumes.modify number (fun _ => ctx.observed node.suffix number leaf first))
        (summary.append { merged := 1
                          changed := leaf.changes (ctx.observed node.suffix number leaf first)
                          drift }) rest = .ok (next, after) := by
  simp only [mergeVolumes] at hok
  split at hok
  · cases hok
  rename_i number hrequire
  split at hok
  · cases hok
  rename_i leaf hleaf
  split at hok
  · cases hok
  split at hok
  · cases hok
  rename_i changed drift hobserve
  obtain ⟨-, rfl⟩ := observe_eq_ok_iff.1 ⟨drift, hobserve⟩
  exact ⟨number, leaf, drift, require_eq_ok_iff.1 hrequire, hleaf, hobserve, hok⟩

theorem poolsIn_modify {volumes : SortedMap UInt32 VolumeLeaf} {host : String}
    (h : PoolsIn host wanted volumes) {number : UInt32} {leaf : VolumeLeaf}
    (hget : volumes.get? number = some leaf) {suffix : String} {reported : ReportedVolume} :
    PoolsIn host wanted (volumes.modify number (fun _ => ctx.observed suffix number leaf reported)) := by
  intro other after hafter
  by_cases hsame : other = number
  · rw [hsame, SortedMap.get?_modify_self, hget] at hafter
    obtain rfl := Option.some.inj hafter
    exact (h number leaf hget).congr (observed_authored ..)
  · rw [SortedMap.get?_modify_of_ne _ _ hsame] at hafter
    exact h other after hafter

theorem mergeVolumes_fault {node : LayerNode} {fault : Fault} {reported : List ReportedVolume} :
    ∀ {seen : List UInt32} {volumes : SortedMap UInt32 VolumeLeaf} {summary : MergeSummary},
    PoolsIn ctx.key.node wanted volumes →
      ctx.mergeVolumes node seen volumes summary reported = .error fault →
        ctx.EndsWanting wanted fault := by
  induction reported with
  | nil => intro _ _ _ _ h; cases h
  | cons first rest ih =>
    intro seen volumes summary hwant h
    simp only [mergeVolumes] at h
    split at h
    · rename_i hf
      cases h
      exact require_fault hf
    rename_i number _
    split at h
    · cases h
      exact ends_unknown _
    rename_i leaf hleaf
    split at h
    · cases h
      exact ends_unknown _
    split at h
    · rename_i hf
      cases h
      exact observe_fault (hwant number leaf hleaf) hf
    · rename_i next drift hok
      obtain ⟨-, rfl⟩ := observe_eq_ok_iff.1 ⟨drift, hok⟩
      exact ih (poolsIn_modify hwant hleaf) h

/-! ## A layer -/

/-- A reported layer fits a layer. -/
structure FitsLayer (ctx : MergeContext) (node : LayerNode) (reported : ReportedLayer) : Prop where
  defined : node.kind = .replication → ∃ settings,
    ctx.definition.replication.get? node.suffix = some settings ∧
    ∀ echoed, reported.replication = some echoed →
      ∀ number ∈ echoed.volumes, number ∈ settings.volumes.keys
  plain : node.kind ≠ .replication → reported.replication = none
  volumes : ctx.FitsVolumes node.suffix node.volumes reported.volumes
  attached : node.kind = .remoteAttach → ∀ number ∈ node.volumes.keys,
    ∃ r ∈ reported.volumes, r.number = some number

/-- A layer after a report of it. -/
def observedNode (ctx : MergeContext) (node : LayerNode) (reported : ReportedLayer) : LayerNode :=
  { node with volumes := ctx.observedVolumes node.suffix node.volumes reported.volumes }

theorem checkDefinition_eq_ok_iff {node : LayerNode} {reported : ReportedLayer} :
    ctx.checkDefinition node reported = .ok () ↔
      (node.kind = .replication → ∃ settings,
        ctx.definition.replication.get? node.suffix = some settings ∧
        ∀ echoed, reported.replication = some echoed →
          ∀ number ∈ echoed.volumes, number ∈ settings.volumes.keys) ∧
      (node.kind ≠ .replication → reported.replication = none) := by
  unfold checkDefinition
  cases hkind : node.kind with
  | replication =>
    cases hs : ctx.definition.replication.get? node.suffix with
    | none => simp
    | some settings =>
      cases hr : reported.replication with
      | none => simp
      | some echoed =>
        simp only [Option.map_some, Option.getD_some, Option.some.injEq, exists_eq_left', forall_eq',
          forall_const, ne_eq, not_true, false_imp_iff, and_true, ← SortedMap.contains_iff]
        cases hfind : echoed.volumes.find? (fun number => !settings.volumes.contains number) with
        | none => simpa using List.find?_eq_none.1 hfind
        | some number =>
          simp only [reduceCtorEq, false_iff]
          intro hall
          have hmem := hall number (List.mem_of_find?_eq_some hfind)
          have := List.find?_some hfind
          simp [hmem] at this
  | encryption | remoteAttach | storage => cases hr : reported.replication <;> simp

theorem checkDefinition_fault {node : LayerNode} {reported : ReportedLayer} {fault : Fault}
    (h : ctx.checkDefinition node reported = .error fault) : ctx.EndsWanting wanted fault := by
  unfold checkDefinition at h
  split at h
  · split at h
    · cases h
      exact ends_unknown _
    · dsimp only at h
      split at h <;> cases h
      exact ends_unknown _
  · split at h <;> cases h
    exact ends_unknown _

theorem absent_eq_nil_iff {node : LayerNode} {reported : ReportedLayer} :
    absent node reported = [] ↔
      ∀ number ∈ node.volumes.keys, ∃ r ∈ reported.volumes, r.number = some number := by
  simp [absent]

theorem absences_eq_ok_iff {node : LayerNode} {reported : ReportedLayer} :
    (∃ missing, ctx.absences node reported = .ok missing) ↔
      (node.kind = .remoteAttach → ∀ number ∈ node.volumes.keys,
        ∃ r ∈ reported.volumes, r.number = some number) := by
  rw [← absent_eq_nil_iff]
  unfold absences
  cases habs : absent node reported with
  | nil => simp
  | cons number rest => cases hkind : node.kind <;> simp [LayerKind.toleratesAbsence]

theorem absences_fault {node : LayerNode} {reported : ReportedLayer} {fault : Fault}
    (h : ctx.absences node reported = .error fault) : ctx.EndsWanting wanted fault := by
  unfold absences at h
  split at h
  · cases h
  · split at h <;> cases h
    exact ⟨.inl rfl, fun _ h => nomatch h⟩

/-- What taking a reported layer in goes through. -/
theorem mergeNode_inv {node next : LayerNode} {reported : ReportedLayer} {summary : MergeSummary}
    {missing : List Absence} (hok : ctx.mergeNode node reported = .ok (next, summary, missing)) :
    ctx.checkDefinition node reported = .ok () ∧ ctx.absences node reported = .ok missing ∧
      ∃ volumes counted,
        ctx.mergeVolumes node [] node.volumes {} reported.volumes = .ok (volumes, counted) ∧
        next = { node with volumes } ∧ summary = counted.append { tolerated := missing.length } := by
  unfold mergeNode at hok
  split at hok
  · cases hok
  rename_i hdef
  split at hok
  · cases hok
  rename_i volumes counted hvolumes
  split at hok
  · cases hok
  rename_i absences habsences
  cases hok
  exact ⟨hdef, habsences, volumes, counted, hvolumes, rfl, rfl⟩

/-- A merge takes a reported layer in exactly if it fits, and then observes the layer. -/
theorem mergeNode_eq_ok_iff {node next : LayerNode} {reported : ReportedLayer} :
    (∃ result, ctx.mergeNode node reported = .ok (next, result)) ↔
      ctx.FitsLayer node reported ∧ next = ctx.observedNode node reported := by
  have hvol := fun volumes => @mergeVolumes_eq_ok_iff ctx node reported.volumes [] node.volumes
    volumes {}
  simp only [List.not_mem_nil, false_imp_iff, implies_true, true_and] at hvol
  constructor
  · rintro ⟨⟨_, missing⟩, h⟩
    obtain ⟨hdef, habs, volumes, summary, hv, rfl, -⟩ := mergeNode_inv h
    obtain ⟨hfits, rfl⟩ := (hvol volumes).1 ⟨summary, hv⟩
    obtain ⟨hdefined, hplain⟩ := checkDefinition_eq_ok_iff.1 hdef
    exact ⟨⟨hdefined, hplain, hfits, absences_eq_ok_iff.1 ⟨missing, habs⟩⟩, rfl⟩
  · rintro ⟨h, rfl⟩
    obtain ⟨summary, hv⟩ := (hvol _).2 ⟨h.volumes, rfl⟩
    obtain ⟨missing, habs⟩ := absences_eq_ok_iff.2 h.attached
    have hdef : ctx.checkDefinition node reported = .ok () :=
      checkDefinition_eq_ok_iff.2 ⟨h.defined, h.plain⟩
    unfold mergeNode
    rw [hdef]
    dsimp only
    rw [hv]
    dsimp only
    rw [habs]
    exact ⟨_, rfl⟩

theorem mergeNode_fault {node : LayerNode} {reported : ReportedLayer} {fault : Fault}
    (hwant : PoolsIn ctx.key.node wanted node.volumes) (h : ctx.mergeNode node reported = .error fault) :
    ctx.EndsWanting wanted fault := by
  unfold mergeNode at h
  split at h
  · rename_i hf
    cases h
    exact checkDefinition_fault hf
  split at h
  · rename_i hf
    cases h
    exact mergeVolumes_fault hwant hf
  split at h
  · rename_i hf
    cases h
    exact absences_fault hf
  · cases h

end MergeContext
end BlockStack
