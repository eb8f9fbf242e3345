import BlockStack.Proofs.Consistency

/-!
# BlockStack.Proofs.Rows

The node that a layer row with its volume rows stands for, apart from the checks of a load.

* `LayerRow.node?`: the node; it has no children yet.
* `LayerRow.build_eq_ok_iff`: a load builds this node exactly if the row passes its checks.
-/

namespace BlockStack

/-- The volume data of a persisted payload; nothing if its provider is unknown. -/
def VolumePayload.data? : VolumePayload → Option VolumeData
  | .replication metaDiskPath => some (.replication metaDiskPath)
  | .encryption backingDevice isOpen => some (.encryption backingDevice isOpen)
  | .remoteAttach => some .remoteAttach
  | .storage provider pool present fields =>
    (ProviderKind.ofName? provider).map (fun kind => .storage {
      provider := kind
      pool := pool
      attributes := .ofFields kind fields
      present := present
      sizeState := none })

/-- The volume that a row stands for. -/
def VolumeRow.leaf? (volume : VolumeRow) : Option VolumeLeaf :=
  volume.payload.data?.map (fun data => {
    number := volume.number
    expectedSizeKib := volume.expectedSizeKib
    facts := volume.facts
    data := data })

/-- The volumes that rows stand for, by number. -/
def VolumeRow.leaves (volumes : List VolumeRow) : SortedMap UInt32 VolumeLeaf :=
  .ofList (volumes.filterMap (fun v => v.leaf?.map (fun leaf => (v.number, leaf))))

/-- The payload that a row stands for. -/
def LayerRow.payload? (row : LayerRow) : Option NodePayload :=
  (LayerKind.ofName? row.kind).bind (fun kind =>
    match kind with
    | .replication => row.replication.map .replication
    | .encryption => some .encryption
    | .remoteAttach => some .remoteAttach
    | .storage => some .storage)

/-- The node that a row with its volume rows stands for. -/
def LayerRow.node? (row : LayerRow) (volumes : List VolumeRow) : Option LayerNode :=
  row.payload?.map (fun payload => {
    id := row.id
    parent := row.parent
    suffix := row.suffix
    suspended := row.suspended
    payload := payload
    volumes := VolumeRow.leaves volumes })

namespace LayerRow

theorem kind_of_payload? {row : LayerRow} {payload : NodePayload} (h : row.payload? = some payload) :
    row.kind = payload.kind.name := by
  obtain ⟨kind, hkind, hpayload⟩ := Option.bind_eq_some_iff.1 h
  rw [LayerKind.ofName?_eq_some_iff] at hkind
  rw [← hkind]
  cases kind with
  | replication =>
    obtain ⟨settings, -, rfl⟩ := Option.map_eq_some_iff.1 hpayload
    rfl
  | encryption | remoteAttach | storage =>
    cases hpayload
    rfl

theorem replication_of_payload? {row : LayerRow} {settings : ReplicationNode}
    (h : row.payload? = some (.replication settings)) : row.replication = some settings := by
  obtain ⟨kind, -, hpayload⟩ := Option.bind_eq_some_iff.1 h
  cases kind with
  | replication =>
    obtain ⟨other, hother, he⟩ := Option.map_eq_some_iff.1 hpayload
    cases he
    exact hother
  | encryption | remoteAttach | storage => cases hpayload

/-- A volume row suits a layer row of a kind, by what a load looks up. -/
def Suits (row : LayerRow) (kind : LayerKind) (definition : ResourceDefinition)
    (pools : SortedMap PoolKey StoragePool) (volume : VolumeRow) : Prop :=
  match kind, volume.payload with
  | .replication, .replication _ => ∃ settings,
      definition.replication.get? row.suffix = some settings ∧ volume.number ∈ settings.volumes.keys
  | .encryption, .encryption _ _ => True
  | .remoteAttach, .remoteAttach => True
  | .storage, .storage provider pool _ _ => ∃ kind found, kind.name = provider ∧
      pools.get? ⟨row.owner.node, pool⟩ = some found ∧ found.provider = kind
  | _, _ => False

variable {row : LayerRow} {kind : LayerKind} {pools : SortedMap PoolKey StoragePool}

theorem storageData_eq_ok_iff {volume : VolumeRow} {provider pool : String} {present : Bool}
    {fields : AttributeFields} {data : VolumeData} :
    row.storageData pools volume provider pool present fields = .ok data ↔
      (∃ kind found, kind.name = provider ∧ pools.get? ⟨row.owner.node, pool⟩ = some found ∧
        found.provider = kind) ∧
      (VolumePayload.storage provider pool present fields).data? = some data := by
  simp only [storageData, VolumePayload.data?, ← ProviderKind.ofName?_eq_some_iff]
  cases hkind : ProviderKind.ofName? provider with
  | none => simp
  | some kind =>
    cases hpool : pools.get? ⟨row.owner.node, pool⟩ with
    | none => simp
    | some found =>
      by_cases hp : found.provider = kind
      · simp [hp]
      · simp only [hp, if_false, reduceCtorEq, false_iff, not_and]
        rintro ⟨k, f, hk, hf, rfl⟩
        cases hf
        exact absurd (Option.some.inj hk).symm hp

/-- Which replication volumes a definition has for the suffix of a row. -/
def known (row : LayerRow) (definition : ResourceDefinition) (number : UInt32) : Bool :=
  (definition.replication.get? row.suffix).any (fun settings => settings.volumes.contains number)

theorem known_iff {definition : ResourceDefinition} {number : UInt32} :
    row.known definition number = true ↔ ∃ settings,
      definition.replication.get? row.suffix = some settings ∧ number ∈ settings.volumes.keys := by
  simp only [known, Option.any_eq_true, SortedMap.contains_iff]

theorem volumeData_eq_ok_iff {definition : ResourceDefinition} {volume : VolumeRow}
    {data : VolumeData} :
    row.volumeData kind (row.known definition) pools volume = .ok data ↔
      row.Suits kind definition pools volume ∧ volume.payload.data? = some data := by
  cases kind <;> cases hpay : volume.payload <;> simp only [volumeData, Suits, hpay]
  case replication.replication path =>
    rw [← known_iff]
    by_cases hk : row.known definition volume.number = true <;> simp [hk, VolumePayload.data?]
  case storage.storage provider pool present fields => exact storageData_eq_ok_iff
  all_goals simp [VolumePayload.data?]

theorem Suits.data?_isSome {definition : ResourceDefinition} {volume : VolumeRow}
    (h : row.Suits kind definition pools volume) : volume.payload.data?.isSome := by
  unfold Suits at h
  cases hpay : volume.payload with
  | storage provider pool present fields =>
    cases kind <;> simp only [hpay] at h
    obtain ⟨kind, -, rfl, -⟩ := h
    simp [VolumePayload.data?, ProviderKind.ofName?_name]
  | _ => rfl

theorem volumeData_fault {definition : UInt32 → Bool} {volume : VolumeRow} {fault : Fault}
    (h : row.volumeData kind definition pools volume = .error fault) : fault.isLoadFault = true := by
  unfold volumeData at h
  split at h
  · split at h <;> cases h
    rfl
  · cases h
  · cases h
  · unfold storageData at h
    repeat' split at h
    all_goals cases h <;> rfl
  · cases h
    rfl

/-! ## Volumes of a row -/

/-- The volume that a row stands for, with its number. -/
def entryOf (volume : VolumeRow) : Option (UInt32 × VolumeLeaf) :=
  volume.leaf?.map (fun leaf => (volume.number, leaf))

theorem volumes_eq_ok_iff {definition : ResourceDefinition} {rows : List VolumeRow} :
    ∀ {start leaves : SortedMap UInt32 VolumeLeaf},
    row.volumes kind (row.known definition) pools rows start = .ok leaves ↔
      (∀ volume ∈ rows, row.Suits kind definition pools volume) ∧
      (rows.map (·.number)).Nodup ∧ (∀ volume ∈ rows, volume.number ∉ start.keys) ∧
      (rows.filterMap entryOf).foldl (fun m e => m.insert e.1 e.2) start = leaves := by
  induction rows with
  | nil => simp [volumes]
  | cons volume rest ih =>
    intro start leaves
    simp only [volumes]
    cases hdata : row.volumeData kind (row.known definition) pools volume with
    | error fault =>
      have hnot : ¬ row.Suits kind definition pools volume := fun hs => by
        obtain ⟨data, hd⟩ := Option.isSome_iff_exists.1 hs.data?_isSome
        rw [volumeData_eq_ok_iff.2 ⟨hs, hd⟩] at hdata
        cases hdata
      simp [hnot]
    | ok data =>
      obtain ⟨hsuits, hd⟩ := volumeData_eq_ok_iff.1 hdata
      have hentry : entryOf volume = some (volume.number, {
          number := volume.number
          expectedSizeKib := volume.expectedSizeKib
          facts := volume.facts
          data := data }) := by
        simp [entryOf, VolumeRow.leaf?, hd]
      by_cases hc : start.contains volume.number = true
      · simp [hc, SortedMap.contains_iff.1 hc]
      · have hnew : volume.number ∉ start.keys := fun hm => hc (SortedMap.contains_iff.2 hm)
        dsimp only
        rw [if_neg hc, ih, List.filterMap_cons_some hentry]
        simp only [List.forall_mem_cons, List.map_cons, List.nodup_cons, List.foldl_cons, hsuits, hnew,
          not_false_eq_true, true_and, SortedMap.mem_keys_insert, not_or, List.mem_map, not_exists,
          not_and]
        constructor
        · rintro ⟨hs, hn, hk, hf⟩
          exact ⟨hs, ⟨fun v hv => (hk v hv).1, hn⟩, fun v hv => (hk v hv).2, hf⟩
        · rintro ⟨hs, ⟨hv, hn⟩, hk, hf⟩
          exact ⟨hs, hn, fun v hm => ⟨hv v hm, hk v hm⟩, hf⟩

theorem volumes_fault {definition : UInt32 → Bool} {rows : List VolumeRow} {fault : Fault} :
    ∀ {start : SortedMap UInt32 VolumeLeaf},
    row.volumes kind definition pools rows start = .error fault → fault.isLoadFault = true := by
  induction rows with
  | nil => intro start h; cases h
  | cons volume rest ih =>
    intro start h
    simp only [volumes] at h
    split at h
    · rename_i f hf
      cases h
      exact volumeData_fault hf
    · split at h
      · cases h
        rfl
      · exact ih h

/-! ## The node of a row -/

/-- What a load checks of a row with its volume rows, apart from its owner. -/
structure Builds (row : LayerRow) (kind : LayerKind) (resource : Resource)
    (pools : SortedMap PoolKey StoragePool) (volumes : List VolumeRow) : Prop where
  replicated : kind = .replication →
    row.replication.isSome ∧ (resource.definition.replication.get? row.suffix).isSome
  extendsSuffix : kind ≠ .replication → ∀ above, row.parent.bind resource.tree.get? = some above →
    above.suffix.toList <+: row.suffix.toList
  suits : ∀ volume ∈ volumes, row.Suits kind resource.definition pools volume
  numbered : (volumes.map (·.number)).Nodup

theorem node_eq_ok_iff {definition : ResourceDefinition} {payload : NodePayload}
    {rows : List VolumeRow} {built : LayerNode} :
    row.node kind (row.known definition) pools payload rows = .ok built ↔
      (∀ volume ∈ rows, row.Suits kind definition pools volume) ∧ (rows.map (·.number)).Nodup ∧
      built = {
        id := row.id
        suffix := row.suffix
        suspended := row.suspended
        payload := payload
        volumes := VolumeRow.leaves rows } := by
  have key := fun leaves => @volumes_eq_ok_iff row kind pools definition rows .empty leaves
  simp only [SortedMap.mem_keys_iff, SortedMap.get?_empty, reduceCtorEq, exists_false,
    not_false_eq_true, implies_true, true_and] at key
  unfold LayerRow.node
  cases hv : row.volumes kind (row.known definition) pools rows .empty with
  | error fault =>
    simp only [reduceCtorEq, false_iff]
    rintro ⟨hs, hn, -⟩
    rw [(key _).2 ⟨hs, hn, rfl⟩] at hv
    cases hv
  | ok leaves =>
    obtain ⟨hs, hn, hf⟩ := (key leaves).1 hv
    subst hf
    simp only [Except.ok.injEq, hn, true_and]
    exact ⟨fun h => ⟨hs, h.symm⟩, fun h => h.2.symm⟩

theorem node_fault {definition : UInt32 → Bool} {payload : NodePayload} {rows : List VolumeRow}
    {fault : Fault} (h : row.node kind definition pools payload rows = .error fault) :
    fault.isLoadFault = true := by
  unfold LayerRow.node at h
  split at h
  · rename_i hf
    cases h
    exact volumes_fault hf
  · cases h

theorem checkSuffix_eq_ok_iff {parent : Option LayerNode} :
    row.checkSuffix parent = .ok () ↔
      ∀ above, parent = some above → above.suffix.toList <+: row.suffix.toList := by
  cases parent with
  | none => simp [checkSuffix]
  | some above =>
    simp only [checkSuffix, Option.some.injEq, forall_eq', ← List.isPrefixOf_iff_prefix]
    split <;> simp_all

theorem checkSuffix_fault {parent : Option LayerNode} {fault : Fault}
    (h : row.checkSuffix parent = .error fault) : fault.isLoadFault = true := by
  unfold checkSuffix at h
  repeat' split at h
  all_goals cases h <;> rfl

theorem payload_eq_ok_iff {payload : NodePayload} (hkind : LayerKind.ofName? row.kind = some kind) :
    row.payload kind = .ok payload ↔ row.payload? = some payload := by
  rw [payload?, hkind, Option.bind_some]
  cases kind with
  | replication => cases hr : row.replication <;> simp [LayerRow.payload, hr]
  | encryption | remoteAttach | storage => simp [LayerRow.payload]

theorem payload_fault {fault : Fault} (h : row.payload kind = .error fault) :
    fault.isLoadFault = true := by
  unfold LayerRow.payload at h
  repeat' split at h
  all_goals cases h <;> rfl

/-- Only replication volumes are looked up in a definition. -/
theorem volumes_congr {f g : UInt32 → Bool} (hkind : kind ≠ .replication) {rows : List VolumeRow} :
    ∀ start, row.volumes kind f pools rows start = row.volumes kind g pools rows start := by
  have same : ∀ volume, row.volumeData kind f pools volume = row.volumeData kind g pools volume := by
    intro volume
    cases kind with
    | replication => exact absurd rfl hkind
    | encryption | remoteAttach | storage => cases hp : volume.payload <;> simp [volumeData, hp]
  induction rows with
  | nil => exact fun _ => rfl
  | cons volume rest ih =>
    intro start
    simp only [volumes, same, ih]

/-- A row of a kind other than replication has its suffix checked instead of its definition. -/
theorem build_of_ne {resource : Resource} {rows : List VolumeRow} {payload : NodePayload}
    (hkind : kind ≠ .replication) (hp : row.payload kind = .ok payload) :
    row.build kind resource pools rows =
      match row.checkSuffix (row.parent.bind resource.tree.get?) with
      | .error fault => .error fault
      | .ok () => row.node kind (row.known resource.definition) pools payload rows := by
  have same : row.node kind (fun _ => false) pools payload rows =
      row.node kind (row.known resource.definition) pools payload rows := by
    rw [LayerRow.node, LayerRow.node, volumes_congr hkind]
  rw [← same]
  cases kind with
  | replication => exact absurd rfl hkind
  | encryption | remoteAttach | storage =>
    cases hc : row.checkSuffix (row.parent.bind resource.tree.get?) <;> simp only [build, hp, hc]

theorem build_of_eq {resource : Resource} {rows : List VolumeRow} {payload : NodePayload}
    {settings : ReplicationDefinition} (hp : row.payload .replication = .ok payload)
    (hs : resource.definition.replication.get? row.suffix = some settings) :
    row.build .replication resource pools rows =
      row.node .replication (row.known resource.definition) pools payload rows := by
  have : row.known resource.definition = settings.volumes.contains := by
    funext number
    simp [known, hs]
  simp [build, hp, LayerRow.definition, hs, this]

/-- A load builds the node of a row exactly if the row passes its checks. -/
theorem build_eq_ok_iff {resource : Resource} {rows : List VolumeRow} {built : LayerNode}
    (hkind : LayerKind.ofName? row.kind = some kind) :
    row.build kind resource pools rows = .ok built ↔
      row.Builds kind resource pools rows ∧
      ∃ node, row.node? rows = some node ∧ built = { node with parent := none } := by
  cases hp : row.payload kind with
  | error fault =>
    have hnone : row.payload? = none := by
      cases hp' : row.payload? with
      | none => rfl
      | some payload =>
        rw [(payload_eq_ok_iff hkind).2 hp'] at hp
        cases hp
    simp [build, hp, LayerRow.node?, hnone]
  | ok payload =>
    have hnode : row.node? rows = some {
        id := row.id
        parent := row.parent
        suffix := row.suffix
        suspended := row.suspended
        payload := payload
        volumes := VolumeRow.leaves rows } := by
      rw [LayerRow.node?, (payload_eq_ok_iff hkind).1 hp, Option.map_some]
    simp only [hnode, Option.some.injEq, exists_eq_left']
    by_cases hrep : kind = .replication
    · subst hrep
      have hdata : row.replication.isSome := by
        cases hr : row.replication <;> simp [LayerRow.payload, hr] at hp ⊢
      cases hs : resource.definition.replication.get? row.suffix with
      | none =>
        simp only [build, hp, LayerRow.definition, hs, reduceCtorEq, false_iff]
        rintro ⟨hb, -⟩
        simpa [hs] using (hb.replicated rfl).2
      | some settings =>
        rw [build_of_eq hp hs, node_eq_ok_iff]
        constructor
        · rintro ⟨hsuits, hn, rfl⟩
          exact ⟨⟨fun _ => ⟨hdata, by simp [hs]⟩, fun h => absurd rfl h, hsuits, hn⟩, rfl⟩
        · rintro ⟨hb, rfl⟩
          exact ⟨hb.suits, hb.numbered, rfl⟩
    · rw [build_of_ne hrep hp]
      cases hc : row.checkSuffix (row.parent.bind resource.tree.get?) with
      | error fault =>
        simp only [reduceCtorEq, false_iff]
        rintro ⟨hb, -⟩
        rw [checkSuffix_eq_ok_iff.2 (hb.extendsSuffix hrep)] at hc
        cases hc
      | ok _ =>
        dsimp only
        rw [node_eq_ok_iff]
        constructor
        · rintro ⟨hsuits, hn, rfl⟩
          exact ⟨⟨fun h => absurd h hrep, fun _ => checkSuffix_eq_ok_iff.1 hc, hsuits, hn⟩, rfl⟩
        · rintro ⟨hb, rfl⟩
          exact ⟨hb.suits, hb.numbered, rfl⟩

/-- A row that passes its checks stands for a node. -/
theorem Builds.exists_node {resource : Resource} {rows : List VolumeRow}
    (hkind : LayerKind.ofName? row.kind = some kind) (h : row.Builds kind resource pools rows) :
    ∃ node, row.node? rows = some node := by
  cases kind with
  | replication =>
    obtain ⟨settings, hs⟩ := Option.isSome_iff_exists.1 (h.replicated rfl).1
    exact ⟨_, by rw [LayerRow.node?, payload?, hkind, Option.bind_some, hs]; rfl⟩
  | encryption | remoteAttach | storage =>
    exact ⟨_, by rw [LayerRow.node?, payload?, hkind, Option.bind_some]; rfl⟩

theorem build_fault {resource : Resource} {rows : List VolumeRow} {fault : Fault}
    (h : row.build kind resource pools rows = .error fault) : fault.isLoadFault = true := by
  unfold build at h
  split at h
  · rename_i hf
    cases h
    exact payload_fault hf
  · split at h
    · split at h
      · rename_i hf
        cases h
        unfold LayerRow.definition at hf
        split at hf <;> cases hf
        rfl
      · exact node_fault h
    · split at h
      · rename_i hf
        cases h
        exact checkSuffix_fault hf
      · exact node_fault h

end LayerRow
end BlockStack
