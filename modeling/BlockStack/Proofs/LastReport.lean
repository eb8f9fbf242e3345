import BlockStack.Proofs.Acceptance

/-!
# BlockStack.Proofs.LastReport

What a run of merges leaves in each volume.

* `MergeContext.FitsLevel.nodup_spoken`: a report that fits speaks of each layer at most once.
* `MergeCall.mention?`: what a report says of a volume; `Resource.lastWord?`: the last accepted
  report that says anything of it.
* `Resource.last_report_wins`: after a run each volume is what its last word makes of the loaded
  volume.
-/

namespace BlockStack

/-! ## Each layer once -/

namespace MergeContext

variable {ctx : MergeContext} {tree : LayerTree}

/-- What nested layers speak of stands below the layers that the outermost of them speak of. -/
theorem below_of_mem_spoken (h : tree.WellFormed) {parent : Option LayerId}
    {nodes : List ReportNode} {x : LayerId} (hx : x ∈ (tree.spoken parent nodes).map (·.1)) :
    ∃ node ∈ nodes, ∃ top, tree.spokenOf? parent node.layer = some top ∧ tree.Below top x := by
  induction parent, nodes using LayerTree.spoken.induct tree with
  | case1 parent => simp [LayerTree.spoken] at hx
  | case2 parent layer children rest hnone ih =>
    simp only [LayerTree.spoken, hnone] at hx
    obtain ⟨node, hnode, top, htop, hbelow⟩ := ih hx
    exact ⟨node, List.mem_cons_of_mem _ hnode, top, htop, hbelow⟩
  | case3 parent layer children rest id hsome ihc ihr =>
    simp only [LayerTree.spoken, hsome, List.map_cons, List.map_append, List.mem_cons,
      List.mem_append] at hx
    rcases hx with rfl | hx | hx
    · exact ⟨_, List.mem_cons_self, _, hsome, .here⟩
    · obtain ⟨child, -, top, htop, hbelow⟩ := ihc hx
      obtain ⟨node, hget, hparent⟩ := LayerTree.exists_of_spokenOf? h.nodup htop
      exact ⟨_, List.mem_cons_self, id, hsome, (LayerTree.Below.up hget hparent .here).trans hbelow⟩
    · obtain ⟨node, hnode, top, htop, hbelow⟩ := ihr hx
      exact ⟨node, List.mem_cons_of_mem _ hnode, top, htop, hbelow⟩

/-- A report that fits speaks of each layer at most once. -/
theorem FitsLevel.nodup_spoken (h : tree.WellFormed) {parent : Option LayerId}
    {nodes : List ReportNode} (hfit : ctx.FitsLevel tree parent nodes) :
    ((tree.spoken parent nodes).map (·.1)).Nodup := by
  induction parent, nodes using LayerTree.spoken.induct tree with
  | case1 parent => simp [LayerTree.spoken]
  | case2 parent layer children rest hnone ih =>
    obtain ⟨id, -, hid, -⟩ := fitsLevel_cons.1 hfit
    rw [hnone] at hid
    cases hid
  | case3 parent layer children rest id hsome ihc ihr =>
    obtain ⟨other, -, hid, -, -, hchildren, hrest, hnew⟩ := fitsLevel_cons.1 hfit
    rw [hsome] at hid
    cases hid
    obtain ⟨node, hget, hparent⟩ := LayerTree.exists_of_spokenOf? h.nodup hsome
    -- nothing below another layer of this level stands below this one
    have apart : ∀ x, tree.Below id x → x ∉ (tree.spoken parent rest).map (·.1) := by
      intro x hx hm
      obtain ⟨n, hn, top, htop, hbelow⟩ := below_of_mem_spoken h hm
      obtain ⟨ntop, hgettop, hptop⟩ := LayerTree.exists_of_spokenOf? h.nodup htop
      have := h.below_sibling hget hgettop (hparent.trans hptop.symm) hx hbelow
      exact hnew n hn (htop.trans (congrArg some this.symm))
    have under : ∀ x ∈ (tree.spoken (some id) children).map (·.1), tree.Below id x ∧ x ≠ id := by
      intro x hx
      obtain ⟨n, -, top, htop, hbelow⟩ := below_of_mem_spoken h hx
      obtain ⟨ntop, hgettop, hptop⟩ := LayerTree.exists_of_spokenOf? h.nodup htop
      refine ⟨(LayerTree.Below.up hgettop hptop .here).trans hbelow, ?_⟩
      rintro rfl
      have h1 := h.idxOf_parent_lt hgettop hptop
      have h2 := h.idxOf_le_of_below hbelow
      omega
    simp only [LayerTree.spoken, hsome, List.map_cons, List.map_append, List.nodup_cons,
      List.mem_append, not_or]
    refine ⟨⟨fun hm => (under id hm).2 rfl, apart id .here⟩, ?_⟩
    refine List.nodup_append.2 ⟨ihc hchildren, ihr hrest, fun a ha b hb => ?_⟩
    rintro rfl
    exact apart a (under a ha).1 hb

/-! ## One report -/

/-- What pairs of a layer and a report of it say of a volume of a layer. -/
def mentionIn? (spoken : List (LayerId × ReportedLayer)) (id : LayerId) (number : UInt32) :
    Option ReportedVolume :=
  spoken.findSome? (fun p => if p.1 = id then reportOf? p.2.volumes number else none)

theorem mentionIn?_of_not_mem {spoken : List (LayerId × ReportedLayer)} {id : LayerId}
    (h : id ∉ spoken.map (·.1)) (number : UInt32) : mentionIn? spoken id number = none := by
  refine List.findSome?_eq_none_iff.2 fun p hp => if_neg ?_
  rintro rfl
  exact h (List.mem_map_of_mem hp)

theorem get?_modify_observed (id layer : LayerId) (reported : ReportedLayer) :
    (tree.modify layer (fun node => ctx.observedNode node reported)).get? id =
      (tree.get? id).map (fun node =>
        if node.id = layer then ctx.observedNode node reported else node) := by
  have same : ∀ node : LayerNode, node.id = layer → (ctx.observedNode node reported).id = layer :=
    fun _ hid => hid
  exact LayerTree.get?_modify same id

theorem get?_observedTree_of_not_mem {spoken : List (LayerId × ReportedLayer)} {id : LayerId}
    (h : id ∉ spoken.map (·.1)) : (ctx.observedTree tree spoken).get? id = tree.get? id := by
  induction spoken generalizing tree with
  | nil => rfl
  | cons p rest ih =>
    rw [List.map_cons, List.mem_cons, not_or] at h
    rw [observedTree, List.foldl_cons, ← observedTree, ih h.2, get?_modify_observed]
    refine (Option.map_congr fun node hget => if_neg ?_).trans Option.map_id'
    rw [LayerTree.id_of_get? hget]
    exact h.1

/-- In a tree after a report each volume is what the report says of it, if it says anything. -/
theorem get?_observedTree {spoken : List (LayerId × ReportedLayer)}
    (h : (spoken.map (·.1)).Nodup) {id : LayerId} {node : LayerNode} (hget : tree.get? id = some node) :
    ∃ after, (ctx.observedTree tree spoken).get? id = some after ∧ after.suffix = node.suffix ∧
      ∀ number, after.volumes.get? number = (node.volumes.get? number).map (fun leaf =>
        ((mentionIn? spoken id number).map (ctx.observed node.suffix number leaf)).getD leaf) := by
  induction spoken generalizing tree with
  | nil => exact ⟨node, hget, rfl, fun number => by simp [mentionIn?]⟩
  | cons p rest ih =>
    obtain ⟨layer, reported⟩ := p
    obtain ⟨hnot, hrest⟩ := List.nodup_cons.1 h
    have hmod := @get?_modify_observed ctx tree id layer reported
    rw [hget, Option.map_some, LayerTree.id_of_get? hget] at hmod
    rw [observedTree, List.foldl_cons, ← observedTree]
    by_cases hid : id = layer
    · subst hid
      rw [if_pos rfl] at hmod
      refine ⟨_, (get?_observedTree_of_not_mem hnot).trans hmod, rfl, fun number => ?_⟩
      have hmention : mentionIn? ((id, reported) :: rest) id number =
          reportOf? reported.volumes number := by
        have := mentionIn?_of_not_mem hnot number
        rw [mentionIn?] at this ⊢
        rw [List.findSome?_cons, if_pos rfl, this]
        cases reportOf? reported.volumes number <;> rfl
      rw [hmention]
      simp [observedNode, observedVolumes]
    · rw [if_neg hid] at hmod
      have hmention : ∀ number, mentionIn? ((layer, reported) :: rest) id number =
          mentionIn? rest id number := fun number => by
        have hid' : ¬ layer = id := fun e => hid e.symm
        simp [mentionIn?, hid']
      simp only [hmention]
      exact ih hrest hmod

/-- A later report of a volume covers an earlier one. -/
theorem observed_observed {earlier : MergeContext} (suffix : String) (number : UInt32)
    (leaf : VolumeLeaf) (first second : ReportedVolume) :
    ctx.observed suffix number (earlier.observed suffix number leaf first) second =
      ctx.observed suffix number leaf second := by
  cases hdata : leaf.data <;>
    simp [observed, hdata, VolumeData.kind, object?, sizeState?]

end MergeContext
open MergeContext (mentionIn?)

/-- What the report of a call says of a volume of a layer. -/
def MergeCall.mention? (call : MergeCall) (tree : LayerTree) (id : LayerId) (number : UInt32) :
    Option ReportedVolume :=
  mentionIn? (tree.spoken none call.report.roots) id number

namespace Resource

variable {resource : Resource}

/-- The last accepted one of some calls that says anything of a volume, with what it says. -/
def lastWord? (resource : Resource) (calls : List MergeCall) (id : LayerId) (number : UInt32) :
    Option (MergeCall × ReportedVolume) :=
  (resource.accepted calls).reverse.findSome? (fun call =>
    (call.mention? resource.tree id number).map (fun reported => (call, reported)))

/-! ## A run of merges -/

theorem fits_observed_iff {call other : MergeCall} :
    (resource.observed other).Fits call ↔ resource.Fits call := by
  have layers := @MergeContext.fitsLevel_congr (resource.contextOf call) _ _
    (@observed_authored resource other) none call.report.roots
  exact ⟨fun h => ⟨h.onNode, h.named, h.snapshot, layers.1 h.layers⟩,
    fun h => ⟨h.onNode, h.named, h.snapshot, layers.2 h.layers⟩⟩

theorem wellFormed_observed (h : resource.tree.WellFormed) (call : MergeCall) :
    (resource.observed call).tree.WellFormed :=
  LayerTree.wellFormed_authored_congr observed_authored.symm h

/-- A run goes on after a call as from the resource that the call left. -/
theorem mergeAll_cons (h : resource.tree.WellFormed) (call : MergeCall) (rest : List MergeCall) :
    (resource.Fits call ∧ resource.mergeAll (call :: rest) = (resource.observed call).mergeAll rest ∧
      resource.accepted (call :: rest) = call :: (resource.observed call).accepted rest) ∨
    (resource.mergeAll (call :: rest) = resource.mergeAll rest ∧
      resource.accepted (call :: rest) = resource.accepted rest) := by
  simp only [mergeAll, accepted]
  cases htake : resource.take call with
  | ok merged =>
    obtain ⟨hfit, hnext⟩ := (take_eq_ok_iff h).1 ⟨merged, htake, rfl⟩
    exact .inl ⟨hfit, by simp only [hnext], by simp only [hnext]⟩
  | error rejection => exact .inr ⟨rfl, rfl⟩

theorem fits_of_accepted {calls : List MergeCall} {call : MergeCall} : ∀ {resource : Resource},
    resource.tree.WellFormed → call ∈ resource.accepted calls → resource.Fits call := by
  induction calls with
  | nil => intro _ _ hmem; cases hmem
  | cons first rest ih =>
    intro resource h hmem
    rcases mergeAll_cons h first rest with ⟨hfit, -, haccepted⟩ | ⟨-, haccepted⟩
    · rw [haccepted] at hmem
      rcases List.mem_cons.1 hmem with rfl | hmem
      · exact hfit
      · exact fits_observed_iff.1 (ih (wellFormed_observed h first) hmem)
    · rw [haccepted] at hmem
      exact ih h hmem

theorem lastWord?_cons {call : MergeCall} {rest : List MergeCall}
    (haccepted : resource.accepted (call :: rest) = call :: (resource.observed call).accepted rest)
    (id : LayerId) (number : UInt32) :
    resource.lastWord? (call :: rest) id number =
      ((resource.observed call).lastWord? rest id number).or
        ((call.mention? resource.tree id number).map (fun reported => (call, reported))) := by
  have same : ∀ c : MergeCall, c.mention? (resource.observed call).tree id number =
      c.mention? resource.tree id number := fun c => by
    rw [MergeCall.mention?, MergeCall.mention?, LayerTree.spoken_congr observed_authored]
  simp only [lastWord?, haccepted, List.reverse_cons, List.findSome?_append, same]
  simp

/-- The volumes of a layer after a run. The induction is over the calls; the first one, if it is
accepted, is covered by a later word. -/
theorem volumes_mergeAll {calls : List MergeCall} {id : LayerId} : ∀ {resource : Resource}
    {node : LayerNode}, resource.tree.WellFormed → resource.tree.get? id = some node →
    ∃ after, (resource.mergeAll calls).tree.get? id = some after ∧
      ∀ number, after.volumes.get? number = (node.volumes.get? number).map (fun leaf =>
        match resource.lastWord? calls id number with
        | none => leaf
        | some (call, reported) =>
          (resource.contextOf call).observed node.suffix number leaf reported) := by
  induction calls with
  | nil =>
    intro resource node _ hget
    exact ⟨node, hget, fun number => by simp [lastWord?, accepted]⟩
  | cons call rest ih =>
    intro resource node h hget
    rcases mergeAll_cons h call rest with ⟨hfit, hmerge, haccepted⟩ | ⟨hmerge, haccepted⟩
    · obtain ⟨middle, hmiddle, hsuffix, hvolumes⟩ := MergeContext.get?_observedTree
        (hfit.layers.nodup_spoken h) hget
      obtain ⟨after, hafter, hlast⟩ := ih (wellFormed_observed h call) hmiddle
      refine ⟨after, by rw [hmerge, hafter], fun number => ?_⟩
      rw [hlast, hvolumes, hsuffix, Option.map_map, lastWord?_cons haccepted]
      refine Option.map_congr fun leaf _ => ?_
      cases hword : (resource.observed call).lastWord? rest id number with
      | none =>
        simp only [Function.comp_apply, Option.none_or, MergeCall.mention?]
        cases mentionIn? (resource.tree.spoken none call.report.roots) id number <;> rfl
      | some word =>
        simp only [Function.comp_apply, Option.some_or]
        cases mentionIn? (resource.tree.spoken none call.report.roots) id number with
        | none => rfl
        | some reported => exact MergeContext.observed_observed ..
    · rw [hmerge]
      have hword : ∀ number, resource.lastWord? (call :: rest) id number =
          resource.lastWord? rest id number := fun number => by rw [lastWord?, haccepted, lastWord?]
      simp only [hword]
      exact ih h hget

/-- After a run of merges into a loaded resource each volume is what the last accepted report that
mentions it makes of the loaded volume, and a volume that none mentions is as it was loaded. An
accepted report speaks of each layer at most once. -/
theorem last_report_wins {doc : Document} {graph : Graph} (hok : Graph.ofDocument doc = .ok graph)
    (hmem : resource ∈ graph.resources.values) (calls : List MergeCall) :
    (∀ call ∈ resource.accepted calls,
      ((resource.tree.spoken none call.report.roots).map (·.1)).Nodup) ∧
    ∀ id node, resource.tree.get? id = some node →
      ∃ after, (resource.mergeAll calls).tree.get? id = some after ∧
        ∀ number, after.volumes.get? number = (node.volumes.get? number).map (fun leaf =>
          match resource.lastWord? calls id number with
          | none => leaf
          | some (call, reported) =>
            (resource.contextOf call).observed node.suffix number leaf reported) := by
  have h := wellFormed_of_loaded hok hmem
  exact ⟨fun call hcall => (fits_of_accepted h hcall).layers.nodup_spoken h,
    fun id node hget => volumes_mergeAll h hget⟩

/-- The first of two reports is accepted and the second one, which names no resource, is not: the
volume on the storage layer keeps the verdict of the first one. -/
theorem last_report_wins_pair : ∃ after,
    (pair.mergeAll [pairCall, { pairCall with report := {} }]).tree.get? 3 = some after ∧
      (after.volumes.get? 0).map (·.data) = some (.storage {
        provider := .lvm
        pool := "p"
        attributes := .lvm none none
        present := true
        sizeState := some .tooLargeWithinTolerance }) := by
  have hget : pair.tree.get? 3 = some ((pair.tree.get? 3).getD default) := by decide
  obtain ⟨after, hafter, hvolumes⟩ :=
    (last_report_wins ofDocument_pair pair_mem [pairCall, { pairCall with report := {} }]).2 3 _ hget
  refine ⟨after, hafter, ?_⟩
  rw [hvolumes]
  cbv

end Resource
end BlockStack
