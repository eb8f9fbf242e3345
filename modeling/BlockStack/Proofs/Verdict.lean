import BlockStack.Proofs.Acceptance

/-!
# BlockStack.Proofs.Verdict

What a merge answers depends on what the controller determines and on the call, and on nothing that
earlier reports left behind.

* `EndAlike`: two results fail with the same fault, or have values that are related.
* `MergeSummary.Agrees`: two summaries agree in all but the number of changed fields.
* `MergeContext.mergeLevel_alike`: reported layers end alike in two trees that agree in what the
  controller determines. `observe_alike` up to `mergeLayer_alike` say so for each part of a report.
* `Resource.verdict_independent`: a report ends alike in a loaded resource and in what any reports
  have made of it.
-/

namespace BlockStack

/-- Two results end alike: with the same fault, or with values that are related. -/
inductive EndAlike {ε α β : Type} (R : α → β → Prop) : Except ε α → Except ε β → Prop where
  | fault (fault : ε) : EndAlike R (.error fault) (.error fault)
  | value {a : α} {b : β} : R a b → EndAlike R (.ok a) (.ok b)

/-- Two summaries agree in all but the number of changed fields. -/
structure MergeSummary.Agrees (a b : MergeSummary) : Prop where
  merged : a.merged = b.merged
  tolerated : a.tolerated = b.tolerated
  drift : a.drift = b.drift

theorem MergeSummary.Agrees.refl (summary : MergeSummary) : summary.Agrees summary := ⟨rfl, rfl, rfl⟩

theorem MergeSummary.Agrees.append {a b c d : MergeSummary} (h : a.Agrees b) (h' : c.Agrees d) :
    (a.append c).Agrees (b.append d) where
  merged := congrArg₂ (· + ·) h.merged h'.merged
  tolerated := congrArg₂ (· + ·) h.tolerated h'.tolerated
  drift := congrArg₂ (· ++ ·) h.drift h'.drift

/-- Volumes without what a satellite observes. -/
def authoredVolumes (volumes : SortedMap UInt32 VolumeLeaf) : SortedMap UInt32 VolumeLeaf :=
  volumes.mapValues (fun _ leaf => leaf.authored)

theorem authoredVolumes_modify {a b : SortedMap UInt32 VolumeLeaf}
    (h : authoredVolumes a = authoredVolumes b) (number : UInt32) {before after : VolumeLeaf}
    (hleaf : before.authored = after.authored) :
    authoredVolumes (a.modify number (fun _ => before)) =
      authoredVolumes (b.modify number (fun _ => after)) := by
  have look : ∀ (volumes : SortedMap UInt32 VolumeLeaf) (leaf : VolumeLeaf) (n : UInt32),
      (authoredVolumes (volumes.modify number (fun _ => leaf))).get? n =
        if n = number then ((authoredVolumes volumes).get? n).map (fun _ => leaf.authored)
        else (authoredVolumes volumes).get? n := by
    intro volumes leaf n
    simp only [authoredVolumes, SortedMap.get?_mapValues]
    by_cases hn : n = number
    · rw [if_pos hn, hn, SortedMap.get?_modify_self, Option.map_map, Option.map_map]
      rfl
    · rw [if_neg hn, SortedMap.get?_modify_of_ne _ _ hn]
  refine SortedMap.ext_get? fun n => ?_
  rw [look, look, h, hleaf]

namespace LayerTree

variable {a b : LayerTree}

theorem findRoot?_authored (tree : LayerTree) (kind : LayerKind) (suffix : String) :
    tree.authored.findRoot? kind suffix = tree.findRoot? kind suffix := by
  have roots : tree.authored.roots.filterMap tree.authored.get? =
      (tree.roots.filterMap tree.get?).map LayerNode.authored := by
    rw [List.map_filterMap]
    exact List.filterMap_congr fun id _ => get?_authored id
  rw [findRoot?, findRoot?, roots, List.find?_map, Option.map_map]
  rfl

theorem findChild?_authored (tree : LayerTree) (parent : LayerId) (kind : LayerKind)
    (suffix : String) : tree.authored.findChild? parent kind suffix =
      tree.findChild? parent kind suffix := by
  have below : tree.authored.children parent = (tree.children parent).map LayerNode.authored := by
    unfold children
    rw [get?_authored]
    cases tree.get? parent with
    | none => rfl
    | some node =>
      show node.children.filterMap tree.authored.get? = _
      rw [List.map_filterMap]
      exact List.filterMap_congr fun id _ => get?_authored id
  rw [findChild?, findChild?, below, List.find?_map, Option.map_map]
  rfl

theorem authored_modify_const (tree : LayerTree) (id : LayerId) (node : LayerNode) :
    (tree.modify id (fun _ => node)).authored = tree.authored.modify id (fun _ => node.authored) := by
  simp only [authored, modify, List.map_map]
  congr 1
  refine List.map_congr_left fun other _ => ?_
  simp only [Function.comp_apply]
  by_cases hid : other.id = id
  · rw [if_pos hid, if_pos (show other.authored.id = id from hid)]
  · rw [if_neg hid, if_neg (show ¬ other.authored.id = id from hid)]

end LayerTree

namespace MergeContext

variable {ctx : MergeContext}

/-! ## One volume -/

theorem checkProvider_congr {v w : StorageVolume} (h : v.provider = w.provider) (identifier : String)
    (reported : ReportedVolume) :
    ctx.checkProvider identifier v reported = ctx.checkProvider identifier w reported := by
  unfold checkProvider
  rw [h]

theorem lookUp_congr {v w : StorageVolume} (h : v.provider = w.provider) (h' : v.pool = w.pool)
    (identifier : String) (expected : UInt64) :
    ctx.lookUp identifier expected v = ctx.lookUp identifier expected w := by
  unfold lookUp
  rw [h, h']

/-- A reported volume ends alike in two volumes of which the same was asked for. -/
theorem observe_alike {a b : VolumeLeaf} (h : a.authored = b.authored) (suffix : String)
    (number : UInt32) (reported : ReportedVolume) :
    EndAlike (fun x y : VolumeLeaf × List Drift => x.1.authored = y.1.authored ∧ x.2 = y.2)
      (ctx.observe suffix number a reported) (ctx.observe suffix number b reported) := by
  have hnumber : a.authored.number = b.authored.number := congrArg VolumeLeaf.number h
  have hexpected : a.authored.expectedSizeKib = b.authored.expectedSizeKib :=
    congrArg VolumeLeaf.expectedSizeKib h
  have hdata : a.data.authored = b.data.authored := congrArg VolumeLeaf.data h
  simp only [VolumeLeaf.authored] at hnumber hexpected
  unfold observe
  cases ha : a.data with
  | storage v =>
    cases hb : b.data with
    | storage w =>
      simp only [ha, hb, VolumeData.authored, VolumeData.storage.injEq, StorageVolume.mk.injEq]
        at hdata
      obtain ⟨hprovider, hpool, -⟩ := hdata
      simp only [observeStorage, checkProvider_congr hprovider, lookUp_congr hprovider hpool,
        hexpected]
      cases ctx.checkProvider (volumeIdentifier ctx.key suffix number) w reported with
      | error fault => exact .fault fault
      | ok _ =>
        cases ctx.lookUp (volumeIdentifier ctx.key suffix number) b.expectedSizeKib w with
        | error fault => exact .fault fault
        | ok found =>
          refine .value ⟨?_, rfl⟩
          simp [VolumeLeaf.authored, VolumeData.authored, hprovider, hpool, hnumber]
    | replication _ | encryption _ _ | remoteAttach =>
      rw [ha, hb] at hdata
      cases hdata
  | replication _ | encryption _ _ | remoteAttach =>
    cases hb : b.data <;> rw [ha, hb] at hdata <;> cases hdata
    all_goals
      refine .value ⟨?_, rfl⟩
      simp [VolumeLeaf.authored, VolumeData.authored, hnumber, hexpected]

/-! ## The volumes of a layer -/

/-- Reported volumes end alike in volumes of which the same was asked for, on layers of one kind and
suffix. -/
theorem mergeVolumes_alike {node other : LayerNode} (hkind : node.kind = other.kind)
    (hsuffix : node.suffix = other.suffix) {reported : List ReportedVolume} :
    ∀ {seen : List UInt32} {a b : SortedMap UInt32 VolumeLeaf} {s t : MergeSummary},
      authoredVolumes a = authoredVolumes b → s.Agrees t →
      EndAlike (fun x y : SortedMap UInt32 VolumeLeaf × MergeSummary =>
          authoredVolumes x.1 = authoredVolumes y.1 ∧ x.2.Agrees y.2)
        (ctx.mergeVolumes node seen a s reported) (ctx.mergeVolumes other seen b t reported) := by
  induction reported with
  | nil => exact fun hvolumes hsummary => .value ⟨hvolumes, hsummary⟩
  | cons first rest ih =>
    intro seen a b s t hvolumes hsummary
    simp only [mergeVolumes, hkind, hsuffix]
    cases require "volume_number" first.number with
    | error fault => exact .fault fault
    | ok number =>
      have hget := congrArg (fun volumes => volumes.get? number) hvolumes
      simp only [authoredVolumes, SortedMap.get?_mapValues] at hget
      dsimp only
      cases ha : a.get? number with
      | none =>
        rw [ha, Option.map_none, eq_comm, Option.map_eq_none_iff] at hget
        rw [hget]
        exact .fault _
      | some leaf =>
        rw [ha, Option.map_some, eq_comm, Option.map_eq_some_iff] at hget
        obtain ⟨leaf', hb, hleaf⟩ := hget
        rw [hb]
        dsimp only
        by_cases hseen : seen.contains number = true
        · rw [if_pos hseen, if_pos hseen]
          exact .fault _
        rw [if_neg hseen, if_neg hseen]
        have hobs := @observe_alike ctx leaf leaf' hleaf.symm other.suffix number first
        generalize ctx.observe other.suffix number leaf first = x at hobs
        generalize ctx.observe other.suffix number leaf' first = y at hobs
        cases hobs with
        | fault fault => exact .fault fault
        | @value p q hpq =>
          obtain ⟨hnext, hdrift⟩ := hpq
          refine ih (authoredVolumes_modify hvolumes number hnext) (hsummary.append ?_)
          exact ⟨rfl, rfl, hdrift⟩

/-! ## A layer -/

theorem checkDefinition_congr {a b : LayerNode} (hkind : a.kind = b.kind) (hsuffix : a.suffix = b.suffix)
    (reported : ReportedLayer) : ctx.checkDefinition a reported = ctx.checkDefinition b reported := by
  unfold checkDefinition
  rw [hkind, hsuffix]

theorem absences_congr {a b : LayerNode} (h : a.authored = b.authored) (reported : ReportedLayer) :
    ctx.absences a reported = ctx.absences b reported := by
  have hvolumes : authoredVolumes a.volumes = authoredVolumes b.volumes :=
    congrArg LayerNode.volumes h
  have hkeys := congrArg SortedMap.keys hvolumes
  simp only [authoredVolumes, SortedMap.keys_mapValues] at hkeys
  unfold absences absent
  rw [hkeys, kind_eq_of_authored h, suffix_eq_of_authored h]

/-- A reported layer ends alike in two layers that agree in what the controller determines. -/
theorem mergeNode_alike {a b : LayerNode} (h : a.authored = b.authored) (reported : ReportedLayer) :
    EndAlike (fun x y : LayerNode × MergeSummary × List Absence =>
        x.1.authored = y.1.authored ∧ x.2.1.Agrees y.2.1 ∧ x.2.2 = y.2.2)
      (ctx.mergeNode a reported) (ctx.mergeNode b reported) := by
  have hkind := kind_eq_of_authored h
  have hsuffix := suffix_eq_of_authored h
  have hvolumes : authoredVolumes a.volumes = authoredVolumes b.volumes :=
    congrArg LayerNode.volumes h
  unfold mergeNode
  rw [checkDefinition_congr hkind hsuffix, absences_congr h]
  cases ctx.checkDefinition b reported with
  | error fault => exact .fault fault
  | ok _ =>
    have hmerge := @mergeVolumes_alike ctx a b hkind hsuffix reported.volumes [] _ _ _ _ hvolumes
      (.refl {})
    dsimp only
    generalize ctx.mergeVolumes a [] a.volumes {} reported.volumes = x at hmerge
    generalize ctx.mergeVolumes b [] b.volumes {} reported.volumes = y at hmerge
    cases hmerge with
    | fault fault => exact .fault fault
    | @value p q hpq =>
      obtain ⟨hnext, hsummary⟩ := hpq
      dsimp only
      cases ctx.absences b reported with
      | error fault => exact .fault fault
      | ok missing =>
        refine .value ⟨?_, hsummary.append (.refl _), rfl⟩
        cases a
        cases b
        simp only [LayerNode.authored, LayerNode.mk.injEq] at h ⊢
        exact ⟨h.1, h.2.1, h.2.2.1, h.2.2.2.1, h.2.2.2.2.1, h.2.2.2.2.2.1, hnext⟩

/-! ## Nested layers -/

theorem find?_congr {a b : LayerTree} (h : a.authored = b.authored) (parent : Option LayerId)
    (kind : LayerKind) (suffix : String) : find? a parent kind suffix = find? b parent kind suffix := by
  cases parent with
  | none => rw [find?, find?, ← a.findRoot?_authored, h, b.findRoot?_authored]
  | some above => rw [find?, find?, ← a.findChild?_authored, h, b.findChild?_authored]

theorem identify_congr {a b : LayerTree} (h : a.authored = b.authored) (parent : Option LayerId)
    (taken : List LayerId) (reported : ReportedLayer) :
    ctx.identify a parent taken reported = ctx.identify b parent taken reported := by
  unfold identify
  simp only [find?_congr h]

/-- Two merges under way agree in all that a report can be refused for, and in all that they tell of
but the number of changed fields. -/
structure Abreast (a b : Merging) : Prop where
  tree : a.tree.authored = b.tree.authored
  summary : a.summary.Agrees b.summary
  absences : a.absences = b.absences

theorem mergeLayer_alike {a b : Merging} (h : Abreast a b) (parent : Option LayerId)
    (taken : List LayerId) (reported : ReportedLayer) :
    EndAlike (fun x y : LayerId × Merging => x.1 = y.1 ∧ Abreast x.2 y.2)
      (ctx.mergeLayer parent taken a reported) (ctx.mergeLayer parent taken b reported) := by
  unfold mergeLayer
  rw [identify_congr h.tree]
  cases ctx.identify b.tree parent taken reported with
  | error fault => exact .fault fault
  | ok id =>
    have hget := congrArg (fun tree => tree.get? id) h.tree
    simp only [LayerTree.get?_authored] at hget
    dsimp only
    cases ha : a.tree.get? id with
    | none =>
      rw [ha, Option.map_none, eq_comm, Option.map_eq_none_iff] at hget
      rw [hget]
      exact .fault _
    | some node =>
      rw [ha, Option.map_some, eq_comm, Option.map_eq_some_iff] at hget
      obtain ⟨node', hb, hnode⟩ := hget
      rw [hb]
      have hmerge := @mergeNode_alike ctx node node' hnode.symm reported
      dsimp only
      generalize ctx.mergeNode node reported = x at hmerge
      generalize ctx.mergeNode node' reported = y at hmerge
      cases hmerge with
      | fault fault => exact .fault fault
      | @value p q hpq =>
        obtain ⟨hnext, hsummary, habsences⟩ := hpq
        refine .value ⟨rfl, ?_, h.summary.append hsummary, ?_⟩
        · simp only [LayerTree.authored_modify_const, h.tree, hnext]
        · simp only [h.absences, habsences]

/-- Nested reported layers end alike in two merges that agree so far. The induction follows the first
of them. -/
theorem mergeLevel_alike {parent : Option LayerId} {taken : List LayerId} {a b : Merging}
    {nodes : List ReportNode} (h : Abreast a b) :
    EndAlike Abreast (ctx.mergeLevel parent taken a nodes) (ctx.mergeLevel parent taken b nodes) := by
  induction parent, taken, a, nodes using mergeLevel.induct ctx generalizing b with
  | case1 parent taken a =>
    simp only [mergeLevel]
    exact .value h
  | case2 parent taken a layer children rest fault herr =>
    have hlayer := @mergeLayer_alike ctx _ _ h parent taken layer
    simp only [mergeLevel]
    generalize ctx.mergeLayer parent taken b layer = y at hlayer
    rw [herr] at hlayer ⊢
    cases hlayer
    rw [h.absences]
    exact .fault _
  | case3 parent taken a layer children rest id first hfirst rejection herr ih =>
    have hlayer := @mergeLayer_alike ctx _ _ h parent taken layer
    simp only [mergeLevel]
    generalize ctx.mergeLayer parent taken b layer = y at hlayer
    rw [hfirst] at hlayer ⊢
    cases hlayer with
    | @value _ q hq =>
      obtain ⟨rfl, habreast⟩ := hq
      have hbelow := ih habreast
      dsimp only at hbelow ⊢
      generalize ctx.mergeLevel (some q.1) [] q.2 children = z at hbelow
      rw [herr] at hbelow ⊢
      cases hbelow
      exact .fault _
  | case4 parent taken a layer children rest id first hfirst middle hmiddle ihc ihr =>
    have hlayer := @mergeLayer_alike ctx _ _ h parent taken layer
    simp only [mergeLevel]
    generalize ctx.mergeLayer parent taken b layer = y at hlayer
    rw [hfirst] at hlayer ⊢
    cases hlayer with
    | @value _ q hq =>
      obtain ⟨rfl, habreast⟩ := hq
      have hbelow := ihc habreast
      dsimp only at hbelow ⊢
      generalize ctx.mergeLevel (some q.1) [] q.2 children = z at hbelow
      rw [hmiddle] at hbelow ⊢
      cases hbelow with
      | value hnext => exact ihr hnext

end MergeContext

namespace Resource

open MergeContext (mergeLevel_alike)

/-- Two merges tell the same: they are refused for the same fault, after the same absences, or they
agree in all but the resource and the number of changed fields. -/
def SameVerdict : Except Rejection Merged → Except Rejection Merged → Prop :=
  EndAlike fun a b => a.summary.Agrees b.summary ∧ a.absences = b.absences

/-- A report ends alike in two resources that agree in what the controller determines. -/
theorem Agrees.sameVerdict {a b : Resource} (h : a.Agrees b) (call : MergeCall) :
    SameVerdict (a.take call) (b.take call) := by
  have hctx : a.contextOf call = b.contextOf call := by
    unfold contextOf mergeContext
    rw [h.key, h.definition]
  unfold take merge MergeContext.mergeReport
  rw [← contextOf, ← contextOf, hctx]
  dsimp only
  cases call.report.key with
  | error fault => exact .fault _
  | ok key =>
    by_cases hkey : key = (b.contextOf call).key
    · simp only [if_pos hkey]
      have hlevel := @mergeLevel_alike (b.contextOf call) none [] { tree := a.tree }
        { tree := b.tree } call.report.roots ⟨h.tree, .refl _, rfl⟩
      generalize (b.contextOf call).mergeLevel none [] { tree := a.tree } call.report.roots = x
        at hlevel
      generalize (b.contextOf call).mergeLevel none [] { tree := b.tree } call.report.roots = y
        at hlevel
      cases hlevel with
      | fault rejection => exact .fault _
      | value habreast => exact .value ⟨habreast.summary, habreast.absences⟩
    · simp only [if_neg hkey]
      exact .fault _

/-- What a report ends with does not depend on the reports before it. Into a loaded resource and into
what any reports, accepted or not, have made of it, it is refused for the same fault, or it is taken
in both times with the same counts of volumes and the same drift; only the number of changed fields
may differ. -/
theorem verdict_independent {doc : Document} {graph : Graph} {resource : Resource}
    (hok : Graph.ofDocument doc = .ok graph) (hmem : resource ∈ graph.resources.values)
    (calls : List MergeCall) (call : MergeCall) :
    SameVerdict (resource.take call) ((resource.mergeAll calls).take call) :=
  (mergeAll_agrees (wellFormed_of_loaded hok hmem).nodup).symm.sameVerdict call

/-- The second time the same report is taken in it changes nothing, and tells the same otherwise. -/
theorem verdict_independent_pair :
    SameVerdict (pair.take pairCall) ((pair.mergeAll [pairCall]).take pairCall) ∧
    (pair.take pairCall).toOption.map (·.summary.changed) = some 3 ∧
    ((pair.mergeAll [pairCall]).take pairCall).toOption.map (·.summary.changed) = some 0 :=
  ⟨verdict_independent ofDocument_pair pair_mem [pairCall] pairCall, by cbv, by cbv⟩

end Resource
end BlockStack
