import BlockStack.Proofs.Walks

/-!
# BlockStack.Proofs.Elsewhere

What a change of files leaves of other places.

* `FileTree.stepTo`: where a part of a path leads, whatever stands there. What is found at the end of
  a path is found at its nominal place (`FileTree.nominal_of_walk`, `FileTree.place_of_resolve`).
* `FileTree.renamed_elsewhere`, `FileTree.written_elsewhere`: a change at some paths leaves all places
  that are neither at nor below the nominal places of these.
* `FileTree.Spared`: the places that neither lie in a directory nor are taken by a document.
* `FileTree.Unmoved`: all spared places are as they were. `Unmoved.rename` and `Unmoved.save` are the
  steps that keep it.
-/

namespace BlockStack
namespace FileTree

variable {tree next : FileTree} {path dir name source target : String} {here other : Place}

/-! ## Nominal places -/

/-- The place that a part of a path leads to, whatever stands there. -/
def stepTo (here : Place) (piece : String) : Place :=
  if Path.isName piece then here ++ [piece] else if piece = ".." then here.dropLast else here

theorem stepTo_name (hnamed : Path.isName name = true) (here : Place) :
    stepTo here name = here ++ [name] := if_pos hnamed

theorem nominal_eq (tree : FileTree) (path : String) : tree.nominal path =
    ((Path.pieces path).filter (· ≠ "")).foldl stepTo (tree.origin path) := by
  have hskip : ∀ pieces : List String, ∀ start : Place,
      pieces.foldl stepTo start = (pieces.filter (· ≠ "")).foldl stepTo start := by
    intro pieces
    induction pieces with
    | nil => exact fun _ => rfl
    | cons piece rest ih =>
      intro start
      by_cases hempty : piece = ""
      · rw [List.filter_cons_of_neg (by simpa using hempty), List.foldl_cons, ih, hempty]
        rfl
      · rw [List.filter_cons_of_pos (by simpa using hempty), List.foldl_cons, List.foldl_cons, ih]
  exact hskip _ _

theorem enter_stepTo {piece : String} {after : Place} (hne : piece ≠ "")
    (h : tree.enter here piece = .ok after) : after = stepTo here piece := by
  rcases enter_eq_ok h with ⟨rfl, rfl⟩ | ⟨-, rfl, rfl⟩ | ⟨hdot, hdots, -, rfl, -⟩
  · rfl
  · rfl
  · rw [stepTo_name (by simp [Path.isName, hne, hdot, hdots])]

theorem descend_stepTo {pieces : List String} (hpieces : ∀ piece ∈ pieces, piece ≠ "") :
    ∀ {here after : Place}, tree.descend here pieces = .ok after →
      after = pieces.foldl stepTo here := by
  induction pieces with
  | nil => exact fun h => (Except.ok.inj h).symm
  | cons piece rest ih =>
    intro here after h
    obtain ⟨hpiece, hrest⟩ := List.forall_mem_cons.1 hpieces
    unfold descend at h
    split at h
    · cases h
    · rename_i middle hmiddle
      rw [List.foldl_cons, ← enter_stepTo hpiece hmiddle]
      exact ih hrest h

theorem filter_named (path : String) : ∀ piece ∈ (Path.pieces path).filter (· ≠ ""), piece ≠ "" :=
  fun _ hpiece => of_decide_eq_true (List.mem_filter.1 hpiece).2

/-- A path leads to its nominal place, if all its parts lead anywhere. -/
theorem nominal_of_walk (h : tree.walk path = .ok here) : here = tree.nominal path := by
  rw [nominal_eq]
  exact descend_stepTo (filter_named path) h

theorem place_of_resolve {e : PathEnd} (h : tree.resolve path = .ok e)
    (hnamed : e.isNamed = true) : e.place = tree.nominal path := by
  obtain ⟨-, -, -, hdescend, hlast, -⟩ := resolve_eq_ok_iff.1 h
  have hparts := filter_named path
  rw [nominal_eq]
  generalize (Path.pieces path).filter (· ≠ "") = pieces at hdescend hlast hparts
  rcases pieces.eq_nil_or_concat with rfl | ⟨init, last, rfl⟩
  · rw [PathEnd.isNamed, hlast] at hnamed
    cases hnamed
  rw [List.concat_eq_append] at *
  rw [List.dropLast_concat] at hdescend
  rw [List.getLast?_concat, Option.getD_some] at hlast
  have hdir := descend_stepTo (fun piece hpiece => hparts piece (List.mem_append_left _ hpiece))
    hdescend
  rw [List.foldl_append, ← hdir, List.foldl_cons, List.foldl_nil, ← hlast, stepTo_name hnamed]
  rfl

theorem nominal_inside (hslash : '/' ∉ name.toList) : tree.nominal (Glob.inside dir name) =
    ([name].filter (· ≠ "")).foldl stepTo (tree.nominal dir) := by
  cases hhere : Path.isHere dir with
  | true =>
    have hname : Glob.inside dir name = name := if_pos hhere
    have horigin : tree.origin name = tree.home := by
      unfold origin
      rw [Path.isAbsolute_of_plain hslash]
      rfl
    have hwalk : tree.walk dir = .ok tree.home := walk_here hhere
    rw [← nominal_of_walk hwalk, hname, nominal_eq, Path.pieces_of_plain hslash, horigin]
  | false =>
    have horigin : tree.origin (Glob.inside dir name) = tree.origin dir := by
      unfold origin
      rw [Path.isAbsolute_inside hslash hhere]
    rw [nominal_eq, pieces_inside hslash, hhere, if_neg Bool.false_ne_true, List.foldl_append,
      horigin, ← nominal_eq]

theorem nominal_congr (hhome : next.home = tree.home) (path : String) :
    next.nominal path = tree.nominal path := by
  simp only [nominal, origin, hhome]

/-! ## Changes at some paths -/

theorem renameEnd_moves {s t : PathEnd} (h : tree.renameEnd s t = .ok next) :
    s.isNamed = true ∧ t.isNamed = true ∧ (next = tree ∨ next = tree.move s.place t.place) := by
  unfold renameEnd at h
  split at h
  · cases h
  rename_i hnamed
  simp only [Bool.or_eq_true, Bool.not_eq_true', not_or, Bool.not_eq_false] at hnamed
  refine ⟨hnamed.1, hnamed.2, ?_⟩
  repeat' split at h
  all_goals first
    | cases h; exact .inl rfl
    | cases h; exact .inr rfl
    | cases h

/-- What lies neither at nor below the two ends of a renaming is as it was. -/
theorem renamed_elsewhere (h : tree.rename source target = .ok next) : next.home = tree.home ∧
    ∀ other, ¬ tree.nominal source <+: other → ¬ tree.nominal target <+: other →
      next.entry? other = tree.entry? other := by
  obtain ⟨s, t, hs, ht, hend⟩ := rename_eq_ok h
  obtain ⟨hsnamed, htnamed, rfl | rfl⟩ := renameEnd_moves hend
  · exact ⟨rfl, fun _ _ _ => rfl⟩
  · refine ⟨rfl, fun other hsource htarget => ?_⟩
    rw [← place_of_resolve hs hsnamed] at hsource
    rw [← place_of_resolve ht htnamed] at htarget
    exact entry?_move_other hsource htarget

theorem written_elsewhere {text : String} (h : tree.write path text = .ok next) :
    next.home = tree.home ∧
      ∀ other, ¬ tree.nominal path <+: other → next.entry? other = tree.entry? other := by
  obtain ⟨e, hresolve, hnamed, -, -, -, rfl⟩ := write_eq_ok h
  refine ⟨rfl, fun other hpath => ?_⟩
  rw [← place_of_resolve hresolve hnamed] at hpath
  rw [entry?_insert _ _ _ _ (place_ne_nil e), if_neg]
  rintro rfl
  exact hpath (List.prefix_refl _)

/-- A renaming ends in a name. -/
theorem renamed_named (h : tree.rename source (Glob.inside dir name) = .ok next)
    (hslash : '/' ∉ name.toList) (hne : name ≠ "") : Path.isName name = true := by
  obtain ⟨s, t, -, ht, hend⟩ := rename_eq_ok h
  obtain ⟨-, htnamed, -⟩ := renameEnd_moves hend
  obtain ⟨-, -, -, -, hlast, -⟩ := resolve_eq_ok_iff.1 ht
  have hself : [name].filter (· ≠ "") = [name] := by simp [hne]
  rw [pieces_inside hslash, hself, List.getLast?_concat, Option.getD_some] at hlast
  rwa [PathEnd.isNamed, hlast] at htnamed

/-! ## Spared places -/

/-- A place that neither lies in a directory nor is taken by a document, or by the file beside it
that the document is written to first. -/
structure Spared (files : FileTree) (here : Place) (path : String) (other : Place) : Prop where
  outside : ∀ name, ¬ here ++ [name] <+: other
  document : ¬ files.nominal path <+: other
  beside : ¬ files.nominal (Path.replaceExtension "json.tmp" path) <+: other

/-- All spared places are as they were. -/
structure Unmoved (files : FileTree) (here : Place) (path : String) (now : FileTree) : Prop where
  home : now.home = files.home
  entry : ∀ other, files.Spared here path other → now.entry? other = files.entry? other

variable {files now : FileTree}

theorem Unmoved.refl (files : FileTree) (here : Place) (path : String) :
    files.Unmoved here path files := ⟨rfl, fun _ _ => rfl⟩

theorem Unmoved.step (h : files.Unmoved here path now) (hhome : next.home = now.home)
    (hentry : ∀ other, files.Spared here path other → next.entry? other = now.entry? other) :
    files.Unmoved here path next :=
  ⟨hhome.trans h.home, fun other hother => (hentry other hother).trans (h.entry other hother)⟩

/-- What is renamed in a directory leaves all spared places. -/
theorem Unmoved.rename {old new : String} (h : files.Unmoved here path now)
    (hdir : files.nominal dir = here) (hold : Path.isName old = true) (holdslash : '/' ∉ old.toList)
    (hnew : new ≠ "") (hnewslash : '/' ∉ new.toList)
    (hrename : now.rename (Glob.inside dir old) (Glob.inside dir new) = .ok next) :
    files.Unmoved here path next := by
  have hplace : ∀ {name : String}, Path.isName name = true → '/' ∉ name.toList →
      now.nominal (Glob.inside dir name) = here ++ [name] := fun {name} hnamed hslash => by
    have hself : [name].filter (· ≠ "") = [name] := by
      simp only [Path.isName, Bool.and_eq_true, decide_eq_true_eq] at hnamed
      simp [hnamed.1.1]
    rw [nominal_inside hslash, hself, nominal_congr h.home, hdir, List.foldl_cons, List.foldl_nil,
      stepTo_name hnamed]
  have hsource := hplace hold holdslash
  have htarget := hplace (renamed_named hrename hnewslash hnew) hnewslash
  obtain ⟨hhome, helsewhere⟩ := renamed_elsewhere hrename
  exact h.step hhome fun other hother =>
    helsewhere other (hsource ▸ hother.outside old) (htarget ▸ hother.outside new)

/-- A document that is saved leaves all spared places. -/
theorem Unmoved.save {key : ResourceKey} {rows : Rows} {store : Store}
    (h : files.Unmoved here path now) (hsave : (Store.file path now).save key rows = .ok store) :
    ∃ left, store = .file path left ∧ files.Unmoved here path left := by
  obtain ⟨text, written, left, hstore, hwrite, hrename⟩ := Store.save_file_ok hsave
  obtain ⟨hwritten, hwrittenelse⟩ := written_elsewhere hwrite
  obtain ⟨hrenamed, hrenamedelse⟩ := renamed_elsewhere hrename
  have hmiddle : files.Unmoved here path written := h.step hwritten fun other hother => by
    refine hwrittenelse other ?_
    rw [nominal_congr h.home]
    exact hother.beside
  refine ⟨left, hstore, hmiddle.step hrenamed fun other hother => hrenamedelse other ?_ ?_⟩
  · rw [nominal_congr hmiddle.home]
    exact hother.beside
  · rw [nominal_congr hmiddle.home]
    exact hother.document

end FileTree
end BlockStack
