import BlockStack.Store
import BlockStack.Proofs.WireRecord

/-!
# BlockStack.Proofs.FileStore

A store that has saved rows keeps the document with these rows.

* `FileTree.Walkable`: directories stand on the way to a place and at the place. Writing and moving
  a file leaves that as it is, so paths lead to where they did.
* `FileTree.read_replaced`: a file that took the place of another is read at its path.
* `Store.save_document`: after a save the store has the document with the new rows.
-/

namespace BlockStack
namespace FileTree

/-- Directories stand on the way to a place and at the place. -/
def Walkable (tree : FileTree) (place : Place) : Prop := ∀ above, above <+: place → tree.isDir above

theorem walkable_nil (tree : FileTree) : tree.Walkable [] := by
  intro above h
  rw [List.prefix_nil.mp h]
  rfl

theorem Walkable.isDir {tree : FileTree} {place : Place} (h : tree.Walkable place) :
    tree.entry? place = some .dir :=
  of_decide_eq_true (h place (List.prefix_refl place))

theorem Walkable.dropLast {tree : FileTree} {place : Place} (h : tree.Walkable place) :
    tree.Walkable place.dropLast :=
  fun above habove => h above (habove.trans (List.dropLast_prefix place))

theorem Walkable.concat {tree : FileTree} {place : Place} (h : tree.Walkable place) {name : String}
    (hdir : tree.entry? (place ++ [name]) = some .dir) : tree.Walkable (place ++ [name]) := by
  intro above habove
  rcases List.prefix_concat_iff.mp habove with rfl | habove
  · exact decide_eq_true hdir
  · exact h above habove

/-! ## Walking -/

theorem enter_eq_ok {tree : FileTree} {here next : Place} {piece : String}
    (h : tree.enter here piece = .ok next) :
    (piece = "." ∧ next = here) ∨ (piece ≠ "." ∧ piece = ".." ∧ next = here.dropLast) ∨
      (piece ≠ "." ∧ piece ≠ ".." ∧ ¬ maxName < piece.utf8ByteSize ∧ next = here ++ [piece] ∧
        tree.entry? (here ++ [piece]) = some .dir) := by
  unfold enter at h
  split at h
  · rename_i hdot
    cases h
    exact .inl ⟨hdot, rfl⟩
  split at h
  · rename_i hdot hdots
    cases h
    exact .inr (.inl ⟨hdot, hdots, rfl⟩)
  · rename_i hdot hdots
    unfold child at h
    by_cases hname : maxName < piece.utf8ByteSize
    · rw [if_pos hname] at h
      cases h
    · rw [if_neg hname] at h
      cases hentry : tree.entry? (here ++ [piece]) with
      | none => rw [hentry] at h; cases h
      | some entry =>
        rw [hentry] at h
        cases entry with
        | file text => cases h
        | dir =>
          cases h
          exact .inr (.inr ⟨hdot, hdots, hname, rfl, rfl⟩)

section
variable {tree other : FileTree} (hkeep : ∀ place, tree.Walkable place → other.Walkable place)
include hkeep

theorem enter_keeps {here next : Place} {piece : String} (hhere : tree.Walkable here)
    (h : tree.enter here piece = .ok next) :
    other.enter here piece = .ok next ∧ tree.Walkable next := by
  rcases enter_eq_ok h with ⟨rfl, rfl⟩ | ⟨hdot, rfl, rfl⟩ | ⟨hdot, hdots, hname, rfl, hdir⟩
  · exact ⟨by simp [enter], hhere⟩
  · exact ⟨by simp [enter], hhere.dropLast⟩
  · have hwalk := hhere.concat hdir
    refine ⟨?_, hwalk⟩
    simp [enter, child, hdot, hdots, hname, (hkeep _ hwalk).isDir]

theorem descend_keeps {pieces : List String} : ∀ {here dir : Place}, tree.Walkable here →
    tree.descend here pieces = .ok dir →
    other.descend here pieces = .ok dir ∧ tree.Walkable dir := by
  induction pieces with
  | nil =>
    intro here dir hhere h
    cases h
    exact ⟨rfl, hhere⟩
  | cons piece rest ih =>
    intro here dir hhere h
    unfold descend at h
    split at h
    · cases h
    · rename_i next hnext
      obtain ⟨hother, hwalk⟩ := enter_keeps hkeep hhere hnext
      obtain ⟨hrest, hdir⟩ := ih hwalk h
      exact ⟨by simp only [descend, hother, hrest], hdir⟩

/-- Where all that could be walked can still be walked, a path leads to where it did. -/
theorem resolve_keeps (hhome : other.home = tree.home) (hwalk : tree.Walkable tree.home)
    {path : String} {e : PathEnd} (h : tree.resolve path = .ok e) :
    other.resolve path = .ok e ∧ tree.Walkable e.dir := by
  unfold resolve at h ⊢
  split at h
  · cases h
  rename_i hzero
  split at h
  · cases h
  rename_i hempty
  split at h
  · cases h
  rename_i hlong
  rw [if_neg hzero, if_neg hempty, if_neg hlong]
  dsimp only at h ⊢
  split at h
  · cases h
  rename_i dir hdir
  cases h
  have horigin : tree.Walkable (tree.origin path) := by
    unfold origin
    split
    · exact walkable_nil tree
    · exact hwalk
  have hsame : other.origin path = tree.origin path := by simp only [origin, hhome]
  obtain ⟨hdescend, hwalkdir⟩ := descend_keeps hkeep horigin hdir
  rw [hsame, hdescend]
  exact ⟨rfl, hwalkdir⟩

end

/-! ## Writing -/

theorem entry?_of_ne_nil (tree : FileTree) {place : Place} (h : place ≠ []) :
    tree.entry? place = tree.entries.get? place := by
  cases place with
  | nil => exact absurd rfl h
  | cons name rest => rfl

theorem entry?_insert (tree : FileTree) (place other : Place) (entry : FileEntry)
    (hplace : place ≠ []) :
    FileTree.entry? { tree with entries := tree.entries.insert place entry } other =
      if other = place then some entry else tree.entry? other := by
  cases other with
  | nil => rw [if_neg (fun h => hplace h.symm)]; rfl
  | cons name rest => exact SortedMap.get?_insert ..

/-- A text is written to a place where no directory stands. -/
theorem write_eq_ok {tree next : FileTree} {path text : String}
    (h : tree.write path text = .ok next) :
    ∃ e, tree.resolve path = .ok e ∧ e.isNamed = true ∧ e.slash = false ∧
      ¬ maxName < e.last.utf8ByteSize ∧ tree.entry? e.place ≠ some .dir ∧
      next = { tree with entries := tree.entries.insert e.place (.file text) } := by
  unfold write at h
  split at h
  · cases h
  rename_i e hresolve
  split at h
  · cases h
  rename_i hend
  simp only [Bool.or_eq_true, Bool.not_eq_true', not_or, Bool.not_eq_false,
    Bool.not_eq_true] at hend
  unfold child at h
  by_cases hname : maxName < e.last.utf8ByteSize
  · rw [if_pos hname] at h
    cases h
  rw [if_neg hname] at h
  refine ⟨e, hresolve, hend.1, hend.2, hname, ?_⟩
  cases hentry : tree.entry? (e.dir ++ [e.last]) with
  | none =>
    rw [hentry] at h
    cases h
    exact ⟨by simp [PathEnd.place, hentry], rfl⟩
  | some entry =>
    rw [hentry] at h
    cases entry with
    | dir => cases h
    | file old =>
      cases h
      exact ⟨by simp [PathEnd.place, hentry], rfl⟩

theorem place_ne_nil (e : PathEnd) : e.place ≠ [] := by simp [PathEnd.place]

/-- A file that is put where no directory stands bars no way. -/
theorem Walkable.insert {tree : FileTree} {place target : Place} (h : tree.Walkable place)
    {text : String} (htarget : target ≠ []) (hfree : tree.entry? target ≠ some .dir) :
    ({ tree with entries := tree.entries.insert target (.file text) } : FileTree).Walkable
      place := by
  intro above habove
  have hdir : tree.entry? above = some .dir := of_decide_eq_true (h above habove)
  have hne : above ≠ target := fun heq => hfree (heq ▸ hdir)
  simp only [FileTree.isDir, entry?_insert _ _ _ _ htarget, if_neg hne, hdir, decide_true]

/-! ## Moving -/

theorem mem_moved {tree : FileTree} {source target place : Place} {entry : FileEntry} :
    (place, entry) ∈ (tree.entries.erase target).entries.map
        (fun e => (movedTo source target e.1, e.2)) ↔
      ∃ other, other ≠ target ∧ tree.entries.get? other = some entry ∧
        movedTo source target other = place := by
  rw [List.mem_map]
  constructor
  · rintro ⟨e, he, heq⟩
    obtain ⟨rfl, rfl⟩ := Prod.mk.inj heq
    obtain ⟨hmem, hne⟩ := List.mem_filter.mp he
    refine ⟨e.1, ?_, (SortedMap.mem_entries_iff _).mp hmem, rfl⟩
    rintro rfl
    simp at hne
  · rintro ⟨other, hne, hget, rfl⟩
    refine ⟨(other, entry), List.mem_filter.mpr ⟨(SortedMap.mem_entries_iff _).mpr hget, ?_⟩, rfl⟩
    simpa using fun heq => hne heq.symm

/-- What moves to a place stands there, if nothing else moves there. -/
theorem entry?_move {tree : FileTree} {source target place other : Place} {entry : FileEntry}
    (hplace : place ≠ []) (hne : other ≠ target) (hget : tree.entries.get? other = some entry)
    (hmoved : movedTo source target other = place)
    (honly : ∀ another, another ≠ target → tree.entries.contains another = true →
      movedTo source target another = place → another = other) :
    FileTree.entry? (tree.move source target) place = some entry := by
  rw [entry?_of_ne_nil _ hplace]
  simp only [move, SortedMap.get?_ofList]
  have hmem := mem_moved.mpr ⟨other, hne, hget, hmoved⟩
  cases hlast : (((tree.entries.erase target).entries.map
      (fun e => (movedTo source target e.1, e.2))).filter (fun e => e.1 = place)).getLast? with
  | none =>
    have hnil := List.filter_eq_nil_iff.mp (List.getLast?_eq_none_iff.mp hlast) _ hmem
    simp at hnil
  | some last =>
    obtain ⟨hlastmem, hlastplace⟩ := List.mem_filter.mp (List.mem_of_getLast? hlast)
    obtain ⟨place', entry'⟩ := last
    obtain ⟨another, hanother, hget', hmoved'⟩ := mem_moved.mp hlastmem
    have hsame : another = other :=
      honly another hanother (by simp [SortedMap.contains, hget'])
        (hmoved'.trans (of_decide_eq_true hlastplace))
    rw [hsame, hget] at hget'
    exact hget'.symm

theorem movedTo_of_not_isPrefixOf {source target place : Place} (h : ¬ source <+: place) :
    movedTo source target place = place := by
  rw [movedTo, if_neg (by rwa [List.isPrefixOf_iff_prefix])]

/-- A directory that could be walked stays where it is when a file moves onto a file. -/
theorem Walkable.move {tree : FileTree} {source target place : Place} (h : tree.Walkable place)
    (hsource : tree.entry? source ≠ some .dir) (htarget : tree.entry? target ≠ some .dir) :
    (tree.move source target).Walkable place := by
  intro above habove
  refine decide_eq_true ?_
  have hwalk : tree.Walkable above := fun first hfirst => h first (hfirst.trans habove)
  by_cases hroot : above = []
  · rw [hroot]
    rfl
  have hbar : ∀ {barrier : Place}, tree.entry? barrier ≠ some .dir → ¬ barrier <+: above :=
    fun hbarrier hprefix => hbarrier (of_decide_eq_true (hwalk _ hprefix))
  have hget : tree.entries.get? above = some .dir := by
    rw [← entry?_of_ne_nil _ hroot]
    exact hwalk.isDir
  refine entry?_move hroot (fun heq => hbar htarget (heq ▸ List.prefix_refl _)) hget
    (movedTo_of_not_isPrefixOf (hbar hsource)) ?_
  intro another _ _ hmoved
  -- what is moved ends below the target, and nothing that can be walked lies there
  by_cases hprefix : source <+: another
  · rw [movedTo, if_pos (by rwa [List.isPrefixOf_iff_prefix])] at hmoved
    exact absurd ⟨_, hmoved⟩ (hbar htarget)
  · rwa [movedTo_of_not_isPrefixOf hprefix] at hmoved

/-- What moves is found at its new place. -/
theorem entry?_move_target {tree : FileTree} {source target : Place} {entry : FileEntry}
    (hsource : source ≠ []) (htarget : target ≠ []) (hne : source ≠ target)
    (hentry : tree.entry? source = some entry) :
    FileTree.entry? (tree.move source target) target = some entry := by
  rw [entry?_of_ne_nil _ hsource] at hentry
  refine entry?_move htarget hne hentry ?_ ?_
  · rw [movedTo, if_pos (by simp)]
    simp
  · intro another hanother _ hmoved
    by_cases hprefix : source <+: another
    · obtain ⟨rest, rfl⟩ := hprefix
      rw [movedTo, if_pos (by simp), List.drop_left] at hmoved
      rw [List.append_right_eq_self.mp hmoved, List.append_nil]
    · exact absurd (movedTo_of_not_isPrefixOf hprefix ▸ hmoved) hanother

/-- A file is renamed to a path at whose end no directory stands. -/
theorem renameEnd_eq_ok {tree next : FileTree} {source target : PathEnd} {text : String}
    (hfile : tree.entry? source.place = some (.file text))
    (h : tree.renameEnd source target = .ok next) :
    target.isNamed = true ∧ target.slash = false ∧ ¬ maxName < target.last.utf8ByteSize ∧
      ((source.place = target.place ∧ next = tree) ∨
        (source.place ≠ target.place ∧ tree.entry? target.place ≠ some .dir ∧
          next = tree.move source.place target.place)) := by
  unfold renameEnd at h
  split at h
  · cases h
  rename_i hnamed
  simp only [Bool.or_eq_true, Bool.not_eq_true', not_or, Bool.not_eq_false] at hnamed
  unfold child at h
  by_cases hsource : maxName < source.last.utf8ByteSize
  · rw [if_pos hsource] at h
    cases h
  by_cases htarget : maxName < target.last.utf8ByteSize
  · have hentry : tree.entry? (source.dir ++ [source.last]) = some (.file text) := hfile
    rw [if_neg hsource, if_pos htarget, hentry] at h
    cases h
  have hentry : tree.entry? (source.dir ++ [source.last]) = some (.file text) := hfile
  rw [if_neg hsource, if_neg htarget, hentry] at h
  simp only at h
  split at h
  · cases h
  rename_i hslash
  have hslash' : target.slash = false := by
    cases hs : target.slash with
    | false => rfl
    | true => simp [hs] at hslash
  refine ⟨hnamed.2, hslash', htarget, ?_⟩
  split at h
  · cases h
  split at h
  · cases h
  split at h
  · rename_i hsame
    cases h
    exact .inl ⟨hsame, rfl⟩
  rename_i hne
  refine .inr ⟨hne, ?_⟩
  have hplace : tree.entry? (target.dir ++ [target.last]) = tree.entry? target.place := rfl
  rw [hplace] at h
  cases hthere : tree.entry? target.place with
  | none =>
    rw [hthere] at h
    cases h
    exact ⟨nofun, rfl⟩
  | some there =>
    rw [hthere] at h
    cases there with
    | dir => cases h
    | file old =>
      cases h
      exact ⟨nofun, rfl⟩

theorem rename_eq_ok {tree next : FileTree} {source target : String}
    (h : tree.rename source target = .ok next) :
    ∃ s t, tree.resolve source = .ok s ∧ tree.resolve target = .ok t ∧
      tree.renameEnd s t = .ok next := by
  unfold rename at h
  split at h
  · cases h
  split at h
  · cases h
  · cases h
  · rename_i s t hsource htarget
    exact ⟨s, t, hsource, htarget, h⟩

theorem read_file {tree : FileTree} {path text : String} {e : PathEnd}
    (hresolve : tree.resolve path = .ok e) (hnamed : e.isNamed = true) (hslash : e.slash = false)
    (hname : ¬ maxName < e.last.utf8ByteSize) (hentry : tree.entry? e.place = some (.file text)) :
    tree.read path = .ok text := by
  have hchild : tree.entry? (e.dir ++ [e.last]) = some (.file text) := hentry
  simp [read, find, child, hresolve, hnamed, hslash, hname, hchild]

/-- Nothing is written where a directory stands. -/
theorem write_onto_dir {tree : FileTree} {path text : String} {e : PathEnd}
    (hresolve : tree.resolve path = .ok e) (hnamed : e.isNamed = true) (hslash : e.slash = false)
    (hname : ¬ maxName < e.last.utf8ByteSize) (hentry : tree.entry? e.place = some .dir) :
    tree.write path text = .error .isDirectory := by
  have hchild : tree.entry? (e.dir ++ [e.last]) = some .dir := hentry
  simp [write, child, hresolve, hnamed, hslash, hname, hchild]

/-- A file that was written beside another and renamed to it is read at its path. -/
theorem read_replaced {tree written next : FileTree} {beside path text : String}
    (hhome : tree.Walkable tree.home) (hwrite : tree.write beside text = .ok written)
    (hrename : written.rename beside path = .ok next) :
    next.read path = .ok text ∧ next.Walkable next.home := by
  obtain ⟨e, hresolve, -, -, -, hfree, rfl⟩ := write_eq_ok hwrite
  let written : FileTree := { tree with entries := tree.entries.insert e.place (.file text) }
  have hinsert : ∀ place, tree.Walkable place → written.Walkable place :=
    fun place hwalk => hwalk.insert (place_ne_nil e) hfree
  have hfile : written.entry? e.place = some (.file text) := by
    rw [entry?_insert _ _ _ _ (place_ne_nil e), if_pos rfl]
  obtain ⟨s, t, hsource, htarget, hend⟩ := rename_eq_ok hrename
  -- the path that was written to still leads to what was written
  have hbeside := (resolve_keeps hinsert rfl hhome hresolve).1
  obtain rfl : e = s := Except.ok.inj (hbeside.symm.trans hsource)
  obtain ⟨hnamed, hslash, hname, ⟨hsame, rfl⟩ | ⟨hne, hdir, rfl⟩⟩ := renameEnd_eq_ok hfile hend
  · exact ⟨read_file htarget hnamed hslash hname (hsame ▸ hfile), hinsert _ hhome⟩
  · have hmove : ∀ place, written.Walkable place →
        (written.move e.place t.place).Walkable place :=
      fun place hwalk => hwalk.move (by rw [hfile]; nofun) hdir
    refine ⟨?_, hmove _ (hinsert _ hhome)⟩
    have hpath := (resolve_keeps hmove rfl (hinsert _ hhome) htarget).1
    exact read_file hpath hnamed hslash hname
      (entry?_move_target (place_ne_nil e) (place_ne_nil t) hne hfile)

end FileTree

namespace Store

/-- The working directory of a store in a file is there. -/
def Grounded : Store → Prop
  | memory _ => True
  | file _ files => files.Walkable files.home

theorem parseDocument_pretty (doc : Document) : parseDocument doc.toJson.pretty = .ok doc := by
  rw [parseDocument, doc.parse_pretty]

/-- Rows are not saved in a file that cannot be replaced. -/
theorem save_fault {path : String} {files : FileTree} {doc : Document} {key : ResourceKey}
    {rows : Rows} {cause : IoFault} (hread : readFile files path = .ok doc)
    (hreplace : replaceFile files path (doc.replaceResource key rows) = .error cause) :
    save (.file path files) key rows = .error (.io cause) := by
  simp only [save, hread, hreplace]

/-- A store that has saved rows keeps the document with these rows. -/
theorem save_document {store next : Store} {doc : Document} {key : ResourceKey} {rows : Rows}
    (hground : store.Grounded) (hdoc : store.document = .ok doc)
    (hsave : store.save key rows = .ok next) :
    next.document = .ok (doc.replaceResource key rows) ∧ next.Grounded := by
  cases store with
  | memory document =>
    cases hdoc
    cases hsave
    exact ⟨rfl, trivial⟩
  | file path files =>
    have hread : readFile files path = .ok doc := hdoc
    simp only [save, hread] at hsave
    split at hsave
    · cases hsave
    rename_i written hreplace
    cases hsave
    unfold replaceFile at hreplace
    dsimp only at hreplace
    split at hreplace
    · cases hreplace
    rename_i beside hwrite
    obtain ⟨htext, hhome⟩ := FileTree.read_replaced hground hwrite hreplace
    refine ⟨?_, hhome⟩
    show readFile written path = _
    rw [readFile, htext]
    exact parseDocument_pretty _

end Store
end BlockStack
