import BlockStack.Glob
import BlockStack.Proofs.StoreCalls

/-!
# BlockStack.Proofs.Directory

What happens to the files of one directory.

* `FileTree.contents`: what stands in a directory, by names.
* `FileTree.renamed_all`: files that got other names are found by these. `FileTree.renamed_shared`: of
  two that got the same name only one is left.
* `FileTree.Shift`: files of one directory got other names, one after the other, while no directory
  has come or gone. `FileTree.shift_move`: a file that is renamed. `FileTree.Shift.ready`: a file
  elsewhere can be replaced as before.
* `Store.save_file_ok`: rows are saved in a new file that takes the place of the old one.
  `Store.shift_save`: in a file elsewhere this renames nothing.
* `Glob.mem_namesIn`: the names that a pattern looks through are those of the directory.
-/

namespace BlockStack
namespace FileTree

/-- What stands in a directory, by names. -/
def contents (tree : FileTree) (here : Place) (name : String) : Option FileEntry :=
  tree.entry? (here ++ [name])

/-- What stands in a directory once what has one name has got another. -/
def renamed (contents : String → Option FileEntry) (move : String × String) (name : String) :
    Option FileEntry :=
  if name = move.2 then contents move.1 else if name = move.1 then none else contents name

/-- Files of a directory got other names, one after the other; no directory has come or gone. -/
structure Shift (here : Place) (moves : List (String × String)) (before after : FileTree) :
    Prop where
  home : after.home = before.home
  walkable : ∀ place, before.Walkable place ↔ after.Walkable place
  contents : after.contents here = moves.foldl renamed (before.contents here)

variable {tree before middle after : FileTree} {here : Place} {a b : List (String × String)}

theorem Shift.refl (here : Place) (tree : FileTree) : Shift here [] tree tree :=
  ⟨rfl, fun _ => Iff.rfl, rfl⟩

theorem Shift.trans (h : Shift here a before middle) (h' : Shift here b middle after) :
    Shift here (a ++ b) before after where
  home := h'.home.trans h.home
  walkable place := (h.walkable place).trans (h'.walkable place)
  contents := by rw [h'.contents, h.contents, List.foldl_append]

/-- Paths lead to where they did. -/
theorem Shift.resolve_iff (h : Shift here a before after) (hhome : before.Walkable before.home)
    {path : String} {e : PathEnd} : before.resolve path = .ok e ↔ after.resolve path = .ok e := by
  have hback : after.Walkable after.home := (h.walkable _).1 (h.home ▸ hhome)
  exact ⟨fun hres => (resolve_keeps (fun place => (h.walkable place).1) h.home hhome hres).1,
    fun hres => (resolve_keeps (fun place => (h.walkable place).2) h.home.symm hback hres).1⟩

/-! ## New names -/

section Renamed

variable {contents : String → Option FileEntry} {moves : List (String × String)}

/-- What is neither renamed nor the new name of anything stays. -/
theorem renamed_other {name : String} (hfrom : name ∉ moves.map (·.1))
    (hto : name ∉ moves.map (·.2)) : moves.foldl renamed contents name = contents name := by
  induction moves generalizing contents with
  | nil => rfl
  | cons move rest ih =>
    simp only [List.map_cons, List.mem_cons, not_or] at hfrom hto
    rw [List.foldl_cons, ih hfrom.2 hto.2, renamed, if_neg hto.1, if_neg hfrom.1]

/-- Files are found by their new names, and not by their old ones, if all these are apart. -/
theorem renamed_all (hfrom : (moves.map (·.1)).Nodup) (hto : (moves.map (·.2)).Nodup)
    (hapart : ∀ name ∈ moves.map (·.1), name ∉ moves.map (·.2)) :
    ∀ move ∈ moves, moves.foldl renamed contents move.2 = contents move.1 ∧
      moves.foldl renamed contents move.1 = none := by
  induction moves generalizing contents with
  | nil => nofun
  | cons first rest ih =>
    simp only [List.map_cons, List.nodup_cons, List.mem_cons, forall_eq_or_imp, not_or] at *
    obtain ⟨hfirst, hfrom⟩ := hfrom
    obtain ⟨hfirst', hto⟩ := hto
    obtain ⟨⟨hne, hnot⟩, hrest⟩ := hapart
    have hothers := @ih (renamed contents first) hfrom hto fun name hname => (hrest name hname).2
    have hfree : first.2 ∉ rest.map (·.1) := fun hmem => (hrest first.2 hmem).1 rfl
    refine ⟨⟨?_, ?_⟩, fun move hmove => ?_⟩
    · rw [List.foldl_cons, renamed_other hfree hfirst', renamed, if_pos rfl]
    · rw [List.foldl_cons, renamed_other hfirst hnot, renamed, if_neg hne, if_pos rfl]
    · have hold : move.1 ∈ rest.map (·.1) := List.mem_map_of_mem hmove
      obtain ⟨hnew, hgone⟩ := hothers move hmove
      have hnot' : move.1 ≠ first.1 := fun hsame => hfirst (hsame ▸ hold)
      refine ⟨?_, hgone⟩
      rw [List.foldl_cons, hnew, renamed, if_neg (hrest move.1 hold).1, if_neg hnot']

/-- Of two files that get one name only the second is left. -/
theorem renamed_shared {first second new : String} (hnew : second ≠ new) (hne : second ≠ first)
    (honly : ∀ name, name ≠ first → name ≠ second → contents name = none) (name : String) :
    [(first, new), (second, new)].foldl renamed contents name =
      if name = new then contents second else none := by
  simp only [List.foldl_cons, List.foldl_nil, renamed, if_neg hnew, if_neg hne]
  by_cases hname : name = new
  · rw [if_pos hname, if_pos hname]
  · rw [if_neg hname, if_neg hname, if_neg hname]
    by_cases hsecond : name = second
    · rw [if_pos hsecond]
    · by_cases hfirst : name = first
      · rw [if_neg hsecond, if_pos hfirst]
      · rw [if_neg hsecond, if_neg hfirst, honly name hfirst hsecond]

end Renamed

/-- A path to a directory leads there all the time. -/
theorem Shift.find_dir {after : FileTree} {moves : List (String × String)} {elsewhere : Place}
    (h : Shift elsewhere moves tree after) (hhome : tree.Walkable tree.home)
    (hfind : tree.find dir = .ok (here, .dir)) : after.find dir = .ok (here, .dir) := by
  unfold find at hfind ⊢
  split at hfind
  · cases hfind
  rename_i e hresolve
  have hwalk := (resolve_keeps (fun _ h => h) rfl hhome hresolve).2
  rw [(h.resolve_iff hhome).1 hresolve]
  dsimp only
  split at hfind
  · rename_i hnamed
    rw [if_pos hnamed]
    exact hfind
  rename_i hnamed
  rw [if_neg hnamed]
  unfold child at hfind ⊢
  by_cases hshort : maxName < e.last.utf8ByteSize
  · rw [if_pos hshort] at hfind
    cases hfind
  rw [if_neg hshort] at hfind ⊢
  cases hentry : tree.entry? (e.dir ++ [e.last]) with
  | none =>
    rw [hentry] at hfind
    cases hfind
  | some entry =>
    rw [hentry] at hfind
    cases entry with
    | file text => dsimp only at hfind; split at hfind <;> cases hfind
    | dir =>
      have hplace := (h.walkable _).1 (hwalk.concat hentry)
      rw [hplace.isDir]
      exact hfind

/-! ## Moves and writes -/

/-- What neither moves nor lies where something moves to stays. -/
theorem entry?_move_other {source target place : Place} (hsource : ¬ source <+: place)
    (htarget : ¬ target <+: place) :
    FileTree.entry? (tree.move source target) place = tree.entry? place := by
  cases hplace : place with
  | nil => rfl
  | cons name rest =>
    rw [← hplace]
    have hne : place ≠ [] := by rw [hplace]; nofun
    rw [entry?_of_ne_nil _ hne, entry?_of_ne_nil _ hne]
    cases hget : tree.entries.get? place with
    | some entry =>
      have hthere : place ≠ target := fun heq => htarget (heq ▸ List.prefix_refl _)
      rw [← entry?_of_ne_nil _ hne]
      refine entry?_move hne hthere hget (movedTo_of_not_isPrefixOf hsource) ?_
      intro another _ _ hmoved
      by_cases hwithin : source <+: another
      · rw [movedTo, if_pos (by rwa [List.isPrefixOf_iff_prefix])] at hmoved
        exact absurd ⟨_, hmoved⟩ htarget
      · rwa [movedTo_of_not_isPrefixOf hwithin] at hmoved
    | none =>
      simp only [move, SortedMap.get?_ofList]
      refine Option.map_eq_none_iff.2 (List.getLast?_eq_none_iff.2 (List.filter_eq_nil_iff.2 ?_))
      rintro ⟨other, entry⟩ hmem hsame
      obtain rfl : other = place := of_decide_eq_true hsame
      obtain ⟨another, -, hanother, hmoved⟩ := mem_moved.1 hmem
      by_cases hwithin : source <+: another
      · rw [movedTo, if_pos (by rwa [List.isPrefixOf_iff_prefix])] at hmoved
        exact absurd ⟨_, hmoved⟩ htarget
      · rw [movedTo_of_not_isPrefixOf hwithin] at hmoved
        rw [hmoved, hget] at hanother
        cases hanother

/-- A file that moves onto a place where no directory stands takes no directory away, and brings
none. -/
theorem walkable_move {source target place : Place} {text : String}
    (hfile : tree.entry? source = some (.file text)) (hfree : tree.entry? target ≠ some .dir)
    (hsource : source ≠ []) (htarget : target ≠ []) (hne : source ≠ target)
    (hbelow : ¬ target <+: source) :
    tree.Walkable place ↔ (tree.move source target).Walkable place := by
  refine ⟨fun h => h.move (by rw [hfile]; nofun) hfree, fun h above habove => ?_⟩
  have hdir : FileTree.entry? (tree.move source target) above = some .dir :=
    of_decide_eq_true (h above habove)
  have hmoved := entry?_move_target hsource htarget hne hfile
  have hgone : FileTree.entry? (tree.move source target) source = none :=
    entry?_move_source hsource hbelow
  by_cases hto : target <+: above
  · have hend := of_decide_eq_true (h target (hto.trans habove))
    rw [hmoved] at hend
    cases hend
  by_cases hfrom : source <+: above
  · have hend := of_decide_eq_true (h source (hfrom.trans habove))
    rw [hgone] at hend
    cases hend
  · rw [entry?_move_other hfrom hto] at hdir
    exact decide_eq_true hdir

theorem walkable_insert {place target : Place} {text : String} (htarget : target ≠ [])
    (hfree : tree.entry? target ≠ some .dir) :
    tree.Walkable place ↔
      ({ tree with entries := tree.entries.insert target (.file text) } : FileTree).Walkable
        place := by
  refine ⟨fun h => h.insert htarget hfree, fun h above habove => ?_⟩
  have hdir := of_decide_eq_true (h above habove)
  rw [entry?_insert _ _ _ _ htarget] at hdir
  split at hdir
  · cases hdir
  · exact decide_eq_true hdir

/-- A name in a directory is a place apart from that of another name, and of names elsewhere. -/
theorem not_prefix_name {e : PathEnd} {name : String} (hne : e.place ≠ here ++ [name])
    (hout : ¬ e.place <+: here) : ¬ e.place <+: here ++ [name] := by
  intro hwithin
  rcases List.prefix_concat_iff.1 hwithin with hsame | hdir
  · exact hne hsame
  · exact hout hdir

theorem place_ne_of_dir {e : PathEnd} {name : String} (hdir : e.dir ≠ here) :
    e.place ≠ here ++ [name] :=
  fun hsame => hdir (List.append_inj_left' hsame rfl)

theorem not_prefix_self (here : Place) (name : String) : ¬ here ++ [name] <+: here := by
  intro hwithin
  have hlength := hwithin.length_le
  simp at hlength

theorem not_prefix_other {a b : String} (hne : a ≠ b) :
    ¬ (here ++ [a] : Place) <+: here ++ [b] := by
  intro hwithin
  have hsame := hwithin.eq_of_length (by simp)
  exact hne (by simpa using hsame)

section Rename

variable {source target a t text : String} (hfile : tree.contents here a = some (.file text))
  (hfree : tree.contents here t ≠ some .dir) (hne : a ≠ t)

include hfile hfree hne

/-- A file of a directory can be renamed within it. -/
theorem rename_inside (hs : tree.LeadsTo source ⟨here, a, false⟩)
    (ht : tree.LeadsTo target ⟨here, t, false⟩) :
    tree.rename source target = .ok (tree.move (here ++ [a]) (here ++ [t])) := by
  have hplaces : (here ++ [a] : Place) ≠ here ++ [t] := by simpa using hne
  exact rename_of_leadsTo hs ht hfile hfree hplaces (not_prefix_self here a)
    (not_prefix_self here t)

theorem shift_move : Shift here [(a, t)] tree (tree.move (here ++ [a]) (here ++ [t])) := by
  have hplaces : (here ++ [a] : Place) ≠ here ++ [t] := by simpa using hne
  have hsource : (here ++ [a] : Place) ≠ [] := by simp
  have htarget : (here ++ [t] : Place) ≠ [] := by simp
  refine ⟨rfl, fun place =>
    walkable_move hfile hfree hsource htarget hplaces (not_prefix_other hne.symm), ?_⟩
  funext name
  show FileTree.entry? (tree.move (here ++ [a]) (here ++ [t])) (here ++ [name]) = _
  simp only [List.foldl_cons, List.foldl_nil, renamed]
  split
  · rename_i hname
    rw [hname, hfile]
    exact entry?_move_target hsource htarget hplaces hfile
  split
  · rename_i hname
    rw [hname]
    exact entry?_move_source hsource (not_prefix_other hne.symm)
  · rename_i hnott hnota
    exact entry?_move_other (not_prefix_other (Ne.symm hnota)) (not_prefix_other (Ne.symm hnott))

/-- What a path to a place elsewhere leads to is left alone. -/
theorem find_move {path : String} {e : PathEnd} (hhome : tree.Walkable tree.home)
    (hresolve : tree.resolve path = .ok e) (hdir : e.dir ≠ here) :
    FileTree.find (tree.move (here ++ [a]) (here ++ [t])) path = tree.find path := by
  have hwalk : tree.Walkable e.dir := (resolve_keeps (fun _ h => h) rfl hhome hresolve).2
  have hnodir : tree.entry? (here ++ [a]) ≠ some .dir := by
    rw [show tree.entry? (here ++ [a]) = some (.file text) from hfile]
    nofun
  have hstays : FileTree.entry? (tree.move (here ++ [a]) (here ++ [t])) e.place =
      tree.entry? e.place :=
    entry?_move_other (hwalk.place_outside hnodir (place_ne_of_dir hdir).symm)
      (hwalk.place_outside hfree (place_ne_of_dir hdir).symm)
  have hchild : FileTree.child (tree.move (here ++ [a]) (here ++ [t])) e.dir e.last =
      tree.child e.dir e.last := by
    unfold child
    rw [show FileTree.entry? (tree.move _ _) (e.dir ++ [e.last]) = _ from hstays]
    rfl
  unfold find
  rw [hresolve, ((shift_move hfile hfree hne).resolve_iff hhome).1 hresolve]
  dsimp only
  rw [hchild]

end Rename

/-- A path leads to no place in a directory. -/
def Avoids (tree : FileTree) (here : Place) (path : String) : Prop :=
  ∀ e, tree.resolve path = .ok e → e.dir ≠ here

theorem Shift.avoids (h : Shift here a before after) (hhome : before.Walkable before.home)
    {path : String} (hpath : before.Avoids here path) : after.Avoids here path :=
  fun e hresolve => hpath e ((h.resolve_iff hhome).2 hresolve)

/-- A file of which the text stays can be replaced all the time. -/
theorem Shift.ready (h : Shift here a before after) {beside path : String} {e t : PathEnd}
    (hready : before.Ready beside path e t) (hread : after.read path = before.read path) :
    after.Ready beside path e t := by
  have hkeep : ∀ place, before.Walkable place → after.Walkable place := fun place =>
    (h.walkable place).1
  obtain ⟨hsource, hdir⟩ := hready.source.keeps hkeep h.home hready.home
  obtain ⟨htarget, -⟩ := hready.target.keeps hkeep h.home hready.home
  refine ⟨hkeep _ (h.home ▸ hready.home), hsource, htarget, hready.apart, fun hblocked => ?_, ?_⟩
  · have hplace := (h.walkable _).2 ((hkeep _ hdir).concat hblocked)
    exact hready.free hplace.isDir
  · obtain ⟨text, htaken⟩ := hready.taken
    have hbefore : before.read path = .ok text := read_file hready.target.resolve
      hready.target.named hready.target.slash hready.target.short htaken
    obtain ⟨other, hother, hentry⟩ := read_eq_ok (hread.trans hbefore)
    obtain rfl : t = other := Except.ok.inj (htarget.resolve.symm.trans hother.resolve)
    exact ⟨text, hentry⟩

/-- A text that is put in the place of a file elsewhere, by way of a file beside it. -/
theorem shift_replaced {beside path text : String} {written next : FileTree}
    (hhome : tree.Walkable tree.home) (hhere : tree.Walkable here)
    (hbeside : tree.Avoids here beside) (hpath : tree.Avoids here path)
    (hwrite : tree.write beside text = .ok written)
    (hrename : written.rename beside path = .ok next) : Shift here [] tree next := by
  obtain ⟨e, hresolve, hnamed, -, -, hfree, rfl⟩ := write_eq_ok hwrite
  let written : FileTree := { tree with entries := tree.entries.insert e.place (.file text) }
  have hfile : written.entry? e.place = some (.file text) := by
    rw [entry?_insert _ _ _ _ (place_ne_nil e), if_pos rfl]
  have hwritten : Shift here [] tree written := by
    refine ⟨rfl, fun place => walkable_insert (place_ne_nil e) hfree, funext fun name => ?_⟩
    show written.entry? (here ++ [name]) = tree.entry? (here ++ [name])
    rw [entry?_insert _ _ _ _ (place_ne_nil e),
      if_neg fun hsame => place_ne_of_dir (hbeside e hresolve) hsame.symm]
  refine hwritten.trans (a := []) ?_
  obtain ⟨s, t, hsource, htarget, hend⟩ := rename_eq_ok hrename
  obtain rfl : e = s := Except.ok.inj (((hwritten.resolve_iff hhome).1 hresolve).symm.trans hsource)
  obtain ⟨-, -, -, ⟨-, rfl⟩ | ⟨hne, htfree, rfl⟩⟩ := renameEnd_eq_ok hfile hend
  · exact .refl here _
  have htdir : t.dir ≠ here := hpath t ((hwritten.resolve_iff hhome).2 htarget)
  have hwalk : written.Walkable here := (hwritten.walkable here).1 hhere
  have hefree : written.entry? e.place ≠ some .dir := by rw [hfile]; nofun
  have hedir : written.Walkable e.dir :=
    (resolve_keeps (fun _ h => h) rfl ((hwritten.walkable _).1 hhome) hsource).2
  have hbelow : ¬ t.place <+: e.place := hedir.place_outside htfree fun hsame => hne hsame.symm
  refine ⟨rfl, fun place => walkable_move hfile htfree (place_ne_nil e) (place_ne_nil t) hne hbelow,
    funext fun name => ?_⟩
  exact entry?_move_other
    (not_prefix_name (place_ne_of_dir (hbeside e hresolve)) (hwalk.outside hefree))
    (not_prefix_name (place_ne_of_dir htdir) (hwalk.outside htfree))

end FileTree

/-- Rows that are saved in a file are written to one beside it, which takes its place. -/
theorem Store.save_file_ok {path : String} {files : FileTree} {key : ResourceKey} {rows : Rows}
    {next : Store} (hsave : (Store.file path files).save key rows = .ok next) :
    ∃ text written left, next = .file path left ∧
      files.write (Path.replaceExtension "json.tmp" path) text = .ok written ∧
      written.rename (Path.replaceExtension "json.tmp" path) path = .ok left := by
  simp only [save] at hsave
  split at hsave
  · cases hsave
  split at hsave
  · cases hsave
  rename_i left hreplace
  cases hsave
  unfold replaceFile at hreplace
  dsimp only at hreplace
  split at hreplace
  · cases hreplace
  · rename_i written hwrite
    exact ⟨_, written, left, rfl, hwrite, hreplace⟩

/-- Rows that are saved in a file elsewhere rename nothing. -/
theorem Store.shift_save {path : String} {files : FileTree} {here : Place} {key : ResourceKey}
    {rows : Rows} {next : Store} (hhome : files.Walkable files.home) (hhere : files.Walkable here)
    (hbeside : files.Avoids here (Path.replaceExtension "json.tmp" path))
    (hpath : files.Avoids here path)
    (hsave : (Store.file path files).save key rows = .ok next) :
    ∃ left, next = .file path left ∧ FileTree.Shift here [] files left := by
  obtain ⟨text, written, left, hnext, hwrite, hrename⟩ := save_file_ok hsave
  exact ⟨left, hnext, FileTree.shift_replaced hhome hhere hbeside hpath hwrite hrename⟩

/-! ## Names in a directory -/

namespace Glob

/-- The names in the directory that a path leads to. -/
def namesIn (tree : FileTree) (dir : String) : List String :=
  (placesBelow tree dir).filterMap (fun
    | [name] => some name
    | _ => none)

variable {tree : FileTree} {dir : String} {here : Place} {entry : FileEntry}

theorem placesBelow_eq (hfind : tree.find dir = .ok (here, entry)) :
    placesBelow tree dir = tree.entries.keys.filterMap (fun other =>
      if here.length < other.length && here.isPrefixOf other then some (other.drop here.length)
      else none) := by
  unfold placesBelow
  rw [hfind]

theorem mem_placesBelow (hfind : tree.find dir = .ok (here, entry)) {rest : Place} :
    rest ∈ placesBelow tree dir ↔ rest ≠ [] ∧ tree.entry? (here ++ rest) ≠ none := by
  rw [placesBelow_eq hfind, List.mem_filterMap]
  have hkey : ∀ {place : Place}, place ≠ [] →
      (place ∈ tree.entries.keys ↔ tree.entry? place ≠ none) := fun hne => by
    rw [FileTree.entry?_of_ne_nil _ hne, SortedMap.mem_keys_iff, Option.ne_none_iff_exists']
  constructor
  · rintro ⟨other, hother, hrest⟩
    split at hrest
    · rename_i hbelow
      cases hrest
      simp only [Bool.and_eq_true, decide_eq_true_eq, List.isPrefixOf_iff_prefix] at hbelow
      obtain ⟨hlength, more, rfl⟩ := hbelow
      have hmore : more ≠ [] := by rintro rfl; simp at hlength
      rw [List.drop_left]
      exact ⟨hmore, (hkey (by simp [hmore])).1 hother⟩
    · cases hrest
  · rintro ⟨hne, hentry⟩
    have hlength : 0 < rest.length := List.length_pos_iff.2 hne
    exact ⟨here ++ rest, (hkey (by simp [hne])).2 hentry, by simp [hlength]⟩

theorem mem_namesIn (hfind : tree.find dir = .ok (here, entry)) {name : String} :
    name ∈ namesIn tree dir ↔ tree.contents here name ≠ none := by
  rw [namesIn, List.mem_filterMap]
  constructor
  · rintro ⟨rest, hrest, hname⟩
    split at hname
    · cases hname
      exact ((mem_placesBelow hfind).1 hrest).2
    · cases hname
  · exact fun hentry => ⟨[name], (mem_placesBelow hfind).2 ⟨by simp, hentry⟩, rfl⟩

theorem nodup_namesIn (hfind : tree.find dir = .ok (here, entry)) : (namesIn tree dir).Nodup := by
  have hbelow : (placesBelow tree dir).Nodup := by
    rw [placesBelow_eq hfind]
    refine (SortedMap.nodup_keys _).filterMap fun a b rest ha hb => ?_
    simp only [Option.mem_def, Option.ite_none_right_eq_some, Bool.and_eq_true,
      List.isPrefixOf_iff_prefix, Option.some.injEq] at ha hb
    obtain ⟨⟨-, more, rfl⟩, hdrop⟩ := ha
    obtain ⟨⟨-, more', rfl⟩, hdrop'⟩ := hb
    rw [List.drop_left] at hdrop hdrop'
    rw [hdrop, hdrop']
  refine hbelow.filterMap fun a b name ha hb => ?_
  split at ha
  · split at hb
    · cases ha
      cases hb
      rfl
    · cases hb
  · cases ha

end Glob

end BlockStack
