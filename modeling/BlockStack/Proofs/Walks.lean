import BlockStack.Proofs.Directory
import BlockStack.Proofs.Patterns

/-!
# BlockStack.Proofs.Walks

Directories that a pattern for the names in one of them goes through.

* `Glob.Onward`: names that lead on from a path. `Onward.next` is one step, `Onward.walk_foldl` the
  whole way, and `Onward.expand` how a pattern goes that way.
* `Glob.Course`: the path of a directory as slashes at its start and names; each path has one
  (`Glob.exists_course`), and `Glob.walked` is the path that a pattern makes of it.
* `Glob.Course.find_eq`: a path in which no character means more than itself, and a pattern for
  names, lead to the entries of the directory whose names fit.
* `Glob.Direct`: paths that can be read as they stand. `Glob.Direct.find_walked`: the directory that
  a pattern goes to is the one that the path leads to.
* `Glob.find_join`: a path of plain names is one of them.
-/

namespace BlockStack
namespace Glob

variable {tree : FileTree} {path dir name pattern : String} {names rest : List String}
  {tokens : List Token} {here : Place}

/-! ## Names that lead on -/

/-- The parts of a path into a directory are those before its name, and the name. -/
theorem exists_above (hslash : '/' ∉ name.toList) (hhere : Path.isHere path = false)
    (hne : path ≠ "") : ∃ above, Path.pieces (inside path name) = above ++ [name] ∧ above ≠ [] ∧
      (Path.pieces path = above ∨ Path.pieces path = above ++ [""]) := by
  have hends := (@Path.inside_endsIn path name hslash).eq
  have hname := Path.pieces_of_plain hslash
  have hpieces : ∀ text : String, Path.pieces text ≠ [] := fun text => by
    simp [Path.pieces, List.splitOn]
  unfold Path.way at hends
  rw [hhere, Bool.false_or, if_neg (by simpa using hne)] at hends
  by_cases hlast : path.toList.getLast? = some '/'
  · obtain ⟨before, hbefore⟩ := List.getLast?_eq_some_iff.1 hlast
    rw [if_pos hlast, hbefore, List.append_assoc, List.singleton_append] at hends
    refine ⟨Path.pieces (String.ofList before), ?_, hpieces _, .inr ?_⟩
    · rw [Path.pieces_append hends, String.ofList_toList, hname]
    · rw [Path.pieces_append hbefore]
      rfl
  · rw [if_neg hlast, List.append_assoc, List.singleton_append] at hends
    refine ⟨Path.pieces path, ?_, hpieces _, .inl rfl⟩
    rw [Path.pieces_append hends, String.ofList_toList, String.ofList_toList, hname]

/-- A path into a directory leads here only if the directory is here and the name is a dot. -/
theorem isHere_inside (hslash : '/' ∉ name.toList)
    (h : Path.isHere (inside path name) = true) :
    name = "." ∧ (path ≠ "" → Path.isHere path = true) := by
  have hsingle : Path.isHere name = true → name = "." := fun hname => by
    obtain ⟨rest, hpieces, -⟩ := Path.isHere_iff.1 hname
    rw [Path.pieces_of_plain hslash] at hpieces
    exact (List.cons.inj hpieces).1
  cases hhere : Path.isHere path with
  | true =>
    rw [inside, if_pos hhere] at h
    exact ⟨hsingle h, fun _ => rfl⟩
  | false =>
    by_cases hne : path = ""
    · have hname : inside path name = name := by
        simp [inside, Path.join, Path.isAbsolute_of_plain hslash, hne]
      rw [hname] at h
      exact ⟨hsingle h, fun hsome => absurd hne hsome⟩
    obtain ⟨above, hinside, habove, hpath⟩ := exists_above hslash hhere hne
    obtain ⟨rest, hpieces, hrest⟩ := Path.isHere_iff.1 h
    rw [hinside] at hpieces
    obtain ⟨first, more, rfl⟩ := List.exists_cons_of_ne_nil habove
    obtain ⟨rfl, rfl⟩ := List.cons.inj hpieces
    have hmore : ∀ piece ∈ more, piece = "" ∨ piece = "." := fun piece hpiece =>
      hrest piece (List.mem_append_left _ hpiece)
    -- then the path of the directory leads here, too
    have hthere : Path.isHere path = true := by
      rcases hpath with hpath | hpath
      · exact Path.isHere_iff.2 ⟨more, hpath, hmore⟩
      · refine Path.isHere_iff.2 ⟨more ++ [""], hpath, fun piece hpiece => ?_⟩
        rcases List.mem_append.1 hpiece with hpiece | hpiece
        · exact hmore piece hpiece
        · exact .inl (List.mem_singleton.1 hpiece)
    rw [hhere] at hthere
    cases hthere

/-- Names that lead on from a path. From here no empty name leads on, nor one behind some dots. -/
structure Onward (path : String) (names : List String) : Prop where
  ne : path ≠ ""
  here : Path.isHere path = true →
    path = "." ∧ ∀ n rest, names ≠ List.replicate n "." ++ "" :: rest
  slashes : ∀ name ∈ names, '/' ∉ name.toList

theorem Onward.next (h : Onward path (name :: rest)) : Onward (inside path name) rest where
  ne hempty := by
    have hslash := h.slashes name (List.mem_cons_self ..)
    cases hhere : Path.isHere path with
    | true =>
      rw [inside, if_pos hhere] at hempty
      exact (h.here hhere).2 0 rest (by rw [hempty]; rfl)
    | false =>
      have hpath := Path.prefix_inside hslash hhere
      rw [hempty] at hpath
      exact h.ne (by simpa using hpath)
  here hthere := by
    obtain ⟨rfl, hhere⟩ := isHere_inside (h.slashes name (List.mem_cons_self ..)) hthere
    refine ⟨if_pos (hhere h.ne), fun n more heq => (h.here (hhere h.ne)).2 (n + 1) more ?_⟩
    rw [heq, List.replicate_succ, List.cons_append]
  slashes other hother := h.slashes other (List.mem_cons_of_mem name hother)

theorem Onward.foldl_ne : ∀ {names : List String} {path : String}, Onward path names →
    names.foldl inside path ≠ "" := by
  intro names
  induction names with
  | nil => exact fun h => h.ne
  | cons name rest ih => exact fun h => ih h.next

/-- Names lead from a path on to where they lead from its directory. -/
theorem Onward.walk_foldl : ∀ {names : List String} {path : String}, Onward path names →
    tree.walk (names.foldl inside path) = match tree.walk path with
      | .error fault => .error fault
      | .ok next => tree.descend next (names.filter (· ≠ "")) := by
  intro names
  induction names with
  | nil =>
    intro path _
    rw [List.foldl_nil]
    cases tree.walk path <;> rfl
  | cons name rest ih =>
    intro path h
    have hcons : (name :: rest).filter (· ≠ "") =
        [name].filter (· ≠ "") ++ rest.filter (· ≠ "") := by
      rw [← List.filter_append, List.singleton_append]
    rw [List.foldl_cons, ih h.next,
      FileTree.walk_inside (h.slashes name (List.mem_cons_self ..)), hcons]
    cases tree.walk path with
    | error fault => rfl
    | ok next => exact (FileTree.descend_append tree _ _ next).symm

/-- A path is the start of what names make of it, unless it leads here. -/
theorem Onward.text : ∀ {names : List String} {path : String}, Onward path names →
    path = "." ∨ path.toList <+: (names.foldl inside path).toList := by
  intro names
  induction names with
  | nil => exact fun _ => .inr (List.prefix_refl _)
  | cons name rest ih =>
    intro path h
    cases hhere : Path.isHere path with
    | true => exact .inl (h.here hhere).1
    | false =>
      have hslash := h.slashes name (List.mem_cons_self ..)
      refine .inr ((Path.prefix_inside hslash hhere).trans ?_)
      refine (ih h.next).resolve_left fun hdot => ?_
      have hthere : Path.isHere (inside path name) = true := by rw [hdot]; decide
      rw [(isHere_inside hslash hthere).2 h.ne] at hhere
      cases hhere

theorem leadsToDir_iff : tree.leadsToDir path = true ↔ ∃ here, tree.find path = .ok (here, .dir) := by
  unfold FileTree.leadsToDir
  split
  · rename_i here heq
    exact ⟨fun _ => ⟨here, heq⟩, fun _ => rfl⟩
  · rename_i hnot
    exact ⟨nofun, fun ⟨here, heq⟩ => absurd heq (hnot here)⟩

/-- A path to a directory leads through directories. -/
theorem Onward.leadsToDir (h : Onward path names)
    (hleads : tree.leadsToDir (names.foldl inside path) = true) : tree.leadsToDir path = true := by
  obtain ⟨last, hfind⟩ := leadsToDir_iff.1 hleads
  obtain ⟨hzero, -, hshort, hwalk⟩ := FileTree.find_dir_iff.1 hfind
  rw [h.walk_foldl] at hwalk
  cases hpath : tree.walk path with
  | error fault =>
    rw [hpath] at hwalk
    cases hwalk
  | ok here =>
    refine leadsToDir_iff.2 ⟨here, FileTree.find_dir_iff.2 ⟨?_, h.ne, ?_, hpath⟩⟩ <;>
      rcases h.text with rfl | ⟨more, hmore⟩
    · decide
    · refine Bool.eq_false_iff.2 fun hmem => Bool.eq_false_iff.1 hzero ?_
      simp only [FileTree.hasZeroByte, List.contains_iff_mem, ← hmore] at hmem ⊢
      exact List.mem_append_left _ hmem
    · decide
    · have hsplit : names.foldl inside path = path ++ String.ofList more :=
        String.toList_inj.1 (by rw [String.toList_append, String.toList_ofList, hmore])
      rw [hsplit, String.utf8ByteSize_append] at hshort
      omega

/-- Names in a row are looked up one in the other. -/
theorem Onward.expand : ∀ {names : List String} {path : String}, Onward path names →
    tree.leadsToDir (names.foldl inside path) = true →
    Glob.expand tree false (names.map (fun name => .name (name.toList.map Token.char)) ++
      [.name tokens]) path = Glob.expand tree false [.name tokens] (names.foldl inside path) := by
  intro names
  induction names with
  | nil => exact fun _ _ => rfl
  | cons name rest ih =>
    intro path h hleads
    have hpath := h.leadsToDir hleads
    obtain ⟨next, hnext⟩ := leadsToDir_iff.1 (h.next.leadsToDir hleads)
    have hthere : (if (decide (name = ".") || decide (name = "..")) = true then
        tree.leadsToDir path else (tree.find (inside path name)).isOk) = true := by
      split
      · exact hpath
      · rw [hnext]
        rfl
    rw [List.map_cons, List.cons_append, List.foldl_cons, Glob.expand, literal?_plain]
    dsimp only
    rw [if_pos hthere]
    exact ih h.next hleads

/-- The last part of a pattern leads to the entries of a directory whose names fit; a name without
a question to it can be that of an entry only if a path can end in it. -/
theorem expand_last (hdir : tree.find dir = .ok (here, .dir))
    (hliteral : ∀ name, literal? tokens = some name →
      dotNames tokens = [] ∧ FileTree.Enters dir name) :
    expand tree false [.name tokens] dir = entriesOf tree tokens dir := by
  rw [expand]
  cases hname : literal? tokens with
  | none => simp [expand]
  | some name =>
    obtain ⟨hdots, henters⟩ := hliteral name hname
    have hleads := henters.leadsTo hdir
    have hnamed : ¬ (decide (name = ".") || decide (name = "..")) = true := fun hdot => by
      have := henters.named
      simp_all [Path.isName]
    have hthere : (tree.find (inside dir name)).isOk = true ↔ name ∈ namesIn tree dir := by
      rw [mem_namesIn hdir, FileTree.contents]
      unfold FileTree.find
      rw [hleads.resolve]
      dsimp only
      rw [if_neg (by simp [hleads.named]), hleads.child]
      cases hentry : tree.entry? (here ++ [name]) with
      | none => simp [FileTree.PathEnd.place, hentry, Except.isOk, Except.toBool]
      | some entry =>
        cases entry <;> simp [FileTree.PathEnd.place, hentry, Except.isOk, Except.toBool]
    have hfits : ∀ other : String, accepts tokens other.toList = (other == name) :=
      fun other => by
        rw [eq_of_literal? hname, accepts_plain, Bool.eq_iff_iff, decide_eq_true_eq, beq_iff_eq,
          String.toList_inj]
    have hentries : entriesOf tree tokens dir =
        ((namesIn tree dir).filter (· == name)).map (inside dir) := by
      unfold entriesOf
      simp only [hdots, hfits, ite_self, List.map_nil, List.nil_append]
      rfl
    dsimp only
    rw [if_neg hnamed, hentries, List.filter_beq]
    by_cases hmem : name ∈ namesIn tree dir
    · rw [if_pos (hthere.2 hmem), List.count_eq_one_of_mem (nodup_namesIn hdir) hmem]
      rfl
    · rw [if_neg (fun hok => hmem (hthere.1 hok)), List.count_eq_zero.2 hmem]
      rfl

/-! ## The course of a path -/

/-- Where paths start: at the root or in the working directory. -/
def startOf (absolute : Bool) : String := if absolute then "/" else "."

/-- The text of some names, a slash behind each. -/
def slashed (names : List String) : List Char := names.flatMap (fun name => name.toList ++ ['/'])

theorem slashed_cons (name : String) (names : List String) :
    slashed (name :: names) = name.toList ++ '/' :: slashed names := by
  simp [slashed]

/-- Before a name, the path of a directory has some slashes at its start, and then names with a slash
behind each. -/
structure Course (dir : String) (slashes : Nat) (names : List String) : Prop where
  text : (Path.join dir "").toList = List.replicate slashes '/' ++ slashed names
  head : (slashed names).head? ≠ some '/'
  plain : ∀ name ∈ names, '/' ∉ name.toList

theorem exists_lead (cs : List Char) :
    ∃ n rest, cs = List.replicate n '/' ++ rest ∧ rest.head? ≠ some '/' := by
  induction cs with
  | nil => exact ⟨0, [], rfl, nofun⟩
  | cons c rest ih =>
    by_cases hc : c = '/'
    · obtain ⟨n, more, hmore, hhead⟩ := ih
      exact ⟨n + 1, more, by rw [hc, hmore, List.replicate_succ, List.cons_append], hhead⟩
    · exact ⟨0, c :: rest, rfl, by simpa using hc⟩

theorem exists_slashed (cs : List Char) : ∃ names last, (∀ name ∈ names, '/' ∉ name.toList) ∧
    '/' ∉ last ∧ cs = slashed names ++ last := by
  induction cs with
  | nil => exact ⟨[], [], nofun, List.not_mem_nil, rfl⟩
  | cons c rest ih =>
    obtain ⟨names, last, hnames, hlast, rfl⟩ := ih
    by_cases hc : c = '/'
    · refine ⟨"" :: names, last, List.forall_mem_cons.2 ⟨by simp, hnames⟩, hlast, ?_⟩
      rw [slashed_cons, hc]
      rfl
    cases names with
    | nil =>
      refine ⟨[], c :: last, nofun, ?_, rfl⟩
      rw [List.mem_cons, not_or]
      exact ⟨fun heq => hc heq.symm, hlast⟩
    | cons name more =>
      obtain ⟨hname, hmore⟩ := List.forall_mem_cons.1 hnames
      refine ⟨String.ofList (c :: name.toList) :: more, last,
        List.forall_mem_cons.2 ⟨?_, hmore⟩, hlast, ?_⟩
      · rw [String.toList_ofList, List.mem_cons, not_or]
        exact ⟨fun heq => hc heq.symm, hname⟩
      · rw [slashed_cons, slashed_cons, String.toList_ofList]
        rfl

theorem join_empty (dir : String) : dir = "" ∧ Path.join dir "" = "" ∨
    dir.toList.getLast? = some '/' ∧ Path.join dir "" = dir ∨
    dir ≠ "" ∧ dir.toList.getLast? ≠ some '/' ∧ Path.join dir "" = dir ++ "/" := by
  have hrelative : Path.isAbsolute "" = false := by decide
  unfold Path.join
  rw [hrelative, Bool.false_or]
  by_cases hempty : dir = ""
  · exact .inl ⟨hempty, by simp [hempty]⟩
  · rw [if_neg (by simpa using hempty)]
    by_cases hslash : dir.toList.getLast? = some '/'
    · exact .inr (.inl ⟨hslash, by rw [if_pos hslash, String.append_empty]⟩)
    · exact .inr (.inr ⟨hempty, hslash, by rw [if_neg hslash, String.append_empty]⟩)

/-- Before a name, a path has one part more, which is empty, unless its last part already is. -/
theorem pieces_join (dir : String) : Path.pieces (Path.join dir "") = Path.pieces dir ∨
    Path.pieces (Path.join dir "") = Path.pieces dir ++ [""] ∧
      (Path.pieces dir).getLast? ≠ some "" := by
  rcases join_empty dir with ⟨rfl, hjoin⟩ | ⟨-, hjoin⟩ | ⟨hne, hslash, hjoin⟩
  · exact .inl (congrArg Path.pieces hjoin)
  · exact .inl (congrArg Path.pieces hjoin)
  have hsplit : (Path.join dir "").toList = dir.toList ++ '/' :: [] := by
    rw [hjoin, String.toList_append]
    rfl
  refine .inr ⟨by rw [Path.pieces_append hsplit, String.ofList_toList]; rfl, fun hlast => ?_⟩
  obtain ⟨way, name, hends⟩ := Path.exists_endsIn dir
  have hname : name = [] := by simpa [hends.last_pieces] using hlast
  have htext := hends.eq
  rw [hname, List.append_nil] at htext
  rcases hends.way with rfl | ⟨before, rfl⟩
  · exact hne (String.toList_inj.1 htext)
  · exact hslash (by rw [htext, List.getLast?_concat])

theorem mem_join {c : Char} (hc : c ∈ dir.toList) : c ∈ (Path.join dir "").toList := by
  rcases join_empty dir with ⟨rfl, hjoin⟩ | ⟨-, hjoin⟩ | ⟨-, -, hjoin⟩ <;> rw [hjoin]
  · exact hc
  · exact hc
  · rw [String.toList_append]
    exact List.mem_append_left _ hc

theorem exists_course (dir : String) : ∃ slashes names, Course dir slashes names := by
  obtain ⟨slashes, rest, htext, hhead⟩ := exists_lead (Path.join dir "").toList
  obtain ⟨names, last, hnames, hlast, rfl⟩ := exists_slashed rest
  -- the text ends in a slash, so no name is left at its end
  have hend : (Path.join dir "").toList = [] ∨ (Path.join dir "").toList.getLast? = some '/' := by
    rcases join_empty dir with ⟨-, hjoin⟩ | ⟨hslash, hjoin⟩ | ⟨-, -, hjoin⟩ <;> rw [hjoin]
    · exact .inl rfl
    · exact .inr hslash
    · exact .inr (by simp)
  have hnone : last = [] := by
    by_contra hne
    rw [htext, ← List.append_assoc] at hend
    rcases hend with hnil | hslash
    · exact hne (List.append_eq_nil_iff.1 hnil).2
    · rw [List.getLast?_append_of_ne_nil _ hne] at hslash
      exact hlast (List.mem_of_getLast? hslash)
  subst hnone
  rw [List.append_nil] at htext hhead
  exact ⟨slashes, names, htext, hhead, hnames⟩

theorem toList_join (hslash : '/' ∉ pattern.toList) :
    (Path.join dir pattern).toList = (Path.join dir "").toList ++ pattern.toList := by
  have hrelative : Path.isAbsolute "" = false := by decide
  simp only [Path.join, Path.isAbsolute_of_plain hslash, hrelative, Bool.false_or]
  split
  · rfl
  · split <;> simp

theorem pieces_slashed (h : ∀ name ∈ names, '/' ∉ name.toList) {last : String}
    (hlast : '/' ∉ last.toList) :
    Path.pieces (String.ofList (slashed names ++ last.toList)) = names ++ [last] := by
  induction names with
  | nil => rw [show slashed [] = [] from rfl, List.nil_append, String.ofList_toList,
      Path.pieces_of_plain hlast, List.nil_append]
  | cons name rest ih =>
    obtain ⟨hname, hrest⟩ := List.forall_mem_cons.1 h
    have htext : (String.ofList (slashed (name :: rest) ++ last.toList)).toList =
        name.toList ++ '/' :: (slashed rest ++ last.toList) := by
      rw [String.toList_ofList, slashed_cons, List.append_assoc, List.cons_append]
    rw [Path.pieces_append htext, ih hrest, String.ofList_toList, Path.pieces_of_plain hname]
    rfl

theorem pieces_slashed_end (h : ∀ name ∈ names, '/' ∉ name.toList) :
    Path.pieces (String.ofList (slashed names)) = names ++ [""] := by
  have hpieces : Path.pieces (String.ofList (slashed names ++ "".toList)) = names ++ [""] :=
    pieces_slashed h (by simp)
  rwa [String.toList_empty, List.append_nil] at hpieces

variable {slashes : Nat}

/-- A pattern starts at the root if the path of the directory does, and goes through its names. -/
theorem Course.split_join (h : Course dir slashes names) (hslash : '/' ∉ pattern.toList) :
    split (Path.join dir pattern) =
      (startOf (0 < slashes), String.ofList (slashed names ++ pattern.toList)) := by
  have htext : (Path.join dir pattern).toList =
      List.replicate slashes '/' ++ (slashed names ++ pattern.toList) := by
    rw [toList_join hslash, h.text, List.append_assoc]
  have hhead : (slashed names ++ pattern.toList).head? ≠ some '/' := by
    cases hnames : slashed names with
    | nil => exact fun hfirst => hslash (List.mem_of_mem_head? (Option.mem_def.2 hfirst))
    | cons c more =>
      have := h.head
      rwa [hnames] at this
  unfold split Path.isAbsolute
  cases slashes with
  | zero =>
    rw [List.replicate_zero, List.nil_append] at htext
    rw [htext, if_neg (by simpa using hhead), ← htext, String.ofList_toList]
    rfl
  | succ n =>
    have hdrop : (slashed names ++ pattern.toList).dropWhile (· = '/') =
        slashed names ++ pattern.toList := by
      cases hnames : slashed names ++ pattern.toList with
      | nil => rfl
      | cons c more =>
        rw [hnames] at hhead
        exact List.dropWhile_cons_of_neg (by simpa using hhead)
    rw [htext, if_pos (by simp [List.replicate_succ]), List.dropWhile_append_of_pos (by simp), hdrop]
    simp [startOf]

/-- The path that a pattern for the names in a directory makes of the path of the directory. -/
def walked (dir : String) : String :=
  let (start, rest) := split (Path.join dir "")
  (Path.pieces rest).dropLast.foldl inside start

theorem Course.walked_eq (h : Course dir slashes names) :
    walked dir = names.foldl inside (startOf (0 < slashes)) := by
  unfold walked
  rw [h.split_join (by simp)]
  dsimp only
  rw [String.toList_empty, List.append_nil, pieces_slashed_end h.plain, List.dropLast_concat]

/-! ## Patterns in a directory -/

theorem mapM_tokens (h : ∀ name ∈ names, Plain name.toList)
    (hpattern : FilePattern pattern tokens) : (names ++ [pattern]).mapM Glob.tokens =
      .ok (names.map (fun name => name.toList.map Token.char) ++ [tokens]) := by
  induction names with
  | nil => simp [hpattern.reads, Bind.bind, Except.bind, Pure.pure, Except.pure]
  | cons name rest ih =>
    obtain ⟨hname, hrest⟩ := List.forall_mem_cons.1 h
    have hplain : Glob.tokens name = .ok (name.toList.map Token.char) := by
      by_cases hempty : name.toList = []
      · unfold Glob.tokens
        rw [hempty, tokensFrom]
        rfl
      · have hread : tokensFrom 0 none (name.toList ++ []) = _ := tokensFrom_plain hname hempty
        rw [List.append_nil, tokensFrom] at hread
        exact hread.trans (by simp [Except.map])
    rw [List.cons_append, List.mapM_cons, hplain, ih hrest]
    rfl

theorem joinDirs_names (lists : List (List Token)) :
    Part.joinDirs (lists.map Part.name) = lists.map Part.name := by
  induction lists with
  | nil => rfl
  | cons first rest ih => simp [Part.joinDirs, ih]

theorem ofTokens_names (hpattern : FilePattern pattern tokens) :
    (names.map (fun name => name.toList.map Token.char) ++ [tokens]).map Part.ofTokens =
      (names.map (fun name => name.toList.map Token.char) ++ [tokens]).map Part.name := by
  refine List.map_congr_left fun list hlist => if_neg ?_
  rcases List.mem_append.1 hlist with hname | hself
  · obtain ⟨name, -, rfl⟩ := List.mem_map.1 hname
    cases name.toList <;> simp
  · rw [List.mem_singleton.1 hself]
    exact hpattern.dirs

theorem components_slashed (h : ∀ name ∈ names, '/' ∉ name.toList)
    (hpattern : FilePattern pattern tokens) :
    components (String.ofList (slashed names ++ pattern.toList)) = names ++ [pattern] := by
  unfold components
  rw [pieces_slashed h hpattern.slash, List.reverse_append, List.reverse_singleton,
    List.singleton_append]
  split
  · rename_i heq
    exact absurd (List.cons.inj heq).1 hpattern.ne
  · simp

theorem plain_join (hplain : Plain dir.toList) : Plain (Path.join dir "").toList := by
  rcases join_empty dir with ⟨-, hjoin⟩ | ⟨-, hjoin⟩ | ⟨-, -, hjoin⟩ <;> rw [hjoin]
  · nofun
  · exact hplain
  · rw [String.toList_append]
    exact List.forall_mem_append.2 ⟨hplain, by simp⟩

/-- The whole pattern has tokens, as its last part has. -/
theorem exists_tokens (hplain : Plain dir.toList) (hpattern : FilePattern pattern tokens) :
    ∃ all, Glob.tokens (Path.join dir pattern) = .ok all := by
  have htext : (Path.join dir pattern).toList = _ := toList_join hpattern.slash
  have hchars := plain_join hplain
  unfold Glob.tokens
  rw [htext]
  by_cases hempty : dir = ""
  · exact ⟨tokens, by rw [hempty]; exact hpattern.reads⟩
  have hlast : (Path.join dir "").toList.getLast? = some '/' := by
    rcases join_empty dir with ⟨hnone, -⟩ | ⟨hslash, hjoin⟩ | ⟨-, -, hjoin⟩
    · exact absurd hnone hempty
    · rwa [hjoin]
    · simp [hjoin]
  rw [tokensFrom_plain hchars (fun hnil => by rw [hnil] at hlast; cases hlast), hlast,
    tokensFrom_moved hpattern.reads _ (by simp)]
  exact ⟨_, rfl⟩

/-- A path in which no character means more than itself, and a pattern for names, lead to the entries
of the directory whose names fit. -/
theorem Course.find_eq (h : Course dir slashes names) (hplain : Plain dir.toList)
    (honward : Onward (startOf (0 < slashes)) names) (hpattern : FilePattern pattern tokens)
    (hleads : tree.leadsToDir (walked dir) = true)
    (hliteral : ∀ name, literal? tokens = some name →
      dotNames tokens = [] ∧ FileTree.Enters (walked dir) name) :
    find tree (Path.join dir pattern) = .ok (entriesOf tree tokens (walked dir)) := by
  obtain ⟨all, hall⟩ := exists_tokens hplain hpattern
  have hnames : ∀ name ∈ names, Plain name.toList := fun name hname c hc => by
    refine plain_join hplain c ?_
    rw [h.text]
    exact List.mem_append_right _ (List.mem_flatMap.2 ⟨name, hname, List.mem_append_left _ hc⟩)
  have hwants : wantsDir (Path.join dir pattern) = false := by
    refine decide_eq_false fun hslash => hpattern.slash ?_
    rw [toList_join hpattern.slash,
      List.getLast?_append_of_ne_nil _ (by simpa using hpattern.ne)] at hslash
    exact List.mem_of_getLast? hslash
  obtain ⟨here, hdir⟩ := leadsToDir_iff.1 hleads
  unfold find
  rw [hall]
  dsimp only
  rw [h.split_join hpattern.slash]
  dsimp only
  rw [components_slashed h.plain hpattern, mapM_tokens hnames hpattern, hwants]
  dsimp only
  rw [ofTokens_names hpattern, joinDirs_names, List.map_append, List.map_map, List.map_singleton]
  refine congrArg Except.ok ((honward.expand (h.walked_eq ▸ hleads)).trans ?_)
  rw [← h.walked_eq]
  exact expand_last hdir hliteral

/-! ## Paths as they stand -/

/-- A path that a pattern goes as it stands: no character means more than itself, and no empty part
follows dots at its start, as in `.//x`. -/
structure Direct (dir : String) : Prop where
  plain : Plain dir.toList
  straight : ∀ n next rest,
    Path.pieces dir ≠ List.replicate (n + 1) "." ++ "" :: next :: rest

theorem isHere_startOf {absolute : Bool} (h : Path.isHere (startOf absolute) = true) :
    absolute = false := by
  cases absolute with
  | false => rfl
  | true => exact absurd h (by decide)

theorem startOf_ne (absolute : Bool) : startOf absolute ≠ "" := by
  cases absolute <;> decide

/-- The names of a path that goes as it stands lead on. -/
theorem Direct.onward (hdir : Direct dir) (h : Course dir slashes names) :
    Onward (startOf (0 < slashes)) names where
  ne := startOf_ne _
  here hhere := by
    have hrelative := isHere_startOf hhere
    obtain rfl : slashes = 0 := by simpa using hrelative
    refine ⟨rfl, fun n rest heq => ?_⟩
    have htext : (Path.join dir "").toList = slashed names := h.text
    have hall : Path.pieces (Path.join dir "") = names ++ [""] := by
      rw [← String.ofList_toList (s := Path.join dir ""), htext, pieces_slashed_end h.plain]
    cases n with
    | zero =>
      -- an empty name at the start makes the path one from the root
      have hhead := h.head
      rw [heq] at hhead
      exact hhead rfl
    | succ n =>
      rcases pieces_join dir with hpieces | ⟨hpieces, hlast⟩
      · rw [hpieces, heq, List.append_assoc, List.cons_append] at hall
        obtain ⟨next, more, hmore⟩ := List.exists_cons_of_ne_nil
          (List.append_ne_nil_of_right_ne_nil rest (List.cons_ne_nil "" []))
        rw [hmore] at hall
        exact hdir.straight n next more hall
      · obtain rfl : Path.pieces dir = names := List.append_cancel_right (hpieces.symm.trans hall)
        cases rest with
        | nil => exact hlast (by rw [heq, List.getLast?_concat])
        | cons next more => exact hdir.straight n next more heq
  slashes := h.plain

theorem way_startOf (absolute : Bool) :
    Path.way (startOf absolute) = if absolute then ['/'] else [] := by
  cases absolute
  · have hhere : Path.isHere "." = true := by decide
    simp [startOf, Path.way, hhere]
  · have hhere : Path.isHere "/" = false := by decide
    simp [startOf, Path.way, hhere]

theorem way_sublist (path : String) : (Path.way path).Sublist (path.toList ++ ['/']) := by
  unfold Path.way
  split
  · exact List.nil_sublist _
  split
  · exact List.sublist_append_left ..
  · exact List.Sublist.refl _

/-- What names make of a path is no longer than the path and the names. -/
theorem way_foldl_sublist (h : ∀ name ∈ names, '/' ∉ name.toList) : ∀ path : String,
    (Path.way (names.foldl inside path)).Sublist (Path.way path ++ slashed names) := by
  induction names with
  | nil => exact fun path => by rw [slashed, List.flatMap_nil, List.append_nil]; exact .refl _
  | cons name rest ih =>
    intro path
    obtain ⟨hname, hrest⟩ := List.forall_mem_cons.1 h
    refine (ih hrest _).trans ?_
    rw [slashed_cons, ← List.singleton_append, ← List.append_assoc, ← List.append_assoc]
    refine List.Sublist.append_right ?_ _
    have hstep := way_sublist (inside path name)
    rwa [(@Path.inside_endsIn path name hname).eq] at hstep

theorem foldl_sublist {last : String} (h : ∀ name ∈ names ++ [last], '/' ∉ name.toList)
    (path : String) : (((names ++ [last]).foldl inside path).toList ++ ['/']).Sublist
      (Path.way path ++ slashed (names ++ [last])) := by
  obtain ⟨hnames, hlast⟩ := List.forall_mem_append.1 h
  have hends := (@Path.inside_endsIn (names.foldl inside path) last
    (hlast last (List.mem_singleton_self last))).eq
  have hslashed : slashed (names ++ [last]) = slashed names ++ (last.toList ++ ['/']) := by
    simp [slashed]
  rw [List.foldl_append, List.foldl_cons, List.foldl_nil, hends, hslashed, List.append_assoc,
    ← List.append_assoc (Path.way path)]
  exact (way_foldl_sublist hnames path).append_right _

theorem Course.walked_sublist (h : Course dir slashes names) (hne : dir ≠ "") :
    (walked dir).toList.Sublist dir.toList := by
  rw [h.walked_eq]
  rcases names.eq_nil_or_concat with rfl | ⟨init, last, rfl⟩
  · -- there are only slashes in the path
    obtain ⟨c, hc⟩ := List.exists_mem_of_ne_nil dir.toList (by simpa using hne)
    have hslash := mem_join hc
    rw [h.text, slashed, List.flatMap_nil, List.append_nil, List.mem_replicate] at hslash
    obtain ⟨hpos, rfl⟩ := hslash
    have hstart : startOf (0 < slashes) = "/" := by simp [startOf, Nat.pos_of_ne_zero hpos]
    rw [List.foldl_nil, hstart]
    exact List.singleton_sublist.2 hc
  · have hlead : (Path.way (startOf (0 < slashes))).Sublist (List.replicate slashes '/') := by
      rw [way_startOf]
      cases slashes with
      | zero => exact .refl _
      | succ n => simp [List.replicate_succ]
    rw [List.concat_eq_append] at *
    have hsub := (foldl_sublist h.plain _).trans (hlead.append_right _)
    rw [← h.text] at hsub
    rcases join_empty dir with ⟨hempty, -⟩ | ⟨-, hjoin⟩ | ⟨-, -, hjoin⟩
    · exact absurd hempty hne
    · rw [hjoin] at hsub
      exact (List.sublist_append_left ..).trans hsub
    · rw [hjoin, String.toList_append] at hsub
      exact (List.append_sublist_append_right ['/']).1 hsub

theorem pieces_replicate (n : Nat) (cs : List Char) :
    (Path.pieces (String.ofList (List.replicate n '/' ++ cs))).filter (· ≠ "") =
      (Path.pieces (String.ofList cs)).filter (· ≠ "") := by
  induction n with
  | zero => rfl
  | succ n ih =>
    have htext : (String.ofList (List.replicate (n + 1) '/' ++ cs)).toList =
        [] ++ '/' :: (List.replicate n '/' ++ cs) := by
      rw [String.toList_ofList, List.replicate_succ]
      rfl
    rw [Path.pieces_append htext, List.filter_append, ih]
    rfl

/-- The names of a path are its parts, without some that name nothing. -/
theorem Course.filter_names (h : Course dir slashes names) :
    names.filter (· ≠ "") = (Path.pieces dir).filter (· ≠ "") := by
  have hnames : (Path.pieces (Path.join dir "")).filter (· ≠ "") = names.filter (· ≠ "") := by
    rw [← String.ofList_toList (s := Path.join dir ""), h.text, pieces_replicate,
      pieces_slashed_end h.plain, List.filter_append]
    simp
  rw [← hnames]
  rcases pieces_join dir with hpieces | ⟨hpieces, -⟩
  · rw [hpieces]
  · rw [hpieces, List.filter_append]
    simp

theorem Course.isAbsolute (h : Course dir slashes names) :
    Path.isAbsolute dir = decide (0 < slashes) := by
  have hhead : (Path.join dir "").toList.head? = some '/' ↔ 0 < slashes := by
    rw [h.text]
    cases slashes with
    | zero => simpa using h.head
    | succ n => simp [List.replicate_succ]
  unfold Path.isAbsolute
  refine decide_eq_decide.2 (Iff.trans ?_ hhead)
  rcases join_empty dir with ⟨rfl, hjoin⟩ | ⟨-, hjoin⟩ | ⟨hne, -, hjoin⟩
  · rw [hjoin]
  · rw [hjoin]
  · rw [hjoin, String.toList_append, List.head?_append_of_ne_nil _ (by simpa using hne)]

theorem walk_startOf (tree : FileTree) (absolute : Bool) :
    tree.walk (startOf absolute) = .ok (if absolute then [] else tree.home) := by
  cases absolute <;> rfl

/-- A pattern goes to the directory that the path leads to. -/
theorem Direct.find_walked (hdir : Direct dir) (hfind : tree.find dir = .ok (here, .dir)) :
    tree.find (walked dir) = .ok (here, .dir) := by
  obtain ⟨slashes, names, h⟩ := exists_course dir
  obtain ⟨hzero, hne, hshort, hwalk⟩ := FileTree.find_dir_iff.1 hfind
  have hsub := h.walked_sublist hne
  have honward := hdir.onward h
  have hwalked : tree.walk (walked dir) = .ok here := by
    rw [h.walked_eq, honward.walk_foldl, walk_startOf, ← h.isAbsolute, h.filter_names]
    exact hwalk
  refine FileTree.find_dir_iff.2 ⟨?_, ?_, ?_, hwalked⟩
  · refine Bool.eq_false_iff.2 fun hmem => Bool.eq_false_iff.1 hzero ?_
    simp only [FileTree.hasZeroByte, List.contains_iff_mem] at hmem ⊢
    exact hsub.subset hmem
  · rw [h.walked_eq]
    exact honward.foldl_ne
  · have hlength := String.utf8Len_le_of_sublist hsub
    rw [← String.utf8ByteSize_ofList, ← String.utf8ByteSize_ofList, String.ofList_toList,
      String.ofList_toList] at hlength
    exact hlength.trans hshort

/-! ## Paths of plain names -/

/-- A name of a directory that stands for itself in a pattern. -/
structure PlainName (name : String) : Prop where
  named : Path.isName name = true
  slash : '/' ∉ name.toList
  plain : Plain name.toList

theorem PlainName.ne (h : PlainName name) : name ≠ "" ∧ name ≠ "." ∧ name ≠ ".." := by
  have hnamed := h.named
  simp only [Path.isName, Bool.and_eq_true, decide_eq_true_eq] at hnamed
  exact ⟨hnamed.1.1, hnamed.1.2, hnamed.2⟩

/-- A path that ends in a name does not lead here. -/
theorem PlainName.isHere_inside (h : PlainName name) (dir : String) :
    Path.isHere (inside dir name) = false :=
  Bool.eq_false_iff.2 fun hhere => h.ne.2.1 (Glob.isHere_inside h.slash hhere).1

/-- A path of some plain names. -/
structure PlainPath (absolute : Bool) (names : List String) (dir : String) : Prop where
  path : dir = names.foldl inside (startOf absolute)
  plain : ∀ name ∈ names, PlainName name
  named : names ≠ []

variable {absolute : Bool}

theorem way_inside (h : PlainName name) (dir : String) :
    Path.way (inside dir name) = Path.way dir ++ (name.toList ++ ['/']) := by
  have hends := @Path.inside_endsIn dir name h.slash
  have hlist : name.toList ≠ [] := by simpa using h.ne.1
  have hne : inside dir name ≠ "" := fun hempty => by
    have hnil := hends.eq
    rw [hempty] at hnil
    exact hlist (List.append_eq_nil_iff.1 hnil.symm).2
  have hslash : (inside dir name).toList.getLast? ≠ some '/' := fun hlast => by
    rw [hends.eq, List.getLast?_append_of_ne_nil _ hlist] at hlast
    exact h.slash (List.mem_of_getLast? hlast)
  conv_lhs => unfold Path.way
  rw [h.isHere_inside dir, Bool.false_or, if_neg (by simpa using hne), if_neg hslash, hends.eq,
    List.append_assoc]

theorem way_foldl (h : ∀ name ∈ names, PlainName name) : ∀ start : String,
    Path.way (names.foldl inside start) = Path.way start ++ slashed names := by
  induction names with
  | nil => exact fun start => (List.append_nil _).symm
  | cons name rest ih =>
    intro start
    obtain ⟨hname, hrest⟩ := List.forall_mem_cons.1 h
    rw [List.foldl_cons, ih hrest, way_inside hname, List.append_assoc]
    rfl

theorem PlainPath.isHere (h : PlainPath absolute names dir) : Path.isHere dir = false := by
  obtain ⟨before, last, rfl⟩ := (names.eq_nil_or_concat).resolve_left h.named
  rw [h.path, List.concat_eq_append, List.foldl_append]
  exact (h.plain last (by simp)).isHere_inside _

theorem PlainPath.course (h : PlainPath absolute names dir) :
    Course dir (if absolute then 1 else 0) names where
  text := by
    have hinside := @Path.inside_eq dir "" (by simp)
    rw [inside, h.isHere, if_neg Bool.false_ne_true] at hinside
    rw [hinside, String.toList_ofList, h.path, way_foldl h.plain, way_startOf]
    cases absolute <;> simp
  head := by
    cases names with
    | nil => exact absurd rfl h.named
    | cons name more =>
      have hname := h.plain name (by simp)
      rw [slashed_cons, List.head?_append_of_ne_nil _ (by simpa using hname.ne.1)]
      exact fun hslash => hname.slash (List.mem_of_mem_head? (Option.mem_def.2 hslash))
  plain name hname := (h.plain name hname).slash

/-- A path of plain names and a pattern for names lead to the entries of the directory whose names
fit. -/
theorem find_join (hdir : PlainPath absolute names dir) (hpattern : NamePattern pattern tokens)
    (hleads : tree.leadsToDir dir = true) :
    find tree (Path.join dir pattern) = .ok (entriesOf tree tokens dir) := by
  have hstart : startOf (0 < if absolute then 1 else 0) = startOf absolute := by
    cases absolute <;> rfl
  have hwalked : walked dir = dir := by rw [hdir.course.walked_eq, hstart, ← hdir.path]
  have honward : Onward (startOf (0 < if absolute then 1 else 0)) names := {
    ne := startOf_ne _
    here := fun hhere => by
      refine ⟨by rw [isHere_startOf hhere]; rfl, fun n rest heq => ?_⟩
      exact (hdir.plain "" (by rw [heq]; simp)).ne.1 rfl
    slashes := hdir.course.plain }
  have hplain : Plain dir.toList := fun c hc => by
    have htext := mem_join hc
    rw [hdir.course.text, List.mem_append, List.mem_replicate, slashed, List.mem_flatMap] at htext
    rcases htext with ⟨-, rfl⟩ | ⟨name, hname, hmem⟩
    · decide
    rcases List.mem_append.1 hmem with hchar | hslash
    · exact (hdir.plain name hname).plain c hchar
    · rw [List.mem_singleton.1 hslash]
      decide
  have hfind := hdir.course.find_eq hplain honward hpattern.filePattern (hwalked.symm ▸ hleads)
    fun name hname => by
      rw [hpattern.loose] at hname
      cases hname
  rwa [hwalked] at hfind

end Glob
end BlockStack
