import BlockStack.Glob
import BlockStack.Proofs.StoreCalls

/-!
# BlockStack.Proofs.Ways

Paths into a directory.

* `Path.replaceExtension_inside`: another extension of a name in a directory, whatever the path of
  the directory is.
* `FileTree.resolve_eq_ok_iff`: a path ends where its parts but the last lead to.
* `FileTree.walk`: where all the parts of a path lead. `FileTree.find_dir_iff`: what is found there
  if it is a directory.
* `FileTree.Enters`: a name at the end of a path into a directory leads to the place of the name.
-/

namespace BlockStack

namespace Path

/-- What stands before the name in a path into a directory. -/
def way (dir : String) : List Char :=
  if isHere dir || dir.isEmpty then []
  else if dir.toList.getLast? = some '/' then dir.toList
  else dir.toList ++ ['/']

variable {dir name : String}

theorem isAbsolute_of_plain (hplain : '/' ∉ name.toList) : isAbsolute name = false := by
  refine decide_eq_false fun hhead => hplain ?_
  exact List.mem_of_mem_head? (Option.mem_def.2 hhead)

theorem inside_eq (hplain : '/' ∉ name.toList) :
    Glob.inside dir name = String.ofList (way dir ++ name.toList) := by
  unfold Glob.inside join way
  rw [isAbsolute_of_plain hplain]
  apply String.toList_inj.1
  rw [String.toList_ofList]
  by_cases hhere : isHere dir = true
  · simp [hhere]
  by_cases hempty : dir.isEmpty = true
  · simp [hhere, hempty]
  by_cases hslash : dir.toList.getLast? = some '/'
  · simp [hhere, hempty, hslash]
  · simp [hhere, hempty, hslash]

theorem inside_endsIn (hplain : '/' ∉ name.toList) :
    EndsIn (Glob.inside dir name) (way dir) name.toList := by
  refine ⟨by rw [inside_eq hplain, String.toList_ofList], ?_, hplain⟩
  unfold way
  split
  · exact .inl rfl
  split
  · rename_i hslash
    obtain ⟨before, hbefore⟩ := List.getLast?_eq_some_iff.1 hslash
    exact .inr ⟨before, hbefore⟩
  · exact .inr ⟨_, rfl⟩

theorem prefix_inside (hplain : '/' ∉ name.toList) (hhere : isHere dir = false) :
    dir.toList <+: (Glob.inside dir name).toList := by
  rw [inside_eq hplain, String.toList_ofList, way]
  by_cases hempty : dir.isEmpty = true
  · rw [String.isEmpty_iff.1 hempty]
    exact List.nil_prefix
  rw [hhere, Bool.false_or, if_neg hempty]
  split
  · exact List.prefix_append ..
  · rw [List.append_assoc]
    exact List.prefix_append ..

theorem isAbsolute_inside (hplain : '/' ∉ name.toList) (hhere : isHere dir = false) :
    isAbsolute (Glob.inside dir name) = isAbsolute dir := by
  by_cases hempty : dir = ""
  · have hname : Glob.inside dir name = name := by
      simp [Glob.inside, join, isAbsolute_of_plain hplain, hempty]
    rw [hname, isAbsolute_of_plain hplain, hempty]
    rfl
  · obtain ⟨more, hmore⟩ := prefix_inside hplain hhere
    have hlist : dir.toList ≠ [] := by simpa using hempty
    simp only [isAbsolute, ← hmore, List.head?_append_of_ne_nil _ hlist]

/-- Another extension comes in the place of the old one, unless only a dot stands before that. -/
theorem EndsIn.replaceExtension_front {path : String} {way front back : List Char}
    (h : EndsIn path way (front ++ '.' :: back)) (hne : front ≠ []) (hdots : front ≠ ['.'])
    (hname : isName (String.ofList (front ++ '.' :: back)) = true)
    (hsome : extension? (String.ofList (front ++ '.' :: back)) = some (String.ofList back))
    (extension : String) : Path.replaceExtension extension path =
      String.ofList (way ++ (front ++ '.' :: extension.toList)) := by
  have hnamed : isName (String.ofList (front ++ ['.'])) = true := by
    refine isName_iff.2 ⟨by simp, by simpa using hne, fun he => hdots ?_⟩
    exact List.append_cancel_right (he.trans (List.singleton_append (l := ['.'])).symm)
  exact (h.cutExtension hname rfl hsome).replaceExtension_eq hnamed (stem_dot hne) extension

theorem extension?_last {front back : List Char} (hne : front ≠ []) (hback : '.' ∉ back) :
    extension? (String.ofList (front ++ '.' :: back)) = some (String.ofList back) := by
  have hplain : ∀ c ∈ back.reverse, decide (c ≠ '.') = true := fun c hc => by
    have : c ≠ '.' := fun he => hback (he ▸ List.mem_reverse.1 hc)
    simpa using this
  have hreverse : (front ++ '.' :: back).reverse = back.reverse ++ '.' :: front.reverse := by simp
  have htake : (front ++ '.' :: back).reverse.takeWhile (· ≠ '.') = back.reverse := by
    rw [hreverse, List.takeWhile_append_of_pos hplain]
    simp
  have hdrop : (front ++ '.' :: back).reverse.dropWhile (· ≠ '.') = '.' :: front.reverse := by
    rw [hreverse, List.dropWhile_append_of_pos hplain]
    simp
  unfold extension?
  rw [String.toList_ofList, hdrop, htake, List.reverse_reverse]
  cases hrev : front.reverse with
  | nil => exact absurd (List.reverse_eq_nil_iff.1 hrev) hne
  | cons c more => rfl

/-- What another extension makes of a name does not depend on the way to it. It has no characters but
those of the name and of the extension, and a dot. -/
theorem exists_replaced {name : List Char} (hname : isName (String.ofList name) = true)
    (extension : String) : ∃ other, other ≠ [] ∧
      (∀ c ∈ other, c ∈ name ∨ c = '.' ∨ c ∈ extension.toList) ∧
      ∀ path way, EndsIn path way name →
        replaceExtension extension path = String.ofList (way ++ other) := by
  rcases extension?_cases name with ⟨hnone, hstem⟩ | ⟨front, back, hne, -, rfl, hsome, hstem⟩
  · refine ⟨name ++ '.' :: extension.toList, by simp, fun c hc => ?_, fun path way h => ?_⟩
    · simpa using hc
    have hcut : cutExtension path = path := by
      simp only [cutExtension, h.fileName? hname, Option.bind_some, hnone]
    exact EndsIn.replaceExtension_eq (by rwa [hcut]) hname hstem extension
  by_cases hdots : front = ['.']
  · refine ⟨front ++ ['.'], by simp, fun c hc => ?_, fun path way h => ?_⟩
    · exact (List.mem_append.1 hc).imp (List.mem_append_left _)
        fun hdot => .inl (List.mem_singleton.1 hdot)
    have hcut := h.cutExtension hname rfl hsome
    have hnone : fileName? (cutExtension path) = none := by
      have hsplit := hcut.splitLast (by simp) (by simp [hdots])
      unfold fileName?
      rw [hsplit, hdots]
      rfl
    unfold replaceExtension
    simp only [hnone]
    rw [← hcut.eq, String.ofList_toList]
  · refine ⟨front ++ '.' :: extension.toList, by simp, fun c hc => ?_, fun path way h =>
      h.replaceExtension_front hne hdots hname hsome extension⟩
    exact (List.mem_append.1 hc).imp (List.mem_append_left _) List.mem_cons.1

theorem replaceExtension_inside {extension : String} (hname : isName name = true)
    (hplain : '/' ∉ name.toList) (hother : '/' ∉ (replaceExtension extension name).toList) :
    replaceExtension extension (Glob.inside dir name) =
      Glob.inside dir (replaceExtension extension name) := by
  have hlist : isName (String.ofList name.toList) = true := by rwa [String.ofList_toList]
  obtain ⟨other, -, -, hreplaced⟩ := exists_replaced hlist extension
  have hself : EndsIn name [] name.toList := ⟨rfl, .inl rfl, hplain⟩
  rw [inside_eq hother, hreplaced _ _ (inside_endsIn hplain), hreplaced _ _ hself,
    String.toList_ofList, List.nil_append]

/-- Another extension leaves a path into a directory one into the directory. -/
theorem exists_beside {extension : String} (hname : isName name = true)
    (hplain : '/' ∉ name.toList) (hextension : '/' ∉ extension.toList) :
    ∃ other, other ≠ "" ∧ '/' ∉ other.toList ∧ ∀ dir,
      replaceExtension extension (Glob.inside dir name) = Glob.inside dir other := by
  have hlist : isName (String.ofList name.toList) = true := by rwa [String.ofList_toList]
  obtain ⟨other, hne, hchars, hreplaced⟩ := exists_replaced hlist extension
  have hslash : '/' ∉ (String.ofList other).toList := fun hmem => by
    rw [String.toList_ofList] at hmem
    rcases hchars '/' hmem with hold | hdot | hnew
    · exact hplain hold
    · exact absurd hdot (by decide)
    · exact hextension hnew
  refine ⟨String.ofList other, by simpa using hne, hslash, fun dir => ?_⟩
  rw [hreplaced _ _ (inside_endsIn hplain), inside_eq hslash, String.toList_ofList]

theorem pieces_append {path : String} {before after : List Char}
    (h : path.toList = before ++ '/' :: after) :
    pieces path = pieces (String.ofList before) ++ pieces (String.ofList after) := by
  simp only [pieces, h, String.toList_ofList, List.splitOn]
  rw [List.splitOnP_append_cons _ _ (by simp), List.map_append]

theorem pieces_of_plain (hplain : '/' ∉ name.toList) : pieces name = [name] := by
  have hsingle : name.toList.splitOn '/' = [name.toList] :=
    List.splitOnP_eq_singleton fun c hc => by
      have : c ≠ '/' := fun he => hplain (he ▸ hc)
      simpa using this
  rw [pieces, hsingle, List.map_singleton, String.ofList_toList]

/-- A path leads here if all its parts mean nothing, and the first one is a dot. -/
theorem isHere_iff {path : String} : isHere path = true ↔
    ∃ rest, pieces path = "." :: rest ∧ ∀ piece ∈ rest, piece = "" ∨ piece = "." := by
  have hmeans : ∀ rest : List String,
      rest.filter (fun piece => decide (piece ≠ "") && decide (piece ≠ ".")) = [] ↔
        ∀ piece ∈ rest, piece = "" ∨ piece = "." := fun rest => by
    simp only [List.filter_eq_nil_iff, Bool.and_eq_true, decide_eq_true_eq, not_and_or, not_not]
  unfold isHere
  rw [decide_eq_true_eq, parts]
  split
  · rename_i rest hpieces
    rw [hpieces, List.cons.injEq, hmeans]
    simp
  · rename_i hfirst
    constructor
    · intro hparts
      have hdot := List.mem_singleton.2 (Eq.refl ".")
      rw [← hparts] at hdot
      simp at hdot
    · rintro ⟨rest, hpieces, -⟩
      exact absurd hpieces (hfirst rest)

end Path

namespace FileTree

variable {tree : FileTree} {dir name : String} {here : Place}

theorem descend_append (tree : FileTree) (a b : List String) : ∀ start : Place,
    tree.descend start (a ++ b) = match tree.descend start a with
      | .error fault => .error fault
      | .ok next => tree.descend next b := by
  induction a with
  | nil => exact fun _ => rfl
  | cons piece rest ih =>
    intro start
    simp only [List.cons_append, descend]
    cases tree.enter start piece with
    | error fault => rfl
    | ok next => exact ih next

/-- A path that is no nonsense ends where its parts but the last lead to. -/
theorem resolve_eq_ok_iff {path : String} {e : PathEnd} : tree.resolve path = .ok e ↔
    hasZeroByte path = false ∧ path ≠ "" ∧ path.utf8ByteSize ≤ maxPath ∧
      tree.descend (tree.origin path) ((Path.pieces path).filter (· ≠ "")).dropLast = .ok e.dir ∧
      e.last = ((Path.pieces path).filter (· ≠ "")).getLast?.getD "" ∧
      e.slash = decide (path.toList.getLast? = some '/') := by
  unfold resolve
  constructor
  · intro h
    split at h
    · cases h
    rename_i hzero
    split at h
    · cases h
    rename_i hne
    split at h
    · cases h
    rename_i hlong
    dsimp only at h
    split at h
    · cases h
    rename_i dir hdescend
    cases h
    exact ⟨Bool.eq_false_iff.2 hzero, hne, Nat.not_lt.1 hlong, hdescend, rfl, rfl⟩
  · rintro ⟨hzero, hne, hshort, hdescend, hlast, hslash⟩
    rw [if_neg (by simp [hzero]), if_neg hne, if_neg (Nat.not_lt.2 hshort)]
    dsimp only
    rw [hdescend, ← hlast, ← hslash]

/-- A name leads on to the directory that it names. -/
theorem enter_name {above next : Place} (hnamed : Path.isName name = true) :
    tree.enter above name = .ok next ↔
      tree.child above name = .ok (some .dir) ∧ next = above ++ [name] := by
  obtain ⟨⟨-, hdot⟩, hdots⟩ : (name ≠ "" ∧ name ≠ ".") ∧ name ≠ ".." := by
    simpa [Path.isName] using hnamed
  unfold enter
  rw [if_neg hdot, if_neg hdots]
  cases tree.child above name with
  | error fault => simp
  | ok entry =>
    cases entry with
    | none => simp
    | some entry => cases entry <;> simp [eq_comm]

/-- The directory that all parts of a path lead to. -/
def walk (tree : FileTree) (path : String) : Except IoFault Place :=
  tree.descend (tree.origin path) ((Path.pieces path).filter (· ≠ ""))

/-- What a path leads to is a directory if its last part, unless there is none, leads on to one. -/
theorem find_dir_of_resolve {e : PathEnd} (hresolve : tree.resolve dir = .ok e) :
    tree.find dir = .ok (here, .dir) ↔
      tree.descend e.dir ([e.last].filter (· ≠ "")) = .ok here := by
  unfold find
  rw [hresolve]
  dsimp only
  unfold PathEnd.isNamed
  cases hnamed : Path.isName e.last with
  | true =>
    have hne : decide (e.last ≠ "") = true := by
      simp only [Path.isName, Bool.and_eq_true] at hnamed
      exact hnamed.1.1
    have henter := @enter_name tree e.last e.dir here hnamed
    rw [Bool.not_true, if_neg Bool.false_ne_true, List.filter_singleton, hne, cond_true]
    simp only [descend]
    constructor
    · intro hfind
      rw [henter.2]
      split at hfind
      · cases hfind
      · cases hfind
      · rename_i hchild
        cases hfind
        exact ⟨hchild, rfl⟩
      · split at hfind <;> cases hfind
    · intro hdescend
      obtain ⟨hchild, rfl⟩ := henter.1 (by
        cases hstep : tree.enter e.dir e.last with
        | error fault => rw [hstep] at hdescend; cases hdescend
        | ok next => rw [hstep] at hdescend; exact hdescend)
      rw [hchild]
      rfl
  | false =>
    have hdots : e.last = "" ∨ e.last = "." ∨ e.last = ".." := by
      by_contra hno
      simp_all [Path.isName]
    rw [Bool.not_false, if_pos rfl]
    rcases hdots with hlast | hlast | hlast <;> rw [hlast] <;>
      simp [descend, enter]

/-- A path that is no nonsense leads to the directory that all its parts lead to. -/
theorem find_dir_iff : tree.find dir = .ok (here, .dir) ↔
    hasZeroByte dir = false ∧ dir ≠ "" ∧ dir.utf8ByteSize ≤ maxPath ∧ tree.walk dir = .ok here := by
  have hnonempty : ∀ piece ∈ (Path.pieces dir).filter (· ≠ ""), piece ≠ "" :=
    fun piece hpiece => of_decide_eq_true (List.mem_filter.1 hpiece).2
  have hsplit : (Path.pieces dir).filter (· ≠ "") = ((Path.pieces dir).filter (· ≠ "")).dropLast ++
      [((Path.pieces dir).filter (· ≠ "")).getLast?.getD ""].filter (· ≠ "") := by
    generalize (Path.pieces dir).filter (· ≠ "") = pieces at hnonempty
    rcases List.eq_nil_or_concat pieces with rfl | ⟨init, last, rfl⟩
    · rfl
    · have hlast := hnonempty last (by simp)
      simp [hlast]
  constructor
  · intro hfind
    obtain ⟨e, hresolve⟩ : ∃ e, tree.resolve dir = .ok e := by
      unfold find at hfind
      cases hresolve : tree.resolve dir with
      | error fault => rw [hresolve] at hfind; cases hfind
      | ok e => exact ⟨e, rfl⟩
    obtain ⟨hzero, hne, hshort, hdescend, hlast, -⟩ := resolve_eq_ok_iff.1 hresolve
    refine ⟨hzero, hne, hshort, ?_⟩
    unfold walk
    rw [hsplit, descend_append, hdescend, ← hlast]
    exact (find_dir_of_resolve hresolve).1 hfind
  · rintro ⟨hzero, hne, hshort, hwalk⟩
    unfold walk at hwalk
    rw [hsplit, descend_append] at hwalk
    split at hwalk
    · cases hwalk
    rename_i above habove
    have hresolve : tree.resolve dir = .ok ⟨above,
        ((Path.pieces dir).filter (· ≠ "")).getLast?.getD "",
        decide (dir.toList.getLast? = some '/')⟩ :=
      resolve_eq_ok_iff.2 ⟨hzero, hne, hshort, habove, rfl, rfl⟩
    exact (find_dir_of_resolve hresolve).2 hwalk

theorem walk_of_find (hfind : tree.find dir = .ok (here, .dir)) : tree.walk dir = .ok here :=
  (find_dir_iff.1 hfind).2.2.2

/-- The parts of a path here mean nothing. -/
theorem walk_here (hhere : Path.isHere dir = true) : tree.walk dir = .ok tree.home := by
  have hstay : ∀ pieces : List String, (∀ piece ∈ pieces, piece = ".") →
      tree.descend tree.home pieces = .ok tree.home := by
    intro pieces hpieces
    induction pieces with
    | nil => rfl
    | cons piece rest ih =>
      obtain ⟨rfl, hrest⟩ := List.forall_mem_cons.1 hpieces
      exact ih hrest
  obtain ⟨rest, hpieces, hrest⟩ := Path.isHere_iff.1 hhere
  have hrelative : Path.isAbsolute dir = false := by
    refine decide_eq_false fun hhead => ?_
    obtain ⟨more, hmore⟩ := List.head?_eq_some_iff.1 hhead
    have hpieces' := Path.pieces_append (show dir.toList = [] ++ '/' :: more from hmore)
    have hfirst : ("." : String) = "" := by
      simpa [Path.pieces] using congrArg List.head? (hpieces.symm.trans hpieces')
    exact absurd hfirst (by decide)
  unfold walk origin
  rw [hrelative, hpieces]
  refine hstay _ fun piece hpiece => ?_
  obtain ⟨hmem, hne⟩ := List.mem_filter.1 hpiece
  rcases List.mem_cons.1 hmem with rfl | hmem
  · rfl
  · exact (hrest piece hmem).resolve_left (of_decide_eq_true hne)

/-- A name that the path into a directory can end in. -/
structure Enters (dir name : String) : Prop where
  named : Path.isName name = true
  plain : '/' ∉ name.toList
  short : name.utf8ByteSize ≤ maxName
  fits : (Glob.inside dir name).utf8ByteSize ≤ maxPath
  noZero : hasZeroByte (Glob.inside dir name) = false

instance (dir name : String) : Decidable (Enters dir name) :=
  decidable_of_iff (Path.isName name = true ∧ '/' ∉ name.toList ∧ name.utf8ByteSize ≤ maxName ∧
      (Glob.inside dir name).utf8ByteSize ≤ maxPath ∧ hasZeroByte (Glob.inside dir name) = false)
    ⟨fun ⟨named, plain, short, fits, noZero⟩ => ⟨named, plain, short, fits, noZero⟩,
      fun ⟨named, plain, short, fits, noZero⟩ => ⟨named, plain, short, fits, noZero⟩⟩

theorem pieces_inside (hplain : '/' ∉ name.toList) :
    (Path.pieces (Glob.inside dir name)).filter (· ≠ "") =
      (if Path.isHere dir then [] else (Path.pieces dir).filter (· ≠ "")) ++
        [name].filter (· ≠ "") := by
  have hends := (@Path.inside_endsIn dir name hplain).eq
  have hname := Path.pieces_of_plain hplain
  unfold Path.way at hends
  by_cases hhere : Path.isHere dir = true
  · rw [hhere, Bool.true_or, if_pos rfl, List.nil_append, String.toList_inj] at hends
    rw [hends, hname, if_pos hhere, List.nil_append]
  rw [if_neg hhere]
  rw [Bool.not_eq_true] at hhere
  by_cases hempty : dir.isEmpty = true
  · rw [hempty, Bool.or_true, if_pos rfl, List.nil_append, String.toList_inj] at hends
    rw [hends, hname, String.isEmpty_iff.1 hempty]
    rfl
  rw [hhere, Bool.false_or, if_neg hempty] at hends
  by_cases hslash : dir.toList.getLast? = some '/'
  · obtain ⟨before, hbefore⟩ := List.getLast?_eq_some_iff.1 hslash
    rw [if_pos hslash, hbefore, List.append_assoc, List.singleton_append] at hends
    rw [Path.pieces_append hends, Path.pieces_append hbefore, String.ofList_toList, hname,
      List.filter_append, List.filter_append]
    simp [Path.pieces]
  · rw [if_neg hslash, List.append_assoc, List.singleton_append] at hends
    rw [Path.pieces_append hends, String.ofList_toList, String.ofList_toList, hname,
      List.filter_append]

/-- Before its name, a path into a directory leads where the path of the directory does. -/
theorem descend_before (hplain : '/' ∉ name.toList) :
    tree.descend (tree.origin (Glob.inside dir name))
      (if Path.isHere dir then [] else (Path.pieces dir).filter (· ≠ "")) = tree.walk dir := by
  cases hhere : Path.isHere dir with
  | true =>
    have hname : Glob.inside dir name = name := if_pos hhere
    unfold origin
    rw [walk_here hhere, hname, Path.isAbsolute_of_plain hplain]
    rfl
  | false =>
    unfold walk origin
    rw [Path.isAbsolute_inside hplain hhere]
    rfl

/-- A path into a directory leads on from where the path of the directory leads to. -/
theorem walk_inside (hplain : '/' ∉ name.toList) : tree.walk (Glob.inside dir name) =
    match tree.walk dir with
      | .error fault => .error fault
      | .ok next => tree.descend next ([name].filter (· ≠ "")) := by
  unfold walk
  rw [pieces_inside hplain, descend_append, descend_before hplain]
  rfl

/-- A path into a directory leads to the place of the name at its end. -/
theorem Enters.leadsTo (h : Enters dir name) (hfind : tree.find dir = .ok (here, .dir)) :
    tree.LeadsTo (Glob.inside dir name) ⟨here, name, false⟩ := by
  obtain ⟨hnamed, hplain, hshort, hfits, hzero⟩ := h
  have hne : name ≠ "" := by
    rintro rfl
    simp [Path.isName] at hnamed
  have hself : [name].filter (· ≠ "") = [name] := by simp [hne]
  have hends := @Path.inside_endsIn dir name hplain
  have hlast : (Glob.inside dir name).toList.getLast? = name.toList.getLast? := by
    rw [hends.eq, List.getLast?_append_of_ne_nil _ (by simpa using hne)]
  have hslash : decide ((Glob.inside dir name).toList.getLast? = some '/') = false :=
    decide_eq_false fun h => hplain (List.mem_of_getLast? (hlast.symm.trans h))
  have hnonempty : Glob.inside dir name ≠ "" := fun hempty => by
    have hnil := hends.eq
    rw [hempty] at hnil
    exact hne (by simpa using (List.append_eq_nil_iff.1 hnil.symm).2)
  refine ⟨resolve_eq_ok_iff.2 ⟨hzero, hnonempty, hfits, ?_, ?_, hslash.symm⟩, hnamed, rfl,
    Nat.not_lt.2 hshort⟩
  · rw [pieces_inside hplain, hself, List.dropLast_concat, descend_before hplain]
    exact walk_of_find hfind
  · rw [pieces_inside hplain, hself, List.getLast?_concat]
    rfl

theorem walkable_of_find (hhome : tree.Walkable tree.home)
    (hfind : tree.find dir = .ok (here, .dir)) : tree.Walkable here := by
  have horigin : tree.Walkable (tree.origin dir) := by
    unfold origin
    split
    · exact walkable_nil tree
    · exact hhome
  exact (descend_keeps (fun _ h => h) horigin (walk_of_find hfind)).2

end FileTree
end BlockStack
