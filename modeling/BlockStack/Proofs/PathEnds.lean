import BlockStack.FileTree

/-!
# BlockStack.Proofs.PathEnds

The name at the end of a path, and what another extension makes of it.

* `Path.EndsIn`: a path is a way to a directory and a name.
* `Path.extension?_cases`: where a name is cut for its extension.
* `Path.EndsIn.replaceExtension`: another extension changes the name and not the way.
* `FileTree.last_ne_of_replaceExtension`: a path with a dotted extension leads elsewhere.
-/

namespace BlockStack
namespace Path

/-- A path is a way, which is empty or ends with a slash, and a name after it. -/
structure EndsIn (path : String) (way name : List Char) : Prop where
  eq : path.toList = way ++ name
  way : way = [] ∨ ∃ before, way = before ++ ['/']
  plain : '/' ∉ name

variable {path : String} {way name : List Char}

theorem exists_endsIn (path : String) : ∃ way name, EndsIn path way name := by
  by_cases hslash : '/' ∈ path.toList.reverse
  · obtain ⟨after, before, hsplit, hplain⟩ := List.eq_append_cons_of_mem hslash
    refine ⟨before.reverse ++ ['/'], after.reverse, ?_, .inr ⟨_, rfl⟩, by simpa using hplain⟩
    rw [← List.reverse_reverse path.toList, hsplit]
    simp
  · exact ⟨[], path.toList, rfl, .inl rfl, by simpa using hslash⟩

/-- The last part of a path is what it ends in. -/
theorem EndsIn.last_pieces (h : EndsIn path way name) :
    (pieces path).getLast? = some (String.ofList name) := by
  have hsingle : name.splitOnP (· == '/') = [name] :=
    List.splitOnP_eq_singleton fun c hc => by
      have : c ≠ '/' := fun he => h.plain (he ▸ hc)
      simpa using this
  rw [pieces, h.eq, List.splitOn]
  rcases h.way with rfl | ⟨before, rfl⟩
  · rw [List.nil_append, hsingle]
    rfl
  · rw [List.append_assoc, List.singleton_append, List.splitOnP_append_cons _ _ (by simp), hsingle,
      List.map_append]
    exact List.getLast?_concat

/-- The last part of a path that does not end with a slash is its name. -/
theorem EndsIn.getLast?_pieces (h : EndsIn path way name) (hname : name ≠ []) :
    ((pieces path).filter (· ≠ "")).getLast? = some (String.ofList name) := by
  have hne : String.ofList name ≠ "" := by simpa using hname
  obtain ⟨first, hpieces⟩ := List.getLast?_eq_some_iff.1 h.last_pieces
  rw [hpieces, List.filter_append, List.filter_cons_of_pos (by simpa using hne)]
  exact List.getLast?_concat

/-! ## Names -/

/-- A name that is not the dot of its directory is not trimmed. -/
theorem trimmed_of_name {rest : List Char} (hne : name ≠ []) (hdot : name ≠ ['.'])
    (hplain : '/' ∉ name) : trimmed (name.reverse ++ rest) = name.reverse ++ rest := by
  cases hrev : name.reverse with
  | nil => exact absurd (List.reverse_eq_nil_iff.1 hrev) hne
  | cons c more =>
    have hplain' : '/' ∉ c :: more := by rwa [← hrev, List.mem_reverse]
    unfold trimmed
    split
    · rename_i he
      obtain ⟨rfl, -⟩ := List.cons.inj he
      simp at hplain'
    · rename_i he
      obtain ⟨rfl, hmore⟩ := List.cons.inj he
      cases more with
      | nil =>
        have : name = ['.'] := by rw [← List.reverse_reverse name, hrev]; rfl
        exact absurd this hdot
      | cons d _ =>
        obtain ⟨rfl, -⟩ := List.cons.inj hmore
        simp at hplain'
    · rfl

theorem EndsIn.splitLast (h : EndsIn path way name) (hne : name ≠ []) (hdot : name ≠ ['.']) :
    splitLast path = (name.reverse, way.reverse) := by
  have hplain : ∀ c ∈ name.reverse, decide (c ≠ '/') = true := fun c hc => by
    have : c ≠ '/' := fun he => h.plain (he ▸ List.mem_reverse.1 hc)
    simpa using this
  have hway : way.reverse.takeWhile (· ≠ '/') = [] ∧ way.reverse.dropWhile (· ≠ '/') = way.reverse := by
    rcases h.way with rfl | ⟨before, rfl⟩
    · exact ⟨rfl, rfl⟩
    · simp
  rw [Path.splitLast, h.eq, List.reverse_append, trimmed_of_name hne hdot h.plain,
    List.takeWhile_append_of_pos hplain, List.dropWhile_append_of_pos hplain, hway.1, hway.2,
    List.append_nil]

theorem isName_iff : isName (String.ofList name) = true ↔
    name ≠ [] ∧ name ≠ ['.'] ∧ name ≠ ['.', '.'] := by
  have hlist : ∀ s : String, String.ofList name = s ↔ name = s.toList := fun s => by
    rw [← String.toList_inj, String.toList_ofList]
  simp [isName, hlist, and_assoc]

theorem EndsIn.fileName? (h : EndsIn path way name) (hname : isName (String.ofList name) = true) :
    fileName? path = some (String.ofList name, String.ofList way) := by
  obtain ⟨hne, hdot, -⟩ := isName_iff.1 hname
  simp only [Path.fileName?, h.splitLast hne hdot, List.reverse_reverse, hname, if_true]

/-- A name has no extension, or it is cut at its last dot, which does not stand at its start. -/
theorem extension?_cases (name : List Char) :
    (extension? (String.ofList name) = none ∧ stem (String.ofList name) = String.ofList name) ∨
      ∃ front back, front ≠ [] ∧ '.' ∉ back ∧ name = front ++ '.' :: back ∧
        extension? (String.ofList name) = some (String.ofList back) ∧
        stem (String.ofList name) = String.ofList front := by
  unfold extension? stem
  rw [String.toList_ofList]
  by_cases hdot : '.' ∈ name.reverse
  · obtain ⟨after, before, hsplit, hplain⟩ := List.eq_append_cons_of_mem hdot
    have hafter : ∀ c ∈ after, decide (c ≠ '.') = true := fun c hc => by
      have : c ≠ '.' := fun he => hplain (he ▸ hc)
      simpa using this
    have htake : name.reverse.takeWhile (· ≠ '.') = after := by
      rw [hsplit, List.takeWhile_append_of_pos hafter]
      simp
    have hdrop : name.reverse.dropWhile (· ≠ '.') = '.' :: before := by
      rw [hsplit, List.dropWhile_append_of_pos hafter]
      simp
    have hname : name = before.reverse ++ '.' :: after.reverse := by
      rw [← List.reverse_reverse name, hsplit]
      simp
    rw [hdrop, htake]
    cases before with
    | nil => exact .inl ⟨rfl, rfl⟩
    | cons c more =>
      exact .inr ⟨_, after.reverse, by simp, by simpa using hplain, hname, rfl, rfl⟩
  · have hall : ∀ c ∈ name.reverse, decide (c ≠ '.') = true := fun c hc => by
      have : c ≠ '.' := fun he => hdot (he ▸ hc)
      simpa using this
    have hdrop : name.reverse.dropWhile (· ≠ '.') = [] := by
      rw [← List.append_nil name.reverse, List.dropWhile_append_of_pos hall]
      rfl
    rw [hdrop]
    exact .inl ⟨rfl, rfl⟩

/-- The name before an empty extension. -/
theorem stem_dot {front : List Char} (hne : front ≠ []) :
    stem (String.ofList (front ++ ['.'])) = String.ofList front := by
  have hdrop : (front ++ ['.']).reverse.dropWhile (· ≠ '.') = '.' :: front.reverse := by simp
  unfold stem
  rw [String.toList_ofList, hdrop]
  cases hrev : front.reverse with
  | nil => exact absurd (List.reverse_eq_nil_iff.1 hrev) hne
  | cons c more => simp [← hrev]

/-! ## Another extension -/

theorem EndsIn.append (h : EndsIn path way name) {other : List Char} (hother : '/' ∉ other) :
    EndsIn (String.ofList (way ++ other)) way other :=
  ⟨String.toList_ofList, h.way, hother⟩

/-- Another extension comes after the stem of the name. -/
theorem EndsIn.replaceExtension_eq {front : List Char}
    (h : EndsIn (cutExtension path) way name) (hname : isName (String.ofList name) = true)
    (hstem : stem (String.ofList name) = String.ofList front) (extension : String) :
    replaceExtension extension path = String.ofList (way ++ (front ++ '.' :: extension.toList)) := by
  have hcut := h.fileName? hname
  unfold replaceExtension
  simp only [hcut, hstem]
  apply String.toList_inj.1
  simp

/-- What is left of a path with an extension is the way and the name up to the dot. -/
theorem EndsIn.cutExtension {front back : List Char} (h : EndsIn path way name)
    (hname : isName (String.ofList name) = true) (heq : name = front ++ '.' :: back)
    (hsome : extension? (String.ofList name) = some (String.ofList back)) :
    EndsIn (cutExtension path) way (front ++ ['.']) := by
  have hpath : path.toList = (way ++ (front ++ ['.'])) ++ back := by rw [h.eq, heq]; simp
  have hlength : path.length - (String.ofList back).length = (way ++ (front ++ ['.'])).length := by
    rw [← String.length_toList, hpath, List.length_append, String.length_ofList]
    omega
  have hcut : Path.cutExtension path = String.ofList (way ++ (front ++ ['.'])) := by
    unfold Path.cutExtension
    simp only [h.fileName? hname, Option.bind_some, hsome, hlength, hpath, List.take_left]
  have hplain : '/' ∉ front ++ ['.'] := fun hmem => h.plain (by
    rw [heq]
    rcases List.mem_append.1 hmem with hfront | hdot
    · exact List.mem_append_left _ hfront
    · simp at hdot)
  rw [hcut]
  exact ⟨String.toList_ofList, h.way, hplain⟩

/-- Another extension, with a dot in it, makes another name at the end of the same way, unless only
the two dots of the directory above are left of the name. -/
theorem EndsIn.replaceExtension (h : EndsIn path way name)
    (hname : isName (String.ofList name) = true) {extension : String} (hdot : '.' ∈ extension.toList)
    (hplain : '/' ∉ extension.toList) :
    ∃ other, EndsIn (replaceExtension extension path) way other ∧
      (other = ['.', '.'] ∨ other ≠ name) := by
  have made : ∀ {front : List Char}, '/' ∉ front →
      Path.replaceExtension extension path =
        String.ofList (way ++ (front ++ '.' :: extension.toList)) →
      EndsIn (Path.replaceExtension extension path) way (front ++ '.' :: extension.toList) := by
    intro front hfront heq
    rw [heq]
    refine ⟨String.toList_ofList, h.way, fun hmem => ?_⟩
    rcases List.mem_append.1 hmem with hmem | hmem
    · exact hfront hmem
    · exact hplain (by simpa using hmem)
  rcases extension?_cases name with ⟨hnone, hstem⟩ | ⟨front, back, hne, hback, heq, hsome, hstem⟩
  · have hcut : Path.cutExtension path = path := by
      simp only [Path.cutExtension, h.fileName? hname, Option.bind_some, hnone]
    have hends : EndsIn (Path.cutExtension path) way name := by rw [hcut]; exact h
    refine ⟨_, made h.plain (hends.replaceExtension_eq hname hstem extension), .inr fun he => ?_⟩
    have hlength := congrArg List.length he
    simp at hlength
  · have hfront : '/' ∉ front := fun hmem => h.plain (heq ▸ List.mem_append_left _ hmem)
    have hcut := h.cutExtension hname heq hsome
    by_cases hdots : front = ['.']
    · -- two dots are no name, and the path stays as it was cut
      subst hdots
      have hnone : Path.fileName? (Path.cutExtension path) = none := by
        have hsplit := hcut.splitLast (by simp) (by simp)
        unfold Path.fileName?
        rw [hsplit]
        rfl
      have hkept : Path.replaceExtension extension path = Path.cutExtension path := by
        unfold Path.replaceExtension
        simp only [hnone]
      rw [hkept]
      exact ⟨_, hcut, .inl rfl⟩
    · have hnamed : isName (String.ofList (front ++ ['.'])) = true := by
        refine isName_iff.2 ⟨by simp, by simpa using hne, fun he => hdots ?_⟩
        exact List.append_cancel_right (he.trans (List.singleton_append (l := ['.'])).symm)
      refine ⟨_, made hfront (hcut.replaceExtension_eq hnamed (stem_dot hne) extension),
        .inr fun he => ?_⟩
      rw [heq] at he
      obtain ⟨-, hsame⟩ := List.cons.inj (List.append_cancel_left he)
      rw [hsame] at hdot
      exact hback hdot

end Path

namespace FileTree

open BlockStack.Path (EndsIn)

/-- A path leads to the name that it ends in. -/
theorem last_of_resolve {tree : FileTree} {path : String} {e : PathEnd}
    (h : tree.resolve path = .ok e) (hslash : e.slash = false) {way name : List Char}
    (hends : EndsIn path way name) : e.last = String.ofList name := by
  unfold resolve at h
  split at h
  · cases h
  split at h
  · cases h
  rename_i hempty
  split at h
  · cases h
  dsimp only at h
  split at h
  · cases h
  cases h
  have hname : name ≠ [] := by
    rintro rfl
    have heq : path.toList = way := hends.eq.trans (List.append_nil way)
    rcases hends.way with rfl | ⟨before, rfl⟩
    · exact hempty (String.toList_inj.1 heq)
    · simp [heq] at hslash
  dsimp only
  rw [hends.getLast?_pieces hname]
  rfl

/-- A path to a file and the path with another extension, which has a dot in it, lead to different
names. -/
theorem last_ne_of_replaceExtension {tree other : FileTree} {path extension : String} {t e : PathEnd}
    (hdot : '.' ∈ extension.toList) (hplain : '/' ∉ extension.toList)
    (ht : tree.resolve path = .ok t) (htnamed : t.isNamed = true) (htslash : t.slash = false)
    (he : other.resolve (Path.replaceExtension extension path) = .ok e) (henamed : e.isNamed = true)
    (heslash : e.slash = false) : e.last ≠ t.last := by
  obtain ⟨way, name, hends⟩ := Path.exists_endsIn path
  have htlast := last_of_resolve ht htslash hends
  rw [PathEnd.isNamed, htlast] at htnamed
  obtain ⟨changed, hchanged, hother⟩ := hends.replaceExtension htnamed hdot hplain
  have helast := last_of_resolve he heslash hchanged
  rcases hother with rfl | hne
  · rw [PathEnd.isNamed, helast] at henamed
    exact absurd henamed (by decide)
  · rw [htlast, helast]
    exact fun hsame => hne (String.ofList_inj.1 hsame)

end FileTree
end BlockStack
