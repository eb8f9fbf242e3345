import BlockStack.Proofs.Ways

/-!
# BlockStack.Proofs.Patterns

Patterns for names, and the names that fit them.

* `Glob.tokensFrom_plain`: characters that mean nothing more are tokens of themselves.
* `Glob.tokensFrom_moved`: the tokens of a text are the same at any place that names can start at.
* `Glob.literal?_plain`, `Glob.eq_of_literal?`: the tokens that only one name fits.
* `Glob.FilePattern`: a pattern for the names in one directory. `Glob.NamePattern` is one that more
  than one name may fit.
* `Glob.accepts_ending`: a star and some characters fit the names that end in these.
-/

namespace BlockStack
namespace Glob

/-! ## Tokens -/

/-- Characters that mean nothing more in a pattern. -/
def Plain (cs : List Char) : Prop := ∀ c ∈ cs, c ≠ '?' ∧ c ≠ '*' ∧ c ≠ '['

variable {position : Nat} {before : Option Char} {cs rest : List Char} {tokens : List Token}

theorem tokensFrom_char {c : Char} (h : c ≠ '?' ∧ c ≠ '*' ∧ c ≠ '[') :
    tokensFrom position before (c :: rest) =
      (tokensFrom (position + 1) c rest).map (.char c :: ·) := by
  obtain ⟨hany, hstar, hopen⟩ := h
  rw [tokensFrom.eq_def]
  split <;> simp_all

/-- Characters that mean nothing more are tokens of themselves. -/
theorem tokensFrom_plain (h : Plain cs) (hne : cs ≠ []) : ∀ {position : Nat} {before : Option Char},
    tokensFrom position before (cs ++ rest) =
      (tokensFrom (position + cs.length) cs.getLast? rest).map (cs.map Token.char ++ ·) := by
  induction cs with
  | nil => exact absurd rfl hne
  | cons c more ih =>
    intro position before
    obtain ⟨hc, hmore⟩ := List.forall_mem_cons.1 h
    rw [List.cons_append, tokensFrom_char hc]
    rcases more.eq_nil_or_concat with rfl | hsome
    · rfl
    · have hne' : more ≠ [] := by obtain ⟨_, _, rfl⟩ := hsome; simp
      rw [ih hmore hne', List.getLast?_cons, List.length_cons]
      have hlast : more.getLast? = some (more.getLast hne') := List.getLast?_eq_some_getLast hne'
      rw [hlast, Option.getD_some, Nat.add_assoc, Nat.add_comm 1]
      cases tokensFrom (position + (more.length + 1)) (some (more.getLast hne')) rest <;> rfl

theorem map_eq_ok {α β : Type} {f : α → β} {x : Except PatternError α} {y : β} :
    x.map f = .ok y ↔ ∃ z, x = .ok z ∧ f z = y := by
  cases x with
  | error e => exact ⟨nofun, nofun⟩
  | ok z => simp [Except.map]

/-- The tokens of a text are the same at any place that names can start at. -/
theorem tokensFrom_moved (h : tokensFrom position before cs = .ok tokens) (position' : Nat)
    {before' : Option Char}
    (hbefore : before = none ∨ before = some '/' ↔ before' = none ∨ before' = some '/') :
    tokensFrom position' before' cs = .ok tokens := by
  fun_induction tokensFrom position before cs generalizing position' before' tokens with
  | case1 => simpa [tokensFrom] using h
  | case2 position before rest ih =>
    obtain ⟨more, hmore, rfl⟩ := map_eq_ok.1 h
    rw [tokensFrom, ih hmore (position' + 1) .rfl]
    rfl
  | case3 => cases h
  | case4 position before hstart =>
    rw [tokensFrom, if_pos (hbefore.1 hstart)]
    exact h
  | case5 position before hstart rest hrest ih =>
    obtain ⟨more, hmore, rfl⟩ := map_eq_ok.1 h
    rw [tokensFrom, if_pos (hbefore.1 hstart), ih hmore (position' + 3) .rfl]
    rfl
  | case6 => cases h
  | case7 => cases h
  | case8 position before rest hstars hstar ih =>
    obtain ⟨more, hmore, rfl⟩ := map_eq_ok.1 h
    rw [tokensFrom, ih hmore (position' + 1) .rfl]
    · rfl
    · exact hstars
    · exact hstar
  | case9 position before c rest inside after hfound _ ih =>
    obtain ⟨more, hmore, rfl⟩ := map_eq_ok.1 h
    rw [tokensFrom]
    split
    · rename_i hfound'
      obtain ⟨rfl, rfl⟩ := Prod.mk.inj (Option.some.inj (hfound.symm.trans hfound'))
      rw [ih hmore (position' + inside.length + 4) .rfl]
      rfl
    · rename_i hnone
      cases hfound.symm.trans hnone
  | case10 => cases h
  | case11 position before c rest hnot inside after hfound _ ih =>
    obtain ⟨more, hmore, rfl⟩ := map_eq_ok.1 h
    rw [tokensFrom]
    · split
      · rename_i hfound'
        obtain ⟨rfl, rfl⟩ := Prod.mk.inj (Option.some.inj (hfound.symm.trans hfound'))
        rw [ih hmore (position' + inside.length + 3) .rfl]
        rfl
      · rename_i hnone
        cases hfound.symm.trans hnone
    · exact hnot
  | case12 => cases h
  | case13 => cases h
  | case14 position before c rest =>
    rename_i ih
    obtain ⟨more, hmore, rfl⟩ := map_eq_ok.1 h
    rw [tokensFrom, ih hmore (position' + 1) .rfl]
    · rfl
    all_goals assumption

/-! ## Patterns for names -/

/-- The only name that fits plain characters. -/
theorem literal?_plain (name : String) : literal? (name.toList.map Token.char) = some name := by
  have hsome : ∀ cs : List Char, cs.mapM some = some cs := by
    intro cs
    induction cs with
    | nil => rfl
    | cons c rest ih => simp [ih]
  unfold literal?
  rw [List.mapM_map]
  exact (congrArg (Option.map String.ofList) (hsome name.toList)).trans
    (congrArg some String.ofList_toList)

/-- Tokens that are plain characters are those of the name that fits them. -/
theorem eq_of_literal? {name : String} (h : literal? tokens = some name) :
    tokens = name.toList.map Token.char := by
  obtain ⟨cs, hcs, rfl⟩ := Option.map_eq_some_iff.1 h
  rw [String.toList_ofList]
  clear h
  induction tokens generalizing cs with
  | nil =>
    obtain rfl : [] = cs := by simpa using hcs
    rfl
  | cons token rest ih =>
    cases token <;> simp only [List.mapM_cons, Option.bind_eq_bind, Option.bind_some,
      Option.bind_none, reduceCtorEq, Option.bind_eq_some_iff, Option.pure_def,
      Option.some.injEq] at hcs
    obtain ⟨more, hmore, rfl⟩ := hcs
    rw [ih more hmore, List.map_cons]

/-- A pattern for the names in one directory: it has tokens and no slash, and does not stand for any
number of directories. -/
structure FilePattern (pattern : String) (tokens : List Token) : Prop where
  reads : Glob.tokens pattern = .ok tokens
  slash : '/' ∉ pattern.toList
  ne : pattern ≠ ""
  dirs : tokens ≠ [.anyDirs]

/-- A pattern for names: it has tokens and no slash, and stands neither for one name alone nor for
any number of directories. -/
structure NamePattern (pattern : String) (tokens : List Token) : Prop where
  reads : Glob.tokens pattern = .ok tokens
  slash : '/' ∉ pattern.toList
  loose : literal? tokens = none
  dirs : tokens ≠ [.anyDirs]

variable {pattern : String}

theorem NamePattern.filePattern (h : NamePattern pattern tokens) : FilePattern pattern tokens where
  reads := h.reads
  slash := h.slash
  ne := by
    rintro rfl
    have htokens := h.reads
    have hloose := h.loose
    obtain rfl : [] = tokens := by simpa [Glob.tokens, tokensFrom] using htokens
    cases hloose
  dirs := h.dirs

/-! ## Names that end alike -/

/-- The tokens of a star and some plain characters. -/
def ending (cs : List Char) : List Token := .anyText :: cs.map Token.char

theorem accepts_plain (cs : List Char) : ∀ chars : List Char,
    accepts (cs.map Token.char) chars = decide (chars = cs) := by
  induction cs with
  | nil => intro chars; cases chars <;> rfl
  | cons c rest ih =>
    intro chars
    cases chars with
    | nil => rfl
    | cons c' more => simp [accepts, Token.fits, ih, eq_comm]

/-- A star and some characters fit the names that end in these. -/
theorem accepts_ending (cs chars : List Char) :
    accepts (ending cs) chars = true ↔ cs <:+ chars := by
  rw [ending, accepts, List.any_eq_true]
  constructor
  · rintro ⟨n, -, hfits⟩
    rw [accepts_plain, decide_eq_true_eq] at hfits
    exact hfits ▸ List.drop_suffix n chars
  · intro hsuffix
    refine ⟨chars.length - cs.length, List.mem_range.2 (by omega), ?_⟩
    rw [accepts_plain, decide_eq_true_eq]
    exact (List.suffix_iff_eq_drop.1 hsuffix).symm

theorem namePattern_ending {last : String} (hplain : Plain last.toList)
    (hslash : '/' ∉ last.toList) (hne : last ≠ "") :
    NamePattern ("*" ++ last) (ending last.toList) where
  reads := by
    have hlist : last.toList ≠ [] := by simpa using hne
    have htext : ("*" ++ last).toList = '*' :: last.toList := by simp
    have hread : ∀ position, tokensFrom position (some '*') last.toList =
        .ok (last.toList.map Token.char) := fun position => by
      have hall := @tokensFrom_plain last.toList [] hplain hlist position (some '*')
      rw [List.append_nil, tokensFrom] at hall
      exact hall.trans (by simp [Except.map])
    have hstar : ∀ rest, last.toList = '*' :: rest → False := fun rest heq =>
      (hplain '*' (by rw [heq]; exact List.mem_cons_self ..)).2.1 rfl
    unfold Glob.tokens
    rw [htext, tokensFrom, hread]
    · rfl
    · exact fun rest => hstar _
    · exact hstar
  slash := by simpa using hslash
  loose := rfl
  dirs := by simp [ending, hne]

end Glob
end BlockStack
