import BlockStack.Proofs.PathEnds
import BlockStack.Proofs.Persistence

/-!
# BlockStack.Proofs.StoreCalls

A store in a file answers as one in memory.

* `StoreCall`, `Store.call`, `Store.callAll`: what a store is asked for, and its answers.
* `Store.Keeps`: the simulation. A store keeps a document, whatever it is made of; `Store.Keeps.call` is
  one call, `Store.Keeps.callAll` any number of them.
* `FileTree.find_beside`: when a file took the place of another, none is left beside it.
* `FileTree.Ready`: what a file and the place beside it need for all saves to succeed. `Store.Saves`:
  rows can be saved in a store, again and again.
* `Store.file_as_memory`: the answers are those of a store in memory.
-/

namespace BlockStack

/-! ## Calls -/

/-- What a store is asked for. -/
inductive StoreCall where
  | catalog
  | layers
  | volumes
  | save (key : ResourceKey) (rows : Rows)
  deriving DecidableEq, Repr

/-- What a store answers. -/
inductive StoreAnswer where
  | catalog (catalog : Catalog)
  | layers (rows : List LayerRow)
  | volumes (rows : List VolumeRow)
  | saved
  deriving DecidableEq, Repr

theorem Document.parse_compact (doc : Document) :
    (Json.parse doc.toJson.compact).bind Document.ofJson? = some doc := by
  rw [Json.parse_compact doc.printable_toJson, Option.bind_some, ofJson?_reread]

namespace Store

/-- The answer to a call, and the store after it. -/
def call (store : Store) : StoreCall → Except Fault StoreAnswer × Store
  | .catalog => (store.document.map (fun doc => .catalog doc.catalog), store)
  | .layers => (store.document.map (fun doc => .layers doc.layers), store)
  | .volumes => (store.document.map (fun doc => .volumes doc.volumes), store)
  | .save key rows =>
    match store.save key rows with
    | .ok next => (.ok .saved, next)
    | .error fault => (.error fault, store)

/-- The answers to some calls, one after the other, and the store after them. -/
def callAll (store : Store) : List StoreCall → List (Except Fault StoreAnswer) × Store
  | [] => ([], store)
  | first :: rest =>
    let (answer, next) := store.call first
    let (answers, last) := next.callAll rest
    (answer :: answers, last)

theorem callAll_append (store : Store) (a b : List StoreCall) :
    store.callAll (a ++ b) =
      ((store.callAll a).1 ++ ((store.callAll a).2.callAll b).1,
        ((store.callAll a).2.callAll b).2) := by
  induction a generalizing store with
  | nil => rfl
  | cons first rest ih => simp only [List.cons_append, callAll, ih]

/-- Nothing went wrong with files. -/
def Smooth (answers : List (Except Fault StoreAnswer)) : Prop :=
  ∀ answer ∈ answers, ∀ cause, answer ≠ .error (.io cause)

/-! ## The simulation -/

/-- A store keeps a document. -/
structure Keeps (store : Store) (doc : Document) : Prop where
  document : store.document = .ok doc
  grounded : store.Grounded

end Store

/-- The answer to a call by a store that keeps a document. -/
def StoreCall.answer (doc : Document) : StoreCall → StoreAnswer
  | catalog => .catalog doc.catalog
  | layers => .layers doc.layers
  | volumes => .volumes doc.volumes
  | save _ _ => .saved

/-- The document that is kept after a call. -/
def StoreCall.after (doc : Document) : StoreCall → Document
  | save key rows => doc.replaceResource key rows
  | _ => doc

namespace Store

variable {store : Store} {doc : Document}

theorem keeps_memory (doc : Document) : (memory doc).Keeps doc := ⟨rfl, trivial⟩

theorem Keeps.save (h : store.Keeps doc) (key : ResourceKey) (rows : Rows) :
    (∃ next, store.save key rows = .ok next ∧ next.Keeps (doc.replaceResource key rows)) ∨
      ∃ cause, store.save key rows = .error (.io cause) := by
  cases hsave : store.save key rows with
  | ok next =>
    obtain ⟨hdocument, hground⟩ := save_document h.grounded h.document hsave
    exact .inl ⟨next, rfl, hdocument, hground⟩
  | error fault =>
    cases store with
    | memory _ => cases hsave
    | file path files =>
      have hread : readFile files path = .ok doc := h.document
      simp only [Store.save, hread] at hsave
      split at hsave <;> cases hsave
      exact .inr ⟨_, rfl⟩

/-- What a store answers follows from the document that it keeps, unless something goes wrong with
files. -/
theorem Keeps.call (h : store.Keeps doc) (c : StoreCall) :
    ((store.call c).1 = .ok (c.answer doc) ∧ (store.call c).2.Keeps (c.after doc)) ∨
      ∃ cause, (store.call c).1 = .error (.io cause) := by
  cases c with
  | catalog | layers | volumes => exact .inl ⟨by simp only [Store.call, h.document]; rfl, h⟩
  | save key rows =>
    rcases h.save key rows with ⟨next, hsave, hnext⟩ | ⟨cause, hsave⟩
    · refine .inl ?_
      simp only [Store.call, hsave]
      exact ⟨rfl, hnext⟩
    · exact .inr ⟨cause, by simp only [Store.call, hsave]⟩

theorem smooth_cons {answer : Except Fault StoreAnswer} {answers : List (Except Fault StoreAnswer)} :
    Smooth (answer :: answers) ↔ (∀ cause, answer ≠ .error (.io cause)) ∧ Smooth answers :=
  List.forall_mem_cons

/-- Two stores that keep one document give the same answers, and keep one document again, as long as
nothing goes wrong with files. -/
theorem Keeps.callAll {calls : List StoreCall} : ∀ {store other : Store} {doc : Document},
    store.Keeps doc → other.Keeps doc → Smooth (store.callAll calls).1 →
    Smooth (other.callAll calls).1 →
    (store.callAll calls).1 = (other.callAll calls).1 ∧
      ∃ last, (store.callAll calls).2.Keeps last ∧ (other.callAll calls).2.Keeps last := by
  induction calls with
  | nil => exact fun h h' _ _ => ⟨rfl, _, h, h'⟩
  | cons first rest ih =>
    intro store other doc h h' hsmooth hsmooth'
    obtain ⟨hfirst, hrest⟩ := smooth_cons.1 hsmooth
    obtain ⟨hfirst', hrest'⟩ := smooth_cons.1 hsmooth'
    rcases h.call first with ⟨hanswer, hnext⟩ | ⟨cause, hfault⟩
    · rcases h'.call first with ⟨hanswer', hnext'⟩ | ⟨cause, hfault⟩
      · obtain ⟨hsame, hlast⟩ := ih hnext hnext' hrest hrest'
        exact ⟨by simp only [Store.callAll, hanswer, hanswer', hsame], hlast⟩
      · exact absurd hfault (hfirst' cause)
    · exact absurd hfault (hfirst cause)

end Store

/-! ## The file beside -/

namespace FileTree

variable {tree next : FileTree} {path text : String}

/-- Nothing is left where something was moved from, unless that lies where it was moved to. -/
theorem entry?_move_source {source target : Place} (hsource : source ≠ [])
    (hbelow : ¬ target <+: source) : FileTree.entry? (tree.move source target) source = none := by
  rw [entry?_of_ne_nil _ hsource]
  simp only [move, SortedMap.get?_ofList]
  refine Option.map_eq_none_iff.2 (List.getLast?_eq_none_iff.2 (List.filter_eq_nil_iff.2 ?_))
  rintro ⟨place, entry⟩ hmem hplace
  obtain rfl : place = source := of_decide_eq_true hplace
  obtain ⟨other, -, -, hmoved⟩ := mem_moved.1 hmem
  by_cases hwithin : place <+: other
  · rw [movedTo, if_pos (by rwa [List.isPrefixOf_iff_prefix])] at hmoved
    exact hbelow ⟨_, hmoved⟩
  · rw [movedTo_of_not_isPrefixOf hwithin] at hmoved
    exact hwithin (hmoved ▸ List.prefix_refl _)

/-- Nothing that is no directory stands on the way to a place that can be walked. -/
theorem Walkable.outside {place barrier : Place} (h : tree.Walkable place)
    (hbarrier : tree.entry? barrier ≠ some .dir) : ¬ barrier <+: place :=
  fun hwithin => hbarrier (of_decide_eq_true (h barrier hwithin))

theorem Walkable.place_outside {e : PathEnd} {barrier : Place} (h : tree.Walkable e.dir)
    (hbarrier : tree.entry? barrier ≠ some .dir) (hne : barrier ≠ e.place) :
    ¬ barrier <+: e.place := by
  intro hwithin
  rcases List.prefix_concat_iff.1 hwithin with hsame | hdir
  · exact hne hsame
  · exact h.outside hbarrier hdir

theorem find_of_entry?_none {e : PathEnd} (hresolve : tree.resolve path = .ok e)
    (hnamed : e.isNamed = true) (hname : ¬ maxName < e.last.utf8ByteSize)
    (hentry : tree.entry? e.place = none) : tree.find path = .error .notFound := by
  have hchild : tree.entry? (e.dir ++ [e.last]) = none := hentry
  simp [find, child, hresolve, hnamed, hname, hchild]

/-- When a text took the place of a file by way of a path with another extension, nothing is left
there. -/
theorem find_beside {written : FileTree} {extension : String} (hdot : '.' ∈ extension.toList)
    (hplain : '/' ∉ extension.toList) (hhome : tree.Walkable tree.home)
    (hwrite : tree.write (Path.replaceExtension extension path) text = .ok written)
    (hrename : written.rename (Path.replaceExtension extension path) path = .ok next) :
    next.find (Path.replaceExtension extension path) = .error .notFound := by
  obtain ⟨e, hresolve, hnamed, hslash, hname, hfree, rfl⟩ := write_eq_ok hwrite
  let written : FileTree := { tree with entries := tree.entries.insert e.place (.file text) }
  have hinsert : ∀ place, tree.Walkable place → written.Walkable place :=
    fun place hwalk => hwalk.insert (place_ne_nil e) hfree
  have hfile : written.entry? e.place = some (.file text) := by
    rw [entry?_insert _ _ _ _ (place_ne_nil e), if_pos rfl]
  obtain ⟨s, t, hsource, htarget, hend⟩ := rename_eq_ok hrename
  obtain ⟨hbeside, hdir⟩ := resolve_keeps hinsert rfl hhome hresolve
  obtain rfl : e = s := Except.ok.inj (hbeside.symm.trans hsource)
  obtain ⟨htnamed, htslash, -, hmoved⟩ := renameEnd_eq_ok hfile hend
  have hlast := last_ne_of_replaceExtension hdot hplain htarget htnamed htslash hresolve hnamed hslash
  rcases hmoved with ⟨hsame, -⟩ | ⟨hne, htfree, rfl⟩
  · exact absurd (List.append_inj_right' hsame rfl) (by simpa using hlast)
  · have hmove : ∀ place, written.Walkable place → (written.move e.place t.place).Walkable place :=
      fun place hwalk => hwalk.move (by rw [hfile]; nofun) htfree
    have hpath := (resolve_keeps hmove rfl (hinsert _ hhome) hbeside).1
    refine find_of_entry?_none hpath hnamed hname (entry?_move_source (place_ne_nil e) ?_)
    exact (hinsert _ hdir).place_outside htfree (fun h => hne h.symm)

/-! ## Saves that succeed -/

/-- A path leads to a name for a file, which is not too long and has no slash behind it. -/
structure LeadsTo (tree : FileTree) (path : String) (e : PathEnd) : Prop where
  resolve : tree.resolve path = .ok e
  named : e.isNamed = true
  slash : e.slash = false
  short : ¬ maxName < e.last.utf8ByteSize

theorem LeadsTo.child {e : PathEnd} (h : tree.LeadsTo path e) :
    tree.child e.dir e.last = .ok (tree.entry? e.place) := if_neg h.short

theorem LeadsTo.keeps {other : FileTree} {e : PathEnd} (h : tree.LeadsTo path e)
    (hkeep : ∀ place, tree.Walkable place → other.Walkable place) (hhome : other.home = tree.home)
    (hwalk : tree.Walkable tree.home) : other.LeadsTo path e ∧ tree.Walkable e.dir :=
  have hresolve := resolve_keeps hkeep hhome hwalk h.resolve
  ⟨⟨hresolve.1, h.named, h.slash, h.short⟩, hresolve.2⟩

theorem LeadsTo.zeroByte {e : PathEnd} (h : tree.LeadsTo path e) : hasZeroByte path = false := by
  have hresolve := h.resolve
  unfold FileTree.resolve at hresolve
  split at hresolve
  · cases hresolve
  · rename_i hzero
    simpa using hzero

theorem read_eq_ok (h : tree.read path = .ok text) :
    ∃ t, tree.LeadsTo path t ∧ tree.entry? t.place = some (.file text) := by
  unfold read at h
  split at h
  · cases h
  · rename_i hfind
    cases h
    unfold find at hfind
    split at hfind
    · cases hfind
    rename_i t hresolve
    split at hfind
    · cases hfind
    rename_i hnamed
    unfold FileTree.child at hfind
    by_cases hname : maxName < t.last.utf8ByteSize
    · rw [if_pos hname] at hfind
      cases hfind
    rw [if_neg hname] at hfind
    cases hentry : tree.entry? (t.dir ++ [t.last]) with
    | none => rw [hentry] at hfind; cases hfind
    | some entry =>
      rw [hentry] at hfind
      cases entry with
      | dir => cases hfind
      | file old =>
        dsimp only at hfind
        split at hfind
        · cases hfind
        · rename_i hslash
          cases hfind
          exact ⟨t, ⟨hresolve, by simpa using hnamed, by simpa using hslash, hname⟩, hentry⟩
  · cases h

theorem write_of_leadsTo {e : PathEnd} (h : tree.LeadsTo path e)
    (hfree : tree.entry? e.place ≠ some .dir) (text : String) :
    tree.write path text =
      .ok { tree with entries := tree.entries.insert e.place (.file text) } := by
  simp only [write, h.resolve, h.named, h.slash, h.child, Bool.not_true, Bool.or_self,
    Bool.false_eq_true, if_false]

theorem rename_of_leadsTo {source : String} {s t : PathEnd} (hs : tree.LeadsTo source s)
    (ht : tree.LeadsTo path t) (hfile : tree.entry? s.place = some (.file text))
    (hfree : tree.entry? t.place ≠ some .dir) (hne : s.place ≠ t.place)
    (hsource : ¬ s.place <+: t.dir) (htarget : ¬ t.place <+: s.dir) :
    tree.rename source path = .ok (tree.move s.place t.place) := by
  rw [← List.isPrefixOf_iff_prefix, Bool.not_eq_true] at hsource htarget
  simp only [rename, hs.zeroByte, ht.zeroByte, hs.resolve, ht.resolve, renameEnd, hs.named, ht.named,
    hs.child, ht.child, hfile, hs.slash, ht.slash, hsource, htarget, hne, Bool.not_true, Bool.or_self,
    Bool.and_false, Bool.false_eq_true, if_false]
  cases hentry : tree.entry? t.place with
  | none => rfl
  | some entry =>
    cases entry with
    | dir => exact absurd hentry hfree
    | file old => rfl

/-- A file stands at the end of a path, and at the end of another one a file can be put. -/
structure Ready (tree : FileTree) (beside path : String) (e t : PathEnd) : Prop where
  home : tree.Walkable tree.home
  source : tree.LeadsTo beside e
  target : tree.LeadsTo path t
  apart : e.place ≠ t.place
  free : tree.entry? e.place ≠ some .dir
  taken : ∃ text, tree.entry? t.place = some (.file text)

theorem ready_of_read {extension tried : String} (hdot : '.' ∈ extension.toList)
    (hplain : '/' ∉ extension.toList) (hhome : tree.Walkable tree.home)
    (hread : tree.read path = .ok text)
    (hwrite : tree.write (Path.replaceExtension extension path) tried = .ok next) :
    ∃ e t, tree.Ready (Path.replaceExtension extension path) path e t := by
  obtain ⟨t, ht, htaken⟩ := read_eq_ok hread
  obtain ⟨e, hresolve, hnamed, hslash, hname, hfree, -⟩ := write_eq_ok hwrite
  have hlast := last_ne_of_replaceExtension hdot hplain ht.resolve ht.named ht.slash hresolve hnamed
    hslash
  exact ⟨e, t, hhome, ⟨hresolve, hnamed, hslash, hname⟩, ht,
    fun hsame => hlast (by simpa using List.append_inj_right' hsame rfl), hfree, text, htaken⟩

/-- A text can take the place of the file, and another one after it. -/
theorem Ready.replace {beside : String} {e t : PathEnd} (h : tree.Ready beside path e t)
    (text : String) : ∃ written next, tree.write beside text = .ok written ∧
      written.rename beside path = .ok next ∧ next.Ready beside path e t := by
  obtain ⟨old, htaken⟩ := h.taken
  let written : FileTree := { tree with entries := tree.entries.insert e.place (.file text) }
  have hinsert : ∀ place, tree.Walkable place → written.Walkable place :=
    fun place hwalk => hwalk.insert (place_ne_nil e) h.free
  have hfile : written.entry? e.place = some (.file text) := by
    rw [entry?_insert _ _ _ _ (place_ne_nil e), if_pos rfl]
  have hthere : written.entry? t.place = some (.file old) := by
    rw [entry?_insert _ _ _ _ (place_ne_nil e), if_neg (fun hsame => h.apart hsame.symm), htaken]
  have htfree : written.entry? t.place ≠ some .dir := by rw [hthere]; nofun
  have hefree : written.entry? e.place ≠ some .dir := by rw [hfile]; nofun
  obtain ⟨hsource, hdir⟩ := h.source.keeps hinsert rfl h.home
  obtain ⟨htarget, htdir⟩ := h.target.keeps hinsert rfl h.home
  have hrename := rename_of_leadsTo hsource htarget hfile htfree h.apart
    ((hinsert _ htdir).outside hefree) ((hinsert _ hdir).outside htfree)
  have hmove : ∀ place, written.Walkable place → (written.move e.place t.place).Walkable place :=
    fun place hwalk => hwalk.move hefree htfree
  have hnone : FileTree.entry? (written.move e.place t.place) e.place = none :=
    entry?_move_source (place_ne_nil e)
      ((hinsert _ hdir).place_outside htfree (fun hsame => h.apart hsame.symm))
  exact ⟨written, _, write_of_leadsTo h.source h.free text, hrename, hmove _ (hinsert _ h.home),
    (hsource.keeps hmove rfl (hinsert _ h.home)).1, (htarget.keeps hmove rfl (hinsert _ h.home)).1,
    h.apart, by rw [hnone]; nofun,
    text, entry?_move_target (place_ne_nil e) (place_ne_nil t) h.apart hfile⟩

end FileTree

namespace Store

variable {store : Store} {doc : Document}

/-- After a save in a file, nothing is left beside it. -/
theorem find_beside_saved {path : String} {files : FileTree} {key : ResourceKey} {rows : Rows}
    {next : Store} (hground : files.Walkable files.home)
    (hsave : (file path files).save key rows = .ok next) :
    ∃ left, next = file path left ∧
      left.find (Path.replaceExtension "json.tmp" path) = .error .notFound := by
  simp only [save] at hsave
  split at hsave
  · cases hsave
  split at hsave
  · cases hsave
  rename_i left hreplace
  cases hsave
  refine ⟨left, rfl, ?_⟩
  unfold replaceFile at hreplace
  dsimp only at hreplace
  split at hreplace
  · cases hreplace
  rename_i written hwrite
  exact FileTree.find_beside (by decide) (by decide) hground hwrite hreplace

theorem save_replaced {path : String} {files written left : FileTree} {key : ResourceKey}
    {rows : Rows} (hread : readFile files path = .ok doc)
    (hwrite : files.write (Path.replaceExtension "json.tmp" path)
      (doc.replaceResource key rows).toJson.pretty = .ok written)
    (hrename : written.rename (Path.replaceExtension "json.tmp" path) path = .ok left) :
    (file path files).save key rows = .ok (file path left) := by
  have hreplace : replaceFile files path (doc.replaceResource key rows) = .ok left := by
    unfold replaceFile
    dsimp only
    rw [hwrite]
    exact hrename
  simp only [save, hread, hreplace]

/-- Rows can be saved in a store, again and again: it is in memory, or a text can take the place of
its file by way of the file beside it. -/
def Saves : Store → Prop
  | memory _ => True
  | file path files => ∃ e t, files.Ready (Path.replaceExtension "json.tmp" path) path e t

theorem Saves.save (h : store.Saves) (hdoc : store.document = .ok doc) (key : ResourceKey)
    (rows : Rows) : ∃ next, store.save key rows = .ok next ∧ next.Saves := by
  cases store with
  | memory kept => exact ⟨_, rfl, trivial⟩
  | file path files =>
    obtain ⟨e, t, hready⟩ := h
    obtain ⟨written, left, hwrite, hrename, hleft⟩ :=
      hready.replace (doc.replaceResource key rows).toJson.pretty
    exact ⟨_, save_replaced hdoc hwrite hrename, e, t, hleft⟩

theorem Saves.of_save {next : Store} {key : ResourceKey} {rows : Rows} (h : store.Saves)
    (hsave : store.save key rows = .ok next) : next.Saves := by
  have hread : ∃ doc, store.document = .ok doc := by
    cases store with
    | memory kept => exact ⟨kept, rfl⟩
    | file path files =>
      simp only [Store.save] at hsave
      split at hsave
      · cases hsave
      · rename_i kept hkept
        exact ⟨kept, hkept⟩
  obtain ⟨doc, hdoc⟩ := hread
  obtain ⟨other, hother, hsaves⟩ := h.save hdoc key rows
  obtain rfl : other = next := Except.ok.inj (hother.symm.trans hsave)
  exact hsaves

theorem Saves.grounded (h : store.Saves) : store.Grounded := by
  cases store with
  | memory kept => trivial
  | file path files =>
    obtain ⟨e, t, hready⟩ := h
    exact hready.home

/-- Nothing goes wrong with files as long as rows can be saved. -/
theorem smooth_saves {calls : List StoreCall} : ∀ {store : Store} {doc : Document},
    store.Keeps doc → store.Saves → Smooth (store.callAll calls).1 := by
  induction calls with
  | nil => exact fun _ _ _ h => nomatch h
  | cons first rest ih =>
    intro store doc h hsaves
    cases first with
    | catalog | layers | volumes =>
      refine smooth_cons.2 ⟨fun cause hfault => ?_, ih h hsaves⟩
      rw [h.document] at hfault
      cases hfault
    | save key rows =>
      obtain ⟨next, hsave, hnext⟩ := hsaves.save h.document key rows
      obtain ⟨hdocument, hground⟩ := save_document h.grounded h.document hsave
      simp only [Store.callAll, Store.call, hsave]
      exact smooth_cons.2 ⟨fun cause hfault => (nomatch hfault), ih ⟨hdocument, hground⟩ hnext⟩

theorem path_call (path : String) (files : FileTree) (c : StoreCall) :
    ∃ left, ((file path files).call c).2 = file path left := by
  cases c with
  | catalog | layers | volumes => exact ⟨files, rfl⟩
  | save key rows =>
    simp only [Store.call]
    cases hsave : (file path files).save key rows with
    | error fault => exact ⟨files, rfl⟩
    | ok next =>
      simp only [save] at hsave
      repeat' split at hsave
      all_goals cases hsave
      exact ⟨_, rfl⟩

theorem path_callAll (path : String) (calls : List StoreCall) : ∀ files : FileTree,
    ∃ left, ((file path files).callAll calls).2 = file path left := by
  induction calls with
  | nil => exact fun files => ⟨files, rfl⟩
  | cons first rest ih =>
    intro files
    obtain ⟨left, hleft⟩ := path_call path files first
    simp only [Store.callAll, hleft]
    exact ih left

/-- In a run of calls in which nothing goes wrong with files, no save leaves a file beside. -/
theorem Keeps.find_beside_callAll {path : String} {files : FileTree}
    (h : (file path files).Keeps doc) {calls earlier : List StoreCall} {key : ResourceKey}
    {rows : Rows} (hsmooth : Smooth ((file path files).callAll calls).1)
    (hwithin : earlier ++ [.save key rows] <+: calls) :
    ∃ left, ((file path files).callAll (earlier ++ [.save key rows])).2 = file path left ∧
      left.find (Path.replaceExtension "json.tmp" path) = .error .notFound := by
  obtain ⟨later, rfl⟩ := hwithin
  rw [callAll_append, callAll_append] at hsmooth
  have hearlier : Smooth ((file path files).callAll earlier).1 := fun answer hanswer =>
    hsmooth answer (List.mem_append_left _ (List.mem_append_left _ hanswer))
  obtain ⟨-, last, hlast, -⟩ := h.callAll h hearlier hearlier
  obtain ⟨middle, hmiddle⟩ := path_callAll path earlier files
  rw [callAll_append]
  rw [hmiddle] at hlast hsmooth ⊢
  rcases hlast.save key rows with ⟨next, hsave, -⟩ | ⟨cause, hsave⟩
  · obtain ⟨left, rfl, hfind⟩ := find_beside_saved hlast.grounded hsave
    simp only [Store.callAll, Store.call, hsave]
    exact ⟨left, rfl, hfind⟩
  · refine absurd rfl (hsmooth (.error (.io cause)) ?_ cause)
    refine List.mem_append_left _ (List.mem_append_right _ ?_)
    simp only [Store.callAll, Store.call, hsave]
    exact List.mem_cons_self

/-- A store in a file that holds the document as JSON, in either printed form, answers any calls as a
store in memory with the document does, as long as nothing goes wrong with files, and leaves no file
beside it after a save; nothing goes wrong if the file beside it can be written at the start. -/
theorem file_as_memory {path text : String} {files : FileTree} {doc : Document}
    (hground : files.Walkable files.home) (hread : files.read path = .ok text)
    (htext : text = doc.toJson.compact ∨ text = doc.toJson.pretty) (calls : List StoreCall) :
    (Smooth ((file path files).callAll calls).1 →
      ((file path files).callAll calls).1 = ((memory doc).callAll calls).1 ∧
      ((file path files).callAll calls).2.document = ((memory doc).callAll calls).2.document ∧
      ∀ earlier key rows, earlier ++ [.save key rows] <+: calls →
        ∃ left, ((file path files).callAll (earlier ++ [.save key rows])).2 = file path left ∧
          left.find (Path.replaceExtension "json.tmp" path) = .error .notFound) ∧
    ((∃ tried, files.write (Path.replaceExtension "json.tmp" path) "" = .ok tried) →
      Smooth ((file path files).callAll calls).1) := by
  have hkeeps : (file path files).Keeps doc := by
    refine ⟨?_, hground⟩
    have hparse : parseDocument text = .ok doc := by
      rcases htext with rfl | rfl
      · rw [parseDocument, doc.parse_compact]
      · exact parseDocument_pretty doc
    show readFile files path = _
    simp only [readFile, hread, hparse]
  refine ⟨fun hsmooth => ?_, fun hwrite => ?_⟩
  · obtain ⟨hsame, last, hlast, hlast'⟩ :=
      hkeeps.callAll (keeps_memory doc) hsmooth (smooth_saves (keeps_memory doc) trivial)
    refine ⟨hsame, hlast.document.trans hlast'.document.symm, fun earlier key rows hwithin => ?_⟩
    exact hkeeps.find_beside_callAll hsmooth hwithin
  · obtain ⟨tried, hwrite⟩ := hwrite
    exact smooth_saves hkeeps
      (FileTree.ready_of_read (by decide) (by decide) hground hread hwrite)

/-- The document of the two layers in a file, without blanks. -/
def pairFiles : FileTree where
  entries := .ofList [(["s"], .file Resource.pairDocument.toJson.compact)]

/-- The rows of the two layers are read, dropped, and read again. -/
def pairCalls : List StoreCall :=
  [.layers, .save Resource.pairKey { layers := [], volumes := [] }, .volumes]

/-- The file answers as the memory does, and after the save nothing is left beside it. -/
theorem file_as_memory_pair :
    pairFiles.Walkable pairFiles.home ∧
      pairFiles.read "/s" = .ok Resource.pairDocument.toJson.compact ∧
      ((file "/s" pairFiles).callAll pairCalls).1 =
        [.ok (.layers Resource.pairDocument.layers), .ok .saved, .ok (.volumes [])] ∧
      ∃ left, ((file "/s" pairFiles).callAll ([.layers] ++
          [.save Resource.pairKey { layers := [], volumes := [] }])).2 = file "/s" left ∧
        left.find (Path.replaceExtension "json.tmp" "/s") = .error .notFound := by
  have hground : pairFiles.Walkable pairFiles.home := FileTree.walkable_nil pairFiles
  have hread : pairFiles.read "/s" = .ok Resource.pairDocument.toJson.compact := by
    have hresolve : ∀ tree : FileTree, tree.resolve "/s" = .ok ⟨[], "s", false⟩ := fun _ => rfl
    exact FileTree.read_file (hresolve _) (by decide) rfl (by decide) rfl
  have hwrite : ∃ tried, pairFiles.write (Path.replaceExtension "json.tmp" "/s") "" = .ok tried := by
    have hbeside : Path.replaceExtension "json.tmp" "/s" = "/s.json.tmp" := by decide
    have hresolve : ∀ tree : FileTree, tree.resolve "/s.json.tmp" = .ok ⟨[], "s.json.tmp", false⟩ :=
      fun _ => rfl
    rw [hbeside]
    exact ⟨_, FileTree.write_of_leadsTo ⟨hresolve _, by decide, rfl, by decide⟩ (by decide) ""⟩
  obtain ⟨halike, hsmooth⟩ := file_as_memory hground hread (.inl rfl) pairCalls
  obtain ⟨hanswers, -, hbeside⟩ := halike (hsmooth hwrite)
  exact ⟨hground, hread, hanswers.trans (by decide), hbeside [.layers] _ _ ⟨[.volumes], rfl⟩⟩

end Store
end BlockStack
