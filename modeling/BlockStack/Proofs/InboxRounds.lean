import BlockStack.Proofs.InboxNames
import BlockStack.Proofs.OrderIndependence

/-!
# BlockStack.Proofs.InboxRounds

Rounds of an inbox take each report in once, as long as no new name is in the way.

* `Box.Onto`: the invariant. Some files have new names, and nothing else in the directory changes.
* `Box.Onto.setEnding`: preservation, with what is left of other files.
* `Service.sortOut_ok`, `Service.handleAll_files`, `Service.finish_ok`: the parts of a round.
  `Service.handleAll_saves`: reports change the store only by saving rows.
* `Service.TakesAll`: the batch of a round. `TakesAll.told_eq`: what it tells, if rows can be saved and
  the backend is steady.
* `Service.rounds_take_once`: the first round takes everything in, and all later ones nothing.
* `Service.loadedFrom`: a service that has loaded two resources from a file, for rounds on fixed files.
-/

namespace BlockStack
namespace Inbox
namespace Box

variable {box : Box} {files now : FileTree} {moves : List (String × String)} {name ending : String}

/-- Waiting files got new names. -/
structure Moves (box : Box) (files : FileTree) (moves : List (String × String)) : Prop where
  nodup : (moves.map (·.1)).Nodup
  target : ∀ move ∈ moves, box.Waits files move.1 ∧
    ∃ ending ∈ endings, move.2 = Inbox.target ending move.1

/-! ## New endings -/

/-- Some waiting files got new names, and nothing else has happened in the directory. -/
structure Onto (box : Box) (files : FileTree) (moves : List (String × String)) (now : FileTree) :
    Prop where
  shift : FileTree.Shift box.place moves files now
  moves : box.Moves files moves

/-- Some waiting files have no new names yet. -/
def Left (box : Box) (files : FileTree) (moves : List (String × String)) (names : List String) :
    Prop :=
  ∀ name ∈ names, box.Waits files name ∧ name ∉ moves.map (·.1)

theorem Left.cons {names : List String} (h : box.Left files moves (name :: names)) :
    (box.Waits files name ∧ name ∉ moves.map (·.1)) ∧ box.Left files moves names :=
  List.forall_mem_cons.1 h

theorem Left.next {names : List String} (h : box.Left files moves names) (hother : name ∉ names)
    (new : String) : box.Left files (moves ++ [(name, new)]) names := by
  intro other hmem
  obtain ⟨hwaits, hnot⟩ := h other hmem
  refine ⟨hwaits, ?_⟩
  simp only [List.map_append, List.map_singleton, List.mem_append, List.mem_singleton, not_or]
  exact ⟨hnot, fun hsame => hother (hsame ▸ hmem)⟩

theorem Onto.start (box : Box) (files : FileTree) : box.Onto files [] files :=
  ⟨.refl box.place files, ⟨List.nodup_nil, nofun⟩⟩

/-- Paths to places elsewhere lead to the same in two trees. -/
def Outside (box : Box) (files now next : FileTree) : Prop :=
  ∀ path e, files.resolve path = .ok e → e.dir ≠ box.place → next.find path = now.find path

/-- What is neither waiting nor the new name of anything stays. -/
theorem Onto.contents_other (hnow : box.Onto files moves now) (hnot : ¬ box.Waits files name)
    (hnew : ∀ other, box.Waits files other → ∀ ending ∈ endings,
      name ≠ Inbox.target ending other) :
    now.contents box.place name = files.contents box.place name := by
  rw [hnow.shift.contents]
  refine FileTree.renamed_other (fun hmem => ?_) fun hmem => ?_
  · obtain ⟨move, hmove, rfl⟩ := List.mem_map.1 hmem
    exact hnot (hnow.moves.target move hmove).1
  · obtain ⟨move, hmove, rfl⟩ := List.mem_map.1 hmem
    obtain ⟨hwaits, ending, hending, heq⟩ := hnow.moves.target move hmove
    exact hnew move.1 hwaits ending hending heq

section

variable (h : box.Orderly files)

include h

/-- A new name is no name for a report. -/
theorem Orderly.not_waits (hmoves : box.Moves files moves) {new : String}
    (hnew : new ∈ moves.map (·.2)) : Glob.accepts box.tokens new.toList = false := by
  obtain ⟨move, hmove, rfl⟩ := List.mem_map.1 hnew
  obtain ⟨hwaits, ending, hending, heq⟩ := hmoves.target move hmove
  rw [heq]
  exact (h.target move.1 hwaits ending hending).2.2

theorem Orderly.source_ne (hmoves : box.Moves files moves) (hwaits : box.Waits files name) :
    name ∉ moves.map (·.2) := by
  intro hmem
  have hnot := h.not_waits hmoves hmem
  rw [hwaits.1] at hnot
  cases hnot

theorem Orderly.nodup_targets (hmoves : box.Moves files moves) : (moves.map (·.2)).Nodup := by
  refine List.Nodup.map_on (fun a ha b hb hsame => ?_) (hmoves.nodup.of_map _)
  obtain ⟨hawaits, ending, hending, haeq⟩ := hmoves.target a ha
  obtain ⟨hbwaits, ending', hending', hbeq⟩ := hmoves.target b hb
  have hname := h.apart a.1 b.1 hawaits hbwaits ending hending ending' hending'
    (haeq.symm.trans (hsame.trans hbeq))
  exact List.inj_on_of_nodup_map hmoves.nodup ha hb hname

variable (hnow : box.Onto files moves now)

include hnow

/-- A file that got no new name yet is as it was. -/
theorem Onto.contents_waiting (hwaits : box.Waits files name) (hnew : name ∉ moves.map (·.1)) :
    now.contents box.place name = files.contents box.place name := by
  rw [hnow.shift.contents]
  exact FileTree.renamed_other hnew (h.source_ne hnow.moves hwaits)

/-- Files are found by their new names. -/
theorem Onto.contents_new {new : String} (hmove : (name, new) ∈ moves) :
    now.contents box.place new = files.contents box.place name ∧
      now.contents box.place name = none := by
  rw [hnow.shift.contents]
  refine FileTree.renamed_all hnow.moves.nodup (h.nodup_targets hnow.moves)
    (fun other hother => ?_) (name, new) hmove
  obtain ⟨move, hmove, rfl⟩ := List.mem_map.1 hother
  exact h.source_ne hnow.moves (hnow.moves.target move hmove).1

theorem Onto.find_dir : now.find box.dir = .ok (box.place, .dir) :=
  hnow.shift.find_dir h.home h.dir

/-- The file of a report that got no new name yet holds the same report. -/
theorem Onto.readReport (hwaits : box.Waits files name) (hnew : name ∉ moves.map (·.1)) :
    Inbox.readReport now (box.path name) = Inbox.readReport files (box.path name) := by
  obtain ⟨text, htext⟩ := h.text name hwaits
  have hleads := (h.source name hwaits).leadsTo h.dir
  have hleads' := (h.source name hwaits).leadsTo (hnow.find_dir h)
  have hcontents := hnow.contents_waiting h hwaits hnew
  rw [htext] at hcontents
  unfold Inbox.readReport
  rw [show files.read (box.path name) = .ok text from FileTree.read_file hleads.resolve hleads.named
      rfl hleads.short htext,
    show now.read (box.path name) = .ok text from FileTree.read_file hleads'.resolve hleads'.named
      rfl hleads'.short hcontents]

/-- A waiting file gets a new ending, and everything else stays. -/
theorem Onto.setEnding (hwaits : box.Waits files name) (hnew : name ∉ moves.map (·.1))
    (hending : ending ∈ endings) :
    ∃ next, Inbox.setEnding now ending (box.path name) = .ok next ∧
      box.Onto files (moves ++ [(name, target ending name)]) next ∧ box.Outside files now next := by
  obtain ⟨text, htext⟩ := h.text name hwaits
  obtain ⟨henters, hnodir, hnot⟩ := h.target name hwaits ending hending
  have hsource := h.source name hwaits
  have hfile : now.contents box.place name = some (.file text) :=
    (hnow.contents_waiting h hwaits hnew).trans htext
  have hne : name ≠ target ending name := by
    intro hsame
    rw [← hsame, hwaits.1] at hnot
    cases hnot
  -- the new name is that of no other file, so it is as free as at the start
  have hfree : now.contents box.place (target ending name) ≠ some .dir := by
    rw [hnow.shift.contents, FileTree.renamed_other]
    · exact hnodir
    · intro hmem
      obtain ⟨move, hmove, heq⟩ := List.mem_map.1 hmem
      have haccepts := (hnow.moves.target move hmove).1.1
      rw [heq, hnot] at haccepts
      cases haccepts
    · intro hmem
      obtain ⟨move, hmove, heq⟩ := List.mem_map.1 hmem
      obtain ⟨hmoved, ending', hending', heq'⟩ := hnow.moves.target move hmove
      have hname := h.apart move.1 name hmoved hwaits ending' hending' ending hending
        (heq'.symm.trans heq)
      exact hnew (hname ▸ List.mem_map_of_mem hmove)
  have hset := setEnding_inside (hnow.find_dir h) hsource henters hfile hfree hne
  have hshift := FileTree.shift_move hfile hfree hne
  have hhome : now.Walkable now.home :=
    (hnow.shift.walkable _).1 (hnow.shift.home ▸ h.home)
  refine ⟨_, hset, ⟨hnow.shift.trans hshift, ?_, fun move hmove => ?_⟩, fun path e hresolve hdir => ?_⟩
  · rw [List.map_append, List.map_singleton]
    exact hnow.moves.nodup.append (List.nodup_singleton _)
      (List.disjoint_singleton.2 hnew)
  · rcases List.mem_append.1 hmove with hold | hlast
    · exact hnow.moves.target move hold
    · obtain rfl := List.mem_singleton.1 hlast
      exact ⟨hwaits, ending, hending, by dsimp only⟩
  · exact FileTree.find_move hfile hfree hne hhome ((hnow.shift.resolve_iff h.home).1 hresolve) hdir

end

/-- Once the files without reports are put aside, those with reports are left. -/
theorem left_found (hdir : files.find box.dir = .ok (box.place, .dir)) :
    box.Left files (((box.names files).filter (fun name => (box.report? files name).isNone)).map
      (fun name => (name, target failed name))) ((box.found files).map (·.1)) := by
  intro name hname
  rw [found_names] at hname
  obtain ⟨hmem, hsome⟩ := List.mem_filter.1 hname
  refine ⟨(mem_names hdir).1 hmem, fun hput => ?_⟩
  obtain ⟨move, hmove, rfl⟩ := List.mem_map.1 hput
  obtain ⟨other, hother, rfl⟩ := List.mem_map.1 hmove
  rw [Option.isSome_iff_ne_none] at hsome
  exact hsome (Option.isNone_iff_eq_none.1 (List.mem_filter.1 hother).2)

/-- The new names of the files without reports, and of those that were dealt with. -/
def allMoves (box : Box) (files : FileTree) (told : List (Except Fault MergeSummary)) :
    List (String × String) :=
  ((box.names files).filter (fun name => (box.report? files name).isNone)).map
      (fun name => (name, target failed name)) ++
    (((box.found files).map (·.1)).zip told).map (fun e => (e.1, target (endingFor e.2) e.1))

/-- The waiting files have new names that tell how they were dealt with, with all that was in them;
nothing waits any more, and everything else in the directory is as it was. -/
structure Cleared (box : Box) (files : FileTree) (told : List (Except Fault MergeSummary))
    (left : FileTree) : Prop where
  settled : ∀ (i : Nat) (name : String) (report : Report) (result : Except Fault MergeSummary),
    (box.found files)[i]? = some (name, report) → told[i]? = some result →
    left.contents box.place (Inbox.target (endingFor result) name) = files.contents box.place name
  unreadable : ∀ name, box.Waits files name → box.report? files name = none →
    left.contents box.place (Inbox.target failed name) = files.contents box.place name
  gone : ∀ name, ¬ box.Waits left name
  others : ∀ name, ¬ box.Waits files name →
    (∀ other, box.Waits files other → ∀ ending ∈ endings, name ≠ Inbox.target ending other) →
    left.contents box.place name = files.contents box.place name

/-- Nothing waits any more once all waiting files have new names. -/
theorem Onto.cleared {told : List (Except Fault MergeSummary)} {left : FileTree}
    (h : box.Orderly files) (hlength : told.length = (box.found files).length)
    (hleft : box.Onto files (box.allMoves files told) left) : box.Cleared files told left where
  settled i name report result hfound htold := by
    refine (hleft.contents_new h (List.mem_append_right _ (List.mem_map.2
      ⟨(name, result), List.mem_of_getElem? (i := i) ?_, rfl⟩))).1
    rw [List.getElem?_zip_eq_some, List.getElem?_map, hfound, htold]
    exact ⟨rfl, rfl⟩
  unreadable name hwaits hnone := by
    refine (hleft.contents_new h (List.mem_append_left _ (List.mem_map.2 ⟨name, ?_, rfl⟩))).1
    exact List.mem_filter.2 ⟨(mem_names h.dir).2 hwaits, by rw [hnone]; rfl⟩
  gone name hwaits := by
    have hfits : ¬ box.Waits files name → False := fun hnot => by
      refine hwaits.2 ?_
      have hnone : files.contents box.place name = none := by
        by_contra hsome
        exact hnot ⟨hwaits.1, hsome⟩
      rw [hleft.contents_other hnot, hnone]
      intro other hother ending hending hsame
      have hnofit := (h.target other hother ending hending).2.2
      rw [← hsame, hwaits.1] at hnofit
      cases hnofit
    have hwaited : box.Waits files name := by_contra hfits
    have hname := (mem_names h.dir).2 hwaited
    have hmoved : ∃ new, (name, new) ∈ box.allMoves files told := by
      cases hreport : box.report? files name with
      | none =>
        exact ⟨_, List.mem_append_left _ (List.mem_map.2
          ⟨name, List.mem_filter.2 ⟨hname, by rw [hreport]; rfl⟩, rfl⟩)⟩
      | some report =>
        have hfound : name ∈ (box.found files).map (·.1) := by
          rw [found_names]
          exact List.mem_filter.2 ⟨hname, by rw [hreport]; rfl⟩
        obtain ⟨i, hi, hget⟩ := List.mem_iff_getElem.1 hfound
        have hi' : i < told.length := by simpa [hlength] using hi
        refine ⟨_, List.mem_append_right _ (List.mem_map.2 ⟨(name, told[i]), ?_, rfl⟩)⟩
        refine List.mem_of_getElem? (i := i) ?_
        rw [List.getElem?_zip_eq_some]
        exact ⟨by rw [List.getElem?_eq_getElem hi, hget], List.getElem?_eq_getElem hi'⟩
    obtain ⟨new, hmoved⟩ := hmoved
    exact hwaits.2 (hleft.contents_new h hmoved).2
  others name hnot hnew := hleft.contents_other hnot hnew

/-- The document at a path lies outside of an inbox, and so does the file beside it. -/
structure Spares (box : Box) (files : FileTree) (path : String) : Prop where
  document : ∃ e, files.resolve path = .ok e ∧ e.dir ≠ box.place
  beside : files.Avoids box.place (Path.replaceExtension "json.tmp" path)

theorem Spares.avoids {path : String} (h : box.Spares files path) :
    files.Avoids box.place path := by
  obtain ⟨e, hresolve, hdir⟩ := h.document
  intro other hother
  obtain rfl : e = other := Except.ok.inj (hresolve.symm.trans hother)
  exact hdir

/-- Renaming in an inbox leaves a document that lies elsewhere as it is. -/
theorem Outside.document {path : String} {next : FileTree} (h : box.Outside files now next)
    (hspares : box.Spares files path) :
    (Store.file path next).document = (Store.file path now).document := by
  obtain ⟨e, hresolve, hdir⟩ := hspares.document
  simp only [Store.document, Store.readFile, FileTree.read, h path e hresolve hdir]

/-- Rows can be saved in a document that lies elsewhere as before. -/
theorem Onto.saves {path : String} (hnow : box.Onto files moves now)
    (houtside : box.Outside files files now) (hspares : box.Spares files path)
    (hsaves : (Store.file path files).Saves) : (Store.file path now).Saves := by
  obtain ⟨e, t, hready⟩ := hsaves
  obtain ⟨other, hresolve, hdir⟩ := hspares.document
  have hread : now.read path = files.read path := by
    simp only [FileTree.read, houtside path other hresolve hdir]
  exact ⟨e, t, hnow.shift.ready hready hread⟩

end Box
end Inbox

namespace Service

open Inbox

/-! ## A round -/

/-- A batch of some reports, with what it told of them: each report was settled once, and those for
one resource in their order, by the service as it was but for files that do not matter. -/
structure TakesAll (service : Service) (reports : List Report) (pauses : Pauses)
    (told : List (Except Fault MergeSummary)) (after : Service) : Prop where
  length : told.length = reports.length
  taken : ∃ (ready : Service) (order : List Item)
      (results : List (Nat × Except Fault MergeSummary)),
    ready = { service with store := ready.store, log := ready.log } ∧
      ready.store.document = service.store.document ∧
      (service.store.Saves → ready.store.Saves) ∧
      ready.handleAll reports pauses = (told, after) ∧
      Reordered order (itemsOf reports) ∧ ready.TakesIn order results after ∧ InPlace results told

/-- If rows can be saved and the backend is steady, a batch tells of its reports what a view says of
them one by one. -/
theorem TakesAll.told_eq {service after : Service} {reports : List Report} {pauses : Pauses}
    {told : List (Except Fault MergeSummary)} (h : service.TakesAll reports pauses told after)
    {view : View} (hshows : service.Shows view) (hsure : service.Sure)
    (hobjects : view.objects = service.backend.objects) :
    told = (view.run (itemsOf reports)).1.map (·.2) := by
  obtain ⟨ready, -, -, hready, hdocument, hsaves, hbatch, -⟩ := h.taken
  have hnow : ready.Shows view := by
    obtain ⟨doc, hsynced, hview⟩ := hshows.document
    have hkept := hsaves hshows.saves
    rw [hready]
    exact ⟨hkept, hshows.tolerance, hshows.registry, hshows.metrics, doc,
      ⟨hdocument.trans hsynced.document, hkept.grounded, hsynced.consistent, hsynced.loaded,
        hsynced.keys, hsynced.mirrors⟩, hview⟩
  have hbackend : ready.backend = service.backend := by rw [hready]
  have hretry : ready.retry = service.retry := by rw [hready]
  have hsteady : ready.Sure := by
    unfold Sure
    rw [hbackend, hretry]
    exact hsure
  rw [← (hnow.handleAll hsteady (hbackend ▸ hobjects) reports pauses).1, hbatch]

/-- Files that all hold reports stay as they are. -/
theorem sortOut_reports {service : Service} {files : FileTree} {paths : List String}
    {reports : List Report} (hfiles : service.store.files = files)
    (h : List.Forall₂ (fun path report => readReport files path = .ok report) paths reports) :
    service.sortOut paths = (.ok (paths.zip reports), service) := by
  induction h with
  | nil => rfl
  | cons hread _ ih => rw [sortOut, hfiles, hread, ih, List.zip_cons_cons]

/-- A batch does nothing to a store but save rows in it. -/
theorem handleAll_saves {P : Store → Prop} (hsave : ∀ (store next : Store) (key : ResourceKey)
    (rows : Rows), P store → store.save key rows = .ok next → P next) {service : Service}
    (h : P service.store) (reports : List Report) (pauses : Pauses) :
    P (service.handleAll reports pauses).2.store := by
  obtain ⟨order, results, -, htaken, -⟩ := service.handleAll_linear reports pauses
  refine htaken.leads.keeps (P := fun state : Service => P state.store) (fun hmoves hbefore => ?_) h
  cases hmoves with
  | kept hagrees => exact hagrees.store ▸ hbefore
  | refreshed hkeeps => exact hkeeps.store ▸ hbefore
  | applied happlied => exact hsave _ _ _ _ hbefore happlied.saved

/-- A batch renames nothing in an inbox. -/
theorem handleAll_files {box : Box} {files now : FileTree} {path : String} {service : Service}
    {moves : List (String × String)} (hhome : files.Walkable files.home)
    (hdir : files.find box.dir = .ok (box.place, .dir)) (hspares : box.Spares files path)
    (hstore : service.store = .file path now) (hnow : box.Onto files moves now)
    (reports : List Report) (pauses : Pauses) :
    ∃ left, (service.handleAll reports pauses).2.store = .file path left ∧
      box.Onto files moves left := by
  refine handleAll_saves (P := fun store => ∃ left, store = .file path left ∧
    box.Onto files moves left) ?_ ⟨now, hstore, hnow⟩ reports pauses
  rintro store next key rows ⟨left, rfl, honto⟩ hsaved
  have hhome' := (honto.shift.walkable _).1 (honto.shift.home ▸ hhome)
  have hplace := (honto.shift.walkable _).1 (FileTree.walkable_of_find hhome hdir)
  obtain ⟨next, hnext, hshift⟩ := Store.shift_save hhome' hplace
    (honto.shift.avoids hhome hspares.beside) (honto.shift.avoids hhome hspares.avoids) hsaved
  refine ⟨next, hnext, ?_, honto.moves⟩
  have htrans := honto.shift.trans hshift
  rwa [List.append_nil] at htrans

/-- A round whose parts all succeed. -/
theorem takeInbox_eq {service sorted after last : Service} {pattern : String} {paths : List String}
    {found : List (String × Report)} {told : List (Except Fault MergeSummary)} {pauses : Pauses}
    (hpaths : Inbox.paths service.store.files pattern = .ok paths)
    (hsorted : service.sortOut paths = (.ok found, sorted))
    (hbatch : sorted.handleAll (found.map (·.2)) pauses = (told, after))
    (hfinish : after.finish ((found.map (·.1)).zip told) = (.ok (), last)) :
    service.takeInbox pattern pauses = (.ok (told.countP Except.isOk), last) := by
  unfold takeInbox
  rw [hpaths]
  dsimp only
  rw [hsorted]
  dsimp only
  rw [hbatch]
  dsimp only
  rw [hfinish]

theorem setEnding_file {service : Service} {path ending source : String} {now next : FileTree}
    (hstore : service.store = .file path now)
    (hset : Inbox.setEnding now ending source = .ok next) :
    service.setEnding ending source = .ok { service with store := .file path next } := by
  simp only [setEnding, hstore, Store.files, hset, Store.withFiles]

/-- A file gets its new ending, whatever has that name. -/
theorem setEnding_shift (box : Box) (name new ending : String) {service : Service} {now : FileTree}
    {path text : String} (hstore : service.store = .file path now)
    (hdir : now.find box.dir = .ok (box.place, .dir)) (hsource : FileTree.Enters box.dir name)
    (hnew : target ending name = new) (htarget : FileTree.Enters box.dir new)
    (hfile : now.contents box.place name = some (.file text))
    (hfree : now.contents box.place new ≠ some .dir) (hne : name ≠ new) :
    ∃ next, service.setEnding ending (box.path name) =
        .ok { service with store := .file path next } ∧
      FileTree.Shift box.place [(name, new)] now next := by
  subst hnew
  have hset := setEnding_inside hdir hsource htarget hfile hfree hne
  exact ⟨_, setEnding_file hstore hset, FileTree.shift_move hfile hfree hne⟩

section

variable {box : Box} {files : FileTree} {path : String} (h : box.Orderly files)

include h

/-- A waiting file gets a new ending. -/
theorem setEnding_ok {service : Service} {now : FileTree} {moves : List (String × String)}
    {name ending : String} (hstore : service.store = .file path now)
    (hnow : box.Onto files moves now) (hwaits : box.Waits files name)
    (hnew : name ∉ moves.map (·.1)) (hending : ending ∈ endings) :
    ∃ next, service.setEnding ending (box.path name) =
        .ok { service with store := .file path next } ∧
      box.Onto files (moves ++ [(name, target ending name)]) next ∧ box.Outside files now next := by
  obtain ⟨next, hset, hnext⟩ := hnow.setEnding h hwaits hnew hending
  exact ⟨next, setEnding_file hstore hset, hnext⟩

/-- The reports of waiting files are found, and the files without reports are put aside. -/
theorem sortOut_ok {names : List String} : ∀ {service : Service} {now : FileTree}
    {moves : List (String × String)}, service.store = .file path now → box.Onto files moves now →
    names.Nodup → box.Left files moves names →
    ∃ left log, service.sortOut (names.map box.path) =
        (.ok (names.filterMap (fun name => (box.report? files name).map (box.path name, ·))),
          { service with store := .file path left, log }) ∧
      box.Onto files (moves ++ (names.filter (fun name => (box.report? files name).isNone)).map
        (fun name => (name, target failed name))) left ∧ box.Outside files now left := by
  induction names with
  | nil =>
    intro service now moves hstore hnow _ _
    refine ⟨now, service.log, ?_, by simpa using hnow, fun _ _ _ _ => rfl⟩
    rw [← hstore]
    rfl
  | cons name rest ih =>
    intro service now moves hstore hnow hnodup hleft
    obtain ⟨hfirst, hrest⟩ := List.nodup_cons.1 hnodup
    obtain ⟨⟨hwaits, hnew⟩, hothers⟩ := hleft.cons
    have hread := hnow.readReport h hwaits hnew
    have hfiles : service.store.files = now := by rw [hstore]; rfl
    rw [List.map_cons, sortOut, hfiles, hread]
    cases hreport : readReport files (box.path name) with
    | ok report =>
      have hsome : box.report? files name = some report := by rw [Box.report?, hreport]; rfl
      obtain ⟨left, log, hout, honto, houtside⟩ := ih hstore hnow hrest hothers
      refine ⟨left, log, ?_, ?_, houtside⟩
      · rw [hout, List.filterMap_cons, hsome]
        rfl
      · rw [List.filter_cons, hsome]
        exact honto
    | error fault =>
      have hnone : box.report? files name = none := by rw [Box.report?, hreport]; rfl
      dsimp only
      generalize hnoted : service.note .warn .program "Discarding unreadable report" _ = noted
      have hnoted' : noted = { service with log := noted.log } := by rw [← hnoted]; rfl
      have hstore' : noted.store = .file path now := by rw [hnoted', hstore]
      obtain ⟨next, hset, hnext, hnextout⟩ := setEnding_ok h hstore' hnow hwaits hnew failed_mem
      obtain ⟨left, log, hout, honto, houtside⟩ :=
        ih (show Service.store { noted with store := .file path next } = _ from rfl) hnext hrest
          (hothers.next hfirst _)
      rw [hset]
      refine ⟨left, log, ?_, ?_, fun p e hp he => (houtside p e hp he).trans (hnextout p e hp he)⟩
      · dsimp only
        rw [hout, List.filterMap_cons, hnone, hnoted']
        rfl
      · rw [List.filter_cons, hnone]
        rw [List.append_assoc] at honto
        exact honto

/-- The files of reports get new names by how these were dealt with. -/
theorem finish_ok {dealt : List (String × Except Fault MergeSummary)} : ∀ {service : Service}
    {now : FileTree} {moves : List (String × String)}, service.store = .file path now →
    box.Onto files moves now → (dealt.map (·.1)).Nodup → box.Left files moves (dealt.map (·.1)) →
    ∃ left, service.finish (dealt.map (fun e => (box.path e.1, e.2))) =
        (.ok (), { service with store := .file path left }) ∧
      box.Onto files (moves ++ dealt.map (fun e => (e.1, target (endingFor e.2) e.1))) left ∧
      box.Outside files now left := by
  induction dealt with
  | nil =>
    intro service now moves hstore hnow _ _
    refine ⟨now, ?_, by simpa using hnow, fun _ _ _ _ => rfl⟩
    rw [← hstore]
    rfl
  | cons entry rest ih =>
    intro service now moves hstore hnow hnodup hleft
    obtain ⟨name, result⟩ := entry
    rw [List.map_cons] at hnodup hleft
    obtain ⟨hfirst, hrest⟩ := List.nodup_cons.1 hnodup
    obtain ⟨⟨hwaits, hnew⟩, hothers⟩ := hleft.cons
    obtain ⟨next, hset, hnext, hnextout⟩ :=
      setEnding_ok h hstore hnow hwaits hnew (endingFor_mem result)
    obtain ⟨left, hout, honto, houtside⟩ :=
      ih (show Service.store { service with store := .file path next } = _ from rfl) hnext hrest
        (hothers.next hfirst _)
    rw [List.map_cons, finish, hset]
    refine ⟨left, hout, ?_, fun p e hp he => (houtside p e hp he).trans (hnextout p e hp he)⟩
    rw [List.append_assoc] at honto
    exact honto

/-- One round takes all reports in that are waiting. -/
theorem takeInbox_ok {service : Service} (hspares : box.Spares files path)
    (hstore : service.store = .file path files) (pauses : Pauses) :
    ∃ told after left, service.TakesAll ((box.found files).map (·.2)) pauses told after ∧
      service.takeInbox box.pattern pauses =
        (.ok (told.countP Except.isOk), { after with store := .file path left }) ∧
      (Store.file path left).document = after.store.document ∧
      box.Onto files (box.allMoves files told) left := by
  have hnames : box.Left files [] (box.names files) := fun name hname =>
    ⟨(Box.mem_names h.dir).1 hname, nofun⟩
  have hnodup : (box.names files).Nodup := Box.nodup_names h.dir
  obtain ⟨sorted, log, hsort, hsorted, houtside⟩ :=
    sortOut_ok h hstore (.start box files) hnodup hnames
  let ready : Service := { service with store := .file path sorted, log }
  let reports := (box.found files).map (·.2)
  obtain ⟨order, results, hreordered, htaken, hlength, hinplace⟩ :=
    ready.handleAll_linear reports pauses
  obtain ⟨now, hnow, honto⟩ := handleAll_files h.home h.dir hspares
    (show ready.store = .file path sorted from rfl) hsorted reports pauses
  rcases hbatch : ready.handleAll reports pauses with ⟨told, after⟩
  rw [hbatch] at htaken hlength hinplace hnow
  dsimp only at htaken hlength hinplace hnow
  let dealt := ((box.found files).map (·.1)).zip told
  have hdealt : dealt.map (·.1) = (box.found files).map (·.1) := by
    rw [List.map_fst_zip]
    rw [hlength, List.length_map, List.length_map]
  have hfoundnodup : ((box.found files).map (·.1)).Nodup := Box.found_names ▸ hnodup.filter _
  obtain ⟨left, hfinish, hleft, hkept⟩ := finish_ok h hnow honto (hdealt ▸ hfoundnodup)
    (hdealt ▸ Box.left_found h.dir)
  refine ⟨told, after, left, ⟨hlength, ready, order, results, rfl, ?_, ?_, hbatch, hreordered, htaken,
    hinplace⟩, ?_, ?_, hleft⟩
  · rw [hstore]
    exact houtside.document hspares
  · rw [hstore]
    exact hsorted.saves houtside hspares
  · have hzip : (((box.found files).map (·.1)).map box.path).zip told =
        dealt.map (fun e => (box.path e.1, e.2)) := List.zip_map_left ..
    have hfiles : service.store.files = files := by rw [hstore]; rfl
    have hpaths : Inbox.paths service.store.files box.pattern =
        .ok ((box.names files).map box.path) := by
      rw [hfiles]
      exact Box.paths_eq h.reads h.dir
    rw [Box.found_paths] at hsort
    have hnow : ready.handleAll (((box.found files).map (fun e => (box.path e.1, e.2))).map (·.2))
        pauses = (told, after) := by
      rw [List.map_map]
      exact hbatch
    refine takeInbox_eq hpaths hsort hnow ?_
    rw [List.map_map] at hzip ⊢
    exact hzip ▸ hfinish
  · rw [hkept.document hspares, hnow]

end

/-! ## Rounds -/

/-- Rounds of an inbox one after the other, each with some pauses, and what each of them told. -/
def rounds (service : Service) (pattern : String) : List Pauses → List (Except Fault Nat) × Service
  | [] => ([], service)
  | pauses :: later =>
    let (answer, next) := service.takeInbox pattern pauses
    let (answers, last) := next.rounds pattern later
    (answer :: answers, last)

/-- A round of an inbox in which nothing waits changes nothing. -/
theorem takeInbox_idle {service : Service} {pattern : String}
    (hpaths : Inbox.paths service.store.files pattern = .ok []) (pauses : Pauses) :
    service.takeInbox pattern pauses = (.ok 0, service) := by
  have hnothing : service.handleAll [] pauses = ([], service) := rfl
  simp only [takeInbox, hpaths, sortOut, List.map_nil, hnothing, List.zip_nil_left, finish,
    List.countP_nil]

theorem rounds_idle {service : Service} {pattern : String}
    (hidle : ∀ pauses, service.takeInbox pattern pauses = (.ok 0, service)) (all : List Pauses) :
    service.rounds pattern all = (List.replicate all.length (.ok 0), service) := by
  induction all with
  | nil => rfl
  | cons pauses later ih =>
    simp only [rounds, hidle, ih, List.length_cons, List.replicate_succ]

/-- If no new name is in the way, the first round of an inbox takes each report in that is waiting,
all later rounds take nothing in, and each file is found by the new name that tells how it was dealt
with, whatever the pauses are. -/
theorem rounds_take_once {box : Box} {files : FileTree} {path : String} {service : Service}
    (h : box.Orderly files) (hspares : box.Spares files path)
    (hstore : service.store = .file path files) (pauses : Pauses) (later : List Pauses) :
    ∃ told after left, service.TakesAll ((box.found files).map (·.2)) pauses told after ∧
      service.rounds box.pattern (pauses :: later) =
        (.ok (told.countP Except.isOk) :: List.replicate later.length (.ok 0),
          { after with store := .file path left }) ∧
      (Store.file path left).document = after.store.document ∧ box.Cleared files told left := by
  obtain ⟨told, after, left, htakes, hround, hdocument, honto⟩ :=
    takeInbox_ok h hspares hstore pauses
  have hlength : told.length = (box.found files).length := by
    rw [htakes.length, List.length_map]
  have hcleared := honto.cleared h hlength
  refine ⟨told, after, left, htakes, ?_, hdocument, hcleared⟩
  -- nothing waits in the files that the first round leaves
  have hpaths : Inbox.paths left box.pattern = .ok [] := by
    have hdir := honto.find_dir h
    have hnames : box.names left = [] := List.eq_nil_iff_forall_not_mem.2 fun name hname =>
      hcleared.gone name ((Box.mem_names hdir).1 hname)
    rw [Box.paths_eq h.reads hdir, hnames, List.map_nil]
  have hidle := takeInbox_idle
    (show Inbox.paths (Store.files (Service.store { after with store := .file path left })) _ = _
      from hpaths)
  simp only [rounds, hround, rounds_idle hidle]

/-! ## Two resources in a file -/

/-- The document of two resources lies in the working directory, with nothing beside it. -/
structure HasSiblings (files : FileTree) : Prop where
  home : files.home = []
  document : files.contents [] "s" = some (.file siblingsDocument.toJson.pretty)
  beside : files.contents [] "s.json.tmp" = none

/-- A service that has loaded the two resources from the file. -/
def loadedFrom (files : FileTree) : Service := { siblings with store := .file "s" files }.load.2

/-- A view of the two resources as they are loaded. -/
def siblingsView (metrics : Metrics) (catalog : Catalog) (rows : ResourceKey → Rows) : View where
  tolerance := siblings.tolerance
  objects := siblings.backend.objects
  registry := siblings.load.2.registry
  metrics := metrics
  catalog := catalog
  rows := rows

namespace HasSiblings

variable {files : FileTree} (h : HasSiblings files)
include h

theorem leadsTo_document : files.LeadsTo "s" ⟨[], "s", false⟩ := by
  refine ⟨?_, rfl, rfl, by decide⟩
  rw [← h.home]
  rfl

theorem saves : (Store.file "s" files).Saves := by
  have hbeside : Path.replaceExtension "json.tmp" "s" = "s.json.tmp" := by decide
  have hleads : files.LeadsTo "s.json.tmp" ⟨[], "s.json.tmp", false⟩ := by
    refine ⟨?_, rfl, rfl, by decide⟩
    rw [← h.home]
    rfl
  have hwalk : files.Walkable files.home := h.home ▸ FileTree.walkable_nil files
  have hfree : files.contents [] "s.json.tmp" ≠ some .dir := by
    rw [h.beside]
    nofun
  rw [Store.Saves, hbeside]
  exact ⟨_, _, hwalk, hleads, h.leadsTo_document, by decide, hfree, _, h.document⟩

theorem store_document : (Store.file "s" files).document = .ok siblingsDocument := by
  have hleads := h.leadsTo_document
  have hread : files.read "s" = .ok siblingsDocument.toJson.pretty :=
    FileTree.read_file hleads.resolve hleads.named rfl hleads.short h.document
  simp only [Store.document, Store.readFile, hread]
  exact Store.parseDocument_pretty _

/-- What is loaded from the file is what is loaded from memory. -/
theorem loaded : (loadedFrom files).store = .file "s" files ∧ (loadedFrom files).Sure ∧
    (loadedFrom files).backend.objects = siblings.backend.objects ∧
    ∃ metrics catalog rows, (loadedFrom files).Shows (siblingsView metrics catalog rows) := by
  obtain ⟨graph, hgraph⟩ := Resource.exists_of_isSome
    (show (Graph.ofDocument siblingsDocument).toOption.isSome = true by cbv)
  have hload := Graph.ofDocument_eq_ok_iff.1 hgraph
  let fresh : Service := { siblings with store := .file "s" files }
  have hnew : fresh.registry.loaded = false := rfl
  obtain ⟨hstore, hregistry⟩ := load_eq hnew h.store_document hload
  obtain ⟨htolerance, hretry, hbackend⟩ := load_setup hnew h.store_document hload
  have hmemory : siblings.load.2.registry = _ :=
    (load_eq rfl (show siblings.store.document = _ from rfl) hload).2
  have hsynced := synced_load hnew h.saves.grounded h.store_document hgraph
  have hshows := hsynced.shows (hstore ▸ h.saves)
  refine ⟨hstore, ?_, congrArg Backend.objects hbackend, _, _, _, hshows.saves, htolerance,
    hregistry.trans hmemory.symm, rfl, hshows.document⟩
  show Backend.Steady fresh.load.2.retry fresh.load.2.backend
  rw [hretry, hbackend]
  exact ⟨rfl, .inl rfl⟩

end HasSiblings

/-- A document in the working directory lies outside of an inbox elsewhere. -/
theorem spares_home {box : Box} {files : FileTree} (hplace : files.home ≠ box.place) :
    box.Spares files "s" := by
  have hresolve : files.resolve "s" = .ok ⟨files.home, "s", false⟩ := rfl
  have hbeside : files.resolve "s.json.tmp" = .ok ⟨files.home, "s.json.tmp", false⟩ := rfl
  have hname : Path.replaceExtension "json.tmp" "s" = "s.json.tmp" := by decide
  refine ⟨⟨_, hresolve, hplace⟩, fun e he => ?_⟩
  rw [hname] at he
  obtain rfl := Except.ok.inj (hbeside.symm.trans he)
  exact hplace

/-- The inbox of the files that end in `.json`, in the working directory. -/
abbrev jsonInbox : Box := jsonBox "inbox" ["inbox"]

/-- An inbox with two reports for one resource, one that names nothing, and a file without a report;
the document of the resources lies beside it. -/
def sampleFiles : FileTree where
  entries := .ofList [(["inbox"], .dir),
    (["inbox", "a.json"], .file (openReport "r" true).toJson.compact),
    (["inbox", "b.json"], .file (openReport "r" false).toJson.compact),
    (["inbox", "c.json"], .file ({} : Report).toJson.compact),
    (["inbox", "d.json"], .file ""), (["s"], .file siblingsDocument.toJson.pretty)]

def sampleReports : List Report := [openReport "r" true, openReport "r" false, {}]

/-- The volume is opened first and closed then, and both is a change. -/
def sampleTold : List (Except Fault MergeSummary) :=
  [.ok { merged := 1, changed := 1 }, .ok { merged := 1, changed := 1 },
    .error (.unknownObject unnamed (.missingField "node_name"))]

set_option maxRecDepth 8000 in
theorem run_sampleReports (metrics : Metrics) (catalog : Catalog) (rows : ResourceKey → Rows) :
    ((siblingsView metrics catalog rows).run (itemsOf sampleReports)).1.map (·.2) = sampleTold := by
  cbv

theorem sampleFiles_siblings : HasSiblings sampleFiles := ⟨rfl, rfl, rfl⟩

theorem sampleFiles_dir : sampleFiles.find "inbox" = .ok (["inbox"], .dir) := rfl

theorem sampleFiles_names : jsonInbox.names sampleFiles =
    ["a.json", "b.json", "c.json", "d.json"] :=
  Box.names_of_sorted rfl (by decide +kernel)

theorem plainPath_inbox : Glob.PlainPath false ["inbox"] "inbox" := by
  have hinbox : Glob.PlainName "inbox" := ⟨by decide, by decide, by simp [Glob.Plain]⟩
  exact ⟨by decide, by simpa using hinbox, by simp⟩

theorem sampleFiles_waits {name : String}
    (h : jsonInbox.Waits sampleFiles name) :
    name ∈ ["a.json", "b.json", "c.json", "d.json"] :=
  sampleFiles_names ▸ (Box.mem_names sampleFiles_dir).2 h

theorem sampleFiles_orderly : jsonInbox.Orderly sampleFiles := by
  refine orderly_json plainPath_inbox (FileTree.walkable_nil _) sampleFiles_dir
    (fun name hname => ?_) (fun name hname => ?_) fun name hname => ?_ <;>
    have hmem := sampleFiles_waits hname <;> clear hname <;> revert name
  · simp only [List.forall_mem_cons]
    exact ⟨⟨_, rfl⟩, ⟨_, rfl⟩, ⟨_, rfl⟩, ⟨_, rfl⟩, nofun⟩
  · decide
  · decide

theorem sampleFiles_found : jsonInbox.found sampleFiles =
    ["a.json", "b.json", "c.json"].zip sampleReports := by
  have hfirst : readReport sampleFiles (jsonInbox.path "a.json") = .ok (openReport "r" true) :=
    Box.readReport_of_text sampleFiles_dir (by decide) (by decide) rfl
  have hsecond : readReport sampleFiles (jsonInbox.path "b.json") = .ok (openReport "r" false) :=
    Box.readReport_of_text sampleFiles_dir (by decide) (by decide) rfl
  have hthird : readReport sampleFiles (jsonInbox.path "c.json") = .ok {} :=
    Box.readReport_of_text sampleFiles_dir (by decide) (by decide) rfl
  have hlast : readReport sampleFiles (jsonInbox.path "d.json") = .error .json := rfl
  have hreports : ["a.json", "b.json", "c.json", "d.json"].map (jsonInbox.report? sampleFiles) =
      sampleReports.map some ++ [none] := by
    simp only [List.map_cons, List.map_nil, Box.report?, hfirst, hsecond, hthird, hlast]
    rfl
  exact (Box.found_eq sampleFiles_names hreports).trans rfl

/-- Of two reports for one resource both are taken in, in the order of their paths, one that names
nothing is refused, all files get new names, and two more rounds find nothing. -/
theorem rounds_take_once_sample :
    jsonInbox.Orderly sampleFiles ∧ jsonInbox.Spares sampleFiles "s" ∧
      (loadedFrom sampleFiles).store = .file "s" sampleFiles ∧
      ∃ after left, (loadedFrom sampleFiles).TakesAll sampleReports siblings.retry.pauses sampleTold
          after ∧
        (loadedFrom sampleFiles).rounds "inbox/*.json" (List.replicate 3 siblings.retry.pauses) =
          ([.ok 2, .ok 0, .ok 0], { after with store := .file "s" left }) ∧
        ["a.json.done", "b.json.done", "c.json.failed", "d.json.failed"].map
            (left.contents ["inbox"]) =
          ["a.json", "b.json", "c.json", "d.json"].map (sampleFiles.contents ["inbox"]) := by
  have hspares : jsonInbox.Spares sampleFiles "s" := spares_home nofun
  obtain ⟨hstore, hsure, hobjects, metrics, catalog, rows, hshows⟩ := sampleFiles_siblings.loaded
  obtain ⟨told, after, left, htakes, hrounds, -, hcleared⟩ :=
    rounds_take_once sampleFiles_orderly hspares hstore siblings.retry.pauses
      (List.replicate 2 siblings.retry.pauses)
  have hreports : (jsonInbox.found sampleFiles).map (·.2) = sampleReports := by
    rw [sampleFiles_found]
    rfl
  rw [hreports] at htakes
  obtain rfl : told = sampleTold :=
    (htakes.told_eq hshows hsure hobjects.symm).trans (run_sampleReports ..)
  have hpattern : jsonInbox.pattern = "inbox/*.json" := by decide
  rw [hpattern] at hrounds
  have hsettled := hcleared.settled
  rw [sampleFiles_found] at hsettled
  have hwaits : jsonInbox.Waits sampleFiles "d.json" :=
    (Box.mem_names sampleFiles_dir).1 (by rw [sampleFiles_names]; decide)
  refine ⟨sampleFiles_orderly, hspares, hstore, after, left, htakes, hrounds, ?_⟩
  have hnew : ["a.json.done", "b.json.done", "c.json.failed", "d.json.failed"] =
      [target done "a.json", target done "b.json", target failed "c.json",
        target failed "d.json"] := by decide
  have hfirst : left.contents _ (target done "a.json") = _ := hsettled 0 "a.json" _ _ rfl rfl
  have hsecond : left.contents _ (target done "b.json") = _ := hsettled 1 "b.json" _ _ rfl rfl
  have hthird : left.contents _ (target failed "c.json") = _ := hsettled 2 "c.json" _ _ rfl rfl
  have hlast := hcleared.unreadable "d.json" hwaits rfl
  have hplace : jsonInbox.place = ["inbox"] := rfl
  rw [hplace] at hfirst hsecond hthird hlast
  rw [hnew]
  simp only [List.map_cons, List.map_nil, hfirst, hsecond, hthird, hlast]

/-- Two reports for one resource in files whose names differ by a repeated extension. -/
def crossedFiles : FileTree where
  entries := .ofList [(["inbox"], .dir),
    (["inbox", ".json"], .file (openReport "r" true).toJson.compact),
    (["inbox", ".json.json"], .file (openReport "r" false).toJson.compact),
    (["s"], .file siblingsDocument.toJson.pretty)]

def crossedReports : List Report := [openReport "r" true, openReport "r" false]

theorem run_crossedReports (metrics : Metrics) (catalog : Catalog) (rows : ResourceKey → Rows) :
    ((siblingsView metrics catalog rows).run (itemsOf crossedReports)).1.map (·.2) =
      sampleTold.take 2 := by
  have hitems : itemsOf crossedReports = (itemsOf sampleReports).take 2 := rfl
  rw [hitems, View.run_take, List.map_take, run_sampleReports]

theorem crossedFiles_siblings : HasSiblings crossedFiles := ⟨rfl, rfl, rfl⟩

theorem crossedFiles_dir : crossedFiles.find "inbox" = .ok (["inbox"], .dir) := rfl

theorem crossedFiles_only (name : String) (hfirst : name ≠ ".json") (hsecond : name ≠ ".json.json") :
    crossedFiles.contents ["inbox"] name = none := by
  by_contra hother
  have hnames : Glob.namesIn crossedFiles "inbox" = [".json", ".json.json"] := rfl
  have hmem := (Glob.mem_namesIn crossedFiles_dir).2 hother
  rw [hnames, List.mem_cons, List.mem_singleton] at hmem
  exact hmem.elim hfirst hsecond

theorem crossedFiles_paths : Inbox.paths crossedFiles "inbox/*.json" =
    .ok [jsonInbox.path ".json", jsonInbox.path ".json.json"] := by
  have hnames : jsonInbox.names crossedFiles = [".json", ".json.json"] :=
    Box.names_of_sorted rfl (by decide +kernel)
  have hall := Box.paths_eq (jsonBox_reads plainPath_inbox) crossedFiles_dir
  rw [hnames] at hall
  exact hall

theorem crossedFiles_reports : List.Forall₂ (fun path report =>
    readReport crossedFiles path = .ok report)
      [jsonInbox.path ".json", jsonInbox.path ".json.json"] crossedReports :=
  .cons (Box.readReport_of_text crossedFiles_dir (by decide) (by decide) rfl)
    (.cons (Box.readReport_of_text crossedFiles_dir (by decide) (by decide) rfl) .nil)

/-- The file that gets its new name last takes the place of the other. -/
theorem finish_crossedFiles {service : Service} {now : FileTree} (a b : MergeSummary)
    (hstore : service.store = .file "s" now) (hnow : jsonInbox.Onto crossedFiles [] now) :
    ∃ left, service.finish [(jsonInbox.path ".json", .ok a), (jsonInbox.path ".json.json", .ok b)] =
        (.ok (), { service with store := .file "s" left }) ∧
      FileTree.Shift ["inbox"] [(".json", ".json.json.done"), (".json.json", ".json.json.done")]
        crossedFiles left := by
  have hhome : crossedFiles.Walkable crossedFiles.home := FileTree.walkable_nil crossedFiles
  have hfile : now.contents ["inbox"] ".json" = _ := congrFun hnow.shift.contents ".json"
  have hfree : now.contents ["inbox"] ".json.json.done" ≠ some .dir := by
    rw [show now.contents ["inbox"] = _ from hnow.shift.contents]
    nofun
  obtain ⟨next, hset, hshift⟩ := setEnding_shift jsonInbox ".json" ".json.json.done" done hstore
    (hnow.shift.find_dir hhome crossedFiles_dir) (by decide) (by decide) (by decide) hfile hfree
    (by decide)
  have hmoved := hnow.shift.trans hshift
  have hfile' : next.contents ["inbox"] ".json.json" = _ := congrFun hmoved.contents ".json.json"
  have hfree' : next.contents ["inbox"] ".json.json.done" ≠ some .dir := by
    rw [show next.contents ["inbox"] = _ from hmoved.contents]
    nofun
  obtain ⟨left, hset', hshift'⟩ := setEnding_shift jsonInbox ".json.json" ".json.json.done" done
    (show Service.store { service with store := .file "s" next } = _ from rfl)
    (hmoved.find_dir hhome crossedFiles_dir) (by decide) (by decide) (by decide) hfile' hfree'
    (by decide)
  refine ⟨left, ?_, hmoved.trans hshift'⟩
  rw [finish, show service.setEnding (endingFor (.ok a)) _ = _ from hset]
  dsimp only
  rw [finish, show Service.setEnding _ (endingFor (.ok b)) _ = _ from hset']
  rfl

/-- Both reports are taken in, both files get the name `.json.json.done`, and what was in the first
is lost. -/
theorem new_name_shared :
    ((loadedFrom crossedFiles).takeInbox "inbox/*.json").1 = .ok 2 ∧
      ∃ left, ((loadedFrom crossedFiles).takeInbox "inbox/*.json").2.store = .file "s" left ∧
        ∀ name, left.contents ["inbox"] name = if name = ".json.json.done" then
          some (.file (openReport "r" false).toJson.compact) else none := by
  obtain ⟨hstore, hsure, hobjects, metrics, catalog, rows, hshows⟩ := crossedFiles_siblings.loaded
  have hhome : crossedFiles.Walkable crossedFiles.home := FileTree.walkable_nil crossedFiles
  have hspares : jsonInbox.Spares crossedFiles "s" := spares_home nofun
  have hfiles : (loadedFrom crossedFiles).store.files = crossedFiles := congrArg Store.files hstore
  generalize loadedFrom crossedFiles = service at hstore hsure hobjects hshows hfiles ⊢
  obtain ⟨now, hnow, honto⟩ := handleAll_files hhome crossedFiles_dir hspares hstore
    (.start jsonInbox crossedFiles) crossedReports service.retry.pauses
  have htold := (hshows.handleAll hsure hobjects.symm crossedReports service.retry.pauses).1.trans
    (run_crossedReports ..)
  have hsorted := sortOut_reports hfiles crossedFiles_reports
  rcases hbatch : service.handleAll crossedReports with ⟨told, after⟩
  rw [hbatch] at hnow htold
  dsimp only at hnow htold
  subst htold
  obtain ⟨left, hfinish, hshift⟩ := finish_crossedFiles
    { merged := 1, changed := 1 } { merged := 1, changed := 1 } hnow honto
  have hpaths : Inbox.paths service.store.files "inbox/*.json" = _ := hfiles ▸ crossedFiles_paths
  rw [takeInbox_eq hpaths hsorted hbatch hfinish]
  refine ⟨rfl, left, rfl, fun name => ?_⟩
  have hsecond : crossedFiles.contents ["inbox"] ".json.json" =
      some (.file (openReport "r" false).toJson.compact) := rfl
  rw [hshift.contents, ← hsecond]
  exact FileTree.renamed_shared (by decide) (by decide) crossedFiles_only name

end Service
end BlockStack
