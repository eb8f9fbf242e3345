import BlockStack.Proofs.Elsewhere
import BlockStack.Proofs.InboxRounds

/-!
# BlockStack.Proofs.OwnFiles

An inbox takes the files of its own directory, if the path of the directory is one that a pattern
goes as it stands.

* `InboxConfig.box`: an inbox as its settings give it. `InboxConfig.Readable.box_reads`: how it is read.
* `Box.Lists`: its paths are those of the entries of its directory whose names fit.
* `Service.Leaves`: the invariant. Nothing has changed but in the directory and where the document is
  saved. `Leaves.setEnding` is the step, `Service.takeInbox_leaves` the round.
* `Service.own_files_taken`: both, and that all the files are dealt with if no new name is in the way.
* `Service.bracketed_passed_over`: a path that a pattern reads as something else.
-/

namespace BlockStack

/-- An inbox whose directory stands at a place, and whose pattern has some tokens. -/
def InboxConfig.box (inbox : InboxConfig) (place : Place) (tokens : List Glob.Token) : Inbox.Box where
  pattern := inbox.globPattern
  dir := Glob.walked inbox.dir
  place := place
  tokens := tokens

theorem InboxConfig.box_dir (inbox : InboxConfig) {place : Place} {tokens : List Glob.Token} :
    (inbox.box place tokens).dir = Glob.walked inbox.dir := by
  simp only [box]

/-- The settings of an inbox can be read as they stand: the path of its directory can, and the pattern
is one for names that neither stands for the directory itself or the one above, nor for a name that
no path can end in. -/
structure InboxConfig.Readable (inbox : InboxConfig) (tokens : List Glob.Token) : Prop where
  dir : Glob.Direct inbox.dir
  pattern : Glob.FilePattern inbox.pattern tokens
  undotted : Glob.dotNames tokens = []
  literal : ∀ name, Glob.literal? tokens = some name →
    FileTree.Enters (Glob.walked inbox.dir) name

theorem InboxConfig.Readable.box_reads {inbox : InboxConfig} {tokens : List Glob.Token}
    (h : inbox.Readable tokens) (place : Place) : (inbox.box place tokens).Reads where
  find _ hleads := by
    obtain ⟨slashes, names, hcourse⟩ := Glob.exists_course inbox.dir
    have honward := h.dir.onward hcourse
    have hliteral : ∀ name, Glob.literal? tokens = some name →
        Glob.dotNames tokens = [] ∧ FileTree.Enters (Glob.walked inbox.dir) name :=
      fun name hname => ⟨h.undotted, h.literal name hname⟩
    simp only [box, globPattern] at hleads ⊢
    exact hcourse.find_eq h.dir.plain honward h.pattern hleads hliteral
  undotted := h.undotted

namespace Inbox

/-- The paths of an inbox are those of the entries of its directory whose names fit, each of them
once, in the order of paths. -/
structure Box.Lists (box : Box) (files : FileTree) : Prop where
  paths : Inbox.paths files box.pattern = .ok ((box.names files).map box.path)
  once : (box.names files).Nodup
  sorted : ((box.names files).map box.path).Pairwise (fun a b => (Path.order a b).isLE = true)
  own : ∀ name, name ∈ box.names files ↔
    files.contents box.place name ≠ none ∧ Glob.accepts box.tokens name.toList = true
  leads : ∀ name, FileTree.Enters box.dir name →
    files.LeadsTo (box.path name) ⟨box.place, name, false⟩

theorem Box.lists {box : Box} {files : FileTree} (hreads : box.Reads)
    (hdir : files.find box.dir = .ok (box.place, .dir)) : box.Lists files where
  paths := Box.paths_eq hreads hdir
  once := Box.nodup_names hdir
  sorted := List.pairwise_map.2 Box.names_sorted
  own _ := (Box.mem_names hdir).trans and_comm
  leads _ henters := henters.leadsTo hdir

/-- A path to a name in the directory of an inbox. -/
def Box.Own (box : Box) (source : String) : Prop :=
  ∃ name, Path.isName name = true ∧ '/' ∉ name.toList ∧ source = box.path name

theorem slash_not_mem_ending {ending : String} (h : ending ∈ endings) : '/' ∉ ending.toList := by
  simp only [endings, List.mem_cons, List.not_mem_nil, or_false] at h
  rcases h with rfl | rfl <;> simp [done, failed]

end Inbox

namespace Service

open Inbox

variable {box : Box} {files : FileTree} {path : String} {service next : Service}

/-! ## Other places -/

/-- A service that saves a document in a file has left all spared places as they were. -/
def Leaves (files : FileTree) (here : Place) (path : String) (service : Service) : Prop :=
  ∃ now, service.store = .file path now ∧ files.Unmoved here path now

section

variable (hplace : files.nominal box.dir = box.place)

include hplace

/-- A new ending is one in the directory. -/
theorem Leaves.setEnding {ending source : String} (h : service.Leaves files box.place path)
    (hown : box.Own source) (hending : ending ∈ endings)
    (hset : service.setEnding ending source = .ok next) : next.Leaves files box.place path := by
  obtain ⟨now, hstore, hunmoved⟩ := h
  obtain ⟨name, hnamed, hslash, rfl⟩ := hown
  obtain ⟨new, hnew, hnewslash, hbeside⟩ :=
    Path.exists_beside hnamed hslash (slash_not_mem_ending hending)
  unfold Service.setEnding Inbox.setEnding at hset
  rw [hstore, Box.path, hbeside] at hset
  split at hset
  · cases hset
  rename_i left hrename
  cases hset
  exact ⟨left, rfl, hunmoved.rename hplace hnamed hslash hnew hnewslash hrename⟩

theorem Leaves.sortOut {paths : List String} : ∀ {service : Service},
    service.Leaves files box.place path → (∀ source ∈ paths, box.Own source) →
    (service.sortOut paths).2.Leaves files box.place path ∧
      ∀ found, (service.sortOut paths).1 = .ok found → ∀ e ∈ found, box.Own e.1 := by
  induction paths with
  | nil =>
    intro service h _
    refine ⟨h, fun found hfound => ?_⟩
    cases hfound
    exact fun e he => absurd he List.not_mem_nil
  | cons source rest ih =>
    intro service h hown
    obtain ⟨hsource, hrest⟩ := List.forall_mem_cons.1 hown
    rw [Service.sortOut]
    cases hread : readReport service.store.files source with
    | ok report =>
      obtain ⟨hleaves, hfound⟩ := ih h hrest
      dsimp only
      cases hout : service.sortOut rest with
      | mk result after =>
        rw [hout] at hleaves hfound
        cases result with
        | error fault =>
          refine ⟨hleaves, fun found hfound => ?_⟩
          cases hfound
        | ok found =>
          refine ⟨hleaves, fun all hall => ?_⟩
          cases hall
          exact List.forall_mem_cons.2 ⟨hsource, hfound found rfl⟩
    | error fault =>
      dsimp only
      generalize hnoted : service.note .warn .program "Discarding unreadable report" _ = noted
      have hleaves : noted.Leaves files box.place path := by
        rw [← hnoted]
        exact h
      cases hset : noted.setEnding failed source with
      | error cause =>
        refine ⟨hleaves, fun found hfound => ?_⟩
        cases hfound
      | ok after => exact ih (hleaves.setEnding hplace hsource failed_mem hset) hrest

theorem Leaves.finish {dealt : List (String × Except Fault MergeSummary)} : ∀ {service : Service},
    service.Leaves files box.place path → (∀ e ∈ dealt, box.Own e.1) →
    (service.finish dealt).2.Leaves files box.place path := by
  induction dealt with
  | nil => exact fun h _ => h
  | cons entry rest ih =>
    intro service h hown
    obtain ⟨source, result⟩ := entry
    obtain ⟨hsource, hrest⟩ := List.forall_mem_cons.1 hown
    rw [Service.finish]
    cases hset : service.setEnding (endingFor result) source with
    | error fault => exact h
    | ok after => exact ih (h.setEnding hplace hsource (endingFor_mem result) hset) hrest

/-- Whatever comes of a round, it leaves all spared places. -/
theorem takeInbox_leaves (hlists : box.Lists files) (hstore : service.store = .file path files)
    (hnamed : ∀ name, box.Waits files name → Path.isName name = true ∧ '/' ∉ name.toList)
    (pauses : Pauses) : (service.takeInbox box.pattern pauses).2.Leaves files box.place path := by
  have hstart : service.Leaves files box.place path := ⟨files, hstore, .refl ..⟩
  have hown : ∀ source ∈ (box.names files).map box.path, box.Own source := fun source hsource => by
    obtain ⟨name, hname, rfl⟩ := List.mem_map.1 hsource
    obtain ⟨hproper, hslash⟩ := hnamed name ((hlists.own name).1 hname).symm
    exact ⟨name, hproper, hslash, rfl⟩
  have hfiles : service.store.files = files := by rw [hstore]; rfl
  unfold takeInbox
  rw [hfiles, hlists.paths]
  dsimp only
  obtain ⟨hsorted, hfound⟩ := hstart.sortOut hplace hown
  cases hout : service.sortOut ((box.names files).map box.path) with
  | mk result sorted =>
    rw [hout] at hsorted hfound
    cases result with
    | error fault => exact hsorted
    | ok found =>
      dsimp only
      have hhandled := handleAll_saves
        (P := fun store => ∃ now, store = .file path now ∧ files.Unmoved box.place path now)
        (fun store next key rows ⟨now, hnow, hunmoved⟩ hsave => hunmoved.save (hnow ▸ hsave))
        hsorted (found.map (·.2)) pauses
      generalize sorted.handleAll (found.map (·.2)) pauses = handled at hhandled
      obtain ⟨told, after⟩ := handled
      have hdealt : ∀ e ∈ (found.map (·.1)).zip told, box.Own e.1 := fun e he => by
        obtain ⟨entry, hentry, heq⟩ := List.mem_map.1 (List.of_mem_zip he).1
        exact heq ▸ hfound found rfl entry hentry
      have hfinished := Leaves.finish hplace hhandled hdealt
      dsimp only
      generalize after.finish ((found.map (·.1)).zip told) = finished at hfinished
      obtain ⟨answer, last⟩ := finished
      cases answer <;> exact hfinished

end

/-! ## A round -/

/-- What a round of an inbox comes to, whatever its pauses are. -/
structure TakesOwn (service : Service) (box : Box) (files : FileTree) (path : String) : Prop where
  /-- Names of files being names, nothing changes but in the directory and where the document is
  saved. -/
  elsewhere : (∀ name, box.Waits files name → Path.isName name = true ∧ '/' ∉ name.toList) →
    ∀ pauses, (service.takeInbox box.pattern pauses).2.Leaves files box.place path
  /-- If no new name is in the way, all reports in the directory are taken in, and each file of it
  gets a new name. -/
  all : box.Orderly files → box.Spares files path → ∀ pauses, ∃ told after left,
    service.TakesAll ((box.found files).map (·.2)) pauses told after ∧
      service.takeInbox box.pattern pauses =
        (.ok (told.countP Except.isOk), { after with store := .file path left }) ∧
      box.Cleared files told left

theorem takesOwn_of_lists (hplace : files.nominal box.dir = box.place) (hlists : box.Lists files)
    (hstore : service.store = .file path files) : service.TakesOwn box files path where
  elsewhere := takeInbox_leaves hplace hlists hstore
  all horderly hspares pauses := by
    obtain ⟨told, after, left, htakes, hround, -, honto⟩ :=
      takeInbox_ok horderly hspares hstore pauses
    have hlength : told.length = (box.found files).length := by rw [htakes.length, List.length_map]
    exact ⟨told, after, left, htakes, hround, honto.cleared horderly hlength⟩

/-- If the settings of an inbox can be read as they stand, a round takes the files of its own
directory whose names fit, and none of another. -/
theorem own_files_taken {inbox : InboxConfig} {tokens : List Glob.Token} {place : Place}
    (hreadable : inbox.Readable tokens) (hdir : files.find inbox.dir = .ok (place, .dir)) :
    (inbox.box place tokens).Lists files ∧
      ∀ (service : Service) (path : String), service.store = .file path files →
        service.TakesOwn (inbox.box place tokens) files path := by
  have hwalked : files.find (inbox.box place tokens).dir = .ok (place, .dir) := by
    rw [inbox.box_dir]
    exact hreadable.dir.find_walked hdir
  have hplace : files.nominal (inbox.box place tokens).dir = place :=
    (FileTree.nominal_of_walk (FileTree.walk_of_find hwalked)).symm
  have hlists := Box.lists (hreadable.box_reads place) hwalked
  exact ⟨hlists, fun service path => takesOwn_of_lists hplace hlists⟩

/-- Two directories with a report in a file of one name, and another file in one of them. -/
def mixedFiles : FileTree where
  entries := .ofList [(["inbox"], .dir),
    (["inbox", "a.json"], .file (openReport "r" true).toJson.compact),
    (["inbox", "note"], .file ""), (["other"], .dir),
    (["other", "a.json"], .file (openReport "r" false).toJson.compact),
    (["s"], .file siblingsDocument.toJson.pretty)]

/-- An inbox whose path starts with a dot. -/
def dottedInbox : InboxConfig where
  dir := "./inbox"

def dottedBox : Box := { jsonBox "inbox" ["inbox"] with pattern := "./inbox/*.json" }

theorem box_dottedInbox : dottedInbox.box ["inbox"] (Glob.ending ".json".toList) = dottedBox := by
  have hpattern : dottedInbox.globPattern = "./inbox/*.json" := rfl
  have hdir : Glob.walked dottedInbox.dir = "inbox" := rfl
  unfold InboxConfig.box dottedBox jsonBox
  rw [hpattern, hdir]

theorem dottedInbox_readable : dottedInbox.Readable (Glob.ending ".json".toList) where
  dir := by
    refine ⟨by simp [Glob.Plain, dottedInbox], fun n next rest heq => ?_⟩
    have hpieces : Path.pieces dottedInbox.dir = [".", "inbox"] := rfl
    rw [hpieces] at heq
    cases n with
    | zero => simp at heq
    | succ n => simp [List.replicate_succ] at heq
  pattern := by
    have hnames : Glob.NamePattern ("*" ++ ".json") (Glob.ending ".json".toList) :=
      Glob.namePattern_ending (by simp [Glob.Plain]) (by simp) (by decide)
    exact hnames.filePattern
  undotted := rfl
  literal _ hname := nomatch hname

theorem mixedFiles_siblings : HasSiblings mixedFiles := ⟨rfl, rfl, rfl⟩

theorem mixedFiles_dir : mixedFiles.find "inbox" = .ok (["inbox"], .dir) := rfl

theorem mixedFiles_names : dottedBox.names mixedFiles = ["a.json"] :=
  Box.names_of_sorted rfl (by simp)

theorem mixedFiles_waits {name : String} (h : dottedBox.Waits mixedFiles name) :
    name = "a.json" := by
  have hmem : name ∈ dottedBox.names mixedFiles := (Box.mem_names mixedFiles_dir).2 h
  rwa [mixedFiles_names, List.mem_singleton] at hmem

theorem mixedFiles_orderly : dottedBox.Orderly mixedFiles := by
  have hjson : jsonInbox.Orderly mixedFiles := by
    refine orderly_json plainPath_inbox (FileTree.walkable_nil _) mixedFiles_dir
      (fun name hname => ?_) (fun name hname => ?_) fun name hname ending hending => ?_ <;>
      obtain rfl := mixedFiles_waits hname
    · exact ⟨_, rfl⟩
    · decide
    · simp only [endings, List.mem_cons, List.not_mem_nil, or_false] at hending
      rcases hending with rfl | rfl <;> decide
  exact { hjson with reads := box_dottedInbox ▸ dottedInbox_readable.box_reads ["inbox"] }

theorem mixedFiles_found : dottedBox.found mixedFiles = [("a.json", openReport "r" true)] := by
  have hread : readReport mixedFiles (dottedBox.path "a.json") = .ok (openReport "r" true) :=
    Box.readReport_of_text mixedFiles_dir (by decide) (by decide) rfl
  have hreports : ["a.json"].map (dottedBox.report? mixedFiles) = [some (openReport "r" true)] := by
    simp only [List.map_cons, List.map_nil, Box.report?, hread]
    rfl
  exact (Box.found_eq mixedFiles_names hreports).trans rfl

theorem run_openReport (metrics : Metrics) (catalog : Catalog) (rows : ResourceKey → Rows) :
    ((siblingsView metrics catalog rows).run (itemsOf [openReport "r" true])).1.map (·.2) =
      sampleTold.take 1 := by
  have hitems : itemsOf [openReport "r" true] = (itemsOf sampleReports).take 1 := rfl
  rw [hitems, View.run_take, List.map_take, run_sampleReports]

/-- The report of the inbox is taken in, and its file gets a new name. The report beside the inbox
stays, and so does a file in it whose name does not fit. -/
theorem own_files_taken_mixed :
    dottedInbox.Readable (Glob.ending ".json".toList) ∧
      mixedFiles.find dottedInbox.dir = .ok (["inbox"], .dir) ∧
      Inbox.paths mixedFiles "./inbox/*.json" = .ok ["inbox/a.json"] ∧
      ((loadedFrom mixedFiles).takeInbox "./inbox/*.json").1 = .ok 1 ∧
      ∃ left, ((loadedFrom mixedFiles).takeInbox "./inbox/*.json").2.store = .file "s" left ∧
        left.contents ["inbox"] "a.json.done" = mixedFiles.contents ["inbox"] "a.json" ∧
        left.contents ["inbox"] "note" = mixedFiles.contents ["inbox"] "note" ∧
        left.contents ["other"] "a.json" = mixedFiles.contents ["other"] "a.json" := by
  have hdir : mixedFiles.find dottedInbox.dir = .ok (["inbox"], .dir) := rfl
  obtain ⟨hlists, htakes⟩ := own_files_taken dottedInbox_readable hdir
  rw [box_dottedInbox] at hlists
  obtain ⟨hstore, hsure, hobjects, metrics, catalog, rows, hshows⟩ := mixedFiles_siblings.loaded
  have hround := htakes (loadedFrom mixedFiles) "s" hstore
  rw [box_dottedInbox] at hround
  have hpattern : dottedBox.pattern = "./inbox/*.json" := rfl
  generalize loadedFrom mixedFiles = service at hstore hsure hobjects hshows hround ⊢
  obtain ⟨told, after, left, htakesAll, hout, hcleared⟩ :=
    hround.all mixedFiles_orderly (spares_home nofun) service.retry.pauses
  obtain ⟨now, hnow, hunmoved⟩ := hround.elsewhere (fun name hname => by
    obtain rfl := mixedFiles_waits hname
    decide) service.retry.pauses
  rw [hout] at hnow
  obtain rfl : left = now := (Store.file.inj hnow).2
  have hpaths := hlists.paths
  rw [hpattern, mixedFiles_names] at hpaths
  rw [hpattern] at hout
  rw [mixedFiles_found] at htakesAll
  obtain rfl : told = [.ok { merged := 1, changed := 1 }] :=
    (htakesAll.told_eq hshows hsure hobjects.symm).trans (run_openReport ..)
  have hsettled := hcleared.settled
  rw [mixedFiles_found] at hsettled
  have hfirst : left.contents _ (target done "a.json") = _ := hsettled 0 "a.json" _ _ rfl rfl
  have htarget : target done "a.json" = "a.json.done" := by decide
  rw [htarget] at hfirst
  rw [hout]
  refine ⟨dottedInbox_readable, hdir, hpaths.trans (by decide), rfl, left, rfl, hfirst, ?_,
    ?_⟩
  · refine hcleared.others "note" (fun hnote => ?_) fun other hother ending hending => ?_
    · exact absurd (mixedFiles_waits hnote) (by decide)
    · obtain rfl := mixedFiles_waits hother
      simp only [endings, List.mem_cons, List.not_mem_nil, or_false] at hending
      rcases hending with rfl | rfl <;> decide
  · refine hunmoved.entry ["other", "a.json"] ⟨fun name => ?_, ?_, ?_⟩
    · simp [dottedBox, jsonBox]
    · decide
    · decide

/-- Two directories, where the name of one can be read as a pattern that the other one fits. -/
def classFiles : FileTree where
  entries := .ofList [(["in1"], .dir), (["in1", "b.json"], .file ""), (["in[1]"], .dir),
    (["in[1]", "a.json"], .file "")]

/-- The file of the directory is passed over, and one of another directory is taken for it. -/
theorem bracketed_passed_over :
    classFiles.find ({ dir := "in[1]" } : InboxConfig).dir = .ok (["in[1]"], .dir) ∧
      classFiles.contents ["in[1]"] "a.json" = some (.file "") ∧
      Inbox.paths classFiles ({ dir := "in[1]" } : InboxConfig).globPattern =
        .ok ["in1/b.json"] := by
  have hfind : Glob.find classFiles ({ dir := "in[1]" } : InboxConfig).globPattern =
      .ok ["in1/b.json"] := by decide +kernel
  refine ⟨by decide, by decide, ?_⟩
  unfold Inbox.paths
  rw [hfind]
  exact congrArg Except.ok (List.mergeSort_singleton _)

end Service
end BlockStack
