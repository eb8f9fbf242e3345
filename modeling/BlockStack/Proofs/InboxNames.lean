import BlockStack.Inbox
import BlockStack.Proofs.Walks
import BlockStack.Proofs.WireReport

/-!
# BlockStack.Proofs.InboxNames

Names of files in an inbox: those that wait, and those they get.

* `Inbox.Box`: an inbox as its pattern is read: a directory and tokens for names.
* `Box.paths_eq`: its paths are those of the names that wait. `Box.readReport_of_text`: the report in
  a file.
* `Box.Orderly`: the new names fit no tokens, no two are the same, and all can be made.
* `Inbox.orderly_json`: if all files that end in `.json` wait, only two names are in the way.
-/

namespace BlockStack

namespace Path

/-! ## The order of paths -/

instance : Std.TransCmp comparePart :=
  inferInstanceAs (Std.TransCmp (compareLex (compareOn rank) compare))

theorem order_trans {a b c : String} (hab : (order a b).isLE = true)
    (hbc : (order b c).isLE = true) : (order a c).isLE = true :=
  (inferInstance : Std.TransCmp (List.compareLex comparePart)).isLE_trans hab hbc

theorem order_total (a b : String) : ((order a b).isLE || (order b a).isLE) = true := by
  have hswap : order b a = (order a b).swap :=
    (inferInstance : Std.OrientedCmp (List.compareLex comparePart)).eq_swap
  rw [hswap]
  cases order a b <;> rfl

end Path

namespace Inbox

/-- An inbox as its pattern is read: the directory that is looked through, its place, and the tokens
that names have to fit. -/
structure Box where
  pattern : String
  dir : String
  place : Place
  tokens : List Glob.Token

/-- The endings of files that were dealt with. -/
def endings : List String := [done, failed]

theorem failed_mem : failed ∈ endings := by simp [endings]

theorem endingFor_mem (result : Except Fault MergeSummary) : endingFor result ∈ endings := by
  cases result <;> simp [endingFor, endings]

/-- The new name of a file that was dealt with. -/
def target (ending name : String) : String := Path.replaceExtension ending name

/-- The pattern leads to those entries of the directory whose names fit the tokens, and to neither
the directory itself nor the one above. -/
structure Box.Reads (box : Box) : Prop where
  find : ∀ files : FileTree, files.leadsToDir box.dir = true →
    Glob.find files box.pattern = .ok (Glob.entriesOf files box.tokens box.dir)
  undotted : Glob.dotNames box.tokens = []

namespace Box

/-- A file is waiting in an inbox under a name. -/
def Waits (box : Box) (files : FileTree) (name : String) : Prop :=
  Glob.accepts box.tokens name.toList = true ∧ files.contents box.place name ≠ none

/-- The path to a file in an inbox. -/
def path (box : Box) (name : String) : String := Glob.inside box.dir name

/-- The names of all files that are waiting, in the order of their paths. -/
def names (box : Box) (files : FileTree) : List String :=
  ((Glob.namesIn files box.dir).filter (fun name => Glob.accepts box.tokens name.toList)).mergeSort
    (fun a b => (Path.order (box.path a) (box.path b)).isLE)

/-- The report in a file, if it holds one. -/
def report? (box : Box) (files : FileTree) (name : String) : Option Report :=
  (readReport files (box.path name)).toOption

/-- The reports that are waiting, with the names of their files. -/
def found (box : Box) (files : FileTree) : List (String × Report) :=
  (box.names files).filterMap (fun name => (box.report? files name).map (name, ·))

/-- Files are waiting under names that paths can end in, and so can the new names of these, which
are all different and no names for reports. No directory stands where a file is waiting, or where it
is to go. -/
structure Orderly (box : Box) (files : FileTree) : Prop where
  reads : box.Reads
  home : files.Walkable files.home
  dir : files.find box.dir = .ok (box.place, .dir)
  text : ∀ name, box.Waits files name → ∃ text, files.contents box.place name = some (.file text)
  source : ∀ name, box.Waits files name → FileTree.Enters box.dir name
  target : ∀ name, box.Waits files name → ∀ ending ∈ endings,
    FileTree.Enters box.dir (target ending name) ∧
      files.contents box.place (target ending name) ≠ some .dir ∧
      Glob.accepts box.tokens (Inbox.target ending name).toList = false
  apart : ∀ a b, box.Waits files a → box.Waits files b → ∀ ending ∈ endings, ∀ ending' ∈ endings,
    Inbox.target ending a = Inbox.target ending' b → a = b

variable {box : Box} {files : FileTree} {name : String}

theorem mem_names (hdir : files.find box.dir = .ok (box.place, .dir)) :
    name ∈ box.names files ↔ box.Waits files name := by
  rw [names, List.mem_mergeSort, List.mem_filter, Glob.mem_namesIn hdir, and_comm]
  rfl

theorem nodup_names (hdir : files.find box.dir = .ok (box.place, .dir)) :
    (box.names files).Nodup :=
  (List.mergeSort_perm _ _).nodup_iff.2 ((Glob.nodup_namesIn hdir).filter _)

theorem names_sorted : (box.names files).Pairwise
    (fun a b => (Path.order (box.path a) (box.path b)).isLE = true) := by
  rw [names]
  generalize List.filter _ _ = unsorted
  refine List.pairwise_mergeSort (fun a b c => ?_) (fun a b => ?_) unsorted
  · exact Path.order_trans
  · exact Path.order_total ..

theorem names_of_sorted {sorted : List String}
    (hfits : (Glob.namesIn files box.dir).filter
      (fun name => Glob.accepts box.tokens name.toList) = sorted)
    (hsorted : sorted.Pairwise (fun a b => (Path.order (box.path a) (box.path b)).isLE = true)) :
    box.names files = sorted := by
  rw [names, hfits]
  exact List.mergeSort_of_pairwise hsorted

/-- The paths of an inbox are those of the names that are waiting. -/
theorem paths_eq (hreads : box.Reads) (hdir : files.find box.dir = .ok (box.place, .dir)) :
    Inbox.paths files box.pattern = .ok ((box.names files).map box.path) := by
  have hleads : files.leadsToDir box.dir = true := by
    unfold FileTree.leadsToDir
    rw [hdir]
  have hentries : Glob.entriesOf files box.tokens box.dir =
      ((Glob.namesIn files box.dir).filter
        (fun name => Glob.accepts box.tokens name.toList)).map box.path := by
    unfold Glob.entriesOf
    rw [hreads.undotted, if_pos hleads]
    rfl
  unfold Inbox.paths
  rw [hreads.find files hleads, hentries]
  dsimp only
  exact congrArg Except.ok (List.map_mergeSort (f := box.path) fun _ _ _ _ => rfl).symm

/-- The files that hold reports are those among the waiting files. -/
theorem found_names : (box.found files).map (·.1) =
    (box.names files).filter (fun name => (box.report? files name).isSome) := by
  unfold found
  generalize box.names files = names
  induction names with
  | nil => rfl
  | cons name rest ih =>
    rw [List.filterMap_cons, List.filter_cons]
    cases hreport : box.report? files name with
    | none => exact ih
    | some report => exact congrArg (name :: ·) ih

/-- The paths of the files that hold reports, with the reports. -/
theorem found_paths : (box.names files).filterMap
    (fun name => (box.report? files name).map (box.path name, ·)) =
      (box.found files).map (fun e => (box.path e.1, e.2)) := by
  rw [found, List.map_filterMap]
  exact List.filterMap_congr fun name _ => by rw [Option.map_map, Function.comp_def]

/-- The reports that are found in some files. -/
theorem found_eq {names : List String} {reports : List (Option Report)}
    (hnames : box.names files = names) (hreports : names.map (box.report? files) = reports) :
    box.found files = (names.zip reports).filterMap (fun e => e.2.map (e.1, ·)) := by
  rw [found, hnames, ← hreports, ← List.map_prod_left_eq_zip, List.filterMap_map, Function.comp_def]

/-- A file with the text of a report holds that report. -/
theorem readReport_of_text {report : Report} (hdir : files.find box.dir = .ok (box.place, .dir))
    (henters : FileTree.Enters box.dir name) (hdepth : report.toJson.depth ≤ Json.maxDepth)
    (hfile : files.contents box.place name = some (.file report.toJson.compact)) :
    readReport files (box.path name) = .ok report := by
  have hleads := henters.leadsTo hdir
  have hread : files.read (box.path name) = .ok report.toJson.compact :=
    FileTree.read_file hleads.resolve hleads.named rfl hleads.short hfile
  simp only [readReport, hread, Report.parse_compact_of_depth hdepth]

end Box

/-- A file of a directory gets a new ending. -/
theorem setEnding_inside {box : Box} {now : FileTree} {name ending text : String}
    (hdir : now.find box.dir = .ok (box.place, .dir)) (hsource : FileTree.Enters box.dir name)
    (htarget : FileTree.Enters box.dir (target ending name))
    (hfile : now.contents box.place name = some (.file text))
    (hfree : now.contents box.place (target ending name) ≠ some .dir)
    (hne : name ≠ target ending name) :
    setEnding now ending (box.path name) =
      .ok (now.move (box.place ++ [name]) (box.place ++ [target ending name])) := by
  unfold setEnding Box.path
  rw [Path.replaceExtension_inside hsource.named hsource.plain htarget.plain]
  exact FileTree.rename_inside hfile hfree hne (hsource.leadsTo hdir) (htarget.leadsTo hdir)

/-! ## Files that end in `.json` -/

/-- The inbox of all files in a directory whose names end in `.json`. -/
def jsonBox (dir : String) (place : Place) : Box where
  pattern := Path.join dir "*.json"
  dir := dir
  place := place
  tokens := Glob.ending ".json".toList

variable {dir name ending : String} {place : Place} {files : FileTree}

theorem jsonBox_reads {absolute : Bool} {names : List String}
    (hdir : Glob.PlainPath absolute names dir) : (jsonBox dir place).Reads where
  find _ hleads := by
    have hpattern : Glob.NamePattern ("*" ++ ".json") (Glob.ending ".json".toList) :=
      Glob.namePattern_ending (by simp [Glob.Plain]) (by simp) (by decide)
    exact Glob.find_join hdir hpattern hleads
  undotted := rfl

theorem accepts_json : Glob.accepts (jsonBox dir place).tokens name.toList = true ↔
    ".json".toList <:+ name.toList :=
  Glob.accepts_ending ..

/-- A name that ends in `.json` is the start of its new names, unless nothing or only a dot stands
before that. -/
theorem target_json (hfits : ".json".toList <:+ name.toList) (hslash : '/' ∉ name.toList)
    (hdot : name ≠ ".json") (hdots : name ≠ "..json") (hending : ending ∈ endings) :
    ∃ mark ∈ [".done", ".failed"], target ending name = name ++ mark := by
  obtain ⟨before, hname⟩ := hfits
  have hlist : name = String.ofList (before ++ '.' :: "json".toList) := by
    rw [← String.ofList_toList (s := name), ← hname]
    rfl
  have hne : before ≠ [] := by
    rintro rfl
    exact hdot hlist
  have honly : before ≠ ['.'] := by
    rintro rfl
    exact hdots hlist
  have hnamed : Path.isName name = true := by
    rw [hlist]
    refine Path.isName_iff.2 ⟨by simp, fun h => ?_, fun h => ?_⟩ <;>
      simpa using congrArg List.length h
  have hends : Path.EndsIn name [] (before ++ '.' :: "json".toList) :=
    ⟨by rw [hlist]; simp, .inl rfl, by rw [hlist, String.toList_ofList] at hslash; exact hslash⟩
  have hsome := Path.extension?_last hne (show '.' ∉ "json".toList by decide)
  have htarget : (target ending name).toList = before ++ '.' :: ending.toList := by
    rw [target, hends.replaceExtension_front hne honly (hlist ▸ hnamed) hsome, String.toList_ofList,
      List.nil_append]
  simp only [endings, List.mem_cons, List.not_mem_nil, or_false] at hending
  rcases hending with rfl | rfl
  · refine ⟨".done", by simp, String.toList_inj.1 ?_⟩
    rw [htarget, String.toList_append, ← hname]
    simp [done]
  · refine ⟨".failed", by simp, String.toList_inj.1 ?_⟩
    rw [htarget, String.toList_append, ← hname]
    simp [failed]

/-- New names of files that end in `.json` are in the way of nothing but where these files are named
by that alone, or by a dot and that. -/
theorem orderly_json {absolute : Bool} {names : List String}
    (hpath : Glob.PlainPath absolute names dir) (hhome : files.Walkable files.home)
    (hdir : files.find dir = .ok (place, .dir))
    (htext : ∀ name, (jsonBox dir place).Waits files name →
      ∃ text, files.contents place name = some (.file text))
    (hnamed : ∀ name, (jsonBox dir place).Waits files name →
      FileTree.Enters dir name ∧ name ≠ ".json" ∧ name ≠ "..json")
    (htarget : ∀ name, (jsonBox dir place).Waits files name → ∀ ending ∈ endings,
      FileTree.Enters dir (target ending name) ∧
        files.contents place (target ending name) ≠ some .dir) :
    (jsonBox dir place).Orderly files where
  reads := jsonBox_reads hpath
  home := hhome
  dir := hdir
  text := htext
  source name hwaits := (hnamed name hwaits).1
  target name hwaits ending hending := by
    obtain ⟨henters, hdot, hdots⟩ := hnamed name hwaits
    obtain ⟨hnew, hfree⟩ := htarget name hwaits ending hending
    refine ⟨hnew, hfree, ?_⟩
    obtain ⟨mark, hmark, heq⟩ :=
      target_json (accepts_json.1 hwaits.1) henters.plain hdot hdots hending
    rw [Bool.eq_false_iff, ne_eq, accepts_json, heq]
    rintro ⟨start, hstart⟩
    have hlast := congrArg List.getLast? hstart
    simp only [List.mem_cons, List.not_mem_nil, or_false] at hmark
    rcases hmark with rfl | rfl <;> simp at hlast
  apart a b ha hb ending hending ending' hending' hsame := by
    obtain ⟨haenters, hadot, hadots⟩ := hnamed a ha
    obtain ⟨hbenters, hbdot, hbdots⟩ := hnamed b hb
    obtain ⟨mark, hmark, heq⟩ :=
      target_json (accepts_json.1 ha.1) haenters.plain hadot hadots hending
    obtain ⟨mark', hmark', heq'⟩ :=
      target_json (accepts_json.1 hb.1) hbenters.plain hbdot hbdots hending'
    rw [heq, heq'] at hsame
    have htext := congrArg String.toList hsame
    have hlast := congrArg List.getLast? htext
    simp only [List.mem_cons, List.not_mem_nil, or_false] at hmark hmark'
    -- the last letter tells the two marks apart
    have hmarks : mark = mark' := by
      rcases hmark with rfl | rfl <;> rcases hmark' with rfl | rfl <;> simp at hlast ⊢
    rw [hmarks, String.toList_append, String.toList_append] at htext
    exact String.toList_inj.1 (List.append_cancel_right htext)

end Inbox
end BlockStack
