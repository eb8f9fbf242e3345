import BlockStack.Batch
import BlockStack.Config
import BlockStack.Glob
import BlockStack.Wire.Report

/-!
# BlockStack.Inbox

Taking in the reports that were dropped into a directory.

* `Inbox.paths`: the paths that the pattern of an inbox leads to, in their order.
* `Service.sortOut`: the reports in the files; a file that holds none is put aside at once.
* `Service.takeInbox`: one round. The reports are taken in together, and each file is renamed by
  how that ended, so that the pattern for reports no longer fits it.
-/

namespace BlockStack

namespace Inbox

/-- How a file is named whose report was taken in. -/
def done : String := "json.done"

/-- How a file is named whose report was not taken in. -/
def failed : String := "json.failed"

/-- The paths that a pattern leads to, in their order. -/
def paths (files : FileTree) (pattern : String) : Except Fault (List String) :=
  match Glob.find files pattern with
  | .error e => .error (.configuration s!"Invalid inbox pattern {pattern}: {e.text}")
  | .ok paths => .ok (paths.mergeSort (fun a b => (Path.order a b).isLE))

def readReport (files : FileTree) (path : String) : Except Fault Report :=
  match files.read path with
  | .error cause => .error (.io cause)
  | .ok text =>
    match (Json.parse text).bind Report.ofJson? with
    | some report => .ok report
    | none => .error .json

def setEnding (files : FileTree) (ending path : String) : Except IoFault FileTree :=
  files.rename path (Path.replaceExtension ending path)

/-- The ending that tells how a report was dealt with. -/
def endingFor : Except Fault MergeSummary → String
  | .ok _ => done
  | .error _ => failed

end Inbox

namespace Service

def setEnding (service : Service) (ending path : String) : Except Fault Service :=
  match Inbox.setEnding service.store.files ending path with
  | .error cause => .error (.io cause)
  | .ok files => .ok { service with store := service.store.withFiles files }

/-- The reports in some files, with their paths. A file without a report is put aside. -/
def sortOut (service : Service) : List String → Except Fault (List (String × Report)) × Service
  | [] => (.ok [], service)
  | path :: rest =>
    match Inbox.readReport service.store.files path with
    | .ok report =>
      match service.sortOut rest with
      | (.ok found, service) => (.ok ((path, report) :: found), service)
      | (.error fault, service) => (.error fault, service)
    | .error fault =>
      let noted := service.note .warn .program "Discarding unreadable report"
        [("path", .text path), ("error", .text fault.message)]
      match noted.setEnding Inbox.failed path with
      | .ok service => service.sortOut rest
      | .error fault => (.error fault, noted)

/-- Rename the files of reports by how these were dealt with, up to the first that cannot be. -/
def finish (service : Service) :
    List (String × Except Fault MergeSummary) → Except Fault Unit × Service
  | [] => (.ok (), service)
  | (path, result) :: rest =>
    match service.setEnding (Inbox.endingFor result) path with
    | .ok service => service.finish rest
    | .error fault => (.error fault, service)

/-- One round of an inbox; it tells how many reports were taken in. -/
def takeInbox (service : Service) (pattern : String)
    (pauses : Pauses := service.retry.pauses) : Except Fault Nat × Service :=
  match Inbox.paths service.store.files pattern with
  | .error fault => (.error fault, service)
  | .ok paths =>
    match service.sortOut paths with
    | (.error fault, service) => (.error fault, service)
    | (.ok found, service) =>
      let (results, service) := service.handleAll (found.map (·.2)) pauses
      match service.finish ((found.map (·.1)).zip results) with
      | (.error fault, service) => (.error fault, service)
      | (.ok (), service) => (.ok (results.countP Except.isOk), service)

end Service
end BlockStack
