import BlockStack.Arguments
import BlockStack.Service
import BlockStack.Inbox

/-!
# BlockStack.Program

What the program does before it serves, on the files of a working directory.

* `Program.start`: a controller for some settings, which says hello in the log.
* `Program.prepare`: read what the backend knows and load the document.
* `Program.summarize`, `Program.mergeFile`: the two commands that end at once.
* `Program.run`: the whole of such a run.
-/

namespace BlockStack
namespace Program

def version : String := "0.1.0"

/-- A controller for some settings, which says hello in the log. -/
def start (config : Config) (files : FileTree) : Service :=
  let service : Service := {
    retry := config.retry
    tolerance := config.toleranceFactor
    store := .file config.recordsPath files
    backend := { name := "facts" } }
  let hello (message : String) (service : Service) : Service :=
    service.note .info .program message
  hello s!"  Tolerance factor: {config.toleranceFactor}" <|
    hello s!"  Records: {config.recordsPath}" <|
      hello s!"  Version: {version}" <|
        hello "Starting Layer-Stack Controller" service

def readFacts (files : FileTree) (path : String) : Except Fault FactsMap :=
  match files.read path with
  | .error cause => .error (.io cause)
  | .ok text =>
    match (Json.parse text).bind FactsMap.ofJson? with
    | some facts => .ok facts
    | none => .error .json

def giveFacts (service : Service) : Option String → Except Fault Unit × Service
  | none => (.ok (), service)
  | some path =>
    match readFacts service.store.files path with
    | .error fault => (.error fault, service)
    | .ok facts =>
      let service := { service with backend := { service.backend with objects := facts } }
      (.ok (), service.note .info .backend "Loaded backend facts"
        [("backend", .text service.backend.name), ("path", .text path)])

/-- Read what the backend knows and load the document. -/
def prepare (config : Config) (files : FileTree) : Except Fault Nat × Service :=
  match giveFacts (start config files) config.factsPath with
  | (.error fault, service) => (.error fault, service)
  | (.ok (), service) => service.load

def describe (service : Service) (resource : Resource) : Service :=
  service.note .info .program "Resource"
    [("resource", .text resource.key.text),
      ("stack", .text (",".intercalate (resource.metadata.layerStack.map LayerKind.name))),
      ("diskless", .flag resource.metadata.diskless),
      ("volumes", .number resource.metadata.volumeNumbers.size)]

def summarize (service : Service) : Service :=
  let registry := service.registry
  registry.resources.values.foldl describe
    (service.note .info .program "Layer graph loaded"
      [("resources", .number registry.resources.size), ("layers", .number registry.layers)])

def mergeFile (service : Service) (path : String) : Except Fault Unit × Service :=
  match Inbox.readReport service.store.files path with
  | .error fault => (.error fault, service)
  | .ok report =>
    match service.handle report with
    | (.error fault, service) => (.error fault, service)
    | (.ok summary, service) =>
      (.ok (), service.note .info .program "Report merged"
        [("report", .text path), ("merged", .number summary.merged),
          ("tolerated", .number summary.tolerated), ("changed", .number summary.changed),
          ("drift", .number summary.drift.length)])

/-- Do what a command asks for; one that serves goes on after that. -/
def execute (service : Service) : Command → Except Fault Unit × Service
  | .load => (.ok (), summarize service)
  | .merge path => mergeFile service path
  | .serve .. => (.ok (), service)

/-- How a run ended: the settings if they could be read, the fault that ended it if there was one,
and the controller if there was one by then. -/
structure Ending where
  config : Option Config := none
  fault : Option Fault := none
  service : Option Service := none

/-- Make a controller and load the document. -/
def load (arguments : Arguments) (files : FileTree) : Ending :=
  match arguments.settings files with
  | .error fault => { fault := some fault }
  | .ok config =>
    match config.validate with
    | .error fault => { config := some config, fault := some fault }
    | .ok () =>
      match prepare config files with
      | (.error fault, service) =>
        { config := some config, fault := some fault, service := some service }
      | (.ok _, service) => { config := some config, service := some service }

/-- Make a controller, load the document and do what the command asks for. -/
def run (arguments : Arguments) (files : FileTree) : Ending :=
  match load arguments files with
  | { config, fault := none, service := some service } =>
    match execute service arguments.command with
    | (.error fault, service) => { config, fault := some fault, service := some service }
    | (.ok (), service) => { config, service := some service }
  | ending => ending

end Program
end BlockStack
