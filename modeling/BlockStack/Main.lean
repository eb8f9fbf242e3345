import BlockStack.Log.Line
import BlockStack.Serve

/-!
# BlockStack.Main

The program on real files. The files that a run can touch are read first, the run itself is worked
out on them, and what it changed is written back; every changed file is written beside its place
and then renamed to it.

The two servers need sockets, which are out of reach here; `Http` tells what they answer.
-/

namespace BlockStack
namespace Main

/-- The variable of the environment that holds the rules of the log. -/
def rulesVariable : String := "RUST_LOG"

/-- The variables of the environment that matter, with their values. -/
def readEnvironment : IO (List (String × String)) := do
  let found ← (rulesVariable :: Arguments.envVars).mapM (fun name => do
    return (← IO.getEnv name).map (name, ·))
  return found.filterMap id

def readHome : IO Place := do
  return (Path.pieces (← IO.currentDir).toString).filter Path.isName

/-- Put what a path leads to into a tree of files. -/
def take (tree : FileTree) (path : String) : IO FileTree := do
  let file := (← IO.currentDir) / path
  if ← file.isDir then return tree.plantAt (tree.nominal path) .dir
  else if ← file.pathExists then return tree.plant path (← IO.FS.readFile file)
  else return tree

/-- Put the entries of a directory, and all that is below them, into a tree of files. -/
partial def takeEntries (tree : FileTree) (place : Place) (entries : Array IO.FS.DirEntry) :
    IO FileTree :=
  entries.foldlM (fun tree entry => do
    let below := place ++ [entry.fileName]
    if ← entry.path.isDir then
      takeEntries (tree.plantAt below .dir) below (← entry.path.readDir)
    else return tree.plantAt below (.file (← IO.FS.readFile entry.path))) tree

/-- Put a directory, and all that is below it, into a tree of files. -/
def takeDir (tree : FileTree) (path : String) : IO FileTree := do
  let dir := (← IO.currentDir) / path
  let place := tree.nominal path
  if ← dir.isDir then takeEntries (tree.plantAt place .dir) place (← dir.readDir)
  else take tree path

def pathOf (place : Place) : String := "/" ++ "/".intercalate place

def writeBack (before after : FileTree) : IO Unit := do
  for (place, entry) in after.entries.entries do
    if before.entry? place ≠ some entry then
      match entry with
      | .dir => IO.FS.createDirAll (pathOf place)
      | .file text =>
        let beside := pathOf place ++ ".new"
        IO.FS.writeFile beside text
        IO.FS.rename beside (pathOf place)
  for (place, entry) in before.entries.entries do
    match entry, after.entry? place with
    | .file _, none => IO.FS.removeFile (pathOf place)
    | _, _ => pure ()

def writeLog (arguments : Arguments) (filter : Log.Filter) (service : Service) : IO Service := do
  for entry in service.log do
    if filter.allows entry then
      IO.println (if arguments.logJson then entry.toJson.compact else entry.line)
  (← IO.getStdout).flush
  return { service with log := [], events := [] }

/-- Serve without an end: the inbox is looked through in every round, pools are refreshed when
their time has come. -/
partial def keepServing (arguments : Arguments) (filter : Log.Filter) (config : Config)
    (service : Service) (poolsDue : Nat) : IO Unit := do
  let now ← IO.monoMsNow
  let due := poolsDue ≤ now
  let service := if due then service.react config.inbox .poolsDue else service
  let before ← takeDir service.store.files config.inbox.dir
  let there := { service with store := service.store.withFiles before }
  let service ← writeLog arguments filter (there.react config.inbox .inboxDue)
  writeBack before service.store.files
  IO.sleep (UInt32.ofNat (min config.inbox.pollIntervalMs.toNat (UInt32.size - 1)))
  let next := if due then now + config.poolRefreshIntervalMs.toNat else poolsDue
  keepServing arguments filter config service next

/-- Serve, once the document is loaded. -/
def serve (arguments : Arguments) (filter : Log.Filter) (config : Config) (service : Service) :
    IO (Option Fault) := do
  let before := service.store.files
  let (result, opened) := service.startServing config
  let service ← writeLog arguments filter opened
  match result with
  | .error fault => return some fault
  | .ok () =>
    writeBack before service.store.files
    keepServing arguments filter config service 0
    return none

def named (arguments : Arguments) (config : Config) : List String :=
  let report := match arguments.command with
    | .merge path => [path]
    | .load | .serve .. => []
  config.recordsPath :: config.factsPath.toList ++ report

def takeFiles (arguments : Arguments) : IO FileTree := do
  let start := FileTree.empty (← readHome)
  let withConfig ← arguments.config.toList.foldlM take start
  match arguments.settings withConfig with
  | .error _ => return withConfig
  | .ok config =>
    let tree ← (named arguments config).foldlM take withConfig
    match arguments.command with
    | .serve .. => takeDir tree config.inbox.dir
    | .load | .merge _ => return tree

/-- Run the program and tell which fault ended it. -/
def run (arguments : Arguments) (filter : Log.Filter) : IO (Option Fault) := do
  let files ← takeFiles arguments
  let ending := Program.run arguments files
  match ending.service with
  | none => return ending.fault
  | some service =>
    let service ← writeLog arguments filter service
    writeBack files service.store.files
    match ending.fault, arguments.command, ending.config with
    | none, .serve .., some config => serve arguments filter config service
    | fault, _, _ => return fault

def help : String := "Usage: layerstack-controller [OPTIONS] <COMMAND>

Commands:
  load   Load the persisted graph and summarize it
  merge  Merge one satellite report (--report <REPORT>) and persist the result
  serve  Merge reports dropped into the inbox
  help   Print this message

Options:
      --config <CONFIG>                      YAML configuration file
      --records <RECORDS>                    JSON document holding the persisted records
      --facts <FACTS>                        JSON file with backend facts
      --tolerance-factor <TOLERANCE_FACTOR>  Extents a storage volume may overshoot by
      --log-level <LOG_LEVEL>                Log level (trace, debug, info, warn, error)
      --log-json                             Output logs as JSON
  -h, --help                                 Print help
  -V, --version                              Print version"

/-- Answer to arguments that start nothing. -/
def answer (usage : Usage) : IO Unit :=
  match usage with
  | .displayHelp => IO.println help
  | .displayVersion => IO.println s!"layerstack-controller {Program.version}"
  | _ => IO.eprintln s!"error: {usage.name}\n\n{help}"

/-- The whole program: its exit code is 2 for arguments that it does not accept, and 1 after a
fault. -/
def start (args : List String) : IO UInt32 := do
  let found ← readEnvironment
  let environment (name : String) : Option String := found.lookup name
  match Arguments.read environment args with
  | .error usage =>
    answer usage
    return UInt32.ofNat usage.exitCode
  | .ok arguments =>
    let filter := arguments.logFilter ((environment rulesVariable).getD "")
    match ← run arguments filter with
    | none => return 0
    | some fault =>
      IO.eprintln s!"Error: {fault.message}"
      return 1

end Main
end BlockStack

/-- The program. -/
def main (args : List String) : IO UInt32 := BlockStack.Main.start args
