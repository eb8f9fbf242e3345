import BlockStack.CommandLine
import BlockStack.Config
import BlockStack.Log.Filter

/-!
# BlockStack.Arguments

What the program is asked to do.

* `Arguments`: the options of the program and its command.
* `Arguments.read`: arguments, and variables of the environment for what they leave open.
* `Arguments.settings`: the settings of a file or the usual ones, with what the arguments replace.
-/

namespace BlockStack

/-- What the program does: tell what was loaded, take one report in, or serve. -/
inductive Command where
  | load
  | merge (report : String)
  | serve (inbox healthAddr metricsAddr : Option String)
  deriving DecidableEq, Repr

/-- What the program is asked to do. -/
structure Arguments where
  config : Option String := none
  records : Option String := none
  facts : Option String := none
  toleranceFactor : Option UInt64 := none
  logLevel : String := "info"
  logJson : Bool := false
  command : Command
  deriving DecidableEq, Repr

namespace Arguments

def form : Form where
  name := "layerstack-controller"
  options := [
    { name := "config", value := .path, envVar := "LAYERSTACK_CONFIG" },
    { name := "records", value := .path, envVar := "LAYERSTACK_RECORDS" },
    { name := "facts", value := .path, envVar := "LAYERSTACK_FACTS" },
    { name := "tolerance-factor", value := .number, envVar := "LAYERSTACK_TOLERANCE_FACTOR" },
    { name := "log-level", value := .text, envVar := "LOG_LEVEL" }]
  switches := [{ name := "log-json", envVar := "LOG_JSON" }]
  hasVersion := true

def loadForm : Form where
  name := "load"

def mergeForm : Form where
  name := "merge"
  options := [{ name := "report", value := .path, required := true }]

def serveForm : Form where
  name := "serve"
  options := [
    { name := "inbox", value := .path, envVar := "LAYERSTACK_INBOX" },
    { name := "health-addr", value := .text, envVar := "HEALTH_ADDR" },
    { name := "metrics-addr", value := .text, envVar := "METRICS_ADDR" }]

def envVars : List String :=
  [form, loadForm, mergeForm, serveForm].flatMap (fun f =>
    f.options.filterMap (·.envVar) ++ f.switches.filterMap (·.envVar))

def commandOf (name : String) (given : Given) : Option Command :=
  if name = loadForm.name then some .load
  else if name = mergeForm.name then (given.value? "report").map .merge
  else if name = serveForm.name then
    some (.serve (given.value? "inbox") (given.value? "health-addr") (given.value? "metrics-addr"))
  else none

def read (environment : String → Option String) (arguments : List String) :
    Except Usage Arguments :=
  match CommandLine.read form [loadForm, mergeForm, serveForm] environment arguments with
  | .error usage => .error usage
  | .ok line =>
    match commandOf line.command line.ofCommand with
    | none => .error .missingCommand
    | some command =>
      .ok {
        config := line.given.value? "config"
        records := line.given.value? "records"
        facts := line.given.value? "facts"
        toleranceFactor := (line.given.value? "tolerance-factor").bind Numeral.read64?
        logLevel := (line.given.value? "log-level").getD "info"
        logJson := line.given.isSet "log-json"
        command }

/-- Which entries of the log are written; an unknown level stands for information. -/
def logFilter (arguments : Arguments) (rules : String) : Log.Filter :=
  .make rules ((Log.Level.ofName? arguments.logLevel).getD .info)

end Arguments

def InboxConfig.withDir (inbox : InboxConfig) : Option String → InboxConfig
  | some dir => { inbox with dir }
  | none => inbox

namespace Config

def withCommand (config : Config) : Command → Config
  | .load | .merge _ => config
  | .serve inbox healthAddr metricsAddr =>
    { config with
      inbox := config.inbox.withDir inbox
      healthAddr := healthAddr.getD config.healthAddr
      metricsAddr := metricsAddr.getD config.metricsAddr }

def withArguments (config : Config) (arguments : Arguments) : Config :=
  { config.withCommand arguments.command with
    recordsPath := arguments.records.getD config.recordsPath
    factsPath := arguments.facts.or config.factsPath
    toleranceFactor := arguments.toleranceFactor.getD config.toleranceFactor }

end Config

/-- The settings of the file that the arguments name, or the usual ones, with what the arguments
replace. -/
def Arguments.settings (arguments : Arguments) (files : FileTree) : Except Fault Config :=
  match arguments.config with
  | none => .ok (({} : Config).withArguments arguments)
  | some path =>
    match Config.ofFile files path with
    | .error fault => .error fault
    | .ok config => .ok (config.withArguments arguments)

end BlockStack
