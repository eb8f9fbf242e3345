import BlockStack.FileTree
import BlockStack.Retry
import BlockStack.Size
import BlockStack.Yaml.Reader

/-!
# BlockStack.Config

The settings of the controller, as they are read from YAML text.

* `Config`: all settings with their defaults.
* `Config.validate`: the settings that make no sense, in the order in which they are told.
* `Config.ofYaml`, `Config.ofFile`: settings from a text and from a file.
-/

namespace BlockStack

/-- Where reports are dropped. -/
structure InboxConfig where
  dir : String := "inbox"
  pattern : String := "*.json"
  pollIntervalMs : UInt64 := 1000
  deriving DecidableEq, Repr, Inhabited

/-- The pattern of the paths of report files. -/
def InboxConfig.globPattern (inbox : InboxConfig) : String := Path.join inbox.dir inbox.pattern

/-- The settings of the controller. -/
structure Config where
  toleranceFactor : UInt64 := Sizes.defaultTolerance
  retry : RetryPolicy := {}
  recordsPath : String := "records.json"
  factsPath : Option String := none
  inbox : InboxConfig := {}
  poolRefreshIntervalMs : UInt64 := 60000
  healthAddr : String := "0.0.0.0:8081"
  metricsAddr : String := "0.0.0.0:8080"
  deriving DecidableEq, Repr, Inhabited

namespace RetryPolicy

def ofYaml? (v : Yaml) : Option RetryPolicy :=
  match v.slots ["max_attempts", "initial_interval_ms", "max_interval_ms", "call_timeout_ms"] with
  | some [maxAttempts, initialIntervalMs, maxIntervalMs, callTimeoutMs] => do
    let default : RetryPolicy := {}
    let maxAttempts ← Yaml.withDefault default.maxAttempts Yaml.asUInt32? maxAttempts
    let initialIntervalMs ←
      Yaml.withDefault default.initialIntervalMs Yaml.asUInt64? initialIntervalMs
    let maxIntervalMs ← Yaml.withDefault default.maxIntervalMs Yaml.asUInt64? maxIntervalMs
    let callTimeoutMs ← Yaml.withDefault default.callTimeoutMs Yaml.asUInt64? callTimeoutMs
    pure { maxAttempts, initialIntervalMs, maxIntervalMs, callTimeoutMs }
  | _ => none

end RetryPolicy

namespace InboxConfig

def ofYaml? (v : Yaml) : Option InboxConfig :=
  match v.slots ["dir", "pattern", "poll_interval_ms"] with
  | some [dir, pattern, pollIntervalMs] => do
    let default : InboxConfig := {}
    let dir ← Yaml.withDefault default.dir Yaml.asText? dir
    let pattern ← Yaml.withDefault default.pattern Yaml.asText? pattern
    let pollIntervalMs ← Yaml.withDefault default.pollIntervalMs Yaml.asUInt64? pollIntervalMs
    pure { dir, pattern, pollIntervalMs }
  | _ => none

end InboxConfig

namespace Config

def ofYaml? (v : Yaml) : Option Config :=
  match v.slots ["tolerance_factor", "retry", "records_path", "facts_path", "inbox",
      "pool_refresh_interval_ms", "health_addr", "metrics_addr"] with
  | some [tolerance, retry, records, facts, inbox, poolRefresh, health, metrics] => do
    let default : Config := {}
    let toleranceFactor ← Yaml.withDefault default.toleranceFactor Yaml.asUInt64? tolerance
    let retry ← Yaml.withDefault default.retry RetryPolicy.ofYaml? retry
    let recordsPath ← Yaml.withDefault default.recordsPath Yaml.asText? records
    let factsPath ← Yaml.withDefault none Yaml.asOptionalText? facts
    let inbox ← Yaml.withDefault default.inbox InboxConfig.ofYaml? inbox
    let poolRefreshIntervalMs ←
      Yaml.withDefault default.poolRefreshIntervalMs Yaml.asUInt64? poolRefresh
    let healthAddr ← Yaml.withDefault default.healthAddr Yaml.asText? health
    let metricsAddr ← Yaml.withDefault default.metricsAddr Yaml.asText? metrics
    pure { toleranceFactor, retry, recordsPath, factsPath, inbox, poolRefreshIntervalMs,
           healthAddr, metricsAddr }
  | _ => none

def validate (config : Config) : Except Fault Unit :=
  if config.retry.maxAttempts = 0 then
    .error (.configuration "retry.max_attempts must be at least 1")
  else if config.retry.callTimeoutMs = 0 then
    .error (.configuration "retry.call_timeout_ms must be positive")
  else if config.inbox.pollIntervalMs = 0 then
    .error (.configuration "inbox.poll_interval_ms must be positive")
  else if config.poolRefreshIntervalMs = 0 then
    .error (.configuration "pool_refresh_interval_ms must be positive")
  else .ok ()

def ofYaml (text : String) : Except Fault Config :=
  match (Yaml.parse text).bind ofYaml? with
  | none => .error .yaml
  | some config =>
    match config.validate with
    | .error fault => .error fault
    | .ok () => .ok config

def ofFile (files : FileTree) (path : String) : Except Fault Config :=
  match files.read path with
  | .error cause => .error (.configuration s!"Cannot read {path}: {cause.text}")
  | .ok text => ofYaml text

end Config
end BlockStack
