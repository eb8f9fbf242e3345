import BlockStack.Config
import BlockStack.Json.Fields

/-!
# BlockStack.Wire.Config

The JSON form of the settings. For each type `toJson` writes and `ofJson?` reads.
-/

namespace BlockStack

open Json

namespace RetryPolicy

def toJson (policy : RetryPolicy) : Json :=
  obj [
    ("max_attempts", ofUInt32 policy.maxAttempts),
    ("initial_interval_ms", ofUInt64 policy.initialIntervalMs),
    ("max_interval_ms", ofUInt64 policy.maxIntervalMs),
    ("call_timeout_ms", ofUInt64 policy.callTimeoutMs)]

def ofJson? (v : Json) : Option RetryPolicy :=
  match slots ["max_attempts", "initial_interval_ms", "max_interval_ms", "call_timeout_ms"] v with
  | some [maxAttempts, initialIntervalMs, maxIntervalMs, callTimeoutMs] => do
    let default : RetryPolicy := {}
    let maxAttempts ← withDefault default.maxAttempts asUInt32? maxAttempts
    let initialIntervalMs ← withDefault default.initialIntervalMs asUInt64? initialIntervalMs
    let maxIntervalMs ← withDefault default.maxIntervalMs asUInt64? maxIntervalMs
    let callTimeoutMs ← withDefault default.callTimeoutMs asUInt64? callTimeoutMs
    pure { maxAttempts, initialIntervalMs, maxIntervalMs, callTimeoutMs }
  | _ => none

end RetryPolicy

namespace InboxConfig

def toJson (inbox : InboxConfig) : Json :=
  obj [
    ("dir", str inbox.dir),
    ("pattern", str inbox.pattern),
    ("poll_interval_ms", ofUInt64 inbox.pollIntervalMs)]

def ofJson? (v : Json) : Option InboxConfig :=
  match slots ["dir", "pattern", "poll_interval_ms"] v with
  | some [dir, pattern, pollIntervalMs] => do
    let default : InboxConfig := {}
    let dir ← withDefault default.dir asString? dir
    let pattern ← withDefault default.pattern asString? pattern
    let pollIntervalMs ← withDefault default.pollIntervalMs asUInt64? pollIntervalMs
    pure { dir, pattern, pollIntervalMs }
  | _ => none

end InboxConfig

namespace Config

def toJson (config : Config) : Json :=
  obj [
    ("tolerance_factor", ofUInt64 config.toleranceFactor),
    ("retry", config.retry.toJson),
    ("records_path", str config.recordsPath),
    ("facts_path", ofOption str config.factsPath),
    ("inbox", config.inbox.toJson),
    ("pool_refresh_interval_ms", ofUInt64 config.poolRefreshIntervalMs),
    ("health_addr", str config.healthAddr),
    ("metrics_addr", str config.metricsAddr)]

def ofJson? (v : Json) : Option Config :=
  match slots ["tolerance_factor", "retry", "records_path", "facts_path", "inbox",
      "pool_refresh_interval_ms", "health_addr", "metrics_addr"] v with
  | some [tolerance, retry, records, facts, inbox, poolRefresh, health, metrics] => do
    let default : Config := {}
    let toleranceFactor ← withDefault default.toleranceFactor asUInt64? tolerance
    let retry ← withDefault default.retry RetryPolicy.ofJson? retry
    let recordsPath ← withDefault default.recordsPath asString? records
    let factsPath ← optional asString? facts
    let inbox ← withDefault default.inbox InboxConfig.ofJson? inbox
    let poolRefreshIntervalMs ← withDefault default.poolRefreshIntervalMs asUInt64? poolRefresh
    let healthAddr ← withDefault default.healthAddr asString? health
    let metricsAddr ← withDefault default.metricsAddr asString? metrics
    pure { toleranceFactor, retry, recordsPath, factsPath, inbox, poolRefreshIntervalMs,
           healthAddr, metricsAddr }
  | _ => none

end Config
end BlockStack
