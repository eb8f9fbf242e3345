import BlockStack.Decimal
import BlockStack.Merge

/-!
# BlockStack.Metrics

What the controller counts. All counters are 64 bits wide and wrap around.

* `Metrics.recordLoad`, `Metrics.recordMerge`, `Metrics.recordFailure`: the three ways to count.
* `Metrics.exposition`: the text that a monitoring system collects, a family of three lines for
  each counter, in the order of their names.
-/

namespace BlockStack

/-- The counters of the controller; `touched` once a merge was tried. -/
structure Metrics where
  loadedResources : UInt64 := 0
  loadedLayers : UInt64 := 0
  applied : UInt64 := 0
  rejected : UInt64 := 0
  failed : UInt64 := 0
  toleratedAbsences : UInt64 := 0
  changedFields : UInt64 := 0
  driftWarnings : UInt64 := 0
  touched : Bool := false
  deriving DecidableEq, Repr, Inhabited

namespace Metrics

/-- Note how much the last load brought. -/
def recordLoad (metrics : Metrics) (resources layers : UInt64) : Metrics :=
  { metrics with loadedResources := resources, loadedLayers := layers }

def recordMerge (metrics : Metrics) (summary : MergeSummary) : Metrics :=
  { metrics with
    applied := metrics.applied + 1
    toleratedAbsences := metrics.toleratedAbsences + summary.tolerated.toUInt64
    changedFields := metrics.changedFields + summary.changed.toUInt64
    driftWarnings := metrics.driftWarnings + summary.drift.length.toUInt64
    touched := true }

/-- Count a merge that failed; those due to the state of the cluster are counted apart. -/
def recordFailure (metrics : Metrics) (fault : FaultClass) : Metrics :=
  match fault with
  | .clusterState => { metrics with rejected := metrics.rejected + 1, touched := true }
  | .storageLayer | .request | .internal =>
    { metrics with failed := metrics.failed + 1, touched := true }

def total (metrics : Metrics) : UInt64 := metrics.applied + metrics.rejected + metrics.failed

def counterText (value : UInt64) : String := Decimal.text value.toNat

/-- The sample of a gauge, which is a signed number of 64 bits. -/
def gaugeText (value : UInt64) : String :=
  if value.toNat < UInt64.size / 2 then Decimal.text value.toNat
  else "-" ++ Decimal.text (UInt64.size - value.toNat)

def family (name help type sample : String) : String :=
  s!"# HELP layerstack_{name} {help}\n# TYPE layerstack_{name} {type}\nlayerstack_{name} {sample}\n"

def exposition (metrics : Metrics) : String :=
  let counter (name help : String) (value : UInt64) : String :=
    family name help "counter" (counterText value)
  let gauge (name help : String) (value : UInt64) : String :=
    family name help "gauge" (gaugeText value)
  String.join [
    counter "changed_fields_total" "Fields changed by merges" metrics.changedFields,
    gauge "loaded_layers" "Layer nodes installed by the last load" metrics.loadedLayers,
    gauge "loaded_resources" "Resources installed by the last load" metrics.loadedResources,
    counter "merges_applied_total" "Satellite reports merged" metrics.applied,
    counter "merges_failed_total" "Merges failed in the storage layer" metrics.failed,
    counter "merges_rejected_total" "Satellite reports rejected as inconsistent" metrics.rejected,
    counter "size_drift_total" "Storage volumes with out-of-tolerance size" metrics.driftWarnings,
    counter "tolerated_absences_total" "Persisted volumes missing from reports"
      metrics.toleratedAbsences]

end Metrics
end BlockStack
