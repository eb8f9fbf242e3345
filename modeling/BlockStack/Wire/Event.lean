import BlockStack.Event
import BlockStack.Json.Fields

/-!
# BlockStack.Wire.Event

The JSON form of events: an object with one member, named for the kind of event.

* `Event.toJson` writes and `Event.ofJson?` reads.
-/

namespace BlockStack
namespace Event

open Json

def toJson : Event → Json
  | resourcesLoaded resources layers passes =>
    obj [("ResourcesLoaded", obj [
      ("resources", ofUInt64 resources),
      ("layers", ofUInt64 layers),
      ("passes", ofUInt64 passes)])]
  | mergeApplied resource merged tolerated changed =>
    obj [("MergeApplied", obj [
      ("resource", str resource),
      ("merged_volumes", ofUInt64 merged),
      ("tolerated_absences", ofUInt64 tolerated),
      ("changed_fields", ofUInt64 changed)])]
  | mergeFailed resource fault reason =>
    obj [("MergeFailed", obj [
      ("resource", str resource),
      ("fault", str fault.name),
      ("reason", str reason)])]
  | sizeDrift resource identifier state expectedKib actualKib =>
    obj [("SizeDrift", obj [
      ("resource", str resource),
      ("identifier", str identifier),
      ("state", str state.name),
      ("expected_kib", ofUInt64 expectedKib),
      ("actual_kib", ofUInt64 actualKib)])]

def resourcesLoadedOfJson? (v : Json) : Option Event :=
  match slots ["resources", "layers", "passes"] v with
  | some [resources, layers, passes] => do
    let resources ← required asUInt64? resources
    let layers ← required asUInt64? layers
    let passes ← required asUInt64? passes
    pure (resourcesLoaded resources layers passes)
  | _ => none

def mergeAppliedOfJson? (v : Json) : Option Event :=
  match slots ["resource", "merged_volumes", "tolerated_absences", "changed_fields"] v with
  | some [resource, merged, tolerated, changed] => do
    let resource ← required asString? resource
    let merged ← required asUInt64? merged
    let tolerated ← required asUInt64? tolerated
    let changed ← required asUInt64? changed
    pure (mergeApplied resource merged tolerated changed)
  | _ => none

def mergeFailedOfJson? (v : Json) : Option Event :=
  match slots ["resource", "fault", "reason"] v with
  | some [resource, fault, reason] => do
    let resource ← required asString? resource
    let fault ← required (asName? FaultClass.ofName?) fault
    let reason ← required asString? reason
    pure (mergeFailed resource fault reason)
  | _ => none

def sizeDriftOfJson? (v : Json) : Option Event :=
  match slots ["resource", "identifier", "state", "expected_kib", "actual_kib"] v with
  | some [resource, identifier, state, expectedKib, actualKib] => do
    let resource ← required asString? resource
    let identifier ← required asString? identifier
    let state ← required (asName? SizeState.ofName?) state
    let expectedKib ← required asUInt64? expectedKib
    let actualKib ← required asUInt64? actualKib
    pure (sizeDrift resource identifier state expectedKib actualKib)
  | _ => none

def ofJson? : Json → Option Event
  | obj [("ResourcesLoaded", v)] _ => resourcesLoadedOfJson? v
  | obj [("MergeApplied", v)] _ => mergeAppliedOfJson? v
  | obj [("MergeFailed", v)] _ => mergeFailedOfJson? v
  | obj [("SizeDrift", v)] _ => sizeDriftOfJson? v
  | _ => none

end Event
end BlockStack
