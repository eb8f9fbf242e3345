import BlockStack.Fault
import BlockStack.Node

/-!
# BlockStack.Report

What a satellite sends back after it applied a resource: the layers and volumes as it found them.
Every field may be missing, so that a truncated report can be told apart from an unreadable one.

* `ReportedVolume`, `ReportedLayer`, `ReportNode`: a volume, a layer with its volumes, and a layer
  with the layers below it.
* `Report`: the whole message; `Report.key` is the resource that it speaks of.
-/

namespace BlockStack

/-- A volume as a satellite found it. -/
structure ReportedVolume where
  number : Option UInt32 := none
  facts : VolumeFacts := {}
  metaDiskPath : Option String := none
  backingDevice : Option String := none
  isOpen : Option Bool := none
  provider : Option String := none
  pool : Option String := none
  attributes : AttributeFields := {}
  deriving DecidableEq, Repr, Inhabited

/-- The replication settings that a satellite works with. -/
structure ReportedReplication where
  port : Option UInt16 := none
  transport : Option String := none
  peerSlots : Option UInt16 := none
  volumes : List UInt32 := []
  deriving DecidableEq, Repr, Inhabited

/-- A layer with its volumes as a satellite found them. -/
structure ReportedLayer where
  kind : Option String := none
  suffix : Option String := none
  suspended : Option Bool := none
  parent : Option UInt64 := none
  replication : Option ReportedReplication := none
  volumes : List ReportedVolume := []
  deriving DecidableEq, Repr, Inhabited

/-- A reported layer with the reported layers below it. -/
inductive ReportNode where
  | mk (layer : ReportedLayer) (children : List ReportNode)
  deriving Repr, Inhabited

def ReportNode.layer : ReportNode → ReportedLayer
  | mk layer _ => layer

def ReportNode.children : ReportNode → List ReportNode
  | mk _ children => children

/-- What a satellite reports of one resource. -/
structure Report where
  node : Option String := none
  resource : Option String := none
  snapshot : Option String := none
  roots : List ReportNode := []
  deriving Repr, Inhabited

/-- The value of a field that a report has to have. -/
def require {α : Type} (field : String) : Option α → Except Fault α
  | some value => .ok value
  | none => .error (.missingField field)

/-- The key of the resource that a report speaks of. -/
def Report.key (report : Report) : Except Fault ResourceKey :=
  match report.node, report.resource with
  | some node, some resource => .ok { node, resource, snapshot := report.snapshot }
  | none, _ => .error (.missingField "node_name")
  | some _, none => .error (.missingField "resource_name")

end BlockStack
