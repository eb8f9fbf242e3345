import BlockStack.Fault
import BlockStack.Size

/-!
# BlockStack.Event

What the controller tells its listeners.

* `Event`: the four kinds of messages; `Event.isWarning` holds of those that report a problem.
-/

namespace BlockStack

/-- A message of the controller. -/
inductive Event where
  | resourcesLoaded (resources layers passes : UInt64)
  | mergeApplied (resource : String) (merged tolerated changed : UInt64)
  | mergeFailed (resource : String) (fault : FaultClass) (reason : String)
  | sizeDrift (resource identifier : String) (state : SizeState) (expectedKib actualKib : UInt64)
  deriving DecidableEq, Repr

namespace Event

def resource? : Event → Option String
  | resourcesLoaded .. => none
  | mergeApplied resource .. => some resource
  | mergeFailed resource .. => some resource
  | sizeDrift resource .. => some resource

def isWarning : Event → Bool
  | resourcesLoaded .. | mergeApplied .. => false
  | mergeFailed .. | sizeDrift .. => true

end Event
end BlockStack
