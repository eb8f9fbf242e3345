import BlockStack.Catalog
import BlockStack.Merge
import BlockStack.Retry

/-!
# BlockStack.Backend

A storage backend that keeps its objects in memory, and how it is asked.

* `Backend`: the objects and pools, with the failures and stalls that are still to come.
* `Backend.Call`: an operation of a backend; `Backend.getFacts` and the others are the operations.
* `Backend.attempt`: one call, which counts, may be cut off when it stalls, and may fail.
* `Backend.ask`: a call that is repeated as a policy says.
-/

namespace BlockStack

/-- An object that a backend is to make or to change. -/
structure VolumeSpec where
  identifier : String
  pool : PoolKey
  sizeKib : UInt64
  deriving DecidableEq, Repr, Inhabited

/-- A storage backend. Its next `failuresPending` calls fail, its next `stalls` calls wait. -/
structure Backend where
  name : String
  objects : FactsMap := .empty
  pools : SortedMap PoolKey FreeSpace := .empty
  failuresPending : UInt32 := 0
  calls : UInt32 := 0
  stalls : UInt32 := 0
  stallMs : UInt64 := 0
  deriving DecidableEq, Repr, Inhabited

namespace Backend

def failNext (backend : Backend) (count : UInt32) : Backend :=
  { backend with failuresPending := count }

def stallNext (backend : Backend) (count : UInt32) (ms : UInt64) : Backend :=
  { backend with stalls := count, stallMs := ms }

def setPool (backend : Backend) (pool : PoolKey) (space : FreeSpace) : Backend :=
  { backend with pools := backend.pools.insert pool space }

/-- An operation of a backend. -/
structure Call (α : Type) where
  operation : String
  perform : Backend → Except Fault (α × Backend)

/-- The fault of an operation on an object that is not there. -/
def missing (backend : Backend) (operation object : String) : Fault :=
  .backendFailed backend.name operation s!"no such object: {object}"

/-- Tell what is known of some objects; unknown ones are left out. -/
def getFacts (identifiers : List String) : Call FactsMap where
  operation := "get_facts"
  perform backend :=
    .ok (.ofList (identifiers.filterMap (fun id => (backend.objects.get? id).map (id, ·))), backend)

def getFreeSpace (pool : PoolKey) : Call FreeSpace where
  operation := "get_free_space"
  perform backend :=
    match backend.pools.get? pool with
    | some space => .ok (space, backend)
    | none => .error (backend.missing "get_free_space" pool.text)

def change (operation identifier : String) (f : Backend → ObjectFacts → ObjectFacts) : Call Unit where
  operation := operation
  perform backend :=
    match backend.objects.get? identifier with
    | some facts =>
      .ok ((), { backend with objects := backend.objects.insert identifier (f backend facts) })
    | none => .error (backend.missing operation identifier)

/-- Make an object, in the place of one with its name. -/
def create (spec : VolumeSpec) : Call Unit where
  operation := "create"
  perform backend :=
    .ok ((), { backend with
      objects := backend.objects.insert spec.identifier { present := true, sizeKib := spec.sizeKib } })

def resize (spec : VolumeSpec) : Call Unit :=
  change "resize" spec.identifier (fun _ facts => { facts with sizeKib := spec.sizeKib })

def delete (identifier : String) : Call Unit where
  operation := "delete"
  perform backend :=
    match backend.objects.get? identifier with
    | some _ => .ok ((), { backend with objects := backend.objects.erase identifier })
    | none => .error (backend.missing "delete" identifier)

def activate (identifier : String) : Call Unit :=
  change "activate" identifier
    (fun backend facts => { facts with path := some s!"/dev/{backend.name}/{identifier}" })

def deactivate (identifier : String) : Call Unit :=
  change "deactivate" identifier (fun _ facts => { facts with path := none })

/-- A call that has reached the backend: it counts, and it fails if a failure is pending. -/
def arrive {α : Type} (backend : Backend) (call : Call α) : Except Fault α × Backend :=
  let entered := { backend with calls := backend.calls + 1 }
  if 0 < backend.failuresPending then
    (.error (.backendUnavailable backend.name),
      { entered with failuresPending := backend.failuresPending - 1 })
  else
    match call.perform entered with
    | .ok (a, next) => (.ok a, next)
    | .error fault => (.error fault, entered)

/-- How long the next call waits before it reaches the backend; the wait is used up. -/
def takeStall (backend : Backend) : Option UInt64 × Backend :=
  if 0 < backend.stalls then (some backend.stallMs, { backend with stalls := backend.stalls - 1 })
  else (none, backend)

/-- Whether a wait is longer than a call may take. -/
def isCutOff (timeout : Option UInt64) (stall : Option UInt64) : Bool :=
  match timeout, stall with
  | some limit, some wait => limit < wait
  | _, _ => false

/-- One call; one that waits longer than `timeout` never reaches the backend. -/
def attempt {α : Type} (timeout : Option UInt64) (call : Call α) (backend : Backend) :
    Except Fault α × Backend :=
  let (stall, rest) := backend.takeStall
  if isCutOff timeout stall then
    (.error (.backendTimeout backend.name call.operation (timeout.getD 0)), rest)
  else rest.arrive call

/-- A call that is repeated as a policy says; without a policy there is one attempt and no limit
of time. -/
def ask {α : Type} (policy : Option RetryPolicy) (call : Call α) (backend : Backend) :
    Except Fault α × Backend :=
  match policy with
  | some policy =>
    tryAgain (attempt (some policy.callTimeoutMs) call) (policy.attempts - 1) backend
  | none => backend.attempt none call

end Backend
end BlockStack
