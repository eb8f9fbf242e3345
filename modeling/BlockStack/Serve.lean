import BlockStack.Address
import BlockStack.Program

/-!
# BlockStack.Serve

Serving: the inbox is looked through and the space of pools is refreshed from time to time, until
the program is interrupted.

* `Happening`: what can happen while the program serves.
* `Service.react`: what the controller does then.
* `timeline`: everything that happens up to an interrupt, in the order of time.
* `Service.serve`: serving from the start to the interrupt.
-/

namespace BlockStack

/-- What can happen while the program serves. -/
inductive Happening where
  | poolsDue
  | inboxDue
  | dropped (path text : String)
  deriving DecidableEq, Repr

/-- The times from zero on, one every `period`, before `stop`. -/
def every (period stop : Nat) : List Nat :=
  (List.range ((stop + period - 1) / period)).map (· * period)

/-- Everything that happens up to an interrupt, in the order of time: the two timers, and files
that are dropped. -/
def timeline (config : Config) (drops : List (Nat × String × String)) (stop : Nat) :
    List Happening :=
  let pools := (every config.poolRefreshIntervalMs.toNat stop).map (·, Happening.poolsDue)
  let inbox := (every config.inbox.pollIntervalMs.toNat stop).map (·, Happening.inboxDue)
  let files := (drops.filter (fun e => e.1 < stop)).map (fun e =>
    (e.1, Happening.dropped e.2.1 e.2.2))
  ((files ++ pools ++ inbox).mergeSort (fun a b => a.1 ≤ b.1)).map (·.2)

namespace Service

/-- Make the directory of an inbox. -/
def openInbox (service : Service) (inbox : InboxConfig) : Except Fault Unit × Service :=
  let (result, files) := service.store.files.createDirs inbox.dir
  (result.mapError .io, { service with store := service.store.withFiles files })

/-- Refresh the space of pools; a fault is only told. -/
def pollPools (service : Service) : Service :=
  match service.refreshSpace with
  | (.ok _, service) => service
  | (.error fault, service) =>
    service.note .warn .program "Storage pool refresh failed" [("error", .text fault.message)]

/-- Look through an inbox; a fault is only told. -/
def pollInbox (service : Service) (inbox : InboxConfig) : Service :=
  match service.takeInbox inbox.globPattern with
  | (.ok _, service) => service
  | (.error fault, service) =>
    service.note .error .program "Inbox processing failed" [("error", .text fault.message)]

def drop (service : Service) (path text : String) : Service :=
  { service with store := service.store.withFiles (service.store.files.plant path text) }

/-- What the controller does when something happens. -/
def react (inbox : InboxConfig) (service : Service) : Happening → Service
  | .poolsDue => service.pollPools
  | .inboxDue => service.pollInbox inbox
  | .dropped path text => service.drop path text

/-- Tell that a server cannot run if its address is none. -/
def noteAddress (service : Service) (server address : String) : Service :=
  if Address.isSocketAddress address then service
  else
    let cause := Fault.configuration
      s!"Invalid {server.toLower} server address: invalid socket address syntax"
    service.note .error .program (s!"{server} server error: " ++ cause.message)

/-- What serving starts with: the servers, and the directory of the inbox. -/
def startServing (service : Service) (config : Config) : Except Fault Unit × Service :=
  let service := (service.noteAddress "Health" config.healthAddr).noteAddress "Metrics"
    config.metricsAddr
  match service.openInbox config.inbox with
  | (.error fault, service) => (.error fault, service)
  | (.ok (), service) =>
    (.ok (), service.note .info .program "Watching report inbox"
      [("inbox", .text config.inbox.globPattern)])

def stopServing (service : Service) : Service :=
  (service.note .info .program "Shutdown requested").note .info .program
    "Controller shutdown complete"

def serve (service : Service) (config : Config) (happenings : List Happening) :
    Except Fault Unit × Service :=
  match service.startServing config with
  | (.error fault, service) => (.error fault, service)
  | (.ok (), service) => (.ok (), (happenings.foldl (react config.inbox) service).stopServing)

end Service
end BlockStack
