import BlockStack.Backend
import BlockStack.Event
import BlockStack.Flatten
import BlockStack.Log
import BlockStack.Metrics
import BlockStack.Registry
import BlockStack.Store

/-!
# BlockStack.Service

The controller at work: it loads the document, takes reports in one at a time, and refreshes the
space of pools.

* `Service.load`: load the document and put the graph in.
* `Service.handle`: take one report in. Its resource is looked up, what the backend knows is
  fetched, the merge is worked out, and the rows are saved; only then the resource is replaced.
* `Service.refreshSpace`: ask for the space of all pools that have backend objects.
-/

namespace BlockStack

/-- The state of the controller. -/
structure Service where
  retry : RetryPolicy
  tolerance : UInt64
  store : Store
  backend : Backend
  registry : Registry := {}
  metrics : Metrics := {}
  events : List Event := []
  log : List Log.Entry := []
  deriving Repr

namespace Service

def note (service : Service) (level : Log.Level) (origin : Log.Origin) (message : String)
    (fields : List (String × Log.Value) := []) : Service :=
  { service with log := service.log ++ [{ level, origin, message, fields }] }

def emit (service : Service) (events : List Event) : Service :=
  { service with events := service.events ++ events }

/-- The log entry of a document that was read from a file. -/
def noteRead (service : Service) : Service :=
  match service.store with
  | .memory _ => service
  | .file path _ => service.note .debug .store "Read record document" [("path", .text path)]

def notePasses (service : Service) (passes : List (List LayerId)) : Service :=
  (passes.zipIdx 1).foldl (fun s (pass, number) =>
    s.note .debug .loader "Loaded layer pass"
      [("pass", .number number), ("nodes", .number pass.length)]) service

/-- The graph of the document that is kept. Its catalog, its layers and its volumes are read one
after the other. -/
def readGraph (service : Service) : Except Fault Graph × Service :=
  match service.store.document with
  | .error fault => (.error fault, service)
  | .ok document =>
    let service := service.noteRead.noteRead.noteRead
    match Graph.load document with
    | .error failure => (.error failure.fault, service.notePasses failure.passes)
    | .ok graph =>
      (.ok graph, (service.notePasses graph.passes).note .info .loader "Loaded layer trees"
        [("resources", .number graph.resources.size), ("layers", .number graph.layerCount),
          ("passes", .number graph.passes.length)])

/-- Put a graph in and tell how many resources it has. -/
def install (service : Service) (graph : Graph) : Except Fault Nat × Service :=
  match service.registry.install graph with
  | .error fault => (.error fault, service)
  | .ok registry =>
    let resources := graph.resources.size
    let layers := graph.layerCount
    let passes := graph.passes.length
    let next := { service with registry }.note .info .registry "Installed layer graph"
      [("resources", .number resources), ("layers", .number layers), ("passes", .number passes)]
    (.ok resources,
      next.emit [.resourcesLoaded resources.toUInt64 layers.toUInt64 passes.toUInt64])

/-- Load the document and put the graph in, once. -/
def load (service : Service) : Except Fault Nat × Service :=
  if service.registry.loaded then (.error .alreadyLoaded, service)
  else
    match service.readGraph with
    | (.error fault, service) =>
      (.error fault, service.note .error .service "Loading persisted layer records failed"
        [("error", .text fault.message)])
    | (.ok graph, service) =>
      match service.install graph with
      | (.error fault, service) => (.error fault, service)
      | (.ok resources, service) =>
        (.ok resources, { service with
          metrics := service.metrics.recordLoad resources.toUInt64 graph.layerCount.toUInt64 })

/-- How a report that names no resource is called. -/
def unnamed : String := "<unnamed>"

def label (report : Report) : String :=
  match report.key with
  | .ok key => key.text
  | .error _ => unnamed

/-- Count and tell that a report was not taken in. -/
def refuse (service : Service) (report : Report) (fault : Fault) : Service :=
  let name := label report
  let fields := [("resource", .quoted name), ("error", .text fault.message),
    ("fault", .text fault.faultClass.label)]
  let counted := { service with metrics := service.metrics.recordFailure fault.faultClass }
  let noted := match fault.faultClass with
    | .clusterState | .internal => counted.note .error .service "Rejected satellite report" fields
    | .storageLayer | .request =>
      counted.note .warn .service "Satellite report not applied" fields
  noted.emit [.mergeFailed name fault.faultClass fault.message]

def resourceFor (service : Service) (report : Report) : Except Fault Resource :=
  match report.key with
  | .error (.missingField field) => .error (.unknownObject unnamed (.missingField field))
  | .error fault => .error fault
  | .ok key => service.registry.find key

/-- The call that tells what a backend knows of a resource. -/
def factsCall (resource : Resource) : Backend.Call FactsMap :=
  Backend.getFacts resource.identifiers

def noteAbsences (service : Service) (key : ResourceKey) (absences : List Absence) : Service :=
  absences.foldl (fun s absence =>
    s.note .debug .layers "Volume not reported yet, keeping persisted state"
      [("resource", .text key.text), ("layer", .text absence.kind.name),
        ("suffix", .text absence.suffix), ("volume", .number absence.volume.toNat)]) service

def noteDrift (service : Service) (key : ResourceKey) (drift : List Drift) : Service :=
  drift.foldl (fun s d =>
    s.note .warn .merge "Volume size drifted"
      [("resource", .text key.text), ("identifier", .text d.identifier),
        ("state", .text d.state.display), ("expected_kib", .number d.expectedKib.toNat),
        ("actual_kib", .number d.actualKib.toNat)]) service

/-- Work out the merge of a report, now that it is known what the backend knows. -/
def prepare (service : Service) (resource : Resource) (report : Report) (facts : FactsMap) :
    Except Fault Merged × Service :=
  let service := service.note .debug .service "Fetched backend facts"
    [("resource", .text resource.key.text), ("requested", .number resource.identifiers.length),
      ("found", .number facts.size)]
  match service.registry.allPools with
  | .error fault => (.error fault, service)
  | .ok pools =>
    match resource.merge pools facts service.tolerance report with
    | .error rejection =>
      (.error rejection.fault, service.noteAbsences resource.key rejection.absences)
    | .ok merged =>
      let noted := (service.noteAbsences resource.key merged.absences).noteDrift resource.key
        merged.summary.drift
      (.ok merged, noted.note .debug .merge "Merged satellite report"
        [("resource", .text resource.key.text), ("merged", .number merged.summary.merged),
          ("tolerated", .number merged.summary.tolerated),
          ("changed", .number merged.summary.changed)])

/-- The log entries of rows that were saved in a file. -/
def noteSaved (service : Service) (key : ResourceKey) (layers : Nat) : Service :=
  match service.store with
  | .memory _ => service
  | .file path _ => service.note .info .store "Saved resource records"
    [("resource", .text key.text), ("layers", .number layers), ("path", .text path)]

/-- The events of a merge: the merge itself and its drifts. -/
def mergeEvents (key : ResourceKey) (summary : MergeSummary) : List Event :=
  .mergeApplied key.text summary.merged.toUInt64 summary.tolerated.toUInt64
      summary.changed.toUInt64 ::
    summary.drift.map (fun d => .sizeDrift key.text d.identifier d.state d.expectedKib d.actualKib)

def accept (service : Service) (merged : Merged) : Service :=
  let key := merged.resource.key
  let summary := merged.summary
  let counted := { service with
    registry := service.registry.replace merged.resource
    metrics := service.metrics.recordMerge summary }
  let noted := counted.note .info .service "Applied satellite report"
    [("resource", .text key.text), ("merged", .number summary.merged),
      ("tolerated", .number summary.tolerated), ("changed", .number summary.changed),
      ("drift", .number summary.drift.length)]
  noted.emit (mergeEvents key summary)

/-- Save the rows of a merged resource and then replace the resource. -/
def commit (service : Service) (report : Report) (merged : Merged) :
    Except Fault MergeSummary × Service :=
  let key := merged.resource.key
  let rows := merged.resource.rows
  match service.store.document with
  | .error fault => (.error fault, service.refuse report fault)
  | .ok _ =>
    let read := service.noteRead
    match read.store.save key rows with
    | .error fault => (.error fault, read.refuse report fault)
    | .ok store =>
      (.ok merged.summary,
        (({ read with store }).noteSaved key rows.layers.length).accept merged)

/-- What follows once the backend has answered: work out the merge and save it, or refuse. -/
def conclude (service : Service) (resource : Resource) (report : Report)
    (facts : Except Fault FactsMap) : Except Fault MergeSummary × Service :=
  match facts with
  | .error fault => (.error fault, service.refuse report fault)
  | .ok facts =>
    match service.prepare resource report facts with
    | (.error fault, service) => (.error fault, service.refuse report fault)
    | (.ok merged, service) => service.commit report merged

/-- Take one report in. -/
def handle (service : Service) (report : Report) : Except Fault MergeSummary × Service :=
  match service.resourceFor report with
  | .error fault => (.error fault, service.refuse report fault)
  | .ok resource =>
    let (facts, backend) := service.backend.ask (some service.retry) (factsCall resource)
    { service with backend }.conclude resource report facts

/-- Update the space of some pools, one after the other, up to the first fault. -/
def refreshPools (service : Service) : (done : Nat) → List PoolKey → Except Fault Nat × Service
  | done, [] => (.ok done, service)
  | done, key :: rest =>
    match service.backend.ask (some service.retry) (Backend.getFreeSpace key) with
    | (.error fault, backend) => (.error fault, { service with backend })
    | (.ok space, backend) =>
      match service.registry.setSpace key space with
      | .error fault => (.error fault, { service with backend })
      | .ok registry => { service with backend, registry }.refreshPools (done + 1) rest

def backedPools (pools : SortedMap PoolKey StoragePool) : List PoolKey :=
  (pools.filter (fun _ pool => pool.provider.hasBackingObject)).keys

/-- Update the space of all pools that have backend objects, and tell how many there are. -/
def refreshSpace (service : Service) : Except Fault Nat × Service :=
  match service.registry.allPools with
  | .error fault => (.error fault, service)
  | .ok pools =>
    match service.refreshPools 0 (backedPools pools) with
    | (.error fault, service) => (.error fault, service)
    | (.ok done, service) =>
      (.ok done, service.note .debug .service "Refreshed storage pool capacity"
        [("pools", .number done)])

end Service
end BlockStack
