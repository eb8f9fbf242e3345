import BlockStack.Duration
import BlockStack.Key
import BlockStack.Kind

/-!
# BlockStack.Fault

What can go wrong, as causes, and the wording of each.

* `Inconsistency`: why persisted rows do not fit together.
* `Discrepancy`: what a report names that the persisted stack does not have.
* `IoFault`: why the file system refused.
* `Fault`: every failure of the controller; `Fault.message` is its text and `Fault.faultClass` the
  group by which it is routed. Only an unavailable or a slow backend is worth another attempt
  (`Fault.isTransient`).

A text that does not parse is `Fault.json` or `Fault.yaml`. The words of its parser, with the place
in the text, are no part of the fault, so the message ends before them.
-/

namespace BlockStack

/-- Why persisted rows do not fit together. -/
inductive Inconsistency where
  | unknownDefinition (key : ResourceKey) (definition : String)
  | duplicateRow (id : UInt64)
  | foreignParent (id : UInt64) (owner : ResourceKey) (parent : UInt64)
  | suffixOutside (id : UInt64) (suffix parentSuffix : String)
  | noNodeData (id : UInt64)
  | noDefinition (id : UInt64) (suffix definition : String)
  | foreignPayload (volume : UInt32) (id : UInt64) (kind : String)
  | noVolumeDefinition (volume : UInt32) (id : UInt64)
  | unknownProvider (volume : UInt32) (id : UInt64) (provider : String)
  | providerDiffers (volume : UInt32) (id : UInt64) (provider : ProviderKind) (pool : PoolKey)
      (poolProvider : ProviderKind)
  | repeatedVolume (id : UInt64) (volume : UInt32)
  | repeatedNode (id : UInt64)
  | parentCycle (id : UInt64)
  | strayVolumes (id : UInt64)
  | other (detail : String)
  deriving DecidableEq, Repr

def Inconsistency.detail : Inconsistency → String
  | unknownDefinition key definition =>
    s!"resource {key.text} references unknown definition {definition}"
  | duplicateRow id => s!"duplicate layer record id {id}"
  | foreignParent id owner parent =>
    s!"layer record {id} is owned by {owner.text} but its parent {parent} is not"
  | suffixOutside id suffix parentSuffix =>
    s!"layer record {id} suffix '{suffix}' is outside its parent's suffix '{parentSuffix}'"
  | noNodeData id => s!"replication layer record {id} has no node data"
  | noDefinition id suffix definition =>
    s!"replication layer record {id} has no definition for suffix '{suffix}' in {definition}"
  | foreignPayload volume id kind =>
    s!"volume {volume} of layer record {id} ({kind}) carries a foreign payload"
  | noVolumeDefinition volume id =>
    s!"replication volume {volume} of layer record {id} has no volume definition"
  | unknownProvider volume id provider =>
    s!"storage volume {volume} of layer record {id} has unknown provider kind '{provider}'"
  | providerDiffers volume id provider pool poolProvider =>
    s!"storage volume {volume} of layer record {id} is {provider.name} but pool {pool.text} is " ++
      poolProvider.name
  | repeatedVolume id volume => s!"layer record {id} has volume {volume} twice"
  | repeatedNode id => s!"layer node {id} inserted twice"
  | parentCycle id => s!"layer record {id} is part of a parent cycle"
  | strayVolumes id => s!"volume rows reference unknown layer record {id}"
  | other detail => detail

/-- What a report names that the persisted stack does not have. -/
inductive Discrepancy where
  | missingField (field : String)
  | otherResource (key : ResourceKey)
  | unknownKind (name : String)
  | noRoot (kind : LayerKind) (suffix : String)
  | noChild (kind : LayerKind) (suffix : String) (parent : UInt64)
  | repeatedLayer (kind : LayerKind) (suffix : String)
  | noReplicationDefinition (suffix : String)
  | noReplicationVolume (volume : UInt32) (suffix : String)
  | strayReplicationDefinition (kind : LayerKind) (suffix : String)
  | noVolume (volume : UInt32) (kind : LayerKind) (suffix : String)
  | repeatedVolume (volume : UInt32) (kind : LayerKind) (suffix : String)
  | unknownProvider (provider identifier : String)
  | providerDiffers (identifier : String) (reported persisted : ProviderKind)
  | other (detail : String)
  deriving DecidableEq, Repr

def Discrepancy.detail : Discrepancy → String
  | missingField field => s!"report is missing field '{field}'"
  | otherResource key => s!"report describes resource {key.text}"
  | unknownKind name => s!"layer kind '{name}'"
  | noRoot kind suffix => s!"top-level {kind.name} layer '{suffix}'"
  | noChild kind suffix parent => s!"{kind.name} layer '{suffix}' below layer {parent}"
  | repeatedLayer kind suffix => s!"{kind.name} layer '{suffix}' reported twice"
  | noReplicationDefinition suffix => s!"replication definition for suffix '{suffix}'"
  | noReplicationVolume volume suffix =>
    s!"replication volume definition {volume} for suffix '{suffix}'"
  | strayReplicationDefinition kind suffix =>
    s!"replication definition on {kind.name} layer '{suffix}'"
  | noVolume volume kind suffix => s!"volume {volume} on {kind.name} layer '{suffix}'"
  | repeatedVolume volume kind suffix =>
    s!"volume {volume} on {kind.name} layer '{suffix}' reported twice"
  | unknownProvider provider identifier =>
    s!"storage provider kind '{provider}' for {identifier}"
  | providerDiffers identifier reported persisted =>
    s!"{identifier} reported as {reported.name} but persisted as {persisted.name}"
  | other detail => detail

/-- Why the file system refused. -/
inductive IoFault where
  | notFound
  | exists
  | notDirectory
  | isDirectory
  | invalid
  | notEmpty
  | busy
  | nameTooLong
  | zeroByte
  deriving DecidableEq, Repr

def IoFault.text : IoFault → String
  | notFound => "No such file or directory (os error 2)"
  | busy => "Device or resource busy (os error 16)"
  | .exists => "File exists (os error 17)"
  | notDirectory => "Not a directory (os error 20)"
  | isDirectory => "Is a directory (os error 21)"
  | invalid => "Invalid argument (os error 22)"
  | nameTooLong => "File name too long (os error 36)"
  | notEmpty => "Directory not empty (os error 39)"
  | zeroByte => "file name contained an unexpected NUL byte"

/-- The groups by which faults are routed. -/
inductive FaultClass where
  | clusterState
  | storageLayer
  | request
  | internal
  deriving DecidableEq, Repr, Inhabited

namespace FaultClass

def all : List FaultClass := [clusterState, storageLayer, request, internal]

def name : FaultClass → String
  | clusterState => "cluster_state"
  | storageLayer => "storage_layer"
  | request => "request"
  | internal => "internal"

def ofName? (s : String) : Option FaultClass := all.find? (fun c => c.name = s)

def label : FaultClass → String
  | clusterState => "ClusterState"
  | storageLayer => "StorageLayer"
  | request => "Request"
  | internal => "Internal"

theorem ofName?_name (c : FaultClass) : ofName? c.name = some c := by
  cases c <;> decide

end FaultClass

/-- Every failure of the controller. -/
inductive Fault where
  | internal (detail : String)
  | configuration (detail : String)
  | unknownLayerKind (id : UInt64) (kind : String)
  | danglingParent (id parent : UInt64)
  | missingOwner (id : UInt64) (owner : String)
  | missingPool (id : UInt64) (node pool : String)
  | inconsistent (cause : Inconsistency)
  | unknownObject (resource : String) (cause : Discrepancy)
  | missingVolume (resource layer : String) (volume : UInt32)
  | missingField (field : String)
  | resourceNotFound (resource : String)
  | notLoaded
  | alreadyLoaded
  | backendUnavailable (backend : String)
  | backendFailed (backend operation reason : String)
  | backendTimeout (backend operation : String) (timeoutMs : UInt64)
  | json
  | yaml
  | io (cause : IoFault)
  deriving DecidableEq, Repr

namespace Fault

def message : Fault → String
  | internal detail => s!"Internal error: {detail}"
  | configuration detail => s!"Configuration error: {detail}"
  | unknownLayerKind id kind => s!"Unknown layer kind '{kind}' in persisted layer record {id}"
  | danglingParent id parent =>
    s!"Layer record {id} references parent {parent} which was never loaded"
  | missingOwner id owner => s!"Owning resource {owner} not found for layer record {id}"
  | missingPool id node pool =>
    s!"Storage pool {pool} not found on node {node} (layer record {id})"
  | inconsistent cause => "Load inconsistency: " ++ cause.detail
  | unknownObject resource cause =>
    s!"Received unknown object from satellite for resource {resource}: " ++ cause.detail
  | missingVolume resource layer volume =>
    s!"Missing volume {volume} from satellite for resource {resource} ({layer})"
  | missingField field => s!"Satellite report is missing field '{field}'"
  | resourceNotFound resource => s!"Resource not found: {resource}"
  | notLoaded => "Resource graph has not been loaded yet"
  | alreadyLoaded => "Resource graph was already loaded"
  | backendUnavailable backend => s!"Storage backend unavailable: {backend}"
  | backendFailed backend operation reason =>
    s!"Storage backend operation failed: {backend} - {operation}: {reason}"
  | backendTimeout backend operation timeoutMs =>
    s!"Storage backend {backend} timed out during {operation} after " ++ Duration.text timeoutMs
  | json => "JSON parse error"
  | yaml => "YAML parse error"
  | io cause => "IO error: " ++ cause.text

def faultClass : Fault → FaultClass
  | unknownLayerKind .. | danglingParent .. | missingOwner .. | missingPool .. | inconsistent _
  | unknownObject .. | missingVolume .. | missingField _ => .clusterState
  | backendUnavailable _ | backendFailed .. | backendTimeout .. => .storageLayer
  | configuration _ | resourceNotFound _ | json | yaml => .request
  | internal _ | notLoaded | alreadyLoaded | io _ => .internal

/-- Whether a fault is about persisted rows and so stops the start. -/
def isLoadFault : Fault → Bool
  | unknownLayerKind .. | danglingParent .. | missingOwner .. | missingPool .. | inconsistent _ =>
    true
  | _ => false

/-- Whether another attempt may succeed. -/
def isTransient : Fault → Bool
  | backendUnavailable _ | backendTimeout .. => true
  | _ => false

end Fault
end BlockStack
