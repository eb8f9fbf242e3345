import BlockStack.Catalog
import BlockStack.Node

/-!
# BlockStack.Record

The persisted form of layer stacks: flat rows linked by numbers.

* `LayerRow`, `VolumeRow`: a layer and a volume of a layer; kinds and providers are still names.
* `Document`: the catalog with all rows.
* `Document.replaceResource`: put new rows in the place of all rows of one resource.
-/

namespace BlockStack

/-- A persisted layer. -/
structure LayerRow where
  id : UInt64
  parent : Option UInt64 := none
  kind : String
  suffix : String := ""
  owner : ResourceKey
  suspended : Bool := false
  replication : Option ReplicationNode := none
  deriving DecidableEq, Repr, Inhabited

/-- The part of a persisted volume that depends on the kind of its layer. -/
inductive VolumePayload where
  | replication (metaDiskPath : Option String)
  | encryption (backingDevice : Option String) (isOpen : Bool)
  | remoteAttach
  | storage (provider pool : String) (present : Bool) (attributes : AttributeFields)
  deriving DecidableEq, Repr, Inhabited

/-- A persisted volume of a layer. -/
structure VolumeRow where
  layer : UInt64
  number : UInt32
  expectedSizeKib : UInt64
  facts : VolumeFacts := {}
  payload : VolumePayload
  deriving DecidableEq, Repr, Inhabited

/-- The rows of layers and volumes. -/
structure Rows where
  layers : List LayerRow := []
  volumes : List VolumeRow := []
  deriving DecidableEq, Repr, Inhabited

def Rows.append (a b : Rows) : Rows := ⟨a.layers ++ b.layers, a.volumes ++ b.volumes⟩

/-- The whole persisted state. -/
structure Document where
  catalog : Catalog := {}
  layers : List LayerRow := []
  volumes : List VolumeRow := []
  deriving DecidableEq, Repr, Inhabited

namespace Document

def ownedIds (doc : Document) (key : ResourceKey) : List UInt64 :=
  (doc.layers.filter (fun row => row.owner = key)).map (·.id)

/-- The document with the rows of a resource replaced by others, which come last. -/
def replaceResource (doc : Document) (key : ResourceKey) (rows : Rows) : Document where
  catalog := doc.catalog
  layers := doc.layers.filter (fun row => row.owner ≠ key) ++ rows.layers
  volumes := doc.volumes.filter (fun row => !(doc.ownedIds key).contains row.layer) ++ rows.volumes

end Document
end BlockStack
