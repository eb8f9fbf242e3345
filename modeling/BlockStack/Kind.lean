/-!
# BlockStack.Kind

The closed sets of layer kinds and storage providers.

* `LayerKind`: what a layer of a device stack does; `LayerKind.name` is its persisted name and
  `LayerKind.ofName?` reads it back (`LayerKind.ofName?_eq_some_iff`).
* `ProviderKind`: which backend holds a storage volume, with the same two functions.
* `Family`: which attributes a provider reports.
-/

namespace BlockStack

/-- What a layer of a device stack does. -/
inductive LayerKind where
  | replication
  | encryption
  | remoteAttach
  | storage
  deriving DecidableEq, Repr, Inhabited

namespace LayerKind

/-- All kinds, from the top of a stack to its bottom. -/
def all : List LayerKind := [replication, encryption, remoteAttach, storage]

def name : LayerKind → String
  | replication => "REPLICATION"
  | encryption => "ENCRYPTION"
  | remoteAttach => "REMOTE_ATTACH"
  | storage => "STORAGE"

def ofName? (s : String) : Option LayerKind := all.find? (fun k => k.name = s)

/-- The place of a kind in `all`, counted from zero. -/
def position : LayerKind → Nat
  | replication => 0
  | encryption => 1
  | remoteAttach => 2
  | storage => 3

/-- The kinds that come later in `all`. -/
def below (k : LayerKind) : List LayerKind := all.filter (fun k' => k.position < k'.position)

theorem ofName?_name (k : LayerKind) : ofName? k.name = some k := by
  cases k <;> decide

theorem ofName?_eq_some_iff {s : String} {k : LayerKind} : ofName? s = some k ↔ k.name = s := by
  constructor
  · intro h
    simpa using List.find?_some h
  · intro h
    subst h
    exact ofName?_name k

theorem name_injective {a b : LayerKind} (h : a.name = b.name) : a = b := by
  have hname := ofName?_name a
  rw [h, ofName?_name b] at hname
  exact (Option.some.inj hname).symm

end LayerKind

/-- Which attributes a storage provider reports. -/
inductive Family where
  | none
  | lvm
  | zfs
  | file
  | spdk
  deriving DecidableEq, Repr, Inhabited

/-- Which backend holds a storage volume. -/
inductive ProviderKind where
  | diskless
  | lvm
  | lvmThin
  | zfs
  | zfsThin
  | file
  | fileThin
  | spdk
  | remoteSpdk
  deriving DecidableEq, Repr, Inhabited

namespace ProviderKind

def all : List ProviderKind :=
  [diskless, lvm, lvmThin, zfs, zfsThin, file, fileThin, spdk, remoteSpdk]

/-- The name of a provider kind in records and reports. -/
def name : ProviderKind → String
  | diskless => "DISKLESS"
  | lvm => "LVM"
  | lvmThin => "LVM_THIN"
  | zfs => "ZFS"
  | zfsThin => "ZFS_THIN"
  | file => "FILE"
  | fileThin => "FILE_THIN"
  | spdk => "SPDK"
  | remoteSpdk => "REMOTE_SPDK"

def ofName? (s : String) : Option ProviderKind := all.find? (fun p => p.name = s)

/-- Whether volumes of this kind are objects of a backend. -/
def hasBackingObject : ProviderKind → Bool
  | diskless => false
  | _ => true

def family : ProviderKind → Family
  | diskless => .none
  | lvm | lvmThin => .lvm
  | zfs | zfsThin => .zfs
  | file | fileThin => .file
  | spdk | remoteSpdk => .spdk

theorem ofName?_name (p : ProviderKind) : ofName? p.name = some p := by
  cases p <;> decide

theorem ofName?_eq_some_iff {s : String} {p : ProviderKind} : ofName? s = some p ↔ p.name = s := by
  constructor
  · intro h
    simpa using List.find?_some h
  · intro h
    subst h
    exact ofName?_name p

theorem name_injective {a b : ProviderKind} (h : a.name = b.name) : a = b := by
  have hname := ofName?_name a
  rw [h, ofName?_name b] at hname
  exact (Option.some.inj hname).symm

end ProviderKind
end BlockStack
