import BlockStack.Kind

/-!
# BlockStack.Attributes

What a storage provider tells about a volume beyond its size.

* `AttributeFields`: the flat form used in records and reports, any field present or not.
* `Attributes`: the fields of one family only.
* `Attributes.ofFields` keeps the fields of the provider's family, `Attributes.toFields` goes back
  (`Attributes.ofFields_toFields`).
-/

namespace BlockStack

/-- Provider attributes in flat form. -/
structure AttributeFields where
  volumeGroup : Option String := none
  thinPool : Option String := none
  zpool : Option String := none
  extentSizeKib : Option UInt64 := none
  backingFile : Option String := none
  lvolStore : Option String := none
  deriving DecidableEq, Repr, Inhabited

/-- The attributes of one family of providers. -/
inductive Attributes where
  | none
  | lvm (volumeGroup thinPool : Option String)
  | zfs (zpool : Option String) (extentSizeKib : Option UInt64)
  | file (backingFile : Option String)
  | spdk (lvolStore : Option String)
  deriving DecidableEq, Repr, Inhabited

namespace Attributes

/-- The family that a set of attributes belongs to. -/
def family : Attributes → Family
  | none => .none
  | lvm _ _ => .lvm
  | zfs _ _ => .zfs
  | file _ => .file
  | spdk _ => .spdk

/-- The fields of the provider's family; all others are dropped. -/
def ofFields (provider : ProviderKind) (fields : AttributeFields) : Attributes :=
  match provider.family with
  | .none => none
  | .lvm => lvm fields.volumeGroup fields.thinPool
  | .zfs => zfs fields.zpool fields.extentSizeKib
  | .file => file fields.backingFile
  | .spdk => spdk fields.lvolStore

/-- The attributes of a provider that has reported nothing. -/
def emptyFor (provider : ProviderKind) : Attributes := ofFields provider {}

/-- The flat form; fields of other families are absent. -/
def toFields : Attributes → AttributeFields
  | none => {}
  | lvm volumeGroup thinPool => { volumeGroup, thinPool }
  | zfs zpool extentSizeKib => { zpool, extentSizeKib }
  | file backingFile => { backingFile }
  | spdk lvolStore => { lvolStore }

theorem family_ofFields (provider : ProviderKind) (fields : AttributeFields) :
    (ofFields provider fields).family = provider.family := by
  cases provider <;> rfl

theorem ofFields_toFields {provider : ProviderKind} {a : Attributes}
    (h : a.family = provider.family) : ofFields provider a.toFields = a := by
  cases a <;> cases provider <;> first | rfl | cases h

end Attributes
end BlockStack
