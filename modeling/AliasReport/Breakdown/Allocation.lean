import AliasReport.Aliasing.Binding
import AliasReport.Breakdown.Kind

/-! # Memory breakdowns

What a capture says about device memory: allocations, their host mappings, and the resources that
are bound into them.

* **`Breakdown`**, **`Allocation`**, **`HostMapping`**, **`Resource`** — the captured data.
* **`FlagConstant`**, **`flagNames`** — the names of the bits of a flag word.
* **`Resource.toBinding`**, **`Allocation.ranges`** — all that the analysis of aliasing sees.
* **`sortResources`** — resources in order of offset, then size, then handle.
-/

namespace AliasReport

open AliasReport.Document

/-- A named set of bits in a flag word. -/
structure FlagConstant where
  name : String
  value : UInt64
deriving DecidableEq, Repr

/-- A part of an allocation that the host can address. -/
structure HostMapping where
  mappedAddress : UInt64
  offset : UInt64
  size : UInt64
deriving DecidableEq, Repr

/-- A resource that is bound into an allocation. -/
structure Resource where
  handle : UInt64
  name : String
  offset : UInt64
  size : UInt64
  kind : ResourceKind
deriving DecidableEq, Repr

/-- One allocation of device memory. -/
structure Allocation where
  handle : UInt64
  name : String
  device : UInt64
  memoryType : UInt32
  size : UInt64
  flags : UInt64
  mapping : Option HostMapping
  bindings : List Resource
deriving DecidableEq, Repr

/-- Every allocation that is known at one point of a capture. -/
structure Breakdown where
  /-- The graphics interface that the capture was recorded against. -/
  api : Option String
  /-- The named bits of flag words; none if flags are not sets of bits. -/
  allocationFlags : List FlagConstant
  allocations : List Allocation
deriving DecidableEq, Repr

/-- The breakdown without any allocation. -/
def Breakdown.empty : Breakdown := ⟨none, [], []⟩

/-! ## Flags -/

/-- The names of the constants that have a bit in common with a flag word, in the order of the
constants. -/
def flagNames (flags : UInt64) (constants : List FlagConstant) : List String :=
  (constants.filter fun c => flags &&& c.value ≠ 0).map (·.name)

@[simp] theorem flagNames_nil (flags : UInt64) : flagNames flags [] = [] := rfl

/-- A flag word without bits has no names. -/
@[simp] theorem flagNames_zero (constants : List FlagConstant) : flagNames 0 constants = [] := by
  simp [flagNames]

/-! ## Resources -/

/-- The range of an allocation that a resource occupies. -/
def Resource.toBinding (r : Resource) : Binding :=
  ⟨r.handle, r.offset, r.size⟩

@[simp] theorem Resource.toBinding_id (r : Resource) : r.toBinding.id = r.handle := rfl

@[simp] theorem Resource.toBinding_offset (r : Resource) : r.toBinding.offset = r.offset := rfl

@[simp] theorem Resource.toBinding_size (r : Resource) : r.toBinding.size = r.size := rfl

/-- Whether one resource may stand before another: by offset, then size, then handle. -/
def Resource.precedes (r s : Resource) : Bool :=
  if r.offset = s.offset then
    if r.size = s.size then decide (r.handle ≤ s.handle) else decide (r.size < s.size)
  else decide (r.offset < s.offset)

/-- Resources in order of offset, then size, then handle. Those that agree in all three keep their
order. -/
def sortResources (rs : List Resource) : List Resource :=
  rs.mergeSort Resource.precedes

/-- Sorting keeps every resource as often as it stands there. -/
theorem sortResources_perm (rs : List Resource) : (sortResources rs).Perm rs :=
  List.mergeSort_perm rs _

/-! ## Allocations -/

/-- The host mapping, unless it is empty. -/
def Allocation.activeMapping (a : Allocation) : Option HostMapping :=
  a.mapping.filter (·.size ≠ 0)

/-- The ranges that the resources of an allocation occupy. -/
def Allocation.ranges (a : Allocation) : List Binding :=
  a.bindings.map Resource.toBinding

/-! ## Documents -/

instance : Described FlagConstant where
  shape := .record "FlagConstant" <|
    .required "name" (Described.shape String) <|
    .required "value" (Described.shape UInt64) .nil
  ofVal := fun (name, value, ()) => ⟨name, value⟩
  toVal c := (c.name, c.value, ())

instance : Described HostMapping where
  shape := .record "MemoryMapping" <|
    .required "mapped_address" (Described.shape UInt64) <|
    .required "offset" (Described.shape UInt64) <|
    .required "size" (Described.shape UInt64) .nil
  ofVal := fun (address, offset, size, ()) => ⟨address, offset, size⟩
  toVal m := (m.mappedAddress, m.offset, m.size, ())

instance : Described Resource where
  shape := .record "MemoryBinding" <|
    .required "handle" (Described.shape UInt64) <|
    .defaulted "name" (Described.shape String) <|
    .required "offset" (Described.shape UInt64) <|
    .required "size" (Described.shape UInt64) <|
    .required "kind" (Described.shape ResourceKind) .nil
  ofVal := fun (handle, name, offset, size, kind, ()) =>
    ⟨handle, name, offset, size, Described.ofVal kind⟩
  toVal r := (r.handle, r.name, r.offset, r.size, Described.toVal r.kind, ())
  ofVal_toVal r := by simp

instance : Described Allocation where
  shape := .record "Allocation" <|
    .required "handle" (Described.shape UInt64) <|
    .defaulted "name" (Described.shape String) <|
    .defaulted "device" (Described.shape UInt64) <|
    .defaulted "memory_type" (Described.shape UInt32) <|
    .required "size" (Described.shape UInt64) <|
    .defaulted "flags" (Described.shape UInt64) <|
    .defaulted "mapping" (Described.shape (Option HostMapping)) <|
    .defaulted "bindings" (Described.shape (List Resource)) .nil
  ofVal := fun (handle, name, device, memoryType, size, flags, mapping, bindings, ()) =>
    ⟨handle, name, device, memoryType, size, flags, Described.ofVal mapping,
      Described.ofVal bindings⟩
  toVal a :=
    (a.handle, a.name, a.device, a.memoryType, a.size, a.flags, Described.toVal a.mapping,
      Described.toVal a.bindings, ())
  ofVal_toVal a := by simp

instance : Described Breakdown where
  shape := .record "MemoryBreakdown" <|
    .defaulted "api" (Described.shape (Option String)) <|
    .defaulted "allocation_flags" (Described.shape (List FlagConstant)) <|
    .defaulted "allocations" (Described.shape (List Allocation)) .nil
  ofVal := fun (api, flags, allocations, ()) =>
    ⟨Described.ofVal api, Described.ofVal flags, Described.ofVal allocations⟩
  toVal b :=
    (Described.toVal b.api, Described.toVal b.allocationFlags, Described.toVal b.allocations, ())
  ofVal_toVal b := by simp

end AliasReport
