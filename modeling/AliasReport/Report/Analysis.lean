import AliasReport.Aliasing.Sweep
import AliasReport.Breakdown.Allocation
import AliasReport.Report.Config

/-! # Reports

A report gives for every allocation what is known of it and the regions in which its resources
alias.

* **`AllocationReport`**, **`analyze`** — the report of one allocation.
* **`Report`**, **`Report.ofBreakdown`** — the reports of the allocations that a configuration
  includes, in ascending order of their handles. The first allocation in that order that cannot be
  analysed is the fault.
-/

namespace AliasReport

open AliasReport.Document

/-- The report of one allocation. -/
structure AllocationReport where
  handle : UInt64
  name : String
  device : UInt64
  memoryType : UInt32
  size : UInt64
  /-- The names of the flags that are set. -/
  flags : List String
  mapping : Option HostMapping
  /-- How many resources are bound, whether they are listed or not. -/
  bindingCount : UInt64
  bindings : List Resource
  aliases : List Region
deriving DecidableEq, Repr

/-- The reports of several allocations. -/
structure Report where
  api : Option String
  allocations : List AllocationReport
deriving DecidableEq, Repr

/-- An allocation whose bindings cannot be analysed, and why. -/
structure AllocationFault where
  handle : UInt64
  cause : BindingFault
deriving DecidableEq, Repr

/-- The text of a fault, without its cause. -/
def AllocationFault.message (f : AllocationFault) : String :=
  "Failed to analyze allocation " ++ toString f.handle

/-! ## Analysis -/

/-- The report of an allocation whose aliased regions are known. -/
def Allocation.reportWith (a : Allocation) (constants : List FlagConstant)
    (aliases : List Region) : AllocationReport where
  handle := a.handle
  name := a.name
  device := a.device
  memoryType := a.memoryType
  size := a.size
  flags := flagNames a.flags constants
  mapping := a.activeMapping
  bindingCount := UInt64.ofNat a.bindings.length
  bindings := sortResources a.bindings
  aliases := aliases

/-- The report of an allocation. -/
def analyze (a : Allocation) (constants : List FlagConstant) (policy : DuplicatePolicy) :
    Except AllocationFault AllocationReport :=
  match aliasedRegions policy a.ranges with
  | .ok aliases => .ok (a.reportWith constants aliases)
  | .error cause => .error ⟨a.handle, cause⟩

/-- The report without its list of bindings. -/
def AllocationReport.hideBindings (r : AllocationReport) : AllocationReport :=
  { r with bindings := [] }

namespace Report

/-- The allocations that a configuration includes, in ascending order of their handles. Those of
one handle keep their order. -/
def selection (c : Config) (allocations : List Allocation) : List Allocation :=
  (allocations.filter fun a => c.includes a.handle).mergeSort
    fun a b => decide (a.handle ≤ b.handle)

/-- The report of a breakdown. -/
def ofBreakdown (b : Breakdown) (c : Config) : Except AllocationFault Report := do
  let reports ← (selection c b.allocations).mapM
    fun a => analyze a b.allocationFlags c.duplicateIds
  return ⟨b.api, if c.showBindings then reports else reports.map AllocationReport.hideBindings⟩

/-- The number of aliased regions of all allocations. -/
def totalAliases (r : Report) : Nat :=
  (r.allocations.flatMap (·.aliases)).length

end Report

/-! ## Documents -/

instance : Described Region where
  shape := .record "AliasRegion" <|
    .required "offset" (Described.shape UInt64) <|
    .required "size" (Described.shape UInt64) <|
    .required "sharers" (Described.shape (List UInt64)) .nil
  ofVal := fun (offset, size, sharers, ()) => ⟨offset, size, Described.ofVal sharers⟩
  toVal r := (r.offset, r.size, Described.toVal r.sharers, ())
  ofVal_toVal r := by simp

instance : Described AllocationReport where
  shape := .record "AllocationReport" <|
    .required "handle" (Described.shape UInt64) <|
    .required "name" (Described.shape String) <|
    .required "device" (Described.shape UInt64) <|
    .required "memory_type" (Described.shape UInt32) <|
    .required "size" (Described.shape UInt64) <|
    .required "flags" (Described.shape (List String)) <|
    .defaulted "mapping" (Described.shape (Option HostMapping)) <|
    .required "binding_count" (.word .size) <|
    .required "bindings" (Described.shape (List Resource)) <|
    .required "aliases" (Described.shape (List Region)) .nil
  ofVal := fun (handle, name, device, memoryType, size, flags, mapping, count, bindings, aliases,
      ()) =>
    ⟨handle, name, device, memoryType, size, Described.ofVal flags, Described.ofVal mapping,
      count, Described.ofVal bindings, Described.ofVal aliases⟩
  toVal r :=
    (r.handle, r.name, r.device, r.memoryType, r.size, Described.toVal r.flags,
      Described.toVal r.mapping, r.bindingCount, Described.toVal r.bindings,
      Described.toVal r.aliases, ())
  ofVal_toVal r := by simp

/-- The members of a report. -/
abbrev Report.layout : Members :=
  .defaulted "api" (Described.shape (Option String)) <|
  .required "allocations" (Described.shape (List AllocationReport)) .nil

instance : Described Report where
  shape := .record "MemoryReport" Report.layout
  ofVal := fun (api, allocations, ()) => ⟨Described.ofVal api, Described.ofVal allocations⟩
  toVal r := (Described.toVal r.api, Described.toVal r.allocations, ())
  ofVal_toVal r := by simp

end AliasReport
