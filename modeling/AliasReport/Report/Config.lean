import AliasReport.Document.Shape
import AliasReport.Aliasing.Binding

/-! # What to report and how

* **`Config`** — the policy for repeated identifiers, what reports show, and which allocations they
  cover. Every member of a configuration document may be missing.
* **`Overrides`**, **`Overrides.apply`** — choices that go before those of a configuration.
-/

namespace AliasReport

open AliasReport.Document

/-- What to report and how. -/
structure Config where
  duplicateIds : DuplicatePolicy
  /-- Whether reports list the bindings of each allocation. -/
  showBindings : Bool
  /-- Whether offsets and sizes are shown in base sixteen. -/
  hexOffsets : Bool
  /-- The handles of the allocations to report; all of them if there are none. -/
  allocations : List UInt64
deriving DecidableEq, Repr

namespace Config

/-- The configuration where nothing is chosen. -/
def default : Config := ⟨.reject, true, false, []⟩

/-- Whether an allocation is reported. -/
def includes (c : Config) (handle : UInt64) : Bool :=
  c.allocations.isEmpty || c.allocations.contains handle

/-- An allocation is included if it is asked for, or if none is. -/
theorem includes_iff {c : Config} {handle : UInt64} :
    c.includes handle = true ↔ c.allocations = [] ∨ handle ∈ c.allocations := by
  simp [includes]

end Config

/-- Choices that go before those of a configuration. -/
structure Overrides where
  /-- The handles of the allocations to report, if there are any. -/
  allocations : List UInt64
  hideBindings : Bool
  hexOffsets : Bool
  mergeDuplicates : Bool
deriving DecidableEq, Repr

namespace Overrides

/-- No choice at all. -/
def none : Overrides := ⟨[], false, false, false⟩

/-- A configuration with the choices put in. -/
def apply (o : Overrides) (c : Config) : Config where
  duplicateIds := if o.mergeDuplicates then .merge else c.duplicateIds
  showBindings := if o.hideBindings then false else c.showBindings
  hexOffsets := if o.hexOffsets then true else c.hexOffsets
  allocations := if o.allocations.isEmpty then c.allocations else o.allocations

@[simp] theorem apply_none (c : Config) : none.apply c = c := rfl

end Overrides

/-! ## Documents -/

instance : Described DuplicatePolicy where
  shape := .choice "reject" ["merge"]
  ofVal := [DuplicatePolicy.reject, DuplicatePolicy.merge].get
  toVal
    | .reject => (0 : Fin 2)
    | .merge => (1 : Fin 2)
  ofVal_toVal p := by cases p <;> rfl

instance : Described Config where
  shape := .record "AnalysisConfig" <|
    .defaulted "duplicate_ids" (Described.shape DuplicatePolicy) <|
    .defaulted "show_bindings" (.truth true) <|
    .defaulted "hex_offsets" (.truth false) <|
    .defaulted "allocations" (Described.shape (List UInt64)) .nil
  ofVal := fun (duplicateIds, showBindings, hexOffsets, allocations, ()) =>
    ⟨Described.ofVal duplicateIds, showBindings, hexOffsets, Described.ofVal allocations⟩
  toVal c :=
    (Described.toVal c.duplicateIds, c.showBindings, c.hexOffsets,
      Described.toVal c.allocations, ())
  ofVal_toVal c := by simp

end AliasReport
