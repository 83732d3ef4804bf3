/-! # Bindings and aliased regions

A binding occupies the half-open range of addresses `[offset, offset + size)` of one allocation.
Addresses are words of 64 bits, and the end of a binding has to be one as well.

* **`Binding`**, **`Binding.end?`** — a range with the identifier of what occupies it, and its
  exclusive end.
* **`Region`**, **`Region.end`** — a range that several identifiers share, and its exclusive end,
  held at the last address for ranges that exceed the address space.
* **`DuplicatePolicy`** — whether an identifier may occur more than once.
* **`BindingFault`** — why the bindings of an allocation cannot be analysed.
-/

namespace AliasReport

/-- A range of addresses that is occupied by one resource. -/
structure Binding where
  id : UInt64
  offset : UInt64
  size : UInt64
deriving DecidableEq, Repr

/-- A range of addresses that several resources occupy at once. -/
structure Region where
  offset : UInt64
  size : UInt64
  /-- The identifiers of the resources. -/
  sharers : List UInt64
deriving DecidableEq, Repr

/-- What to do with an identifier that occurs more than once. -/
inductive DuplicatePolicy
  | reject
  /-- Bindings of one identifier are a single resource, which does not alias itself. -/
  | merge
deriving DecidableEq, Repr

/-- Why the bindings of an allocation cannot be analysed. -/
inductive BindingFault
  /-- The end of the binding is not an address. -/
  | overflow (binding : Binding)
  /-- The identifier occurs more than once. -/
  | repeated (id : UInt64)
deriving DecidableEq, Repr

/-- The sum of two words if it is a word. -/
def checkedSum (a b : UInt64) : Option UInt64 :=
  if a.toNat + b.toNat < UInt64.size then some (a + b) else none

/-- A sum that does not overflow is the sum of the numbers. -/
theorem checkedSum_eq_some {a b s : UInt64} (h : checkedSum a b = some s) :
    s.toNat = a.toNat + b.toNat := by
  unfold checkedSum at h
  split at h
  · next hlt =>
    cases h
    rw [UInt64.toNat_add]
    exact Nat.mod_eq_of_lt hlt
  · cases h

/-- A sum overflows if it does not fit into a word. -/
theorem checkedSum_eq_none_iff {a b : UInt64} :
    checkedSum a b = none ↔ UInt64.size ≤ a.toNat + b.toNat := by
  unfold checkedSum
  split <;> simp_all

/-- The exclusive end of a binding, if it is an address. -/
def Binding.end? (b : Binding) : Option UInt64 :=
  checkedSum b.offset b.size

/-- The exclusive end of a binding, or the fault of not having one. -/
def Binding.bound (b : Binding) : Except BindingFault UInt64 :=
  match b.end? with
  | some e => .ok e
  | none => .error (.overflow b)

/-- The exclusive end of a region, or the last address if the region exceeds it. -/
def Region.end (r : Region) : UInt64 :=
  (checkedSum r.offset r.size).getD (UInt64.ofNat (UInt64.size - 1))

/-- The text of a fault. -/
def BindingFault.message : BindingFault → String
  | .overflow b =>
    "Binding " ++ toString b.id ++ " overflows the 64-bit address space (offset "
      ++ toString b.offset ++ ", size " ++ toString b.size ++ ")"
  | .repeated id =>
    "Binding id " ++ toString id ++ " appears more than once in the same allocation"

end AliasReport
