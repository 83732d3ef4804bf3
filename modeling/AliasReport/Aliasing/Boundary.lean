import AliasReport.Aliasing.Binding

/-! # Boundary points

The addresses at which the set of bindings that cover an address can change.

* **`ascending`** — the elements of a list in ascending order, each of them once.
* **`boundaryPoints`** — every offset and end of the bindings, ascending and each once; an empty
  binding has one point. The first binding without an end is the fault.
* **`crossings`** — where each binding that is not empty begins and ends.
-/

namespace AliasReport

/-- Drops the elements of a list that equal the one before them. -/
def dropRepeats : List UInt64 → List UInt64
  | [] => []
  | [a] => [a]
  | a :: b :: rest => if a = b then dropRepeats (b :: rest) else a :: dropRepeats (b :: rest)

@[simp] theorem dropRepeats_nil : dropRepeats [] = [] := rfl

@[simp] theorem dropRepeats_singleton (a : UInt64) : dropRepeats [a] = [a] := rfl

/-- Dropping repetitions loses no number. -/
theorem mem_dropRepeats {x : UInt64} {xs : List UInt64} : x ∈ dropRepeats xs ↔ x ∈ xs := by
  fun_induction dropRepeats xs with
  | case1 => rfl
  | case2 => rfl
  | case3 a rest ih => simp [ih]
  | case4 a b rest _ ih => simp [ih]

/-- The elements of a list in ascending order. -/
def sorted (xs : List UInt64) : List UInt64 :=
  xs.mergeSort fun a b => decide (a ≤ b)

/-- Sorting keeps every number as often as it stands there. -/
theorem sorted_perm (xs : List UInt64) : (sorted xs).Perm xs :=
  List.mergeSort_perm xs _

/-- The elements of a list in ascending order, each of them once. -/
def ascending (xs : List UInt64) : List UInt64 :=
  dropRepeats (sorted xs)

/-- Sorting neither adds nor loses an element. -/
theorem mem_ascending {x : UInt64} {xs : List UInt64} : x ∈ ascending xs ↔ x ∈ xs :=
  mem_dropRepeats.trans (sorted_perm xs).mem_iff

/-- The offset and the end of every binding, in the order of the bindings. -/
def edges : List Binding → Except BindingFault (List UInt64)
  | [] => .ok []
  | b :: bs => do
    let e ← b.bound
    let rest ← edges bs
    return b.offset :: e :: rest

/-- Every offset and end, ascending and each of them once. -/
def boundaryPoints (bs : List Binding) : Except BindingFault (List UInt64) :=
  (edges bs).map ascending

/-- Where a binding that is not empty begins or ends. -/
structure Crossing where
  address : UInt64
  begins : Bool
  id : UInt64
deriving DecidableEq, Repr

/-- The crossings of the bindings that are not empty. -/
def crossings : List Binding → Except BindingFault (List Crossing)
  | [] => .ok []
  | b :: bs =>
    if b.size = 0 then crossings bs
    else do
      let e ← b.bound
      let rest ← crossings bs
      return ⟨b.offset, true, b.id⟩ :: ⟨e, false, b.id⟩ :: rest

/-- The identifiers of the bindings that begin, or that end, at an address. -/
def idsAt (cs : List Crossing) (begins : Bool) (address : UInt64) : List UInt64 :=
  (cs.filter fun c => c.begins = begins ∧ c.address = address).map (·.id)

/-- The identifiers that begin or end at an address are those of the crossings there. -/
theorem mem_idsAt {cs : List Crossing} {begins : Bool} {address id : UInt64} :
    id ∈ idsAt cs begins address ↔ ⟨address, begins, id⟩ ∈ cs := by
  simp only [idsAt, List.mem_map, List.mem_filter, decide_eq_true_eq]
  constructor
  · rintro ⟨c, ⟨h, rfl, rfl⟩, rfl⟩
    exact h
  · exact fun h => ⟨_, ⟨h, rfl, rfl⟩, rfl⟩

end AliasReport
