import AliasReport.Aliasing.Boundary
import Mathlib.Data.Nat.Notation

/-! # The addresses that bindings and regions occupy

Ends are computed with words, which can overflow; what a binding occupies is best said with
natural numbers. This file relates the two, and gives the boundary points and the crossings of
bindings of which each has an end as plain functions.

* **`Binding.Covers`**, **`Region.Contains`** — whether an address lies in the half-open range.
* **`Binding.Fits`** — whether the end of a binding is an address.
* **`boundaryPoints_eq`**, **`crossings_eq`** — neither fails if every binding fits. -/

namespace AliasReport

/-! ## Half-open ranges -/

/-- The exclusive end of a binding as a natural number. -/
def Binding.stop (b : Binding) : ℕ := b.offset.toNat + b.size.toNat

/-- Whether the end of a binding is an address. -/
def Binding.Fits (b : Binding) : Prop := b.stop < UInt64.size

instance (b : Binding) : Decidable b.Fits := inferInstanceAs (Decidable (_ < _))

/-- Whether an address lies in the range of a binding. -/
def Binding.Covers (b : Binding) (p : UInt64) : Prop := b.offset ≤ p ∧ p.toNat < b.stop

instance (b : Binding) (p : UInt64) : Decidable (b.Covers p) := inferInstanceAs (Decidable (_ ∧ _))

/-- Whether an address lies in the range of a region. -/
def Region.Contains (r : Region) (p : UInt64) : Prop :=
  r.offset ≤ p ∧ p.toNat < r.offset.toNat + r.size.toNat

instance (r : Region) (p : UInt64) : Decidable (r.Contains p) :=
  inferInstanceAs (Decidable (_ ∧ _))

/-- A binding is empty if it ends where it begins. -/
theorem Binding.size_ne_zero_iff {b : Binding} : b.size ≠ 0 ↔ b.offset.toNat < b.stop := by
  rw [Binding.stop, ne_eq, ← UInt64.toNat_inj, UInt64.toNat_zero]
  omega

/-! ## Ends that are addresses -/

/-- A binding lacks an end exactly if it does not fit. -/
theorem Binding.end?_isNone_iff {b : Binding} : b.end?.isNone ↔ ¬ b.Fits := by
  rw [Option.isNone_iff_eq_none, Binding.end?, checkedSum_eq_none_iff, Binding.Fits, Binding.stop]
  omega

/-- The sum of offset and size does not wrap around if the binding fits. -/
theorem Binding.Fits.toNat_end {b : Binding} (h : b.Fits) :
    (b.offset + b.size).toNat = b.stop := by
  rw [UInt64.toNat_add]
  exact Nat.mod_eq_of_lt h

/-- A binding that fits has an end. -/
theorem Binding.Fits.bound_eq {b : Binding} (h : b.Fits) :
    b.bound = .ok (b.offset + b.size) := by
  have hend : b.end? = some (b.offset + b.size) := by
    rw [Binding.end?, checkedSum, if_pos (show b.offset.toNat + b.size.toNat < UInt64.size from h)]
  rw [Binding.bound, hend]

/-! ## Points and crossings of bindings that fit -/

/-- The offset and the end of every binding. -/
def endpoints (bs : List Binding) : List UInt64 :=
  bs.flatMap fun b => [b.offset, b.offset + b.size]

/-- The beginning and the end of a binding that is not empty. -/
def Binding.crossings (b : Binding) : List Crossing :=
  if b.size = 0 then [] else [⟨b.offset, true, b.id⟩, ⟨b.offset + b.size, false, b.id⟩]

/-- Every offset is among the endpoints. -/
theorem offset_mem_endpoints {b : Binding} {bs : List Binding} (hb : b ∈ bs) :
    b.offset ∈ endpoints bs :=
  List.mem_flatMap.mpr ⟨b, hb, by simp⟩

/-- Every end is among the endpoints. -/
theorem end_mem_endpoints {b : Binding} {bs : List Binding} (hb : b ∈ bs) :
    b.offset + b.size ∈ endpoints bs :=
  List.mem_flatMap.mpr ⟨b, hb, by simp⟩

/-- The endpoints depend on the members of the list alone. -/
theorem mem_endpoints_congr {bs bs' : List Binding} (h : ∀ b, b ∈ bs ↔ b ∈ bs') (x : UInt64) :
    x ∈ endpoints bs ↔ x ∈ endpoints bs' := by
  simp only [endpoints, List.mem_flatMap, h]

/-- The edges of bindings that fit are their endpoints. -/
theorem edges_eq {bs : List Binding} (h : ∀ b ∈ bs, b.Fits) : edges bs = .ok (endpoints bs) := by
  induction bs with
  | nil => rfl
  | cons b rest ih =>
    have hb : b.bound = .ok (b.offset + b.size) := (h b (by simp)).bound_eq
    have hrest : edges rest = .ok (endpoints rest) := ih fun c hc => h c (by simp [hc])
    rw [edges, hb, hrest]
    rfl

/-- **Boundary points of bindings that fit** are their endpoints, ascending and each once. -/
theorem boundaryPoints_eq {bs : List Binding} (h : ∀ b ∈ bs, b.Fits) :
    boundaryPoints bs = .ok (ascending (endpoints bs)) := by
  rw [boundaryPoints, edges_eq h]
  rfl

/-- **Crossings of bindings that fit**, binding by binding. -/
theorem crossings_eq {bs : List Binding} (h : ∀ b ∈ bs, b.Fits) :
    crossings bs = .ok (bs.flatMap Binding.crossings) := by
  induction bs with
  | nil => rfl
  | cons b rest ih =>
    have hb : b.bound = .ok (b.offset + b.size) := (h b (by simp)).bound_eq
    have hrest : crossings rest = .ok (rest.flatMap Binding.crossings) :=
      ih fun c hc => h c (by simp [hc])
    rw [crossings, hb, hrest, List.flatMap_cons, Binding.crossings]
    split <;> rfl

/-- Where the bindings of an identifier begin. -/
theorem begins_mem_iff {bs : List Binding} {p id : UInt64} :
    ⟨p, true, id⟩ ∈ bs.flatMap Binding.crossings ↔
      ∃ b ∈ bs, b.id = id ∧ b.size ≠ 0 ∧ b.offset.toNat = p.toNat := by
  simp only [List.mem_flatMap, Binding.crossings, UInt64.toNat_inj]
  refine exists_congr fun b => and_congr_right fun _ => ?_
  split <;> simp_all [eq_comm, and_comm]

/-- Where the bindings of an identifier end. -/
theorem ends_mem_iff {bs : List Binding} {p id : UInt64} (h : ∀ b ∈ bs, b.Fits) :
    ⟨p, false, id⟩ ∈ bs.flatMap Binding.crossings ↔
      ∃ b ∈ bs, b.id = id ∧ b.size ≠ 0 ∧ b.stop = p.toNat := by
  simp only [List.mem_flatMap, Binding.crossings]
  refine exists_congr fun b => and_congr_right fun hb => ?_
  rw [← (h b hb).toNat_end, UInt64.toNat_inj]
  split <;> simp_all [eq_comm, and_comm]

end AliasReport
