import AliasReport.Proofs.Aliasing.Order

/-! # When the computation fails, and with what

The faults are told apart by conditions on the bindings alone: an overflow goes before a repeated
identifier, of the faults of one kind the one with the least identifier is reported, and where
neither is met there is a result. Everything is found out by `check`; the stages behind it compute
the same ends once more and cannot fail there.

* **`Repeats`** — whether an identifier occurs twice or more.
* **`exists_overflow_iff`**, **`exists_repeated_iff`**, **`exists_regions_iff`** — the three
  outcomes.
* **`failure_conditions`** — all of it together. -/

namespace AliasReport

/-- Whether an identifier occurs twice or more. Empty bindings count as well. -/
def Repeats (bs : List Binding) (id : UInt64) : Prop := 2 ≤ (bs.map (·.id)).count id

/-- Identifiers are distinct exactly if none is repeated. -/
theorem nodup_ids_iff {bs : List Binding} : (bs.map (·.id)).Nodup ↔ ∀ id, ¬ Repeats bs id := by
  rw [List.nodup_iff_count_le_one]
  refine forall_congr' fun id => ?_
  rw [Repeats, Nat.not_le, Nat.lt_succ_iff]

/-! ## Overflow -/

/-- **There is an overflow to report** exactly if some binding overflows, whatever else is wrong. -/
theorem exists_overflow_iff (policy : DuplicatePolicy) {bs : List Binding} :
    (∃ b, aliasedRegions policy bs = .error (.overflow b)) ↔ ∃ b ∈ bs, ¬ b.Fits := by
  constructor
  · rintro ⟨b, hfault⟩
    exact ⟨b, mem_overflowing.mp (leastOverflowing_of_fault hfault).1⟩
  · rintro ⟨b, hb⟩
    obtain ⟨c, _, hfault⟩ := exists_overflow_fault policy (mem_overflowing.mpr hb)
    exact ⟨c, hfault⟩

/-- **The overflow that is reported** is that of an overflowing binding, and no overflowing binding
has a smaller identifier. -/
theorem overflow_is_least {policy : DuplicatePolicy} {bs : List Binding} {b : Binding}
    (h : aliasedRegions policy bs = .error (.overflow b)) :
    b ∈ bs ∧ ¬ b.Fits ∧ ∀ c ∈ bs, ¬ c.Fits → b.id ≤ c.id := by
  obtain ⟨hmem, hleast⟩ := leastOverflowing_of_fault h
  obtain ⟨hb, hover⟩ := mem_overflowing.mp hmem
  exact ⟨hb, hover, fun c hc hcover => hleast c (mem_overflowing.mpr ⟨hc, hcover⟩)⟩

/-! ## Repetition -/

/-- A repeated identifier is reported if nothing overflows, repetitions are rejected and the least
repeated element is that identifier. -/
theorem repeated_fault_iff {policy : DuplicatePolicy} {bs : List Binding} {id : UInt64} :
    aliasedRegions policy bs = .error (.repeated id) ↔
      (∀ b ∈ bs, b.Fits) ∧ policy = .reject ∧ leastRepeated (bs.map (·.id)) = some id :=
  aliasedRegions_eq_error_iff.trans check_eq_repeated_iff

/-- **There is a repeated identifier to report** exactly if nothing overflows, repetitions are
rejected and some identifier is repeated. -/
theorem exists_repeated_iff {policy : DuplicatePolicy} {bs : List Binding} :
    (∃ id, aliasedRegions policy bs = .error (.repeated id)) ↔
      (∀ b ∈ bs, b.Fits) ∧ policy = .reject ∧ ∃ id, Repeats bs id := by
  constructor
  · rintro ⟨id, hfault⟩
    obtain ⟨hfits, hp, hid⟩ := repeated_fault_iff.mp hfault
    exact ⟨hfits, hp, id, (leastRepeated_spec hid).1⟩
  · rintro ⟨hfits, hp, id, hid⟩
    cases hleast : leastRepeated (bs.map (·.id)) with
    | none => exact absurd hid (nodup_ids_iff.mp (leastRepeated_eq_none_iff.mp hleast) id)
    | some j => exact ⟨j, repeated_fault_iff.mpr ⟨hfits, hp, hleast⟩⟩

/-- **The repetition that is reported** is that of the least repeated identifier. -/
theorem repeated_is_least {policy : DuplicatePolicy} {bs : List Binding} {id : UInt64}
    (h : aliasedRegions policy bs = .error (.repeated id)) :
    Repeats bs id ∧ ∀ j, Repeats bs j → id ≤ j :=
  leastRepeated_spec (repeated_fault_iff.mp h).2.2

/-! ## Success -/

/-- **There is a result** exactly if nothing overflows and, where repetitions are rejected, no
identifier is repeated. -/
theorem exists_regions_iff {policy : DuplicatePolicy} {bs : List Binding} :
    (∃ rs, aliasedRegions policy bs = .ok rs) ↔
      (∀ b ∈ bs, b.Fits) ∧ (policy = .reject → ∀ id, ¬ Repeats bs id) := by
  constructor
  · rintro ⟨rs, hrs⟩
    obtain ⟨haccepted, _⟩ := aliasedRegions_eq_ok_iff.mp hrs
    exact ⟨haccepted.fits, fun hp => nodup_ids_iff.mp (haccepted.distinct hp)⟩
  · rintro ⟨hfits, hdistinct⟩
    have haccepted : Accepted policy bs := ⟨hfits, fun hp => nodup_ids_iff.mpr (hdistinct hp)⟩
    exact ⟨_, aliasedRegions_eq_ok_iff.mpr ⟨haccepted, rfl⟩⟩

/-- Behind a successful check neither the boundary points nor the crossings can fail. -/
theorem later_stages_of_check {policy : DuplicatePolicy} {bs : List Binding}
    (h : check policy bs = .ok ()) :
    (∃ points, boundaryPoints bs = .ok points) ∧ ∃ cs, crossings bs = .ok cs := by
  have hfits : ∀ b ∈ bs, b.Fits := (check_eq_ok_iff.mp h).fits
  exact ⟨⟨_, boundaryPoints_eq hfits⟩, ⟨_, crossings_eq hfits⟩⟩

/-- **Exactly when the computation fails.** It reports an overflow if and only if some binding
overflows, and then one with the least identifier of those that do. It reports a repeated identifier
if and only if nothing overflows, repetitions are rejected and some identifier is repeated, and then
the least one. In all other cases there is a result. Behind a successful check no stage fails. -/
theorem failure_conditions (policy : DuplicatePolicy) (bs : List Binding) :
    ((∃ b, aliasedRegions policy bs = .error (.overflow b)) ↔ ∃ b ∈ bs, ¬ b.Fits) ∧
    (∀ b, aliasedRegions policy bs = .error (.overflow b) →
      b ∈ bs ∧ ¬ b.Fits ∧ ∀ c ∈ bs, ¬ c.Fits → b.id ≤ c.id) ∧
    ((∃ id, aliasedRegions policy bs = .error (.repeated id)) ↔
      (∀ b ∈ bs, b.Fits) ∧ policy = .reject ∧ ∃ id, Repeats bs id) ∧
    (∀ id, aliasedRegions policy bs = .error (.repeated id) →
      Repeats bs id ∧ ∀ j, Repeats bs j → id ≤ j) ∧
    ((∃ rs, aliasedRegions policy bs = .ok rs) ↔
      (∀ b ∈ bs, b.Fits) ∧ (policy = .reject → ∀ id, ¬ Repeats bs id)) ∧
    (check policy bs = .ok () →
      (∃ points, boundaryPoints bs = .ok points) ∧ ∃ cs, crossings bs = .ok cs) :=
  ⟨exists_overflow_iff policy, fun _ => overflow_is_least, exists_repeated_iff,
    fun _ => repeated_is_least, exists_regions_iff, later_stages_of_check⟩

end AliasReport
