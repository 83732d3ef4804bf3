import AliasReport.Proofs.Aliasing.Ascending
import AliasReport.Proofs.Aliasing.Extent

/-! # Which bindings are accepted, and why others are not

`check` looks for overflowing bindings first and for repeated identifiers second. Behind it the
later stages find every binding fit, so a failure of the whole computation is a failure of `check`.

* **`Accepted`** — every binding fits, and identifiers are distinct where they have to be.
* **`check_eq_ok_iff`**, **`check_eq_overflow_iff`**, **`check_eq_repeated_iff`** — the outcomes of
  `check`.
* **`aliasedRegions_eq_error_iff`**, **`aliasedRegions_of_accepted`** — what follows for the whole
  computation. -/

namespace AliasReport

/-! ## The binding with the least identifier -/

/-- There is a binding with the least identifier unless there is no binding. -/
theorem leastById_eq_none_iff {bs : List Binding} : leastById bs = none ↔ bs = [] := by
  cases bs with
  | nil => simp
  | cons b rest =>
    unfold leastById
    split
    · simp
    · split <;> simp

/-- **`leastById` finds a member with the least identifier.** -/
theorem leastById_spec {bs : List Binding} {b : Binding} (h : leastById bs = some b) :
    b ∈ bs ∧ ∀ c ∈ bs, b.id ≤ c.id := by
  induction bs generalizing b with
  | nil => cases h
  | cons a rest ih =>
    unfold leastById at h
    split at h
    · next hrest =>
      cases h
      rw [leastById_eq_none_iff] at hrest
      subst hrest
      simp
    · next c hc =>
      obtain ⟨hmem, hle⟩ := ih hc
      split at h
      · next hlt =>
        cases h
        exact ⟨by simp [hmem], List.forall_mem_cons.mpr ⟨UInt64.le_of_lt hlt, hle⟩⟩
      · next hge =>
        cases h
        have hbc : a.id ≤ c.id := UInt64.not_lt.mp hge
        exact ⟨by simp, List.forall_mem_cons.mpr
          ⟨UInt64.le_refl _, fun d hd => UInt64.le_trans hbc (hle d hd)⟩⟩

/-- A binding in front of others whose identifiers are no smaller is the one found. -/
theorem leastById_cons_of_le {b : Binding} {rest : List Binding} (h : ∀ c ∈ rest, b.id ≤ c.id) :
    leastById (b :: rest) = some b := by
  unfold leastById
  split
  · rfl
  · next c hc =>
    have hle : b.id ≤ c.id := h c (leastById_spec hc).1
    rw [if_neg (UInt64.not_lt.mpr hle)]

/-! ## The least identifier that is repeated -/

/-- The head of an ascending list is not met again behind a different element. -/
theorem not_mem_of_pairwise_of_ne {a b : UInt64} {rest : List UInt64}
    (h : (a :: b :: rest).Pairwise (· ≤ ·)) (hne : a ≠ b) : a ∉ b :: rest := by
  intro hmem
  obtain ⟨hle, hrest⟩ := List.pairwise_cons.mp h
  have hba : b ≤ a := by
    rcases List.mem_cons.mp hmem with rfl | hmem
    · exact UInt64.le_refl _
    · exact List.rel_of_pairwise_cons hrest hmem
  exact hne (UInt64.le_antisymm (hle b (by simp)) hba)

/-- In an ascending list no element equals its successor exactly if none is repeated. -/
theorem firstTwin_eq_none_iff {xs : List UInt64} (h : xs.Pairwise (· ≤ ·)) :
    firstTwin xs = none ↔ xs.Nodup := by
  fun_induction firstTwin xs with
  | case1 => simp
  | case2 => simp
  | case3 a rest => simp
  | case4 a b rest hne ih =>
    have hnot : a ∉ b :: rest := not_mem_of_pairwise_of_ne h hne
    rw [ih h.tail]
    exact ⟨fun hnodup => List.nodup_cons.mpr ⟨hnot, hnodup⟩, fun hnodup => hnodup.tail⟩

/-- **`firstTwin` finds the least repeated element** of an ascending list. -/
theorem firstTwin_spec {xs : List UInt64} (h : xs.Pairwise (· ≤ ·)) {id : UInt64}
    (hid : firstTwin xs = some id) : 2 ≤ xs.count id ∧ ∀ j, 2 ≤ xs.count j → id ≤ j := by
  fun_induction firstTwin xs with
  | case1 => cases hid
  | case2 => cases hid
  | case3 a rest =>
    cases hid
    refine ⟨by simp, fun j hj => ?_⟩
    -- no element of an ascending list is below its head
    have hmem : j ∈ id :: id :: rest := List.count_pos_iff.mp (by omega)
    rcases List.mem_cons.mp hmem with rfl | hmem
    · exact UInt64.le_refl j
    · exact List.rel_of_pairwise_cons h hmem
  | case4 a b rest hne ih =>
    obtain ⟨hcount, hleast⟩ := ih h.tail hid
    have hnot : a ∉ b :: rest := not_mem_of_pairwise_of_ne h hne
    refine ⟨Nat.le_trans hcount List.count_le_count_cons, fun j hj => hleast j ?_⟩
    by_cases hja : a = j
    · -- the head occurs once only
      subst hja
      rw [List.count_cons_self, List.count_eq_zero_of_not_mem hnot] at hj
      omega
    · rwa [List.count_cons_of_ne hja] at hj

/-- No identifier is reported as repeated exactly if all are distinct. -/
theorem leastRepeated_eq_none_iff {ids : List UInt64} : leastRepeated ids = none ↔ ids.Nodup := by
  rw [leastRepeated, firstTwin_eq_none_iff (sorted_pairwise ids), (sorted_perm ids).nodup_iff]

/-- **`leastRepeated` finds the least element that occurs twice or more.** -/
theorem leastRepeated_spec {ids : List UInt64} {id : UInt64} (h : leastRepeated ids = some id) :
    2 ≤ ids.count id ∧ ∀ j, 2 ≤ ids.count j → id ≤ j := by
  have hspec := firstTwin_spec (sorted_pairwise ids) h
  simpa only [(sorted_perm ids).count_eq] using hspec

/-- The order of the identifiers does not matter. -/
theorem leastRepeated_congr {ids ids' : List UInt64} (h : ids.Perm ids') :
    leastRepeated ids = leastRepeated ids' := by
  rw [leastRepeated, leastRepeated, sorted_congr h]

/-! ## The outcomes of `check` -/

/-- The bindings whose end is not an address. -/
def overflowing (bs : List Binding) : List Binding := bs.filter fun b => b.end?.isNone

/-- The overflowing bindings are the members that do not fit. -/
theorem mem_overflowing {b : Binding} {bs : List Binding} :
    b ∈ overflowing bs ↔ b ∈ bs ∧ ¬ b.Fits := by
  rw [overflowing, List.mem_filter, Binding.end?_isNone_iff]

/-- Nothing overflows exactly if every binding fits. -/
theorem leastById_overflowing_eq_none_iff {bs : List Binding} :
    leastById (overflowing bs) = none ↔ ∀ b ∈ bs, b.Fits := by
  rw [leastById_eq_none_iff, List.eq_nil_iff_forall_not_mem]
  simp only [mem_overflowing, not_and, not_not]

/-- Bindings that can be analysed: each of them fits, and where repeated identifiers are rejected
the identifiers are distinct. -/
structure Accepted (policy : DuplicatePolicy) (bs : List Binding) : Prop where
  fits : ∀ b ∈ bs, b.Fits
  distinct : policy = .reject → (bs.map (·.id)).Nodup

/-- Everything that `check` can do: it reports an overflow, it reports a repeated identifier of
bindings that all fit, or it accepts. -/
theorem check_cases (policy : DuplicatePolicy) (bs : List Binding) :
    (∃ b, leastById (overflowing bs) = some b ∧ check policy bs = .error (.overflow b)) ∨
    (∃ id, (∀ b ∈ bs, b.Fits) ∧ policy = .reject ∧ leastRepeated (bs.map (·.id)) = some id ∧
      check policy bs = .error (.repeated id)) ∨
    (Accepted policy bs ∧ check policy bs = .ok ()) := by
  unfold check
  rw [← overflowing]
  cases hover : leastById (overflowing bs) with
  | some b => exact .inl ⟨b, rfl, rfl⟩
  | none =>
    -- Identifiers are looked at only where nothing overflows.
    have hfits : ∀ b ∈ bs, b.Fits := leastById_overflowing_eq_none_iff.mp hover
    cases policy with
    | merge => exact .inr (.inr ⟨⟨hfits, nofun⟩, rfl⟩)
    | reject =>
      cases htwin : leastRepeated (bs.map (·.id)) with
      | some id => exact .inr (.inl ⟨id, hfits, rfl, rfl, rfl⟩)
      | none => exact .inr (.inr ⟨⟨hfits, fun _ => leastRepeated_eq_none_iff.mp htwin⟩, rfl⟩)

/-- Accepted bindings have no fault to report. -/
theorem Accepted.no_fault {policy : DuplicatePolicy} {bs : List Binding}
    (h : Accepted policy bs) : leastById (overflowing bs) = none ∧
      (policy = .reject → leastRepeated (bs.map (·.id)) = none) :=
  ⟨leastById_overflowing_eq_none_iff.mpr h.fits,
    fun hp => leastRepeated_eq_none_iff.mpr (h.distinct hp)⟩

/-- **`check` succeeds exactly on accepted bindings.** -/
theorem check_eq_ok_iff {policy : DuplicatePolicy} {bs : List Binding} :
    check policy bs = .ok () ↔ Accepted policy bs := by
  constructor
  · intro h
    rcases check_cases policy bs with ⟨b, _, hb⟩ | ⟨id, _, _, _, hid⟩ | ⟨haccepted, _⟩
    · rw [h] at hb; cases hb
    · rw [h] at hid; cases hid
    · exact haccepted
  · intro h
    obtain ⟨hover, htwin⟩ := h.no_fault
    rcases check_cases policy bs with ⟨b, hb, _⟩ | ⟨id, _, hp, hid, _⟩ | ⟨_, hok⟩
    · rw [hover] at hb; cases hb
    · rw [htwin hp] at hid; cases hid
    · exact hok

/-- **An overflow is reported** for the overflowing binding with the least identifier, whatever
else is wrong. -/
theorem check_eq_overflow_iff {policy : DuplicatePolicy} {bs : List Binding} {b : Binding} :
    check policy bs = .error (.overflow b) ↔ leastById (overflowing bs) = some b := by
  rcases check_cases policy bs with ⟨c, hc, hcheck⟩ | ⟨id, hfits, _, _, hcheck⟩ |
    ⟨haccepted, hcheck⟩
  · simp [hc, hcheck]
  · simp [hcheck, leastById_overflowing_eq_none_iff.mpr hfits]
  · simp [hcheck, haccepted.no_fault.1]

/-- **A repeated identifier is reported** if nothing overflows and repetitions are rejected. -/
theorem check_eq_repeated_iff {policy : DuplicatePolicy} {bs : List Binding} {id : UInt64} :
    check policy bs = .error (.repeated id) ↔
      (∀ b ∈ bs, b.Fits) ∧ policy = .reject ∧ leastRepeated (bs.map (·.id)) = some id := by
  rcases check_cases policy bs with ⟨c, hc, hcheck⟩ | ⟨id', hfits, hp, hid, hcheck⟩ |
    ⟨haccepted, hcheck⟩
  · simp [← leastById_overflowing_eq_none_iff, hc, hcheck]
  · rw [hcheck, hid]
    simp only [Except.error.injEq, BindingFault.repeated.injEq, Option.some.injEq]
    exact ⟨fun h => ⟨hfits, hp, h⟩, fun h => h.2.2⟩
  · simp only [hcheck, reduceCtorEq, false_iff]
    rintro ⟨_, hp, hid⟩
    rw [haccepted.no_fault.2 hp] at hid
    cases hid

/-! ## The outcomes of the whole computation -/

/-- Behind a successful check the sweep runs over the endpoints and the crossings. -/
theorem aliasedRegions_of_accepted {policy : DuplicatePolicy} {bs : List Binding}
    (h : Accepted policy bs) :
    aliasedRegions policy bs =
      .ok (sweep (bs.flatMap Binding.crossings) [] (ascending (endpoints bs))) := by
  rw [aliasedRegions, check_eq_ok_iff.mpr h, boundaryPoints_eq h.fits, crossings_eq h.fits]
  rfl

/-- **The computation fails exactly as `check` does.** -/
theorem aliasedRegions_eq_error_iff {policy : DuplicatePolicy} {bs : List Binding}
    {f : BindingFault} : aliasedRegions policy bs = .error f ↔ check policy bs = .error f := by
  cases hcheck : check policy bs with
  | error g =>
    have hfails : aliasedRegions policy bs = .error g := by
      rw [aliasedRegions, hcheck]
      rfl
    simp [hfails]
  | ok =>
    rw [aliasedRegions_of_accepted (check_eq_ok_iff.mp hcheck)]
    simp

end AliasReport
