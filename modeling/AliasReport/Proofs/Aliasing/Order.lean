import AliasReport.Proofs.Aliasing.Stretches
import Mathlib

/-! # The order of the bindings

Bindings are a collection: in which order they are listed should not matter. It does not for the
regions, and where identifiers are merged it does not matter how often a binding is listed either.
A failure keeps its kind and its identifier. Only one thing is left to the order: of several
overflowing bindings that share the least identifier the first is reported, with its own offset and
size.

* **`aliasedRegions_congr`** — the regions depend on the collection alone.
* **`exists_fault_of_perm`** — what a reordering keeps of every fault.
* **`fault_perm_iff`** — exactly when it keeps all of it.
* **`aliasedRegions_eq_of_perm`** — where identifiers are distinct nothing depends on the order. -/

namespace AliasReport

/-! ## Regions -/

/-- Which lists are the same collection under a policy: where identifiers are distinct, those that
differ in their order; where they are merged, those with the same members. -/
def SameCollection : DuplicatePolicy → List Binding → List Binding → Prop
  | .reject, bs, bs' => bs.Perm bs'
  | .merge, bs, bs' => ∀ b, b ∈ bs ↔ b ∈ bs'

/-- The same collection has the same members. -/
theorem SameCollection.mem_iff {policy : DuplicatePolicy} {bs bs' : List Binding}
    (h : SameCollection policy bs bs') (b : Binding) : b ∈ bs ↔ b ∈ bs' := by
  cases policy with
  | reject => exact List.Perm.mem_iff h
  | merge => exact h b

/-- Bindings in another order are the same collection under every policy. -/
theorem SameCollection.of_perm {policy : DuplicatePolicy} {bs bs' : List Binding}
    (h : bs.Perm bs') : SameCollection policy bs bs' := by
  cases policy with
  | reject => exact h
  | merge => exact fun _ => h.mem_iff

/-- Whether bindings are accepted depends on the collection alone. -/
theorem Accepted.congr {policy : DuplicatePolicy} {bs bs' : List Binding}
    (h : SameCollection policy bs bs') (haccepted : Accepted policy bs) : Accepted policy bs' where
  fits b hb := haccepted.fits b ((h.mem_iff b).mpr hb)
  distinct hp := by
    subst hp
    exact (List.Perm.map (·.id) h).nodup_iff.mp (haccepted.distinct rfl)

/-- The active identifiers depend on the members of the list alone. -/
theorem activeIds_congr {bs bs' : List Binding} (h : ∀ b, b ∈ bs ↔ b ∈ bs') (n : ℕ) :
    activeIds bs n = activeIds bs' n := by
  refine (activeIds_pairwise bs n).eq_of_mem_iff (activeIds_pairwise bs' n) fun id => ?_
  rw [mem_activeIds, mem_activeIds]
  simp only [ActiveBelow, h]

/-- The shared regions depend on the members of the list alone. -/
theorem sharedRegions_congr {bs bs' : List Binding} (h : ∀ b, b ∈ bs ↔ b ∈ bs') :
    sharedRegions bs = sharedRegions bs' := by
  have hregion : region? bs = region? bs' := by
    funext s
    rw [region?, region?, activeIds_congr h]
  rw [sharedRegions, sharedRegions, ascending_congr (mem_endpoints_congr h), hregion]

/-- In another order the regions are the same. -/
theorem regions_of_perm {policy : DuplicatePolicy} {bs bs' : List Binding} (h : bs.Perm bs')
    {rs : List Region} (hrs : aliasedRegions policy bs = .ok rs) :
    aliasedRegions policy bs' = .ok rs := by
  obtain ⟨haccepted, heq⟩ := aliasedRegions_eq_ok_iff.mp hrs
  refine aliasedRegions_eq_ok_iff.mpr ⟨haccepted.congr (.of_perm h), ?_⟩
  rw [← sharedRegions_congr fun _ => h.mem_iff, heq]

/-- **Success depends on the collection alone.** If the computation succeeds on a list, it succeeds
with the same regions on every list that is the same collection under the policy. -/
theorem aliasedRegions_congr {policy : DuplicatePolicy} {bs bs' : List Binding}
    (h : SameCollection policy bs bs') {rs : List Region}
    (hrs : aliasedRegions policy bs = .ok rs) : aliasedRegions policy bs' = .ok rs := by
  rw [aliasedRegions_eq_ok_iff] at hrs ⊢
  obtain ⟨haccepted, heq⟩ := hrs
  exact ⟨haccepted.congr h, (sharedRegions_congr h.mem_iff) ▸ heq⟩

/-- A list in another order, and one in which merged bindings are repeated. -/
theorem aliasedRegions_congr_reordered_repeated :
    let bs : List Binding := [⟨4, 0, 10⟩, ⟨2, 5, 9⟩, ⟨3, 7, 0⟩]
    let cs : List Binding := [⟨5, 0, 10⟩, ⟨5, 0, 4⟩, ⟨6, 2, 6⟩]
    let rs : List Region := [⟨5, 2, [2, 4]⟩, ⟨7, 3, [2, 4]⟩]
    let ss : List Region := [⟨2, 2, [5, 6]⟩]
    (SameCollection .reject bs [⟨3, 7, 0⟩, ⟨4, 0, 10⟩, ⟨2, 5, 9⟩] ∧
      aliasedRegions .reject bs = .ok rs ∧
      aliasedRegions .reject [⟨3, 7, 0⟩, ⟨4, 0, 10⟩, ⟨2, 5, 9⟩] = .ok rs) ∧
    (SameCollection .merge cs [⟨6, 2, 6⟩, ⟨5, 0, 4⟩, ⟨5, 0, 10⟩, ⟨5, 0, 4⟩, ⟨6, 2, 6⟩] ∧
      aliasedRegions .merge cs = .ok ss ∧
      aliasedRegions .merge [⟨6, 2, 6⟩, ⟨5, 0, 4⟩, ⟨5, 0, 10⟩, ⟨5, 0, 4⟩, ⟨6, 2, 6⟩] = .ok ss) := by
  intro bs cs rs ss
  have hbs : SameCollection .reject bs [⟨3, 7, 0⟩, ⟨4, 0, 10⟩, ⟨2, 5, 9⟩] := by
    show List.Perm _ _
    decide
  have hcs : SameCollection .merge cs [⟨6, 2, 6⟩, ⟨5, 0, 4⟩, ⟨5, 0, 10⟩, ⟨5, 0, 4⟩, ⟨6, 2, 6⟩] := by
    intro b
    simp only [cs, List.mem_cons, List.not_mem_nil, or_false]
    tauto
  have hrs : aliasedRegions .reject bs = .ok rs := by cbv
  have hss : aliasedRegions .merge cs = .ok ss := by cbv
  exact ⟨⟨hbs, hrs, aliasedRegions_congr hbs hrs⟩, ⟨hcs, hss, aliasedRegions_congr hcs hss⟩⟩

/-! ## Faults -/

/-- Whether two faults are of one kind and name one identifier. -/
def BindingFault.Agrees : BindingFault → BindingFault → Prop
  | .overflow b, .overflow c => b.id = c.id
  | .repeated i, .repeated j => i = j
  | _, _ => False

/-- Whether a binding overflows and no overflowing binding has a smaller identifier. -/
def LeastOverflowing (bs : List Binding) (b : Binding) : Prop :=
  b ∈ overflowing bs ∧ ∀ c ∈ overflowing bs, b.id ≤ c.id

/-- Overflowing bindings stay the same in another order. -/
theorem LeastOverflowing.perm {bs bs' : List Binding} (h : bs.Perm bs') {b : Binding}
    (hb : LeastOverflowing bs b) : LeastOverflowing bs' b := by
  have hperm : (overflowing bs).Perm (overflowing bs') := h.filter _
  exact ⟨hperm.mem_iff.mp hb.1, fun c hc => hb.2 c (hperm.mem_iff.mpr hc)⟩

/-- Least overflowing bindings have the same identifier. -/
theorem LeastOverflowing.id_eq {bs : List Binding} {b c : Binding} (hb : LeastOverflowing bs b)
    (hc : LeastOverflowing bs c) : b.id = c.id :=
  UInt64.le_antisymm (hb.2 c hc.1) (hc.2 b hb.1)

/-- A reported overflow is that of a least overflowing binding. -/
theorem leastOverflowing_of_fault {policy : DuplicatePolicy} {bs : List Binding} {b : Binding}
    (h : aliasedRegions policy bs = .error (.overflow b)) : LeastOverflowing bs b :=
  leastById_spec (check_eq_overflow_iff.mp (aliasedRegions_eq_error_iff.mp h))

/-- Where some binding overflows, the overflow of a least one is reported. -/
theorem exists_overflow_fault (policy : DuplicatePolicy) {bs : List Binding} {b : Binding}
    (hb : b ∈ overflowing bs) :
    ∃ c, LeastOverflowing bs c ∧ aliasedRegions policy bs = .error (.overflow c) := by
  cases hleast : leastById (overflowing bs) with
  | none =>
    rw [leastById_eq_none_iff] at hleast
    rw [hleast] at hb
    cases hb
  | some c =>
    exact ⟨c, leastById_spec hleast,
      aliasedRegions_eq_error_iff.mpr (check_eq_overflow_iff.mpr hleast)⟩

/-- A least overflowing binding is reported if it comes first. -/
theorem fault_of_leastOverflowing_first {policy : DuplicatePolicy} {b : Binding}
    {rest : List Binding} (h : LeastOverflowing (b :: rest) b) :
    aliasedRegions policy (b :: rest) = .error (.overflow b) := by
  have hb : b.end?.isNone := Binding.end?_isNone_iff.mpr (mem_overflowing.mp h.1).2
  have hcons : overflowing (b :: rest) = b :: overflowing rest := List.filter_cons_of_pos hb
  rw [aliasedRegions_eq_error_iff, check_eq_overflow_iff, hcons]
  refine leastById_cons_of_le fun c hc => h.2 c ?_
  rw [hcons]
  exact List.mem_cons_of_mem b hc

/-- **In another order the computation fails again**, with a fault of the same kind that names the
same identifier. -/
theorem exists_fault_of_perm {policy : DuplicatePolicy} {bs bs' : List Binding}
    (h : bs.Perm bs') {f : BindingFault} (hf : aliasedRegions policy bs = .error f) :
    ∃ f', aliasedRegions policy bs' = .error f' ∧ f.Agrees f' := by
  cases f with
  | overflow b =>
    -- Another binding may be reported now, but a least one again.
    have hb : LeastOverflowing bs' b := (leastOverflowing_of_fault hf).perm h
    obtain ⟨c, hc, hfault⟩ := exists_overflow_fault policy hb.1
    exact ⟨.overflow c, hfault, hb.id_eq hc⟩
  | repeated id =>
    rw [aliasedRegions_eq_error_iff, check_eq_repeated_iff] at hf
    obtain ⟨hfits, hp, hid⟩ := hf
    refine ⟨.repeated id, ?_, rfl⟩
    rw [aliasedRegions_eq_error_iff, check_eq_repeated_iff, ← leastRepeated_congr (h.map (·.id))]
    exact ⟨fun b hb => hfits b (h.mem_iff.mpr hb), hp, hid⟩

/-- **Exactly when a fault does not depend on the order.** Every reordering of a list fails with the
very fault of that list if and only if no two different bindings are least overflowing. -/
theorem fault_perm_iff (policy : DuplicatePolicy) (bs : List Binding) :
    (∀ bs', bs.Perm bs' → ∀ f, aliasedRegions policy bs = .error f →
      aliasedRegions policy bs' = .error f) ↔
    ∀ b c, LeastOverflowing bs b → LeastOverflowing bs c → b = c := by
  constructor
  · intro h
    -- whatever is reported, a least overflowing binding is reported once it is moved to the front
    have hfirst : ∀ d, aliasedRegions policy bs = .error (.overflow d) →
        ∀ b, LeastOverflowing bs b → d = b := by
      intro d hd b hb
      have hperm : bs.Perm (b :: bs.erase b) := List.perm_cons_erase (mem_overflowing.mp hb.1).1
      have hfault := h _ hperm _ hd
      rw [fault_of_leastOverflowing_first (hb.perm hperm)] at hfault
      cases hfault
      rfl
    intro b c hb hc
    obtain ⟨d, _, hd⟩ := exists_overflow_fault policy hb.1
    exact (hfirst d hd b hb).symm.trans (hfirst d hd c hc)
  · intro h bs' hperm f hf
    obtain ⟨f', hf', hagrees⟩ := exists_fault_of_perm hperm hf
    cases f with
    | overflow b =>
      cases f' with
      | overflow c =>
        have hc : LeastOverflowing bs c := (leastOverflowing_of_fault hf').perm hperm.symm
        rw [h b c (leastOverflowing_of_fault hf) hc]
        exact hf'
      | repeated id => exact hagrees.elim
    | repeated id =>
      cases f' with
      | overflow c => exact hagrees.elim
      | repeated id' =>
        cases hagrees
        exact hf'

/-- **The fault depends on the order** where two overflowing bindings share the least identifier. -/
theorem fault_not_perm :
    ¬ ∀ (policy : DuplicatePolicy) (bs bs' : List Binding) (f : BindingFault), bs.Perm bs' →
      aliasedRegions policy bs = .error f → aliasedRegions policy bs' = .error f := by
  intro h
  have hfirst : aliasedRegions .merge
      [⟨3, 0xFFFFFFFFFFFFFFFF, 5⟩, ⟨3, 0xFFFFFFFFFFFFFFFF, 2⟩] =
        .error (.overflow ⟨3, 0xFFFFFFFFFFFFFFFF, 5⟩) := by cbv
  have hsecond : aliasedRegions .merge
      [⟨3, 0xFFFFFFFFFFFFFFFF, 2⟩, ⟨3, 0xFFFFFFFFFFFFFFFF, 5⟩] =
        .error (.overflow ⟨3, 0xFFFFFFFFFFFFFFFF, 2⟩) := by cbv
  have hsame := h _ _ _ _ (List.Perm.swap _ _ []) hfirst
  rw [hsecond] at hsame
  cases hsame

/-! ## Distinct identifiers -/

/-- Where identifiers are distinct one binding has the least, in whatever order they are listed. -/
theorem leastById_eq_of_perm {bs bs' : List Binding} (h : bs.Perm bs')
    (hdistinct : (bs.map (·.id)).Nodup) : leastById bs = leastById bs' := by
  cases hb : leastById bs with
  | none =>
    rw [leastById_eq_none_iff] at hb
    subst hb
    rw [← h.nil_eq, leastById_nil]
  | some b =>
    obtain ⟨hmem, hle⟩ := leastById_spec hb
    cases hc : leastById bs' with
    | none =>
      rw [leastById_eq_none_iff] at hc
      subst hc
      exact absurd (h.mem_iff.mp hmem) List.not_mem_nil
    | some c =>
      obtain ⟨hmem', hle'⟩ := leastById_spec hc
      have hcbs : c ∈ bs := h.mem_iff.mpr hmem'
      have hid : b.id = c.id :=
        UInt64.le_antisymm (hle c hcbs) (hle' b (h.mem_iff.mp hmem))
      rw [List.inj_on_of_nodup_map hdistinct hmem hcbs hid]

/-- **The whole outcome does not depend on the order** where identifiers are distinct: neither the
regions nor the fault. -/
theorem aliasedRegions_eq_of_perm {policy : DuplicatePolicy} {bs bs' : List Binding}
    (h : bs.Perm bs') (hdistinct : (bs.map (·.id)).Nodup) :
    aliasedRegions policy bs = aliasedRegions policy bs' := by
  -- The reordered list has one candidate for each fault, and it is the same one.
  have hleast : leastById (overflowing bs) = leastById (overflowing bs') :=
    leastById_eq_of_perm (h.filter _) (hdistinct.sublist (List.filter_sublist.map _))
  have hcheck : check policy bs = check policy bs' := by
    unfold check
    rw [← overflowing, ← overflowing, hleast, leastRepeated_congr (h.map _)]
  cases hrs : aliasedRegions policy bs with
  | ok rs => exact (regions_of_perm h hrs).symm
  | error f =>
    rw [aliasedRegions_eq_error_iff, hcheck] at hrs
    exact (aliasedRegions_eq_error_iff.mpr hrs).symm

end AliasReport
