import AliasReport.Proofs.Aliasing.Layout

/-! # Who encloses a region

The sweep forgets which binding made an identifier active, and a merged identifier may have several
that overlap, touch or are empty. Still, whatever is reported is there: an identifier that is held
at the first address of a region is held by one binding, which cannot end before the region does,
because its end is a boundary point and no boundary point lies strictly inside.

* **`Binding.Encloses`** — whether the range of a binding contains that of a region.
* **`exists_encloses`** — every sharer of a region has a binding that encloses it.
* **`merged_enclosed`** — so merging never reports too much. -/

namespace AliasReport

/-- Whether the range of a binding contains the range of a region. -/
def Binding.Encloses (b : Binding) (r : Region) : Prop :=
  b.offset ≤ r.offset ∧ r.offset.toNat + r.size.toNat ≤ b.stop

/-- A binding that encloses a region covers its addresses. -/
theorem Binding.Encloses.covers {b : Binding} {r : Region} (h : b.Encloses r) {p : UInt64}
    (hp : r.Contains p) : b.Covers p :=
  ⟨UInt64.le_trans h.1 hp.1, Nat.lt_of_lt_of_le hp.2 h.2⟩

/-- A binding that covers the first address of a shared region encloses it. -/
theorem encloses_of_covers_offset {bs : List Binding} (hfits : ∀ b ∈ bs, b.Fits) {r : Region}
    (hr : r ∈ sharedRegions bs) {b : Binding} (hb : b ∈ bs) (hcov : b.Covers r.offset) :
    b.Encloses r := by
  have hspan : (r.offset, r.end) ∈ stretches (ascending (endpoints bs)) := span_mem_stretches hr
  have hrfits : r.Fits := (proper_of_mem_sharedRegions hr).fits
  -- the end of the binding is a boundary point, and it lies behind the first address
  have hpoint := (stretch_spec (ascending_pairwise _) hspan).2 _
    (mem_ascending.mpr (end_mem_endpoints hb))
  rw [UInt64.le_iff_toNat_le, UInt64.le_iff_toNat_le, (hfits b hb).toNat_end, hrfits.toNat_end]
    at hpoint
  exact ⟨hcov.1, hpoint.resolve_left (Nat.not_le.mpr hcov.2)⟩

/-- **Every sharer of a region encloses it** with one of its bindings, which is not empty. -/
theorem exists_encloses {bs : List Binding} (hfits : ∀ b ∈ bs, b.Fits) {r : Region}
    (hr : r ∈ sharedRegions bs) {id : UInt64} (hid : id ∈ r.sharers) :
    ∃ b ∈ bs, b.id = id ∧ 0 < b.size ∧ b.Encloses r := by
  have hfirst : r.Contains r.offset :=
    Region.contains_offset (proper_of_mem_sharedRegions hr).size_pos
  rw [(sharers_of_contains hfits hr hfirst).1, mem_activeIds_succ] at hid
  obtain ⟨b, hb, hbid, hcov⟩ := hid.exists_covers
  have hsize : b.size ≠ 0 := by
    rw [Binding.size_ne_zero_iff]
    exact Nat.lt_of_le_of_lt (UInt64.le_iff_toNat_le.mp hcov.1) hcov.2
  exact ⟨b, hb, hbid, UInt64.pos_iff_ne_zero.mpr hsize, encloses_of_covers_offset hfits hr hb hcov⟩

/-- A proper region has two different sharers. -/
theorem Region.Proper.exists_sharers_ne {r : Region} (h : r.Proper) :
    ∃ i ∈ r.sharers, ∃ j ∈ r.sharers, i ≠ j := by
  obtain ⟨-, -, hlen, hasc⟩ := h
  match r.sharers, hlen, hasc with
  | i :: j :: _, _, hasc =>
    have hlt : i < j := List.rel_of_pairwise_cons hasc (by simp)
    exact ⟨i, by simp, j, by simp, UInt64.ne_of_lt hlt⟩

/-- **Addresses of a region are shared**: bindings of two different identifiers cover each. -/
theorem sharedAt_of_contains {bs : List Binding} (hfits : ∀ b ∈ bs, b.Fits) {r : Region}
    (hr : r ∈ sharedRegions bs) {p : UInt64} (hp : r.Contains p) : SharedAt bs p := by
  obtain ⟨i, hi, j, hj, hne⟩ := (proper_of_mem_sharedRegions hr).exists_sharers_ne
  obtain ⟨b, hb, rfl, _, hbr⟩ := exists_encloses hfits hr hi
  obtain ⟨c, hc, rfl, _, hcr⟩ := exists_encloses hfits hr hj
  exact ⟨b, hb, c, hc, hne, hbr.covers hp, hcr.covers hp⟩

/-- **Merging never reports too much.** It succeeds on bindings that fit, and every sharer of a
region has a single binding, not empty, whose range contains the whole region. So bindings of two
different identifiers cover every address of a region, and an identifier of which all bindings are
empty is no sharer. Nor is a region missing where two identifiers are kept. -/
theorem merged_enclosed (bs : List Binding) (hfits : ∀ b ∈ bs, b.Fits) :
    ∃ rs, aliasedRegions .merge bs = .ok rs ∧
      (∀ r ∈ rs,
        (∀ id ∈ r.sharers, ∃ b ∈ bs, b.id = id ∧ 0 < b.size ∧ b.Encloses r) ∧
        (∀ p, r.Contains p → SharedAt bs p) ∧
        ∀ id, (∀ b ∈ bs, b.id = id → b.size = 0) → id ∉ r.sharers) ∧
      ∀ p i j, i ≠ j → KeptAt bs p i → KeptAt bs p j → ∃ r ∈ rs, r.Contains p := by
  refine ⟨sharedRegions bs, aliasedRegions_eq_ok_iff.mpr ⟨⟨hfits, nofun⟩, rfl⟩, fun r hr => ?_, ?_⟩
  · refine ⟨fun id hid => exists_encloses hfits hr hid, fun p hp => sharedAt_of_contains hfits hr hp,
      fun id hempty hid => ?_⟩
    obtain ⟨b, hb, hbid, hpos, _⟩ := exists_encloses hfits hr hid
    exact UInt64.pos_iff_ne_zero.mp hpos (hempty b hb hbid)
  · intro p i j hne hi hj
    exact exists_region_of_active hfits (one_lt_length_activeIds hne hi hj)

/-- Nested, touching and empty bindings of merged identifiers. -/
theorem merged_enclosed_nested :
    let bs : List Binding :=
      [⟨5, 0, 10⟩, ⟨5, 2, 4⟩, ⟨5, 10, 6⟩, ⟨6, 0, 12⟩, ⟨7, 3, 0⟩, ⟨6, 14, 0⟩]
    (∀ b ∈ bs, b.Fits) ∧ ∃ rs, aliasedRegions .merge bs = .ok rs ∧
      (∀ r ∈ rs,
        (∀ id ∈ r.sharers, ∃ b ∈ bs, b.id = id ∧ 0 < b.size ∧ b.Encloses r) ∧
        (∀ p, r.Contains p → SharedAt bs p) ∧
        ∀ id, (∀ b ∈ bs, b.id = id → b.size = 0) → id ∉ r.sharers) ∧
      ∀ p i j, i ≠ j → KeptAt bs p i → KeptAt bs p j → ∃ r ∈ rs, r.Contains p :=
  ⟨by decide, merged_enclosed _ (by decide)⟩

end AliasReport
