import AliasReport.Proofs.Aliasing.Coverage

/-! # How regions lie in the address space

Ends of regions are computed with words as those of bindings are, and an end that is not an address
would be held at the last one. Regions that are reported never come near that case: each spans one
stretch between neighbouring boundary points, and a boundary point is an address.

* **`Region.stop`**, **`Region.Fits`** — the end as a natural number, and whether it is an address.
* **`Region.Proper`** — what holds of a region by itself.
* **`Tidy`** — what holds of the ranges of a list of regions: they are in order and do not overlap.
* **`proper_of_mem_sharedRegions`**, **`span_mem_stretches`**, **`sharedRegions_tidy`** — the shared
  regions are such.
* **`layout_of_regions`** — so is every result, under either policy. -/

namespace AliasReport

/-! ## Ends of regions -/

/-- The exclusive end of a region as a natural number. -/
def Region.stop (r : Region) : ℕ := r.offset.toNat + r.size.toNat

/-- Whether the end of a region is an address. -/
def Region.Fits (r : Region) : Prop := r.stop < UInt64.size

/-- The end of a region that fits is not held at the last address. -/
theorem Region.Fits.toNat_end {r : Region} (h : r.Fits) : r.end.toNat = r.stop := by
  have hsum : checkedSum r.offset r.size = some (r.offset + r.size) := if_pos h
  rw [Region.end, hsum, Option.getD_some, checkedSum_eq_some hsum, Region.stop]

/-- A region by itself: its range is not empty and ends at an address, and two identifiers or more
share it, ascending and each of them once. -/
structure Region.Proper (r : Region) : Prop where
  size_pos : 0 < r.size
  fits : r.Fits
  shared : 2 ≤ r.sharers.length
  ascending : r.sharers.Pairwise (· < ·)

/-- Ranges that are not empty, end at addresses, and of which each ends before the next begins. -/
structure Tidy (rs : List Region) : Prop where
  size_pos : ∀ r ∈ rs, 0 < r.size
  fits : ∀ r ∈ rs, r.Fits
  inOrder : rs.Pairwise fun r s => r.stop ≤ s.offset.toNat

/-- A region that is not empty begins below its end. -/
theorem Region.offset_lt_stop {r : Region} (h : 0 < r.size) : r.offset.toNat < r.stop := by
  have hpos : 0 < r.size.toNat := UInt64.lt_iff_toNat_lt.mp h
  rw [Region.stop]
  omega

/-- A region that is not empty contains its first address. -/
theorem Region.contains_offset {r : Region} (h : 0 < r.size) : r.Contains r.offset :=
  ⟨UInt64.le_refl _, Region.offset_lt_stop h⟩

/-- A region that is not empty has a last address. -/
theorem Region.exists_last {r : Region} (hpos : 0 < r.size) (hfits : r.Fits) :
    ∃ p : UInt64, p.toNat + 1 = r.stop ∧ r.Contains p := by
  have hlt : r.offset.toNat < r.stop := Region.offset_lt_stop hpos
  have hend : r.end.toNat = r.stop := hfits.toNat_end
  have hone : (1 : UInt64) ≤ r.end := by
    rw [UInt64.le_iff_toNat_le, UInt64.toNat_one]
    omega
  have hlast : (r.end - 1).toNat = r.end.toNat - 1 := by
    rw [UInt64.toNat_sub_of_le _ _ hone, UInt64.toNat_one]
  refine ⟨r.end - 1, by omega, ?_⟩
  show r.offset ≤ r.end - 1 ∧ (r.end - 1).toNat < r.stop
  rw [UInt64.le_iff_toNat_le]
  omega

/-! ## The shared regions -/

/-- A stretch as a region ends at an address, since its second point is one. -/
theorem fits_stretch {s : UInt64 × UInt64} (hs : s.1 < s.2) (ids : List UInt64) :
    Region.Fits ⟨s.1, s.2 - s.1, ids⟩ :=
  (toNat_add_size_of_stretch hs).trans_lt s.2.toNat_lt_size

/-- A stretch as a region ends at its second point. -/
theorem end_stretch {s : UInt64 × UInt64} (hs : s.1 < s.2) (ids : List UInt64) :
    Region.end ⟨s.1, s.2 - s.1, ids⟩ = s.2 := by
  rw [← UInt64.toNat_inj, (fits_stretch hs ids).toNat_end]
  exact toNat_add_size_of_stretch hs

/-- **A shared region spans one stretch**: it reaches from a boundary point to the next. -/
theorem span_mem_stretches {bs : List Binding} {r : Region} (hr : r ∈ sharedRegions bs) :
    (r.offset, r.end) ∈ stretches (ascending (endpoints bs)) := by
  obtain ⟨s, hs, _, rfl⟩ := mem_sharedRegions.mp hr
  rw [end_stretch (stretch_spec (ascending_pairwise _) hs).1]
  exact hs

/-- A shared region is proper. -/
theorem proper_of_mem_sharedRegions {bs : List Binding} {r : Region} (hr : r ∈ sharedRegions bs) :
    r.Proper := by
  obtain ⟨s, hs, hlen, rfl⟩ := mem_sharedRegions.mp hr
  have hup : s.1 < s.2 := (stretch_spec (ascending_pairwise _) hs).1
  have hsize : 0 < s.2 - s.1 := by
    have hsum := toNat_add_size_of_stretch hup
    rw [UInt64.lt_iff_toNat_lt] at hup ⊢
    rw [UInt64.toNat_zero]
    omega
  exact ⟨hsize, fits_stretch hup _, hlen, activeIds_pairwise bs _⟩

/-- The shared regions are in order and do not overlap. -/
theorem sharedRegions_tidy (bs : List Binding) : Tidy (sharedRegions bs) where
  size_pos _ hr := (proper_of_mem_sharedRegions hr).size_pos
  fits _ hr := (proper_of_mem_sharedRegions hr).fits
  inOrder := sharedRegions_pairwise bs

/-- In a tidy list the offsets ascend, and the ends, computed as words, stay below them. -/
theorem Tidy.pairwise {rs : List Region} (h : Tidy rs) :
    rs.Pairwise fun r s => r.offset < s.offset ∧ r.end ≤ s.offset := by
  refine h.inOrder.imp_of_mem fun {r s} hr _ hrs => ?_
  have hlt : r.offset.toNat < r.stop := Region.offset_lt_stop (h.size_pos r hr)
  rw [UInt64.lt_iff_toNat_lt, UInt64.le_iff_toNat_le, (h.fits r hr).toNat_end]
  exact ⟨by omega, hrs⟩

/-! ## The result -/

/-- **The layout of a result**, under either policy. Every region is proper, so its end is not held
at the last address; the regions come by ascending offset and each ends before the next begins; two
neighbouring boundary points are different and in order, so the distance from one to the next does
not wrap around; and every region spans exactly two neighbouring boundary points. -/
theorem layout_of_regions {policy : DuplicatePolicy} {bs : List Binding} {rs : List Region}
    (h : aliasedRegions policy bs = .ok rs) :
    (∀ r ∈ rs, r.Proper ∧ r.end.toNat = r.offset.toNat + r.size.toNat) ∧
    (rs.Pairwise fun r s => r.offset < s.offset ∧ r.end ≤ s.offset) ∧
    ∃ points, boundaryPoints bs = .ok points ∧
      (∀ s ∈ stretches points, s.1 < s.2) ∧
      ∀ r ∈ rs, (r.offset, r.end) ∈ stretches points := by
  obtain ⟨haccepted, rfl⟩ := aliasedRegions_eq_ok_iff.mp h
  refine ⟨fun r hr => ?_, (sharedRegions_tidy bs).pairwise, ?_⟩
  · have hproper : r.Proper := proper_of_mem_sharedRegions hr
    exact ⟨hproper, hproper.fits.toNat_end⟩
  · refine ⟨ascending (endpoints bs), boundaryPoints_eq haccepted.fits, fun s hs => ?_,
      fun r hr => span_mem_stretches hr⟩
    exact (stretch_spec (ascending_pairwise _) hs).1

/-- Merged bindings of one identifier that overlap, and regions up to the last address. -/
theorem layout_of_regions_at_last_address :
    let bs : List Binding :=
      [⟨5, 0xFFFFFFFFFFFFFFF0, 15⟩, ⟨6, 0xFFFFFFFFFFFFFFF2, 13⟩, ⟨6, 0xFFFFFFFFFFFFFFF2, 13⟩,
        ⟨2, 0xFFFFFFFFFFFFFFF4, 4⟩, ⟨7, 0xFFFFFFFFFFFFFFFF, 0⟩]
    let rs : List Region :=
      [⟨0xFFFFFFFFFFFFFFF2, 2, [5, 6]⟩, ⟨0xFFFFFFFFFFFFFFF4, 4, [2, 5, 6]⟩,
        ⟨0xFFFFFFFFFFFFFFF8, 7, [5, 6]⟩]
    aliasedRegions .merge bs = .ok rs ∧
      (∀ r ∈ rs, r.Proper ∧ r.end.toNat = r.offset.toNat + r.size.toNat) ∧
      (rs.Pairwise fun r s => r.offset < s.offset ∧ r.end ≤ s.offset) ∧
      ∃ points, boundaryPoints bs = .ok points ∧
        (∀ s ∈ stretches points, s.1 < s.2) ∧
        ∀ r ∈ rs, (r.offset, r.end) ∈ stretches points := by
  intro bs rs
  have hrs : aliasedRegions .merge bs = .ok rs := by cbv
  exact ⟨hrs, layout_of_regions hrs⟩

end AliasReport
