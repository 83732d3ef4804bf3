import AliasReport.Proofs.Aliasing.Joining

/-! # Empty bindings split regions and do nothing else

An empty binding covers no address, but its offset is a boundary point, and there the sweep closes
one region and opens the next with the same sharers. A binding that is not empty changes the sharers
where it begins and where it ends, provided that no other binding has its identifier. So regions are
maximal but for the splits at empty bindings, and joining what touches with equal sharers gives the
regions that the other bindings have by themselves.

* **`withoutEmpty`** — the bindings that are not empty; the same identifiers are active.
* **`reports_sharedRegions_iff`** — what the shared regions say about an address.
* **`exists_empty_of_continues`** — regions that could be joined meet at an empty binding.
* **`maximal_but_for_empty`** — all of it together. -/

namespace AliasReport

/-- The bindings that are not empty. -/
def withoutEmpty (bs : List Binding) : List Binding := bs.filter fun b => b.size ≠ 0

/-- The members of `withoutEmpty`. -/
theorem mem_withoutEmpty {b : Binding} {bs : List Binding} :
    b ∈ withoutEmpty bs ↔ b ∈ bs ∧ b.size ≠ 0 := by
  rw [withoutEmpty, List.mem_filter, decide_eq_true_eq]

/-- Empty bindings make no identifier active. -/
theorem activeIds_withoutEmpty (bs : List Binding) (n : ℕ) :
    activeIds (withoutEmpty bs) n = activeIds bs n := by
  refine (activeIds_pairwise _ n).eq_of_mem_iff (activeIds_pairwise bs n) fun id => ?_
  rw [mem_activeIds, mem_activeIds]
  simp only [ActiveBelow, mem_withoutEmpty]
  constructor
  · rintro ⟨b, ⟨hb, _⟩, hid, hsize, hlt, hstops⟩
    exact ⟨b, hb, hid, hsize, hlt, fun c hc hcid hcs => hstops c ⟨hc, hcs⟩ hcid hcs⟩
  · rintro ⟨b, hb, hid, hsize, hlt, hstops⟩
    exact ⟨b, ⟨hb, hsize⟩, hid, hsize, hlt, fun c hc => hstops c hc.1⟩

/-- Acceptance is kept without the empty bindings. -/
theorem Accepted.withoutEmpty {policy : DuplicatePolicy} {bs : List Binding}
    (h : Accepted policy bs) : Accepted policy (withoutEmpty bs) where
  fits b hb := h.fits b (mem_withoutEmpty.mp hb).1
  distinct hp := (h.distinct hp).sublist (List.filter_sublist.map _)

/-! ## What shared regions report -/

/-- **The shared regions report** the identifiers that are active at an address, if there are two or
more of them. -/
theorem reports_sharedRegions_iff {bs : List Binding} (hfits : ∀ b ∈ bs, b.Fits) {p : UInt64}
    {ids : List UInt64} :
    Reports (sharedRegions bs) p ids ↔ activeIds bs (p.toNat + 1) = ids ∧ 1 < ids.length := by
  constructor
  · rintro ⟨r, hr, hp, rfl⟩
    obtain ⟨hsharers, hlen⟩ := sharers_of_contains hfits hr hp
    rw [hsharers]
    exact ⟨rfl, hlen⟩
  · rintro ⟨rfl, hlen⟩
    obtain ⟨r, hr, hp⟩ := exists_region_of_active hfits hlen
    exact ⟨r, hr, hp, (sharers_of_contains hfits hr hp).1⟩

/-! ## Where regions could be joined -/

/-- A shared region begins at an offset or at an end. -/
theorem exists_edge_of_mem_sharedRegions {bs : List Binding} (hfits : ∀ b ∈ bs, b.Fits)
    {r : Region} (hr : r ∈ sharedRegions bs) :
    ∃ b ∈ bs, b.offset = r.offset ∨ b.stop = r.offset.toNat := by
  have hpoint : r.offset ∈ ascending (endpoints bs) :=
    (mem_of_mem_stretches (span_mem_stretches hr)).1
  obtain ⟨b, hb, hedge⟩ := List.mem_flatMap.mp (mem_ascending.mp hpoint)
  refine ⟨b, hb, ?_⟩
  rcases List.mem_pair.mp hedge with heq | heq
  · exact .inl heq.symm
  · exact .inr (by rw [← (hfits b hb).toNat_end, heq])

/-- With distinct identifiers a binding covers an address of a shared region exactly if it is among
the sharers. -/
theorem mem_sharers_iff_covers {bs : List Binding} (hfits : ∀ b ∈ bs, b.Fits)
    (hids : (bs.map (·.id)).Nodup) {r : Region} (hr : r ∈ sharedRegions bs) {p : UInt64}
    (hp : r.Contains p) {b : Binding} (hb : b ∈ bs) : b.id ∈ r.sharers ↔ b.Covers p := by
  rw [(sharers_of_contains hfits hr hp).1, mem_activeIds_succ]
  constructor
  · intro hkept
    obtain ⟨c, hc, hid, hcov⟩ := hkept.exists_covers
    exact List.inj_on_of_nodup_map hids hc hb hid ▸ hcov
  · exact keptAt_of_covers hids hb

section Continues

variable {bs : List Binding} {r s : Region}

/-- Across regions that could be joined a binding covers all addresses or none. -/
theorem covers_iff_of_continues (hfits : ∀ b ∈ bs, b.Fits) (hids : (bs.map (·.id)).Nodup)
    (hr : r ∈ sharedRegions bs) (hs : s ∈ sharedRegions bs) (h : r.Continues s) {p q : UInt64}
    (hp : r.Contains p) (hq : s.Contains q) {b : Binding} (hb : b ∈ bs) :
    b.Covers p ↔ b.Covers q := by
  rw [← mem_sharers_iff_covers hfits hids hr hp hb, h.2, mem_sharers_iff_covers hfits hids hs hq hb]

/-- A binding that begins or ends where regions could be joined is empty. -/
theorem size_eq_zero_of_continues (hfits : ∀ b ∈ bs, b.Fits) (hids : (bs.map (·.id)).Nodup)
    (hr : r ∈ sharedRegions bs) (hs : s ∈ sharedRegions bs) (h : r.Continues s) {b : Binding}
    (hb : b ∈ bs) (hedge : b.offset = s.offset ∨ b.stop = s.offset.toNat) : b.size = 0 := by
  obtain ⟨hrpos, hrfits, _, _⟩ := proper_of_mem_sharedRegions hr
  have hmeet : r.stop = s.offset.toNat := h.stop_eq hrfits
  have hsfirst : s.Contains s.offset :=
    Region.contains_offset (proper_of_mem_sharedRegions hs).size_pos
  -- the last address of the one region and the first of the other
  obtain ⟨p, hlast, hp⟩ := Region.exists_last hrpos hrfits
  have hboth : b.Covers p ↔ b.Covers s.offset :=
    covers_iff_of_continues hfits hids hr hs h hp hsfirst hb
  by_contra hsize
  have hlt : b.offset.toNat < b.stop := Binding.size_ne_zero_iff.mp hsize
  rcases hedge with hbegin | hend
  · have hcov : b.Covers p := hboth.mpr ⟨hbegin ▸ UInt64.le_refl _, by rw [← hbegin]; exact hlt⟩
    have hle : b.offset.toNat ≤ p.toNat := UInt64.le_iff_toNat_le.mp hcov.1
    rw [hbegin] at hle
    omega
  · have hcov : b.Covers s.offset :=
      hboth.mp ⟨UInt64.le_iff_toNat_le.mpr (by omega), by omega⟩
    have hstop : s.offset.toNat < b.stop := hcov.2
    omega

/-- **Regions that could be joined meet at an empty binding**, as far as identifiers are
distinct. -/
theorem exists_empty_of_continues (hfits : ∀ b ∈ bs, b.Fits) (hids : (bs.map (·.id)).Nodup)
    (hr : r ∈ sharedRegions bs) (hs : s ∈ sharedRegions bs) (h : r.Continues s) :
    ∃ b ∈ bs, b.size = 0 ∧ b.offset = s.offset := by
  obtain ⟨b, hb, hedge⟩ := exists_edge_of_mem_sharedRegions hfits hs
  have hsize : b.size = 0 := size_eq_zero_of_continues hfits hids hr hs h hb hedge
  refine ⟨b, hb, hsize, hedge.elim id fun hstop => ?_⟩
  rw [Binding.stop, hsize, UInt64.toNat_zero, Nat.add_zero] at hstop
  exact UInt64.toNat_inj.mp hstop

end Continues

/-- With distinct identifiers neighbours can be joined at empty bindings only. -/
theorem isChain_continues {bs : List Binding} (hfits : ∀ b ∈ bs, b.Fits)
    (hids : (bs.map (·.id)).Nodup) :
    (sharedRegions bs).IsChain fun r s =>
      r.Continues s → ∃ b ∈ bs, b.size = 0 ∧ b.offset = s.offset :=
  (List.pairwise_of_forall_mem_list fun _ hr _ hs =>
    exists_empty_of_continues hfits hids hr hs).isChain

/-- **Without empty bindings regions are maximal**, as far as identifiers are distinct. -/
theorem maximal_withoutEmpty {bs : List Binding} (hfits : ∀ b ∈ withoutEmpty bs, b.Fits)
    (hids : ((withoutEmpty bs).map (·.id)).Nodup) : Maximal (sharedRegions (withoutEmpty bs)) := by
  refine (isChain_continues hfits hids).imp fun r s hempty hcontinues => ?_
  obtain ⟨b, hb, hsize, _⟩ := hempty hcontinues
  exact (mem_withoutEmpty.mp hb).2 hsize

/-- **Regions are maximal but for splits at empty bindings.** Bindings that fit and have distinct
identifiers are analysed, with the empty ones and without. Without them no two neighbouring regions
touch and have the same sharers. With them, joining such neighbours as long as possible leads to
exactly those regions, in whatever order it is done; every address is reported alike; and such
neighbours meet at the offset of an empty binding. -/
theorem maximal_but_for_empty (policy : DuplicatePolicy) (bs : List Binding)
    (hfits : ∀ b ∈ bs, b.Fits) (hids : (bs.map (·.id)).Nodup) :
    ∃ rs out, aliasedRegions policy bs = .ok rs ∧
      aliasedRegions policy (withoutEmpty bs) = .ok out ∧
      Maximal out ∧ JoinsTo rs out ∧ (∀ p ids, Reports rs p ids ↔ Reports out p ids) ∧
      rs.IsChain fun r s => r.Continues s → ∃ b ∈ bs, b.size = 0 ∧ b.offset = s.offset := by
  have haccepted : Accepted policy bs := ⟨hfits, fun _ => hids⟩
  have haccepted' : Accepted policy (withoutEmpty bs) := haccepted.withoutEmpty
  have hmax : Maximal (sharedRegions (withoutEmpty bs)) :=
    maximal_withoutEmpty haccepted'.fits (hids.sublist (List.filter_sublist.map _))
  have hsame : ∀ p ids, Reports (sharedRegions bs) p ids ↔
      Reports (sharedRegions (withoutEmpty bs)) p ids := by
    intro p ids
    rw [reports_sharedRegions_iff hfits, reports_sharedRegions_iff haccepted'.fits,
      activeIds_withoutEmpty]
  exact ⟨sharedRegions bs, sharedRegions (withoutEmpty bs),
    aliasedRegions_eq_ok_iff.mpr ⟨haccepted, rfl⟩, aliasedRegions_eq_ok_iff.mpr ⟨haccepted', rfl⟩,
    hmax, joinsTo_of_reports (sharedRegions_tidy bs) (sharedRegions_tidy _) hmax hsame, hsame,
    isChain_continues hfits hids⟩

/-- Several empty bindings, two at one place, one where a binding begins and one where two end. They
split two regions in two. -/
theorem maximal_but_for_several_empty :
    let bs : List Binding :=
      [⟨1, 0, 10⟩, ⟨2, 0, 10⟩, ⟨3, 5, 0⟩, ⟨4, 5, 0⟩, ⟨5, 7, 9⟩, ⟨6, 7, 0⟩, ⟨7, 10, 0⟩, ⟨8, 9, 0⟩]
    let rs : List Region := [⟨0, 5, [1, 2]⟩, ⟨5, 2, [1, 2]⟩, ⟨7, 2, [1, 2, 5]⟩, ⟨9, 1, [1, 2, 5]⟩]
    let out : List Region := [⟨0, 7, [1, 2]⟩, ⟨7, 3, [1, 2, 5]⟩]
    (∀ b ∈ bs, b.Fits) ∧ (bs.map (·.id)).Nodup ∧ aliasedRegions .reject bs = .ok rs ∧
      aliasedRegions .reject (withoutEmpty bs) = .ok out ∧
      Maximal out ∧ JoinsTo rs out ∧ (∀ p ids, Reports rs p ids ↔ Reports out p ids) ∧
      rs.IsChain fun r s => r.Continues s → ∃ b ∈ bs, b.size = 0 ∧ b.offset = s.offset := by
  intro bs rs out
  have hfits : ∀ b ∈ bs, b.Fits := by decide
  have hids : (bs.map (·.id)).Nodup := by decide
  have hrs : aliasedRegions .reject bs = .ok rs := by cbv
  have hout : aliasedRegions .reject (withoutEmpty bs) = .ok out := by cbv
  obtain ⟨rs', out', hrs', hout', hmax, hjoins, hsame, hchain⟩ :=
    maximal_but_for_empty .reject bs hfits hids
  obtain rfl := Except.ok.inj (hrs.symm.trans hrs')
  obtain rfl := Except.ok.inj (hout.symm.trans hout')
  exact ⟨hfits, hids, hrs, hout, hmax, hjoins, hsame, hchain⟩

/-- An empty binding inside two others splits what they share. -/
example :
    let bs : List Binding := [⟨1, 0, 10⟩, ⟨2, 0, 10⟩, ⟨3, 5, 0⟩]
    aliasedRegions .reject bs = .ok [⟨0, 5, [1, 2]⟩, ⟨5, 5, [1, 2]⟩] ∧
      aliasedRegions .reject (withoutEmpty bs) = .ok [⟨0, 10, [1, 2]⟩] :=
  ⟨by cbv, by cbv⟩

end AliasReport
