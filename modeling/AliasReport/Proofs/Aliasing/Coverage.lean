import AliasReport.Proofs.Aliasing.Stretches
import Mathlib

/-! # Regions, address by address

What the regions say about a single address: which of them contains it, and who its sharers are.
With distinct identifiers the sharers are those of the covering bindings. Where identifiers may
repeat, the end of one binding takes its identifier away although another binding of it still
covers the address, and such an address is reported with too few sharers or not at all.

* **`KeptAt`** — whether the sweep still holds an identifier at an address.
* **`ReportedAt`** — exactly one region contains the address, and its sharers are the identifiers
  of all bindings that cover it.
* **`coverage_of_distinct`** — distinct identifiers are reported exactly.
* **`merged_reportedAt_iff`** — merged identifiers are reported exactly where all are kept. -/

namespace AliasReport

/-! ## Identifiers at an address -/

/-- Whether the sweep still holds an identifier at `p`: one of its bindings covers `p`, and since
that binding began none of its bindings has ended, up to and including `p`. Empty bindings neither
begin nor end. -/
def KeptAt (bs : List Binding) (p id : UInt64) : Prop :=
  ∃ b ∈ bs, b.id = id ∧ b.Covers p ∧
    ∀ c ∈ bs, c.id = id → c.size ≠ 0 → b.offset.toNat < c.stop → p.toNat < c.stop

/-- The crossings up to `p` leave an identifier active exactly if it is kept. -/
theorem activeBelow_succ_iff_keptAt {bs : List Binding} {p id : UInt64} :
    ActiveBelow bs (p.toNat + 1) id ↔ KeptAt bs p id := by
  constructor
  · rintro ⟨b, hb, hid, hsize, hlt, hstops⟩
    -- `b` itself must not have ended, so it covers `p`
    have hb' : b.offset.toNat < b.stop := Binding.size_ne_zero_iff.mp hsize
    have hlast : p.toNat < b.stop := by
      by_contra hle
      have := hstops b hb hid hsize (by omega)
      omega
    refine ⟨b, hb, hid, ⟨UInt64.le_iff_toNat_le.mpr (by omega), hlast⟩, fun c hc hcid hcs hbc => ?_⟩
    by_contra hle
    have := hstops c hc hcid hcs (by omega)
    omega
  · rintro ⟨b, hb, hid, ⟨hle, hlt⟩, hstops⟩
    have hle' : b.offset.toNat ≤ p.toNat := UInt64.le_iff_toNat_le.mp hle
    refine ⟨b, hb, hid, Binding.size_ne_zero_iff.mpr (by omega), by omega,
      fun c hc hcid hcs hcp => ?_⟩
    by_contra hbc
    have := hstops c hc hcid hcs (by omega)
    omega

/-- The identifiers held at an address are those that are kept. -/
theorem mem_activeIds_succ {bs : List Binding} {p id : UInt64} :
    id ∈ activeIds bs (p.toNat + 1) ↔ KeptAt bs p id :=
  mem_activeIds.trans activeBelow_succ_iff_keptAt

/-- An identifier that is kept is that of a covering binding. -/
theorem KeptAt.exists_covers {bs : List Binding} {p id : UInt64} (h : KeptAt bs p id) :
    ∃ b ∈ bs, b.id = id ∧ b.Covers p := by
  obtain ⟨b, hb, hid, hcov, _⟩ := h
  exact ⟨b, hb, hid, hcov⟩

/-- With distinct identifiers the binding that covers an address is the only one of its
identifier, so it keeps it. -/
theorem keptAt_of_covers {bs : List Binding} (hids : (bs.map (·.id)).Nodup) {b : Binding}
    (hb : b ∈ bs) {p : UInt64} (hcov : b.Covers p) : KeptAt bs p b.id := by
  refine ⟨b, hb, rfl, hcov, fun c hc hid _ _ => ?_⟩
  have hcb : c = b := List.inj_on_of_nodup_map hids hc hb hid
  exact hcb ▸ hcov.2

/-! ## Regions at an address -/

/-- The size of a stretch reaches from its first point to its second. -/
theorem toNat_add_size_of_stretch {s : UInt64 × UInt64} (hs : s.1 < s.2) :
    s.1.toNat + (s.2 - s.1).toNat = s.2.toNat := by
  have hlt : s.1.toNat < s.2.toNat := UInt64.lt_iff_toNat_lt.mp hs
  rw [UInt64.toNat_sub_of_le _ _ (UInt64.le_of_lt hs)]
  omega

/-- A stretch as a region contains the addresses from its first point to before its second. -/
theorem contains_stretch_iff {s : UInt64 × UInt64} (hs : s.1 < s.2) {ids : List UInt64}
    {p : UInt64} : Region.Contains ⟨s.1, s.2 - s.1, ids⟩ p ↔ s.1 ≤ p ∧ p < s.2 := by
  show s.1 ≤ p ∧ p.toNat < s.1.toNat + (s.2 - s.1).toNat ↔ _
  rw [toNat_add_size_of_stretch hs, UInt64.lt_iff_toNat_lt]

/-- The active identifiers are the same all along a stretch. -/
theorem activeIds_eq_of_mem_stretch {bs : List Binding} (hfits : ∀ b ∈ bs, b.Fits)
    {s : UInt64 × UInt64} (hs : s ∈ stretches (ascending (endpoints bs))) {p : UInt64}
    (hsp : s.1 ≤ p) (hps : p < s.2) :
    activeIds bs (s.1.toNat + 1) = activeIds bs (p.toNat + 1) := by
  have hsp' : s.1.toNat ≤ p.toNat := UInt64.le_iff_toNat_le.mp hsp
  have hps' : p.toNat < s.2.toNat := UInt64.lt_iff_toNat_lt.mp hps
  -- Nothing begins or ends strictly inside a stretch.
  have hgap : ∀ x ∈ endpoints bs, x.toNat < s.1.toNat + 1 ∨ p.toNat + 1 ≤ x.toNat := by
    intro x hx
    rcases (stretch_spec (ascending_pairwise _) hs).2 x (mem_ascending.mpr hx) with hle | hle
    · exact .inl (Nat.lt_succ_of_le (UInt64.le_iff_toNat_le.mp hle))
    · have := UInt64.le_iff_toNat_le.mp hle
      exact .inr (by omega)
  refine (activeIds_pairwise bs _).eq_of_mem_iff (activeIds_pairwise bs _) fun id => ?_
  rw [mem_activeIds, mem_activeIds]
  exact activeBelow_congr hfits (by omega) hgap

/-- **The sharers of a region** that contains an address are the identifiers held there, and there
are two or more. -/
theorem sharers_of_contains {bs : List Binding} (hfits : ∀ b ∈ bs, b.Fits) {r : Region}
    (hr : r ∈ sharedRegions bs) {p : UInt64} (hp : r.Contains p) :
    r.sharers = activeIds bs (p.toNat + 1) ∧ 1 < (activeIds bs (p.toNat + 1)).length := by
  obtain ⟨s, hs, hlen, rfl⟩ := mem_sharedRegions.mp hr
  rw [contains_stretch_iff (stretch_spec (ascending_pairwise _) hs).1] at hp
  rw [activeIds_eq_of_mem_stretch hfits hs hp.1 hp.2] at hlen ⊢
  exact ⟨rfl, hlen⟩

/-- **An address at which two identifiers are held** lies in a region. -/
theorem exists_region_of_active {bs : List Binding} (hfits : ∀ b ∈ bs, b.Fits) {p : UInt64}
    (h : 1 < (activeIds bs (p.toNat + 1)).length) : ∃ r ∈ sharedRegions bs, r.Contains p := by
  -- a binding that covers `p` has its endpoints on either side, so `p` lies in a stretch
  obtain ⟨id, hid⟩ := List.exists_mem_of_length_pos (Nat.zero_lt_of_lt h)
  obtain ⟨b, hb, _, hle, hlt⟩ := (mem_activeIds_succ.mp hid).exists_covers
  have hpend : p < b.offset + b.size := by
    rw [UInt64.lt_iff_toNat_lt, (hfits b hb).toNat_end]
    exact hlt
  obtain ⟨s, hs, hsp, hps⟩ := exists_stretch (ascending_pairwise (endpoints bs))
    (mem_ascending.mpr (offset_mem_endpoints hb)) (mem_ascending.mpr (end_mem_endpoints hb))
    hle hpend
  rw [← activeIds_eq_of_mem_stretch hfits hs hsp hps] at h
  exact ⟨_, mem_sharedRegions.mpr ⟨s, hs, h, rfl⟩,
    (contains_stretch_iff (stretch_spec (ascending_pairwise _) hs).1).mpr ⟨hsp, hps⟩⟩

/-- Of two regions the earlier ends before the later begins. -/
theorem sharedRegions_pairwise (bs : List Binding) :
    (sharedRegions bs).Pairwise fun r r' => r.offset.toNat + r.size.toNat ≤ r'.offset.toNat := by
  have hup : ∀ s ∈ stretches (ascending (endpoints bs)), s.1 < s.2 := fun s hs =>
    (stretch_spec (ascending_pairwise _) hs).1
  rw [sharedRegions, List.pairwise_filterMap]
  refine (stretches_pairwise (ascending_pairwise (endpoints bs))).imp_of_mem ?_
  intro s t hs _ hst r hr r' hr'
  simp only [region?, Option.ite_none_right_eq_some, Option.some.injEq] at hr hr'
  obtain ⟨_, rfl⟩ := hr
  obtain ⟨_, rfl⟩ := hr'
  show s.1.toNat + (s.2 - s.1).toNat ≤ t.1.toNat
  rw [toNat_add_size_of_stretch (hup s hs)]
  exact UInt64.le_iff_toNat_le.mp hst

/-- In a list of which no two members satisfy `P`, a member that does is the only one. -/
theorem filter_eq_singleton {α : Type} {P : α → Prop} [DecidablePred P] {xs : List α}
    (h : xs.Pairwise fun x y => ¬ (P x ∧ P y)) {a : α} (ha : a ∈ xs) (hP : P a) :
    xs.filter (fun x => P x) = [a] := by
  obtain ⟨before, after, rfl⟩ := List.append_of_mem ha
  obtain ⟨_, hafter, hbefore⟩ := List.pairwise_append.mp h
  have hbefore' : before.filter (fun x => P x) = [] := by
    simp only [List.filter_eq_nil_iff, decide_eq_true_eq]
    exact fun x hx hPx => hbefore x hx a (by simp) ⟨hPx, hP⟩
  have hafter' : after.filter (fun x => P x) = [] := by
    simp only [List.filter_eq_nil_iff, decide_eq_true_eq]
    exact fun y hy hPy => List.rel_of_pairwise_cons hafter hy ⟨hP, hPy⟩
  rw [List.filter_append, hbefore', List.filter_cons, if_pos (decide_eq_true hP), hafter']
  rfl

/-- **At most one region contains an address.** -/
theorem filter_contains_eq {bs : List Binding} {r : Region} (hr : r ∈ sharedRegions bs)
    {p : UInt64} (hp : r.Contains p) :
    (sharedRegions bs).filter (fun r => r.Contains p) = [r] := by
  refine filter_eq_singleton ((sharedRegions_pairwise bs).imp ?_) hr hp
  rintro r r' hle ⟨hr, hr'⟩
  have hlt : p.toNat < r.offset.toNat + r.size.toNat := hr.2
  have hge : r'.offset.toNat ≤ p.toNat := UInt64.le_iff_toNat_le.mp hr'.1
  omega

/-! ## What is reported at an address -/

/-- Whether a list holds the identifiers of the bindings that cover an address, ascending and each
of them once. -/
structure AreSharersAt (bs : List Binding) (p : UInt64) (ids : List UInt64) : Prop where
  ascending : ids.Pairwise (· < ·)
  mem_iff : ∀ id, id ∈ ids ↔ ∃ b ∈ bs, b.id = id ∧ b.Covers p

/-- Whether exactly one region contains an address and lists those who share it. -/
def ReportedAt (bs : List Binding) (rs : List Region) (p : UInt64) : Prop :=
  ∃ r, rs.filter (fun r => r.Contains p) = [r] ∧ AreSharersAt bs p r.sharers

/-- Whether bindings of two different identifiers cover an address. -/
def SharedAt (bs : List Binding) (p : UInt64) : Prop :=
  ∃ b ∈ bs, ∃ c ∈ bs, b.id ≠ c.id ∧ b.Covers p ∧ c.Covers p

/-- Where every covering identifier is kept, those held are those that share the address. -/
theorem areSharersAt_activeIds {bs : List Binding} {p : UInt64}
    (h : ∀ b ∈ bs, b.Covers p → KeptAt bs p b.id) :
    AreSharersAt bs p (activeIds bs (p.toNat + 1)) where
  ascending := activeIds_pairwise bs _
  mem_iff id := by
    rw [mem_activeIds_succ]
    constructor
    · exact KeptAt.exists_covers
    · rintro ⟨b, hb, rfl, hcov⟩
      exact h b hb hcov

/-- Where every covering identifier is kept and there are two or more, they are reported. -/
theorem reportedAt_of_kept {bs : List Binding} (hfits : ∀ b ∈ bs, b.Fits) {p : UInt64}
    (hkept : ∀ b ∈ bs, b.Covers p → KeptAt bs p b.id)
    (hlen : 1 < (activeIds bs (p.toNat + 1)).length) : ReportedAt bs (sharedRegions bs) p := by
  obtain ⟨r, hr, hp⟩ := exists_region_of_active hfits hlen
  refine ⟨r, filter_contains_eq hr hp, ?_⟩
  rw [(sharers_of_contains hfits hr hp).1]
  exact areSharersAt_activeIds hkept

/-! ## Distinct identifiers -/

/-- With distinct identifiers as many are held at an address as bindings cover it. -/
theorem length_activeIds_of_distinct {bs : List Binding} (hids : (bs.map (·.id)).Nodup)
    (p : UInt64) :
    (activeIds bs (p.toNat + 1)).length = bs.countP fun b => b.Covers p := by
  have hcov : ((bs.filter fun b => b.Covers p).map (·.id)).Nodup :=
    hids.sublist (List.filter_sublist.map _)
  have hactive : (activeIds bs (p.toNat + 1)).Nodup :=
    (activeIds_pairwise bs _).imp UInt64.ne_of_lt
  -- both lists are free of repetitions and have the same members
  have hperm : (activeIds bs (p.toNat + 1)).Perm ((bs.filter fun b => b.Covers p).map (·.id)) := by
    refine (List.perm_ext_iff_of_nodup hactive hcov).mpr fun id => ?_
    rw [(areSharersAt_activeIds fun b hb => keptAt_of_covers hids hb).mem_iff]
    simp only [List.mem_map, List.mem_filter, decide_eq_true_eq]
    exact exists_congr fun b => by tauto
  rw [hperm.length_eq, List.length_map, List.countP_eq_length_filter]

/-- Whether regions report an address exactly if two bindings or more cover it. -/
def CoverExactly (bs : List Binding) (rs : List Region) : Prop :=
  ∀ p : UInt64,
    (2 ≤ bs.countP (fun b => b.Covers p) → ReportedAt bs rs p) ∧
    (bs.countP (fun b => b.Covers p) < 2 → ∀ r ∈ rs, ¬ r.Contains p)

/-- **Exact coverage.** Bindings that fit and have distinct identifiers are analysed, and every
address that two or more of them cover lies in exactly one region, whose sharers are the
identifiers of all that cover it; no other address lies in a region. -/
theorem coverage_of_distinct (bs : List Binding) (hfits : ∀ b ∈ bs, b.Fits)
    (hids : (bs.map (·.id)).Nodup) :
    ∃ rs, aliasedRegions .reject bs = .ok rs ∧ CoverExactly bs rs := by
  refine ⟨sharedRegions bs, aliasedRegions_eq_ok_iff.mpr ⟨⟨hfits, fun _ => hids⟩, rfl⟩, fun p => ?_⟩
  rw [← length_activeIds_of_distinct hids p]
  constructor
  · intro hlen
    exact reportedAt_of_kept hfits (fun b hb => keptAt_of_covers hids hb) hlen
  · intro hlen r hr hp
    have := (sharers_of_contains hfits hr hp).2
    omega

/-- Nested, touching and empty bindings with distinct identifiers, the last up to the last
address. -/
theorem coverage_of_nested_touching_empty :
    let bs : List Binding :=
      [⟨4, 0, 10⟩, ⟨2, 5, 5⟩, ⟨9, 10, 4⟩, ⟨7, 10, 0⟩, ⟨1, 8, 0xFFFFFFFFFFFFFFF7⟩]
    (∀ b ∈ bs, b.Fits) ∧ (bs.map (·.id)).Nodup ∧
      ∃ rs, aliasedRegions .reject bs = .ok rs ∧ CoverExactly bs rs :=
  ⟨by decide, by decide, coverage_of_distinct _ (by decide) (by decide)⟩

/-! ## Merged identifiers -/

/-- Two different identifiers held at an address are more than one. -/
theorem one_lt_length_activeIds {bs : List Binding} {p : UInt64} {i j : UInt64} (hne : i ≠ j)
    (hi : KeptAt bs p i) (hj : KeptAt bs p j) : 1 < (activeIds bs (p.toNat + 1)).length := by
  rw [← mem_activeIds_succ] at hi hj
  match activeIds bs (p.toNat + 1), hi, hj with
  | [a], hi, hj =>
    exact absurd ((List.mem_singleton.mp hi).trans (List.mem_singleton.mp hj).symm) hne
  | _ :: _ :: _, _, _ => exact Nat.succ_lt_succ (Nat.succ_pos _)

/-- **Exactly where merged bindings are reported in full.** Merging never fails on bindings that
fit. An address that bindings of different identifiers cover lies in a region with all of those as
sharers exactly if every covering identifier is kept there: none of them is lost to the end of
another of its bindings. -/
theorem merged_reportedAt_iff (bs : List Binding) (hfits : ∀ b ∈ bs, b.Fits) :
    ∃ rs, aliasedRegions .merge bs = .ok rs ∧ ∀ p : UInt64,
      ((SharedAt bs p → ReportedAt bs rs p) ↔
        (SharedAt bs p → ∀ b ∈ bs, b.Covers p → KeptAt bs p b.id)) := by
  refine ⟨sharedRegions bs, aliasedRegions_eq_ok_iff.mpr ⟨⟨hfits, nofun⟩, rfl⟩, fun p => ?_⟩
  refine forall_congr' fun ⟨b, hb, c, hc, hne, hbcov, hccov⟩ => ?_
  constructor
  · rintro ⟨r, hfilter, hsharers⟩ d hd hdcov
    -- What is reported at `p` is what is active there, so an identifier that is listed is kept.
    have hr : r ∈ (sharedRegions bs).filter fun r => r.Contains p :=
      hfilter ▸ List.mem_singleton_self r
    rw [List.mem_filter, decide_eq_true_eq] at hr
    rw [← mem_activeIds_succ, ← (sharers_of_contains hfits hr.1 hr.2).1, hsharers.mem_iff]
    exact ⟨d, hd, rfl, hdcov⟩
  · intro hkept
    exact reportedAt_of_kept hfits hkept
      (one_lt_length_activeIds hne (hkept b hb hbcov) (hkept c hc hccov))

/-- The condition at bindings of which it holds at some addresses only. -/
theorem merged_reportedAt_iff_nested :
    let bs : List Binding := [⟨5, 0, 10⟩, ⟨5, 0, 4⟩, ⟨6, 0, 10⟩]
    (∀ b ∈ bs, b.Fits) ∧ ∃ rs, aliasedRegions .merge bs = .ok rs ∧ ∀ p : UInt64,
      ((SharedAt bs p → ReportedAt bs rs p) ↔
        (SharedAt bs p → ∀ b ∈ bs, b.Covers p → KeptAt bs p b.id)) :=
  ⟨by decide, merged_reportedAt_iff _ (by decide)⟩

/-- **Merging loses aliasing between different identifiers.** The shorter of two bindings of one
identifier ends at `4`, and where another identifier begins there nothing is reported, although the
longer one still covers the address. -/
theorem merged_not_reportedAt :
    ¬ ∀ (bs : List Binding) (rs : List Region) (p : UInt64), (∀ b ∈ bs, b.Fits) →
      aliasedRegions .merge bs = .ok rs → SharedAt bs p → ReportedAt bs rs p := by
  intro h
  have hshared : SharedAt [⟨5, 0, 10⟩, ⟨5, 0, 4⟩, ⟨6, 4, 6⟩] 4 :=
    ⟨⟨5, 0, 10⟩, by simp, ⟨6, 4, 6⟩, by simp, by decide, by decide, by decide⟩
  have hnone : aliasedRegions .merge [⟨5, 0, 10⟩, ⟨5, 0, 4⟩, ⟨6, 4, 6⟩] = .ok [] := by cbv
  obtain ⟨r, hr, _⟩ := h _ [] 4 (by decide) hnone hshared
  cases hr

end AliasReport
