import AliasReport.Proofs.Aliasing.Acceptance

/-! # The sweep, stretch by stretch

A stretch reaches from one boundary point to the next. The sweep carries its active identifiers from
stretch to stretch; here they are given for each stretch on its own, from the bindings alone, and
the regions become a choice among the stretches.

* **`stretches`** — neighbouring points, with the laws that place an address in one of them.
* **`ActiveBelow`** — whether the crossings below an address leave an identifier active: one of its
  bindings has begun, and none has ended since.
* **`sharedRegions`** — the stretches behind whose first point two identifiers or more are active.
* **`sweep_eq`**, **`aliasedRegions_eq_ok_iff`** — the sweep yields exactly those. -/

namespace AliasReport

/-! ## Stretches -/

/-- The pairs of neighbouring points. -/
def stretches (points : List UInt64) : List (UInt64 × UInt64) := points.zip points.tail

@[simp] theorem stretches_nil : stretches [] = [] := rfl

@[simp] theorem stretches_singleton (p : UInt64) : stretches [p] = [] := rfl

@[simp] theorem stretches_cons_cons (p q : UInt64) (rest : List UInt64) :
    stretches (p :: q :: rest) = (p, q) :: stretches (q :: rest) := rfl

/-- Both ends of a stretch are points. -/
theorem mem_of_mem_stretches {points : List UInt64} {s : UInt64 × UInt64}
    (hs : s ∈ stretches points) : s.1 ∈ points ∧ s.2 ∈ points :=
  ⟨(List.of_mem_zip hs).1, List.mem_of_mem_tail (List.of_mem_zip hs).2⟩

/-- **A stretch of ascending points** goes upwards, and no point lies strictly inside. -/
theorem stretch_spec {points : List UInt64} (h : points.Pairwise (· < ·)) {s : UInt64 × UInt64}
    (hs : s ∈ stretches points) : s.1 < s.2 ∧ ∀ x ∈ points, x ≤ s.1 ∨ s.2 ≤ x := by
  induction points with
  | nil => cases hs
  | cons p rest ih =>
    cases rest with
    | nil => cases hs
    | cons q rest =>
      obtain ⟨hlt, hrest⟩ := List.pairwise_cons.mp h
      -- The first stretch has its points next to each other; any other one lies above the first
      -- point.
      rcases List.mem_cons.mp hs with rfl | hs
      · refine ⟨hlt q (by simp), List.forall_mem_cons.mpr ⟨.inl (UInt64.le_refl p), ?_⟩⟩
        exact List.forall_mem_cons.mpr ⟨.inr (UInt64.le_refl q), fun x hx =>
          .inr (UInt64.le_of_lt (List.rel_of_pairwise_cons hrest hx))⟩
      · obtain ⟨hup, hout⟩ := ih hrest hs
        have hps : p < s.1 := hlt s.1 (mem_of_mem_stretches hs).1
        exact ⟨hup, List.forall_mem_cons.mpr ⟨.inl (UInt64.le_of_lt hps), hout⟩⟩

/-- Of two stretches the earlier ends before the later begins. -/
theorem stretches_pairwise {points : List UInt64} (h : points.Pairwise (· < ·)) :
    (stretches points).Pairwise fun s t => s.2 ≤ t.1 := by
  induction points with
  | nil => exact List.Pairwise.nil
  | cons p rest ih =>
    cases rest with
    | nil => exact List.Pairwise.nil
    | cons q rest =>
      refine List.pairwise_cons.mpr ⟨?_, ih h.tail⟩
      intro t ht
      rcases List.mem_cons.mp (mem_of_mem_stretches ht).1 with heq | hmem
      · exact heq ▸ UInt64.le_refl q
      · exact UInt64.le_of_lt (List.rel_of_pairwise_cons h.tail hmem)

/-- **An address between two points lies in a stretch.** -/
theorem exists_stretch {points : List UInt64} (h : points.Pairwise (· < ·)) {a b p : UInt64}
    (ha : a ∈ points) (hb : b ∈ points) (hap : a ≤ p) (hpb : p < b) :
    ∃ s ∈ stretches points, s.1 ≤ p ∧ p < s.2 := by
  induction points generalizing a with
  | nil => cases ha
  | cons x rest ih =>
    obtain ⟨hx, hrest⟩ := List.pairwise_cons.mp h
    have hxp : x ≤ p := by
      rcases List.mem_cons.mp ha with rfl | ha
      · exact hap
      · exact UInt64.le_trans (UInt64.le_of_lt (hx a ha)) hap
    have hbrest : b ∈ rest := by
      rcases List.mem_cons.mp hb with rfl | hb
      · exact absurd (UInt64.lt_of_le_of_lt hxp hpb) (UInt64.lt_irrefl b)
      · exact hb
    -- the address is in the first stretch or at the next point or behind it
    cases rest with
    | nil => cases hbrest
    | cons y rest =>
      by_cases hpy : p < y
      · exact ⟨(x, y), by simp, hxp, hpy⟩
      · obtain ⟨s, hs, hsp⟩ := ih hrest (List.mem_cons_self) hbrest (UInt64.not_lt.mp hpy)
        exact ⟨s, List.mem_cons_of_mem _ hs, hsp⟩

/-! ## Active identifiers -/

/-- Whether the crossings below `n` leave an identifier active: one of its bindings begins below
`n`, and none of them ends below `n` but behind that beginning. Empty bindings neither begin nor
end. -/
def ActiveBelow (bs : List Binding) (n : ℕ) (id : UInt64) : Prop :=
  ∃ b ∈ bs, b.id = id ∧ b.size ≠ 0 ∧ b.offset.toNat < n ∧
    ∀ c ∈ bs, c.id = id → c.size ≠ 0 → c.stop < n → c.stop ≤ b.offset.toNat

instance (bs : List Binding) (n : ℕ) (id : UInt64) : Decidable (ActiveBelow bs n id) :=
  inferInstanceAs (Decidable (∃ b ∈ bs, _))

/-- The identifiers that the crossings below `n` leave active, ascending. -/
def activeIds (bs : List Binding) (n : ℕ) : List UInt64 :=
  ascending ((bs.map (·.id)).filter fun id => ActiveBelow bs n id)

/-- The members of `activeIds`. -/
theorem mem_activeIds {bs : List Binding} {n : ℕ} {id : UInt64} :
    id ∈ activeIds bs n ↔ ActiveBelow bs n id := by
  rw [activeIds, mem_ascending, List.mem_filter, decide_eq_true_eq, and_iff_right_iff_imp]
  rintro ⟨b, hb, rfl, _⟩
  exact List.mem_map_of_mem hb

/-- The active identifiers are strictly ascending. -/
theorem activeIds_pairwise (bs : List Binding) (n : ℕ) : (activeIds bs n).Pairwise (· < ·) :=
  ascending_pairwise _

/-- **One point further.** Behind `p` an identifier is active if one of its bindings begins at `p`,
or if it was active before and none ends at `p`. -/
theorem activeBelow_succ {bs : List Binding} {p : ℕ} {id : UInt64} :
    ActiveBelow bs (p + 1) id ↔
      (∃ b ∈ bs, b.id = id ∧ b.size ≠ 0 ∧ b.offset.toNat = p) ∨
        ActiveBelow bs p id ∧ ¬ ∃ c ∈ bs, c.id = id ∧ c.size ≠ 0 ∧ c.stop = p := by
  constructor
  · rintro ⟨b, hb, hid, hsize, hlt, hstops⟩
    by_cases hbp : b.offset.toNat = p
    · exact .inl ⟨b, hb, hid, hsize, hbp⟩
    · refine .inr ⟨⟨b, hb, hid, hsize, by omega, fun c hc hcid hcs hcp =>
        hstops c hc hcid hcs (by omega)⟩, ?_⟩
      -- an end at `p` would lie behind the beginning of `b`
      rintro ⟨c, hc, hcid, hcs, hcp⟩
      have hle : c.stop ≤ b.offset.toNat := hstops c hc hcid hcs (by omega)
      omega
  · rintro (⟨b, hb, hid, hsize, rfl⟩ | ⟨⟨b, hb, hid, hsize, hlt, hstops⟩, hnone⟩)
    · exact ⟨b, hb, hid, hsize, by omega, fun c _ _ _ hcp => by omega⟩
    · refine ⟨b, hb, hid, hsize, by omega, fun c hc hcid hcs hcp => ?_⟩
      have hne : c.stop ≠ p := fun heq => hnone ⟨c, hc, hcid, hcs, heq⟩
      exact hstops c hc hcid hcs (by omega)

/-- Nothing changes where no binding begins or ends. -/
theorem activeBelow_congr {bs : List Binding} (hfits : ∀ b ∈ bs, b.Fits) {m n : ℕ} (hmn : m ≤ n)
    (hgap : ∀ x ∈ endpoints bs, x.toNat < m ∨ n ≤ x.toNat) {id : UInt64} :
    ActiveBelow bs m id ↔ ActiveBelow bs n id := by
  have hoff : ∀ b ∈ bs, b.offset.toNat < m ∨ n ≤ b.offset.toNat := fun b hb =>
    hgap _ (offset_mem_endpoints hb)
  have hstop : ∀ b ∈ bs, b.stop < m ∨ n ≤ b.stop := fun b hb =>
    (hfits b hb).toNat_end ▸ hgap _ (end_mem_endpoints hb)
  -- each of the two bounds in the definition may be moved across the gap
  refine exists_congr fun b => and_congr_right fun hb => and_congr_right fun _ =>
    and_congr_right fun _ => and_congr ?_ (forall₂_congr fun c hc => ?_)
  · have := hoff b hb
    omega
  · have := hstop c hc
    rw [show c.stop < m ↔ c.stop < n by omega]

/-! ## The sweep -/

/-- The region of a stretch, if two identifiers or more are active behind its first point. -/
def region? (bs : List Binding) (s : UInt64 × UInt64) : Option Region :=
  let ids := activeIds bs (s.1.toNat + 1)
  if 1 < ids.length then some ⟨s.1, s.2 - s.1, ids⟩ else none

/-- The regions of all stretches between the endpoints of bindings. -/
def sharedRegions (bs : List Binding) : List Region :=
  (stretches (ascending (endpoints bs))).filterMap (region? bs)

/-- Regions come from stretches. -/
theorem mem_sharedRegions {bs : List Binding} {r : Region} :
    r ∈ sharedRegions bs ↔ ∃ s ∈ stretches (ascending (endpoints bs)),
      1 < (activeIds bs (s.1.toNat + 1)).length ∧
        r = ⟨s.1, s.2 - s.1, activeIds bs (s.1.toNat + 1)⟩ := by
  simp only [sharedRegions, List.mem_filterMap, region?]
  refine exists_congr fun s => and_congr_right fun _ => ?_
  split <;> simp_all [eq_comm]

/-- **One step of the sweep** turns what is active before a point into what is active behind it. -/
theorem cross_eq_activeIds {bs : List Binding} (hfits : ∀ b ∈ bs, b.Fits) {p : UInt64}
    {active : List UInt64} (hasc : active.Pairwise (· < ·))
    (hactive : ∀ x, x ∈ active ↔ ActiveBelow bs p.toNat x) :
    cross (bs.flatMap Binding.crossings) p active = activeIds bs (p.toNat + 1) := by
  refine (cross_pairwise hasc).eq_of_mem_iff (activeIds_pairwise bs _) fun x => ?_
  rw [mem_cross, begins_mem_iff, ends_mem_iff hfits, hactive, mem_activeIds, activeBelow_succ]

/-- **A whole run of the sweep**, by induction on the points that are left. The active identifiers
are those that the crossings below the next point leave, and every endpoint is either below that
point or still to come. -/
theorem sweep_eq {bs : List Binding} (hfits : ∀ b ∈ bs, b.Fits) {p : UInt64}
    {rest active : List UInt64} (hpoints : (p :: rest).Pairwise (· < ·))
    (hends : ∀ x ∈ endpoints bs, x < p ∨ x ∈ p :: rest) (hasc : active.Pairwise (· < ·))
    (hactive : ∀ x, x ∈ active ↔ ActiveBelow bs p.toNat x) :
    sweep (bs.flatMap Binding.crossings) active (p :: rest) =
      (stretches (p :: rest)).filterMap (region? bs) := by
  induction rest generalizing p active with
  | nil => rfl
  | cons q rest ih =>
    obtain ⟨hlt, hrest⟩ := List.pairwise_cons.mp hpoints
    have hpq : p < q := hlt q (by simp)
    -- between `p` and `q` nothing begins or ends
    have hgap : ∀ x ∈ endpoints bs, x.toNat < p.toNat + 1 ∨ q.toNat ≤ x.toNat := by
      intro x hx
      rcases hends x hx with hxp | hmem
      · exact .inl (Nat.lt_succ_of_lt (UInt64.lt_iff_toNat_lt.mp hxp))
      rcases List.mem_cons.mp hmem with rfl | hmem
      · exact .inl (Nat.lt_succ_self _)
      rcases List.mem_cons.mp hmem with rfl | hmem
      · exact .inr (Nat.le_refl _)
      · exact .inr (Nat.le_of_lt (UInt64.lt_iff_toNat_lt.mp (List.rel_of_pairwise_cons hrest hmem)))
    -- What is active behind `p` is what the crossings below `q` leave.
    have hnext : ∀ x, x ∈ activeIds bs (p.toNat + 1) ↔ ActiveBelow bs q.toNat x := by
      intro x
      rw [mem_activeIds]
      exact activeBelow_congr hfits (UInt64.lt_iff_toNat_lt.mp hpq) hgap
    have hends' : ∀ x ∈ endpoints bs, x < q ∨ x ∈ q :: rest := by
      intro x hx
      rcases hends x hx with hxp | hmem
      · exact .inl (UInt64.lt_trans hxp hpq)
      rcases List.mem_cons.mp hmem with rfl | hmem
      · exact .inl hpq
      · exact .inr hmem
    have htail := ih hrest hends' (activeIds_pairwise bs _) hnext
    rw [sweep, cross_eq_activeIds hfits hasc hactive, htail, stretches_cons_cons,
      List.filterMap_cons, region?]
    split <;> rfl

/-- The sweep over all endpoints yields the shared regions. -/
theorem sweep_endpoints_eq {bs : List Binding} (hfits : ∀ b ∈ bs, b.Fits) :
    sweep (bs.flatMap Binding.crossings) [] (ascending (endpoints bs)) = sharedRegions bs := by
  have hpoints := ascending_pairwise (endpoints bs)
  have hmem : ∀ x ∈ endpoints bs, x ∈ ascending (endpoints bs) := fun x hx => mem_ascending.mpr hx
  rw [sharedRegions]
  cases hp : ascending (endpoints bs) with
  | nil => rfl
  | cons p rest =>
    rw [hp] at hpoints hmem
    refine sweep_eq hfits hpoints (fun x hx => .inr (hmem x hx)) List.Pairwise.nil fun x => ?_
    -- no binding begins below the first point
    refine iff_of_false List.not_mem_nil ?_
    rintro ⟨b, hb, _, _, hlt, _⟩
    rcases List.mem_cons.mp (hmem _ (offset_mem_endpoints hb)) with heq | hmem
    · rw [heq] at hlt
      exact Nat.lt_irrefl _ hlt
    · have hpb := UInt64.lt_iff_toNat_lt.mp (List.rel_of_pairwise_cons hpoints hmem)
      omega

/-- **The computation succeeds exactly on accepted bindings, with their shared regions.** -/
theorem aliasedRegions_eq_ok_iff {policy : DuplicatePolicy} {bs : List Binding}
    {rs : List Region} :
    aliasedRegions policy bs = .ok rs ↔ Accepted policy bs ∧ sharedRegions bs = rs := by
  constructor
  · intro h
    have haccepted : Accepted policy bs := by
      cases hcheck : check policy bs with
      | error g =>
        rw [aliasedRegions_eq_error_iff.mpr hcheck] at h
        cases h
      | ok => exact check_eq_ok_iff.mp hcheck
    rw [aliasedRegions_of_accepted haccepted, sweep_endpoints_eq haccepted.fits] at h
    exact ⟨haccepted, Except.ok.inj h⟩
  · rintro ⟨haccepted, rfl⟩
    rw [aliasedRegions_of_accepted haccepted, sweep_endpoints_eq haccepted.fits]

end AliasReport
