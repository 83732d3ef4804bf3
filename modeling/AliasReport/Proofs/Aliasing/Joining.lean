import AliasReport.Proofs.Aliasing.Layout
import Mathlib

/-! # Joining neighbouring regions

Regions that touch and have the same sharers can be joined, two neighbours at a time. Joining keeps
a list tidy and changes nothing about any address, and it has to end because the list gets shorter.
Tidy lists in which nothing is left to join are determined by what they say about addresses, so it
does not matter in which order neighbours are joined.

* **`Reports`** — what a list of regions says about an address.
* **`Region.Continues`**, **`Maximal`** — two regions that can be joined, and lists without such
  neighbours.
* **`Joins`** — one step of joining, with `Joins.tidy` and `Joins.reports_iff` for what it keeps.
* **`Tidy.eq_of_reports`** — maximal lists that report the same are equal.
* **`joinsTo_of_reports`** — joining leads to the maximal list that reports the same. -/

namespace AliasReport

variable {r s : Region} {rs rs' : List Region} {p : UInt64} {ids : List UInt64}

/-! ## What regions say about an address -/

/-- Whether a region contains the address and has these sharers. -/
def Reports (rs : List Region) (p : UInt64) (ids : List UInt64) : Prop :=
  ∃ r ∈ rs, r.Contains p ∧ r.sharers = ids

/-- Without regions nothing is said. -/
theorem not_reports_nil : ¬ Reports [] p ids :=
  fun ⟨_, hmem, _⟩ => List.not_mem_nil hmem

/-- What the first region says, or those behind it. -/
theorem reports_cons :
    Reports (r :: rs) p ids ↔ (r.Contains p ∧ r.sharers = ids) ∨ Reports rs p ids := by
  simp only [Reports, List.mem_cons, or_and_right, exists_or, exists_eq_left]

/-! ## Tidy lists -/

/-- A list is tidy if its first region is not empty, fits and ends before all others begin, and the
rest is tidy. -/
theorem tidy_cons :
    Tidy (r :: rs) ↔ 0 < r.size ∧ r.Fits ∧ (∀ s ∈ rs, r.stop ≤ s.offset.toNat) ∧ Tidy rs := by
  constructor
  · rintro ⟨hsize, hfits, horder⟩
    obtain ⟨hr, hrs⟩ := List.pairwise_cons.mp horder
    obtain ⟨hsize, hsizes⟩ := List.forall_mem_cons.mp hsize
    obtain ⟨hfits, hfit⟩ := List.forall_mem_cons.mp hfits
    exact ⟨hsize, hfits, hr, hsizes, hfit, hrs⟩
  · rintro ⟨hsize, hfits, hr, hsizes, hfit, hrs⟩
    exact ⟨List.forall_mem_cons.mpr ⟨hsize, hsizes⟩, List.forall_mem_cons.mpr ⟨hfits, hfit⟩,
      List.pairwise_cons.mpr ⟨hr, hrs⟩⟩

/-- The rest of a tidy list is tidy. -/
theorem Tidy.tail (h : Tidy (r :: rs)) : Tidy rs :=
  (tidy_cons.mp h).2.2.2

/-- A tidy list reports the sharers of its first region where that begins. -/
theorem Tidy.reports_offset (h : Tidy (r :: rs)) : Reports (r :: rs) r.offset r.sharers :=
  reports_cons.mpr (.inl ⟨Region.contains_offset (tidy_cons.mp h).1, rfl⟩)

/-- Behind the first region nothing is said about its addresses. -/
theorem Tidy.stop_le_of_reports (h : Tidy (r :: rs)) (hp : Reports rs p ids) :
    r.stop ≤ p.toNat := by
  obtain ⟨s, hs, hsp, _⟩ := hp
  exact Nat.le_trans ((tidy_cons.mp h).2.2.1 s hs) (UInt64.le_iff_toNat_le.mp hsp.1)

/-- What is said behind the first region is what is said elsewhere. -/
theorem Tidy.reports_tail_iff (h : Tidy (r :: rs)) :
    Reports rs p ids ↔ Reports (r :: rs) p ids ∧ ¬ r.Contains p := by
  rw [reports_cons]
  constructor
  · intro hp
    exact ⟨.inr hp, fun hr => Nat.not_le.mpr hr.2 (h.stop_le_of_reports hp)⟩
  · rintro ⟨⟨hr, _⟩ | hp, hnot⟩
    · exact absurd hr hnot
    · exact hp

/-- About the addresses of the first region nothing but its sharers is said. -/
theorem Tidy.sharers_eq (h : Tidy (r :: rs)) (hr : r.Contains p)
    (hp : Reports (r :: rs) p ids) : r.sharers = ids := by
  rcases reports_cons.mp hp with ⟨_, hids⟩ | htail
  · exact hids
  · exact absurd hr (h.reports_tail_iff.mp htail).2

/-- Nothing is said about an address below the first region. -/
theorem Tidy.offset_le_of_reports (h : Tidy (r :: rs)) (hp : Reports (r :: rs) p ids) :
    r.offset ≤ p := by
  rcases reports_cons.mp hp with ⟨hr, _⟩ | htail
  · exact hr.1
  · have hlt : r.offset.toNat < r.stop := Region.offset_lt_stop (tidy_cons.mp h).1
    have hle : r.stop ≤ p.toNat := h.stop_le_of_reports htail
    rw [UInt64.le_iff_toNat_le]
    omega

/-! ## Regions that can be joined -/

/-- Whether a region goes on in another: they touch and have the same sharers. -/
def Region.Continues (r s : Region) : Prop := r.end = s.offset ∧ r.sharers = s.sharers

/-- Two regions that touch as one. -/
def Region.join (r s : Region) : Region := ⟨r.offset, r.size + s.size, r.sharers⟩

/-- Whether no neighbours can be joined. -/
def Maximal (rs : List Region) : Prop := rs.IsChain fun r s => ¬ r.Continues s

/-- Regions that can be joined meet at a natural number. -/
theorem Region.Continues.stop_eq (h : r.Continues s) (hr : r.Fits) :
    r.stop = s.offset.toNat := by
  rw [← hr.toNat_end, h.1]

/-- The joined region ends where the second of the two does. -/
theorem Region.Continues.stop_join (h : r.Continues s) (hr : r.Fits) (hs : s.Fits) :
    (r.join s).stop = s.stop := by
  have hmeet : r.offset.toNat + r.size.toNat = s.offset.toNat := h.stop_eq hr
  have hlt : s.offset.toNat + s.size.toNat < UInt64.size := hs
  -- the sizes add up to no more than the end of the second region, so their sum does not wrap
  have hsum : (r.size + s.size).toNat = r.size.toNat + s.size.toNat := by
    rw [UInt64.toNat_add]
    exact Nat.mod_eq_of_lt (show _ < UInt64.size by omega)
  show r.offset.toNat + (r.size + s.size).toNat = s.offset.toNat + s.size.toNat
  omega

/-- The joined region contains the addresses of both. -/
theorem Region.Continues.contains_join_iff (h : r.Continues s) (hr : r.Fits) (hs : s.Fits) :
    (r.join s).Contains p ↔ r.Contains p ∨ s.Contains p := by
  have hmeet : r.stop = s.offset.toNat := h.stop_eq hr
  have hstop : (r.join s).stop = s.stop := h.stop_join hr hs
  have hbegin : r.offset.toNat ≤ r.stop := Nat.le_add_right _ _
  have hend : s.offset.toNat ≤ s.stop := Nat.le_add_right _ _
  show r.offset ≤ p ∧ p.toNat < (r.join s).stop ↔
    (r.offset ≤ p ∧ p.toNat < r.stop) ∨ (s.offset ≤ p ∧ p.toNat < s.stop)
  rw [hstop, UInt64.le_iff_toNat_le, UInt64.le_iff_toNat_le]
  omega

/-! ## One step of joining -/

/-- One step of joining: two neighbours that can be joined become one region. -/
inductive Joins : List Region → List Region → Prop
  /-- The first two regions are joined. -/
  | here {r s : Region} (rest : List Region) (h : r.Continues s) :
      Joins (r :: s :: rest) (r.join s :: rest)
  /-- Two regions behind the first are joined. -/
  | there (r : Region) {rs rs' : List Region} (h : Joins rs rs') : Joins (r :: rs) (r :: rs')

/-- A step makes the list shorter. -/
theorem Joins.length_lt (h : Joins rs rs') : rs'.length < rs.length := by
  induction h with
  | here rest h => simp
  | there r h ih => simpa using ih

/-- A step brings in no new offset. -/
theorem Joins.exists_offset_eq (h : Joins rs rs') :
    ∀ s ∈ rs', ∃ t ∈ rs, t.offset = s.offset := by
  induction h with
  | @here r s rest h =>
    refine List.forall_mem_cons.mpr ⟨⟨r, by simp, rfl⟩, fun t ht => ⟨t, by simp [ht], rfl⟩⟩
  | there r h ih =>
    refine List.forall_mem_cons.mpr ⟨⟨r, by simp, rfl⟩, fun s hs => ?_⟩
    obtain ⟨t, ht, heq⟩ := ih s hs
    exact ⟨t, by simp [ht], heq⟩

/-- **A step keeps a list tidy.** -/
theorem Joins.tidy (h : Joins rs rs') (hrs : Tidy rs) : Tidy rs' := by
  induction h with
  | @here r s rest h =>
    obtain ⟨_, hrfits, _, hs⟩ := tidy_cons.mp hrs
    obtain ⟨hspos, hsfits, hsrest, hrest⟩ := tidy_cons.mp hs
    have hstop : (r.join s).stop = s.stop := h.stop_join hrfits hsfits
    refine tidy_cons.mpr ⟨?_, ?_, fun t ht => ?_, hrest⟩
    · -- the joined region begins no later than the second, which is not empty
      have hmeet : r.stop = s.offset.toNat := h.stop_eq hrfits
      have hlt : s.offset.toNat < s.stop := Region.offset_lt_stop hspos
      have hbegin : r.offset.toNat ≤ r.stop := Nat.le_add_right _ _
      have hjoin : r.offset.toNat + (r.join s).size.toNat = s.stop := hstop
      rw [UInt64.lt_iff_toNat_lt, UInt64.toNat_zero]
      omega
    · rw [Region.Fits, hstop]
      exact hsfits
    · rw [hstop]
      exact hsrest t ht
  | there r h ih =>
    obtain ⟨hpos, hfits, hr, hrest⟩ := tidy_cons.mp hrs
    refine tidy_cons.mpr ⟨hpos, hfits, fun s hs => ?_, ih hrest⟩
    obtain ⟨t, ht, heq⟩ := h.exists_offset_eq s hs
    exact heq ▸ hr t ht

/-- **A step changes nothing about any address.** -/
theorem Joins.reports_iff (h : Joins rs rs') (hrs : Tidy rs) :
    Reports rs p ids ↔ Reports rs' p ids := by
  induction h with
  | @here r s rest h =>
    obtain ⟨_, hrfits, _, hs⟩ := tidy_cons.mp hrs
    obtain ⟨_, hsfits, _⟩ := tidy_cons.mp hs
    have hsharers : s.sharers = r.sharers := h.2.symm
    have hjoined : (r.join s).sharers = r.sharers := rfl
    rw [reports_cons, reports_cons, reports_cons, h.contains_join_iff hrfits hsfits, hsharers,
      hjoined]
    tauto
  | there r h ih =>
    rw [reports_cons, reports_cons, ih hrs.tail]

/-- Where neighbours can be joined there is a step. -/
theorem exists_joins (h : ¬ Maximal rs) : ∃ rs', Joins rs rs' := by
  induction rs with
  | nil => exact absurd List.IsChain.nil h
  | cons r rest ih =>
    cases rest with
    | nil => exact absurd (List.IsChain.singleton r) h
    | cons s rest =>
      by_cases hrs : r.Continues s
      · exact ⟨_, Joins.here rest hrs⟩
      · have hrest : ¬ Maximal (s :: rest) := fun hrest =>
          h (List.isChain_cons_cons.mpr ⟨hrs, hrest⟩)
        obtain ⟨rs', hstep⟩ := ih hrest
        exact ⟨_, hstep.there r⟩

/-- From a maximal list there is no step. -/
theorem Joins.not_maximal (h : Joins rs rs') : ¬ Maximal rs := by
  induction h with
  | here rest h => exact fun hmax => (List.isChain_cons_cons.mp hmax).1 h
  | there r h ih => exact fun hmax => ih hmax.tail

/-! ## Maximal lists are determined by what they report -/

/-- Where the first region of a maximal list ends, its sharers are not reported again. -/
theorem Maximal.not_reports_end (hmax : Maximal (r :: rs)) (h : Tidy (r :: rs)) :
    ¬ Reports (r :: rs) r.end r.sharers := by
  obtain ⟨_, hfits, hr, hrs⟩ := tidy_cons.mp h
  intro hp
  rcases reports_cons.mp hp with ⟨hcontains, _⟩ | htail
  · have hlt : r.end.toNat < r.stop := hcontains.2
    rw [hfits.toNat_end] at hlt
    exact Nat.lt_irrefl _ hlt
  · cases rs with
    | nil => exact not_reports_nil htail
    | cons s rest =>
      -- the next region begins no later than the end of the first, so it begins there
      have hle : s.offset ≤ r.end := hrs.offset_le_of_reports htail
      have hge : r.stop ≤ s.offset.toNat := hr s (by simp)
      rw [UInt64.le_iff_toNat_le, hfits.toNat_end] at hle
      have htouch : r.end = s.offset :=
        UInt64.toNat_inj.mp (hfits.toNat_end.trans (Nat.le_antisymm hge hle))
      have hcontains : s.Contains r.end :=
        htouch ▸ Region.contains_offset (tidy_cons.mp hrs).1
      have hsharers : s.sharers = r.sharers := hrs.sharers_eq hcontains htail
      exact (List.isChain_cons_cons.mp hmax).1 ⟨htouch, hsharers.symm⟩

/-- If a maximal list reports all that another does, and their first regions begin together with the
same sharers, then the first region of the other ends no later. -/
theorem Maximal.stop_le {r' : Region} (hmax : Maximal (r :: rs)) (h : Tidy (r :: rs))
    (hoffset : r.offset = r'.offset) (hsharers : r.sharers = r'.sharers)
    (hsame : ∀ p ids, Reports (r' :: rs') p ids → Reports (r :: rs) p ids) : r'.stop ≤ r.stop := by
  obtain ⟨_, hfits, _⟩ := tidy_cons.mp h
  by_contra hlt
  -- Otherwise the other list says the same where the first region of this one ends.
  have hcontains : r'.Contains r.end := by
    have hbegin : r.offset.toNat ≤ r.stop := Nat.le_add_right _ _
    refine ⟨?_, ?_⟩
    · rw [UInt64.le_iff_toNat_le, hfits.toNat_end, ← hoffset]
      exact hbegin
    · rw [hfits.toNat_end]
      exact Nat.not_le.mp hlt
  exact hmax.not_reports_end h (hsame _ _ (reports_cons.mpr (.inl ⟨hcontains, hsharers.symm⟩)))

/-- The first regions of two maximal lists that report the same are equal. -/
theorem Tidy.head_eq_of_reports {r' : Region} (h : Tidy (r :: rs)) (h' : Tidy (r' :: rs'))
    (hmax : Maximal (r :: rs)) (hmax' : Maximal (r' :: rs'))
    (hsame : ∀ p ids, Reports (r :: rs) p ids ↔ Reports (r' :: rs') p ids) : r = r' := by
  -- Nothing is said below a first region, so neither begins below the other.
  have hoffset : r.offset = r'.offset := UInt64.le_antisymm
    (h.offset_le_of_reports ((hsame _ _).mpr h'.reports_offset))
    (h'.offset_le_of_reports ((hsame _ _).mp h.reports_offset))
  have hsharers : r.sharers = r'.sharers := by
    have hcontains : r.Contains r'.offset := hoffset ▸ Region.contains_offset (tidy_cons.mp h).1
    exact h.sharers_eq hcontains ((hsame _ _).mpr h'.reports_offset)
  have hstop : r.stop = r'.stop := Nat.le_antisymm
    (hmax'.stop_le h' hoffset.symm hsharers.symm fun p ids => (hsame p ids).mp)
    (hmax.stop_le h hoffset hsharers fun p ids => (hsame p ids).mpr)
  have hsize : r.size = r'.size := by
    rw [Region.stop, Region.stop, hoffset] at hstop
    exact UInt64.toNat_inj.mp (Nat.add_left_cancel hstop)
  calc r = ⟨r.offset, r.size, r.sharers⟩ := rfl
    _ = r' := by rw [hoffset, hsize, hsharers]

/-- **Maximal lists that report the same are equal**, by induction on both: the first regions agree,
and what is said behind them is what is said elsewhere. -/
theorem Tidy.eq_of_reports (h : Tidy rs) (h' : Tidy rs') (hmax : Maximal rs)
    (hmax' : Maximal rs') (hsame : ∀ p ids, Reports rs p ids ↔ Reports rs' p ids) : rs = rs' := by
  induction rs generalizing rs' with
  | nil =>
    cases rs' with
    | nil => rfl
    | cons r' rest' => exact absurd ((hsame _ _).mpr h'.reports_offset) not_reports_nil
  | cons r rest ih =>
    cases rs' with
    | nil => exact absurd ((hsame _ _).mp h.reports_offset) not_reports_nil
    | cons r' rest' =>
      have hhead : r = r' := h.head_eq_of_reports h' hmax hmax' hsame
      subst hhead
      have hrest : rest = rest' := by
        refine ih h.tail h'.tail hmax.tail hmax'.tail fun p ids => ?_
        rw [h.reports_tail_iff, h'.reports_tail_iff, hsame]
      rw [hrest]

/-! ## Joining as long as possible -/

/-- Whether joining neighbours as long as possible leads from one list to another, in whatever order
it is done: it cannot go on forever, the second list can be reached, and it is the only one to be
reached from which there is no further step. -/
structure JoinsTo (rs out : List Region) : Prop where
  ends : Acc (fun next rs => Joins rs next) rs
  reached : Relation.ReflTransGen Joins rs out
  final : ∀ next, ¬ Joins out next
  unique : ∀ other, Relation.ReflTransGen Joins rs other → (∀ next, ¬ Joins other next) →
    other = out

/-- **A whole run of joining** keeps the list tidy and changes nothing about any address. -/
theorem tidy_and_reports_of_run (h : Relation.ReflTransGen Joins rs rs') (hrs : Tidy rs) :
    Tidy rs' ∧ ∀ p ids, Reports rs p ids ↔ Reports rs' p ids := by
  induction h with
  | refl => exact ⟨hrs, fun _ _ => Iff.rfl⟩
  | tail _ hstep ih =>
    obtain ⟨htidy, hsame⟩ := ih
    exact ⟨hstep.tidy htidy, fun p ids => (hsame p ids).trans (hstep.reports_iff htidy)⟩

/-- Joining cannot go on forever, since the list gets shorter. -/
theorem joining_ends (rs : List Region) : Acc (fun next rs => Joins rs next) rs :=
  Subrelation.accessible Joins.length_lt ((measure List.length).wf.apply rs)

/-- From every list some maximal list is reached, by induction on the steps that are left. -/
theorem exists_maximal (rs : List Region) :
    ∃ out, Relation.ReflTransGen Joins rs out ∧ Maximal out := by
  induction joining_ends rs with
  | intro rs _ ih =>
    by_cases hmax : Maximal rs
    · exact ⟨rs, .refl, hmax⟩
    · obtain ⟨next, hstep⟩ := exists_joins hmax
      obtain ⟨out, hrun, hout⟩ := ih next hstep
      exact ⟨out, .head hstep hrun, hout⟩

/-- **Joining leads to the maximal list that reports the same.** -/
theorem joinsTo_of_reports {out : List Region} (hrs : Tidy rs) (hout : Tidy out)
    (hmax : Maximal out) (hsame : ∀ p ids, Reports rs p ids ↔ Reports out p ids) :
    JoinsTo rs out := by
  -- whatever maximal list is reached is the given one
  have hunique : ∀ other, Relation.ReflTransGen Joins rs other → Maximal other → other = out := by
    intro other hrun hother
    obtain ⟨htidy, hkept⟩ := tidy_and_reports_of_run hrun hrs
    exact htidy.eq_of_reports hout hother hmax fun p ids =>
      (hkept p ids).symm.trans (hsame p ids)
  obtain ⟨reached, hrun, hreached⟩ := exists_maximal rs
  refine ⟨joining_ends rs, hunique reached hrun hreached ▸ hrun,
    fun next hstep => hstep.not_maximal hmax, fun other hother hfinal => hunique other hother ?_⟩
  by_contra hnot
  obtain ⟨next, hstep⟩ := exists_joins hnot
  exact hfinal next hstep

end AliasReport
