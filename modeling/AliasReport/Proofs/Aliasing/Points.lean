import AliasReport.Proofs.Aliasing.Ascending
import AliasReport.Proofs.Aliasing.Extent
import AliasReport.Proofs.Sequencing

/-! # The boundary points of any bindings

The sweep goes from one boundary point to the next. Here the points are found for all lists of
bindings, also for those that cannot be analysed: where a binding overflows there are none, and the
binding that is named is the first one that does, while `check` names one with the least identifier.

* **`Binding.Borders`** — the offset and the end of a binding.
* **`edges_eq_mapM`** — the edges are found binding by binding.
* **`edges_eq_error_iff`** — the first binding that does not fit is the fault.
* **`boundaryPoints_eq_ok_iff`** — the points are the borders, ascending and each of them once.
* **`points_of_bindings`** — when there are points, which ones and how many. -/

namespace AliasReport

/-- Whether an address is the offset or the end of a binding. -/
def Binding.Borders (b : Binding) (x : UInt64) : Prop := x = b.offset ∨ x.toNat = b.stop

/-! ## Faults -/

/-- The edges of a binding alone. -/
def Binding.edges (b : Binding) : Except BindingFault (List UInt64) :=
  b.bound.map fun e => [b.offset, e]

/-- A binding without an end is the fault of not having one. -/
theorem Binding.edges_eq_error_iff {b : Binding} {fault : BindingFault} :
    b.edges = .error fault ↔ ¬ b.Fits ∧ fault = .overflow b := by
  by_cases h : b.Fits
  · simp [Binding.edges, h.bound_eq, h]
  · have hend : b.end? = none := Option.isNone_iff_eq_none.mp (Binding.end?_isNone_iff.mpr h)
    simp [Binding.edges, Binding.bound, hend, h, eq_comm]

/-- A binding has edges exactly if it fits. -/
theorem Binding.exists_edges_iff {b : Binding} : (∃ es, b.edges = .ok es) ↔ b.Fits := by
  refine ⟨fun ⟨es, hes⟩ => ?_, fun h => ⟨_, map_eq_ok_iff.mpr ⟨_, h.bound_eq, rfl⟩⟩⟩
  by_contra hover
  rw [Binding.edges_eq_error_iff.mpr ⟨hover, rfl⟩] at hes
  cases hes

/-- The edges of bindings are found one binding after the other. -/
theorem edges_eq_mapM (bs : List Binding) :
    edges bs = (bs.mapM Binding.edges).map List.flatten := by
  induction bs with
  | nil => rfl
  | cons b rest ih =>
    rw [edges, List.mapM_cons, ih, Binding.edges]
    cases b.bound with
    | error fault => rfl
    | ok e => cases rest.mapM Binding.edges <;> rfl

/-- **The first binding that does not fit** is the fault of the edges. -/
theorem edges_eq_error_iff {bs : List Binding} {fault : BindingFault} :
    edges bs = .error fault ↔
      ∃ before b after, bs = before ++ b :: after ∧ (∀ c ∈ before, c.Fits) ∧ ¬ b.Fits ∧
        fault = .overflow b := by
  rw [edges_eq_mapM, map_eq_error_iff, mapM_eq_error_iff]
  simp only [Binding.exists_edges_iff, Binding.edges_eq_error_iff]

/-- Putting the edges in order cannot fail. -/
theorem boundaryPoints_eq_error_iff {bs : List Binding} {fault : BindingFault} :
    boundaryPoints bs = .error fault ↔ edges bs = .error fault :=
  map_eq_error_iff

/-! ## Points -/

/-- There are points unless a binding does not fit. -/
theorem exists_points_iff {bs : List Binding} :
    (∃ points, boundaryPoints bs = .ok points) ↔ ∀ b ∈ bs, b.Fits := by
  refine ⟨fun ⟨points, hpoints⟩ => ?_, fun h => ⟨_, boundaryPoints_eq h⟩⟩
  rw [boundaryPoints, edges_eq_mapM] at hpoints
  obtain ⟨es, hes, -⟩ := map_eq_ok_iff.mp hpoints
  obtain ⟨pairs, hpairs, -⟩ := map_eq_ok_iff.mp hes
  -- Every binding has edges of its own.
  have hedges := (mapM_eq_ok_iff.mp hpairs).imp fun b pair hb =>
    And.intro (Binding.exists_edges_iff.mp ⟨pair, hb⟩) hb
  exact ((List.forall₂_and_left bs pairs).mp hedges).1

/-- The endpoints of bindings that fit are their borders. -/
theorem mem_endpoints_iff {bs : List Binding} (h : ∀ b ∈ bs, b.Fits) {x : UInt64} :
    x ∈ endpoints bs ↔ ∃ b ∈ bs, b.Borders x := by
  rw [endpoints, List.mem_flatMap]
  refine exists_congr fun b => and_congr_right fun hb => ?_
  rw [Binding.Borders, ← (h b hb).toNat_end, UInt64.toNat_inj]
  simp

/-- **The boundary points** of bindings that fit are their borders, ascending and each of them
once. -/
theorem boundaryPoints_eq_ok_iff {bs : List Binding} {points : List UInt64} :
    boundaryPoints bs = .ok points ↔
      (∀ b ∈ bs, b.Fits) ∧ points.Pairwise (· < ·) ∧
        ∀ x, x ∈ points ↔ ∃ b ∈ bs, b.Borders x := by
  constructor
  · intro hpoints
    have hfits : ∀ b ∈ bs, b.Fits := exists_points_iff.mp ⟨points, hpoints⟩
    rw [boundaryPoints_eq hfits] at hpoints
    obtain rfl := Except.ok.inj hpoints
    exact ⟨hfits, ascending_pairwise _, fun x => mem_ascending.trans (mem_endpoints_iff hfits)⟩
  · rintro ⟨hfits, hascending, hmem⟩
    -- Strictly ascending lists with the same members are equal.
    rw [boundaryPoints_eq hfits]
    refine congrArg Except.ok ((ascending_pairwise _).eq_of_mem_iff hascending fun x => ?_)
    rw [mem_ascending, mem_endpoints_iff hfits, hmem]

/-! ## How many points there are -/

/-- Dropping repetitions leaves a part of the list. -/
theorem dropRepeats_sublist (xs : List UInt64) : (dropRepeats xs).Sublist xs := by
  fun_induction dropRepeats xs with
  | case1 => exact .slnil
  | case2 a => exact .refl [a]
  | case3 a rest ih => exact ih.trans (List.sublist_cons_self a _)
  | case4 a b rest _ ih => exact ih.cons_cons a

/-- A list has no fewer elements than there are different ones. -/
theorem length_ascending_le (xs : List UInt64) : (ascending xs).length ≤ xs.length :=
  calc (ascending xs).length ≤ (sorted xs).length := (dropRepeats_sublist _).length_le
    _ = xs.length := (sorted_perm xs).length_eq

/-- Every binding has two endpoints. -/
theorem length_endpoints (bs : List Binding) : (endpoints bs).length = 2 * bs.length := by
  induction bs with
  | nil => rfl
  | cons b rest ih =>
    have hcons : endpoints (b :: rest) = b.offset :: (b.offset + b.size) :: endpoints rest := rfl
    rw [hcons, List.length_cons, List.length_cons, List.length_cons, ih]
    omega

/-- Only where there is no binding there is no point. -/
theorem points_eq_nil_iff {bs : List Binding} {points : List UInt64}
    (h : boundaryPoints bs = .ok points) : points = [] ↔ bs = [] := by
  obtain ⟨-, -, hmem⟩ := boundaryPoints_eq_ok_iff.mp h
  cases bs with
  | nil => simpa [List.eq_nil_iff_forall_not_mem] using hmem
  | cons b rest =>
    have hoffset : b.offset ∈ points := (hmem _).mpr ⟨b, List.mem_cons_self, .inl rfl⟩
    exact iff_of_false (List.ne_nil_of_mem hoffset) (List.cons_ne_nil b rest)

/-- There are at most two points for each binding. -/
theorem length_points_le {bs : List Binding} {points : List UInt64}
    (h : boundaryPoints bs = .ok points) : points.length ≤ 2 * bs.length := by
  rw [boundaryPoints_eq (exists_points_iff.mp ⟨points, h⟩)] at h
  obtain rfl := Except.ok.inj h
  exact length_endpoints bs ▸ length_ascending_le (endpoints bs)

/-- **The boundary points are the exact coordinates.** There are points if and only if every binding
fits. They are a strictly ascending list of just the addresses at which a binding begins or ends, so
that a binding that is empty adds one of them at most; there are none only if there is no binding,
and no more than two for each binding. Otherwise the fault is the first binding of the list that
does not fit. -/
theorem points_of_bindings (bs : List Binding) :
    ((∃ points, boundaryPoints bs = .ok points) ↔ ∀ b ∈ bs, b.Fits) ∧
    (∀ points, boundaryPoints bs = .ok points ↔
      (∀ b ∈ bs, b.Fits) ∧ points.Pairwise (· < ·) ∧
        ∀ x, x ∈ points ↔ ∃ b ∈ bs, b.Borders x) ∧
    (∀ points, boundaryPoints bs = .ok points →
      (points = [] ↔ bs = []) ∧ points.length ≤ 2 * bs.length) ∧
    ∀ fault, boundaryPoints bs = .error fault ↔
      ∃ before b after, bs = before ++ b :: after ∧ (∀ c ∈ before, c.Fits) ∧ ¬ b.Fits ∧
        fault = .overflow b :=
  ⟨exists_points_iff, fun _ => boundaryPoints_eq_ok_iff,
    fun _ h => ⟨points_eq_nil_iff h, length_points_le h⟩,
    fun _ => boundaryPoints_eq_error_iff.trans edges_eq_error_iff⟩

/-- Of two bindings that overflow, `check` names the other one. -/
example :
    let bs : List Binding := [⟨5, 18446744073709551615, 1⟩, ⟨3, 18446744073709551615, 2⟩]
    boundaryPoints bs = .error (.overflow ⟨5, 18446744073709551615, 1⟩) ∧
      check .merge bs = .error (.overflow ⟨3, 18446744073709551615, 2⟩) :=
  ⟨rfl, rfl⟩

end AliasReport
