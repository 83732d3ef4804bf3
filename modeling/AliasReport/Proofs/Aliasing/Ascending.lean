import AliasReport.Aliasing.Sweep
import AliasReport.Proofs.Sorting

/-! # Ascending lists of words

Boundary points and active identifiers are kept in ascending order, each of them once. Such a list
is determined by its members, so whatever is built from members alone does not depend on the order
in which bindings are met.

* **`sorted_congr`** — sorting forgets the order of a list.
* **`ascending_congr`** — `ascending` forgets how often an element occurs as well.
* **`mem_cross`**, **`cross_pairwise`** — what is active behind a point, and that it stays
  ascending. -/

namespace AliasReport

/-! ## Sorting -/

/-- The result of `sorted` is ascending. -/
theorem sorted_pairwise (xs : List UInt64) : (sorted xs).Pairwise (· ≤ ·) :=
  comparesBy_decide.mergeSort_pairwise xs

/-- Lists with the same elements, each as often, are sorted alike. -/
theorem sorted_congr {xs ys : List UInt64} (h : xs.Perm ys) : sorted xs = sorted ys :=
  comparesBy_decide.mergeSort_congr h fun _ _ _ _ heq => heq

/-! ## Ascending without repetitions -/

/-- Without repetitions an ascending list is strictly ascending. -/
theorem dropRepeats_pairwise {xs : List UInt64} (h : xs.Pairwise (· ≤ ·)) :
    (dropRepeats xs).Pairwise (· < ·) := by
  fun_induction dropRepeats xs with
  | case1 => exact List.Pairwise.nil
  | case2 a => exact List.pairwise_singleton _ a
  | case3 a rest ih => exact ih h.tail
  | case4 a b rest hne ih =>
    rw [List.pairwise_cons] at h
    obtain ⟨hle, hrest⟩ := h
    refine List.pairwise_cons.mpr ⟨?_, ih hrest⟩
    intro x hx
    have hab : a < b := UInt64.lt_of_le_of_ne (hle b (by simp)) hne
    rcases List.mem_cons.mp (mem_dropRepeats.mp hx) with rfl | hx
    · exact hab
    · exact UInt64.lt_of_lt_of_le hab (List.rel_of_pairwise_cons hrest hx)

/-- The result of `ascending` is strictly ascending. -/
theorem ascending_pairwise (xs : List UInt64) : (ascending xs).Pairwise (· < ·) :=
  dropRepeats_pairwise (sorted_pairwise xs)

/-- Lists with the same members have the same ascending list. -/
theorem ascending_congr {xs ys : List UInt64} (h : ∀ x, x ∈ xs ↔ x ∈ ys) :
    ascending xs = ascending ys := by
  refine (ascending_pairwise xs).eq_of_mem_iff (ascending_pairwise ys) fun x => ?_
  rw [mem_ascending, mem_ascending, h x]

/-! ## The active identifiers behind a point -/

/-- Adding an identifier keeps the list ascending. -/
theorem activate_pairwise {id : UInt64} {active : List UInt64} (h : active.Pairwise (· < ·)) :
    (activate id active).Pairwise (· < ·) := by
  induction active with
  | nil => exact List.pairwise_singleton _ id
  | cons a rest ih =>
    obtain ⟨hlt, hrest⟩ := List.pairwise_cons.mp h
    unfold activate
    split
    · next hid =>
      refine List.pairwise_cons.mpr ⟨?_, h⟩
      intro x hx
      rcases List.mem_cons.mp hx with rfl | hx
      · exact hid
      · exact UInt64.lt_trans hid (hlt x hx)
    · next hid =>
      split
      · exact h
      · next hne =>
        refine List.pairwise_cons.mpr ⟨?_, ih hrest⟩
        intro x hx
        rcases mem_activate.mp hx with rfl | hx
        · exact UInt64.lt_of_le_of_ne (UInt64.not_lt.mp hid) (Ne.symm hne)
        · exact hlt x hx

/-- What is active after several identifiers have been added. -/
theorem mem_foldl_activate {x : UInt64} {ids active : List UInt64} :
    x ∈ ids.foldl (fun active id => activate id active) active ↔ x ∈ ids ∨ x ∈ active := by
  induction ids generalizing active with
  | nil => simp
  | cons a rest ih =>
    rw [List.foldl_cons, ih, mem_activate, List.mem_cons]
    tauto

/-- What is active after several identifiers have been removed. -/
theorem mem_foldl_deactivate {x : UInt64} {ids active : List UInt64} :
    x ∈ ids.foldl (fun active id => deactivate id active) active ↔ x ∈ active ∧ x ∉ ids := by
  induction ids generalizing active with
  | nil => simp
  | cons a rest ih =>
    rw [List.foldl_cons, ih, mem_deactivate, List.mem_cons]
    tauto

/-- **What a step of the sweep keeps active.** Behind a point an identifier is active if one of its
bindings begins there, or if it was active before and none of them ends there. -/
theorem mem_cross {cs : List Crossing} {p x : UInt64} {active : List UInt64} :
    x ∈ cross cs p active ↔
      ⟨p, true, x⟩ ∈ cs ∨ x ∈ active ∧ (⟨p, false, x⟩ : Crossing) ∉ cs := by
  unfold cross
  rw [mem_foldl_activate, mem_foldl_deactivate, mem_idsAt, mem_idsAt]

/-- A step of the sweep keeps the active identifiers ascending. -/
theorem cross_pairwise {cs : List Crossing} {p : UInt64} {active : List UInt64}
    (h : active.Pairwise (· < ·)) : (cross cs p active).Pairwise (· < ·) := by
  have hends : ((idsAt cs false p).foldl (fun active id => deactivate id active) active).Pairwise
      (· < ·) :=
    List.foldlRecOn _ _ h fun _ hb _ _ => hb.filter _
  exact List.foldlRecOn _ _ hends fun _ hb _ _ => activate_pairwise hb

end AliasReport
