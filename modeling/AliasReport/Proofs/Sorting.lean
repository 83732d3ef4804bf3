import Mathlib.Data.List.Sort

/-! # Sorting by a key

Words are sorted by their value, allocations by their handle, and resources by three fields. In each
case the comparison looks at a key alone. The result of sorting is in order of keys, and what has
one key stands in it as it did before; no other list does both.

* **`eq_of_filter_key`** — a list in order is determined by how the members of each key stand in it.
* **`ComparesBy.mergeSort_pairwise`**, **`ComparesBy.filter_mergeSort`** — order and stability.
* **`ComparesBy.mergeSort_congr`** — where keys are distinct, sorting forgets the order it was
  given. -/

namespace AliasReport

variable {α κ : Type*} {key : α → κ}

/-! ## Comparisons of keys -/

/-- Whether a comparison is that of keys. -/
def ComparesBy [LE κ] (key : α → κ) (le : α → α → Bool) : Prop :=
  ∀ a b, le a b = true ↔ key a ≤ key b

/-- Keys that are compared as they stand. -/
theorem comparesBy_decide [LE κ] [DecidableLE κ] :
    ComparesBy key fun a b => decide (key a ≤ key b) :=
  fun _ _ => decide_eq_true_iff

/-! ## Lists in order of keys -/

/-- Lists that agree on what has each key have the same members. -/
theorem mem_iff_of_filter_key [DecidableEq κ] {as bs : List α}
    (h : ∀ k, as.filter (key · = k) = bs.filter (key · = k)) {a : α} : a ∈ as ↔ a ∈ bs := by
  have hmem : ∀ cs : List α, a ∈ cs ↔ a ∈ cs.filter (key · = key a) := fun cs => by simp
  rw [hmem as, hmem bs, h]

variable [LE κ] [Std.IsLinearOrder κ]

/-- The first of a list in order has the lowest key. -/
theorem key_head_le {a x : α} {as : List α} (h : (a :: as).Pairwise (key · ≤ key ·))
    (hx : x ∈ a :: as) : key a ≤ key x := by
  obtain rfl | hx := List.mem_cons.mp hx
  · exact Std.le_refl _
  · exact List.rel_of_pairwise_cons h hx

/-- **A list in order is determined** by how the members of each key stand in it. -/
theorem eq_of_filter_key [DecidableEq κ] {as bs : List α} (has : as.Pairwise (key · ≤ key ·))
    (hbs : bs.Pairwise (key · ≤ key ·))
    (h : ∀ k, as.filter (key · = k) = bs.filter (key · = k)) : as = bs := by
  induction as generalizing bs with
  | nil =>
    refine (List.eq_nil_iff_forall_not_mem.mpr fun b hb => ?_).symm
    exact List.not_mem_nil ((mem_iff_of_filter_key h).mpr hb)
  | cons a as ih =>
    cases bs with
    | nil => exact absurd ((mem_iff_of_filter_key h).mp List.mem_cons_self) List.not_mem_nil
    | cons b bs =>
      -- each first member stands in the other list as well, so the two have one key
      have hkey : key a = key b :=
        Std.le_antisymm (key_head_le has ((mem_iff_of_filter_key h).mpr List.mem_cons_self))
          (key_head_le hbs ((mem_iff_of_filter_key h).mp List.mem_cons_self))
      have hheads := h (key a)
      rw [List.filter_cons_of_pos (by simp), List.filter_cons_of_pos (by simp [hkey])] at hheads
      obtain rfl : a = b := List.head_eq_of_cons_eq hheads
      refine congrArg (a :: ·) (ih has.of_cons hbs.of_cons fun k => ?_)
      have htails := h k
      rw [List.filter_cons, List.filter_cons] at htails
      split at htails
      · exact List.tail_eq_of_cons_eq htails
      · exact htails

/-! ## The result of sorting -/

variable {le : α → α → Bool}

/-- A comparison of keys is transitive. -/
theorem ComparesBy.trans (hle : ComparesBy key le) (a b c : α) (hab : le a b = true)
    (hbc : le b c = true) : le a c = true := by
  rw [hle] at *
  exact Std.le_trans hab hbc

/-- A comparison of keys is total. -/
theorem ComparesBy.total (hle : ComparesBy key le) (a b : α) : (le a b || le b a) = true := by
  rw [Bool.or_eq_true, hle, hle]
  exact Std.le_total

/-- **Keys ascend** in what has been sorted. -/
theorem ComparesBy.mergeSort_pairwise (hle : ComparesBy key le) (as : List α) :
    (as.mergeSort le).Pairwise (key · ≤ key ·) :=
  (List.pairwise_mergeSort hle.trans hle.total as).imp fun {a b} => (hle a b).mp

/-- **Where keys are distinct, sorting forgets the order** in which the members were listed. -/
theorem ComparesBy.mergeSort_congr (hle : ComparesBy key le) {as bs : List α} (h : as.Perm bs)
    (hdistinct : ∀ a ∈ as, ∀ b ∈ as, key a = key b → a = b) :
    as.mergeSort le = bs.mergeSort le := by
  have hperm : (as.mergeSort le).Perm (bs.mergeSort le) :=
    ((List.mergeSort_perm as le).trans h).trans (List.mergeSort_perm bs le).symm
  refine hperm.eq_of_pairwise (fun a b ha hb hab hba => ?_) (hle.mergeSort_pairwise as)
    (hle.mergeSort_pairwise bs)
  exact hdistinct a (List.mem_mergeSort.mp ha) b (h.mem_iff.mpr (List.mem_mergeSort.mp hb))
    (Std.le_antisymm hab hba)

/-- **What has one key keeps its order** in sorting. -/
theorem ComparesBy.filter_mergeSort [DecidableEq κ] (hle : ComparesBy key le) (k : κ)
    (as : List α) : (as.mergeSort le).filter (key · = k) = as.filter (key · = k) := by
  have htied : (as.filter (key · = k)).Pairwise fun a b => le a b = true := by
    refine List.pairwise_of_forall_mem_list fun a ha b hb => (hle a b).mpr ?_
    simp only [List.mem_filter, decide_eq_true_eq] at ha hb
    rw [ha.2, hb.2]
    exact Std.le_refl _
  -- what is in order already stays a sublist, here one as long as the whole
  have hsub : (as.filter (key · = k)).Sublist (as.mergeSort le) :=
    List.sublist_mergeSort hle.trans hle.total htied List.filter_sublist
  have hfilter : (as.filter (key · = k)).Sublist ((as.mergeSort le).filter (key · = k)) := by
    simpa [List.filter_filter] using hsub.filter (key · = k)
  exact (hfilter.eq_of_length ((List.mergeSort_perm as le).filter _).length_eq.symm).symm

end AliasReport
