import AliasReport.Report.Analysis
import AliasReport.Proofs.Sorting
import Mathlib.Data.List.Nodup

/-! # The allocations that a report covers

A report covers the allocations whose handles are included, in ascending order of their handles;
those of one handle keep the order of the document. These facts determine the selection.

* **`selection_perm`**, **`selection_ascend`**, **`selection_filter_handle`** — the three facts.
* **`selection_congr`**, **`selection_eq_of_perm`**, **`selection_eq_filter`** — when two selections
  are equal, and how a selection is part of a larger one.
* **`selection_map_congr`** — what is computed from each allocation of a selection. -/

namespace AliasReport

/-! ## Lists in ascending order of handles -/

/-- Whether allocations are in ascending order of their handles. -/
def HandlesAscend (as : List Allocation) : Prop := as.Pairwise fun a b => a.handle ≤ b.handle

namespace Report

/-! ## The three facts -/

/-- The allocations that a configuration includes, in the order of the document. -/
def included (c : Config) (as : List Allocation) : List Allocation :=
  as.filter fun a => c.includes a.handle

/-- The allocations that are included are those that the configuration includes. -/
@[simp] theorem mem_included {c : Config} {as : List Allocation} {a : Allocation} :
    a ∈ included c as ↔ a ∈ as ∧ c.includes a.handle = true :=
  List.mem_filter

/-- **Nothing is lost and nothing is repeated** by a selection. -/
theorem selection_perm (c : Config) (as : List Allocation) :
    (selection c as).Perm (included c as) :=
  List.mergeSort_perm _ _

/-- The allocations of the selection are those that the configuration includes. -/
@[simp] theorem mem_selection {c : Config} {as : List Allocation} {a : Allocation} :
    a ∈ selection c as ↔ a ∈ as ∧ c.includes a.handle = true :=
  (selection_perm c as).mem_iff.trans mem_included

/-- **Handles ascend** in a selection. -/
theorem selection_ascend (c : Config) (as : List Allocation) : HandlesAscend (selection c as) :=
  comparesBy_decide.mergeSort_pairwise (included c as)

/-- **Allocations of one handle keep their order** in a selection. -/
theorem selection_filter_handle (c : Config) (as : List Allocation) (id : UInt64) :
    (selection c as).filter (·.handle = id) = (included c as).filter (·.handle = id) :=
  comparesBy_decide.filter_mergeSort id (included c as)

/-! ## Equal selections -/

/-- **A selection depends on the included allocations of each handle alone.** -/
theorem selection_congr {c d : Config} {as bs : List Allocation}
    (h : ∀ id, (included c as).filter (·.handle = id) = (included d bs).filter (·.handle = id)) :
    selection c as = selection d bs := by
  refine eq_of_filter_key (selection_ascend c as) (selection_ascend d bs) fun id => ?_
  rw [selection_filter_handle, selection_filter_handle, h]

/-- Where handles are distinct the order of the document does not matter. -/
theorem selection_eq_of_perm (c : Config) {as bs : List Allocation} (h : as.Perm bs)
    (hdistinct : (as.map (·.handle)).Nodup) : selection c as = selection c bs := by
  refine comparesBy_decide.mergeSort_congr (h.filter _) fun a ha b hb hhandle => ?_
  exact List.inj_on_of_nodup_map hdistinct (List.mem_filter.mp ha).1 (List.mem_filter.mp hb).1
    hhandle

/-- **A selection is part of that of all allocations**, with the others left out. -/
theorem selection_eq_filter (c : Config) (as : List Allocation) :
    selection c as =
      (selection { c with allocations := [] } as).filter fun a => c.includes a.handle := by
  have hall : included { c with allocations := [] } as = as :=
    List.filter_eq_self.mpr fun a _ => Config.includes_iff.mpr (.inl rfl)
  refine eq_of_filter_key (selection_ascend c as)
    (List.Pairwise.filter _ (selection_ascend _ as)) fun id => ?_
  rw [selection_filter_handle, List.filter_comm, selection_filter_handle, hall, included,
    List.filter_comm]

/-- Selecting allocations needs no more of them than their handles. -/
theorem selection_map_pair {β : Type} (c : Config) (f : Allocation → β) (as : List Allocation) :
    (selection c as).map (fun a => (a.handle, f a)) =
      ((as.map fun a => (a.handle, f a)).filter fun p => c.includes p.1).mergeSort
        fun p q => decide (p.1 ≤ q.1) := by
  -- the map passes both the filter and the sort, since each of them looks at handles only
  rw [List.filter_map]
  exact List.map_mergeSort fun _ _ _ _ => rfl

/-- **What is computed from each selected allocation**: if two documents agree, entry by entry, on
the handles and on what is computed, then so do their selections. -/
theorem selection_map_congr {β : Type} (c : Config) {f g : Allocation → β} {as bs : List Allocation}
    (h : as.map (fun a => (a.handle, f a)) = bs.map fun a => (a.handle, g a)) :
    (selection c as).map f = (selection c bs).map g := by
  have hpairs : (selection c as).map (fun a => (a.handle, f a)) =
      (selection c bs).map fun a => (a.handle, g a) := by
    rw [selection_map_pair, h, selection_map_pair]
  have hsnd := congrArg (List.map Prod.snd) hpairs
  rwa [List.map_map, List.map_map] at hsnd

end Report

end AliasReport
