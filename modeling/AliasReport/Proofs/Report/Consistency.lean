import AliasReport.Proofs.Aliasing.Order
import AliasReport.Proofs.Report.Entries

/-! # A report agrees with itself

The regions of an allocation are computed from its bindings as the document lists them, and the
report lists the bindings in another order. The order does not matter for the regions, so a reader
can compute them again from the report alone.

* **`AllocationReport.Consistent`** — an entry agrees with its allocation and with itself.
* **`consistent_of_analyze`** — every entry that lists its bindings does.
* **`ofBreakdown_hidden`** — hiding the bindings empties their lists and changes nothing else.
* **`report_consistent`** — both for a whole report. -/

namespace AliasReport

/-- Whether the report of an allocation agrees with the allocation and with itself. -/
structure AllocationReport.Consistent (policy : DuplicatePolicy) (a : Allocation)
    (e : AllocationReport) : Prop where
  /-- The bindings are counted with a word. -/
  count : e.bindingCount = UInt64.ofNat e.bindings.length
  /-- The count is their number, as long as that is a word. -/
  count_exact : e.bindings.length < UInt64.size → e.bindingCount.toNat = e.bindings.length
  listing : e.bindings.Perm a.bindings
  /-- The regions can be computed again from the bindings as they are listed. -/
  recomputed : aliasedRegions policy (e.bindings.map Resource.toBinding) = .ok e.aliases

/-- **The report of one allocation agrees with itself.** -/
theorem consistent_of_analyze {a : Allocation} {constants : List FlagConstant}
    {policy : DuplicatePolicy} {e : AllocationReport} (h : analyze a constants policy = .ok e) :
    e.Consistent policy a := by
  obtain ⟨haliases, he⟩ := analyze_eq_ok_iff.mp h
  have hbindings : e.bindings = sortResources a.bindings := congrArg (·.bindings) he
  have hlisting : e.bindings.Perm a.bindings := hbindings ▸ sortResources_perm a.bindings
  have hcount : e.bindingCount = UInt64.ofNat e.bindings.length := by
    rw [hlisting.length_eq]
    exact congrArg (·.bindingCount) he
  exact {
    count := hcount
    count_exact := fun hlt => hcount ▸ UInt64.toNat_ofNat_of_lt' hlt
    listing := hlisting
    recomputed := regions_of_perm (hlisting.map Resource.toBinding).symm haliases }

namespace Report

/-- **Hiding the bindings** empties their lists and changes neither anything else nor faults. -/
theorem ofBreakdown_hidden (b : Breakdown) (c : Config) :
    ofBreakdown b { c with showBindings := false } =
      (ofBreakdown b { c with showBindings := true }).map fun r =>
        { r with allocations := r.allocations.map AllocationReport.hideBindings } := by
  unfold ofBreakdown
  change ((selection c b.allocations).mapM _ >>= _) =
    Except.map _ ((selection c b.allocations).mapM _ >>= _)
  cases (selection c b.allocations).mapM fun a => analyze a b.allocationFlags c.duplicateIds <;> rfl

/-- **A report agrees with itself.** Each entry that lists its bindings counts what it lists, lists
the bindings of its allocation in some order, and has the regions that these bindings have in the
order in which they are listed. Where bindings are hidden the report is the same, but for their
lists, which are empty. -/
theorem report_consistent (b : Breakdown) (c : Config) (hshow : c.showBindings = true) {r : Report}
    (h : ofBreakdown b c = .ok r) :
    List.Forall₂ (fun a e => analyze a b.allocationFlags c.duplicateIds = .ok e ∧
        e.Consistent c.duplicateIds a)
      (selection c b.allocations) r.allocations ∧
    ofBreakdown b { c with showBindings := false } =
      .ok { r with allocations := r.allocations.map fun e => { e with bindings := [] } } := by
  constructor
  · refine (ofBreakdown_eq_ok_iff.mp h).2.imp fun a e he => ?_
    obtain ⟨full, hfull, rfl⟩ := Config.entry_eq_ok_iff.mp he
    rw [if_pos hshow]
    exact ⟨hfull, consistent_of_analyze hfull⟩
  · have hconfig : { c with showBindings := true } = c := by rw [← hshow]
    rw [ofBreakdown_hidden, hconfig, h]
    rfl

/-- A report with a repeated identifier that is merged, and bindings that are listed in another
order than the document has them in. -/
theorem report_consistent_merged :
    let a : Allocation := ⟨7, "a", 1, 2, 64, 0, none,
      [⟨5, "p", 6, 10, .buffer⟩, ⟨6, "q", 0, 9, .image⟩, ⟨5, "p", 0, 2, .buffer⟩]⟩
    let b : Breakdown := ⟨none, [], [a]⟩
    let c : Config := ⟨.merge, true, false, []⟩
    let e : AllocationReport := ⟨7, "a", 1, 2, 64, [], none, 3,
      [⟨5, "p", 0, 2, .buffer⟩, ⟨6, "q", 0, 9, .image⟩, ⟨5, "p", 6, 10, .buffer⟩],
      [⟨0, 2, [5, 6]⟩, ⟨6, 3, [5, 6]⟩]⟩
    ofBreakdown b c = .ok ⟨none, [e]⟩ ∧ e.Consistent c.duplicateIds a ∧
      ofBreakdown b { c with showBindings := false } = .ok ⟨none, [{ e with bindings := [] }]⟩ := by
  intro a b c e
  have h : ofBreakdown b c = .ok ⟨none, [e]⟩ := by cbv
  have hselection : selection c b.allocations = [a] := by cbv
  obtain ⟨hentries, hhidden⟩ := report_consistent b c rfl h
  rw [hselection, List.forall₂_cons] at hentries
  exact ⟨h, hentries.1.2, hhidden⟩

end Report

end AliasReport
