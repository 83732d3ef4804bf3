import AliasReport.Proofs.Report.Selection
import AliasReport.Proofs.Sequencing
import Mathlib

/-! # The entries of a report

Each allocation of the selection is analysed by itself, and hiding the bindings touches nothing but
their lists. A report is therefore known entry by entry.

* **`analyze_eq_ok_iff`**, **`analyze_eq_error_iff`** — the outcomes for one allocation.
* **`Config.entry`**, **`ofBreakdown_eq`**, **`ofBreakdown_eq_ok_iff`** — a report is the entries of
  the selection.
* **`ofBreakdown_eq_of_entries`** — reports with equal entries are equal.
* **`contents_of_report`** — which entries a report has when options override a configuration. -/

namespace AliasReport

/-! ## One allocation -/

variable {a : Allocation} {constants : List FlagConstant} {policy : DuplicatePolicy}

/-- An allocation is analysed if its regions are found. -/
theorem analyze_eq_ok_iff {e : AllocationReport} :
    analyze a constants policy = .ok e ↔
      aliasedRegions policy a.ranges = .ok e.aliases ∧ e = a.reportWith constants e.aliases := by
  unfold analyze
  cases aliasedRegions policy a.ranges with
  | error cause => simp
  | ok rs =>
    simp only [Except.ok.injEq]
    constructor
    · rintro rfl
      exact ⟨rfl, rfl⟩
    · rintro ⟨rfl, he⟩
      exact he.symm

/-- An allocation cannot be analysed if its regions cannot be found; the fault names it. -/
theorem analyze_eq_error_iff {f : AllocationFault} :
    analyze a constants policy = .error f ↔
      f.handle = a.handle ∧ aliasedRegions policy a.ranges = .error f.cause := by
  unfold analyze
  cases aliasedRegions policy a.ranges with
  | ok rs => simp
  | error cause =>
    simp only [Except.error.injEq]
    constructor
    · rintro rfl
      exact ⟨rfl, rfl⟩
    · rintro ⟨hhandle, hcause⟩
      rw [hcause, ← hhandle]

/-- The entry of an allocation: its report, without the bindings where they are hidden. -/
def Config.entry (c : Config) (constants : List FlagConstant) (a : Allocation) :
    Except AllocationFault AllocationReport :=
  (analyze a constants c.duplicateIds).map fun e => if c.showBindings then e else e.hideBindings

/-- An entry is a report from which nothing but the bindings may be missing. -/
theorem Config.entry_eq_ok_iff {c : Config} {e : AllocationReport} :
    c.entry constants a = .ok e ↔ ∃ full, analyze a constants c.duplicateIds = .ok full ∧
      e = if c.showBindings then full else full.hideBindings := by
  unfold Config.entry
  cases analyze a constants c.duplicateIds with
  | error f => simp [Except.map]
  | ok full => simp only [Except.map, Except.ok.injEq, exists_eq_left', eq_comm]

/-- Hiding the bindings does not touch faults. -/
theorem Config.entry_eq_error_iff {c : Config} {f : AllocationFault} :
    c.entry constants a = .error f ↔ analyze a constants c.duplicateIds = .error f := by
  unfold Config.entry
  cases analyze a constants c.duplicateIds <;> simp [Except.map]

/-- An entry bears the handle of its allocation. -/
theorem Config.entry_handle {c : Config} {e : AllocationReport}
    (h : c.entry constants a = .ok e) : e.handle = a.handle := by
  obtain ⟨full, hfull, rfl⟩ := Config.entry_eq_ok_iff.mp h
  have hhandle : full.handle = a.handle := congrArg (·.handle) (analyze_eq_ok_iff.mp hfull).2
  split
  · exact hhandle
  · exact hhandle

/-! ## The whole report -/

namespace Report

variable {b : Breakdown} {c : Config}

/-- **A report is the entries of the selection**, one after the other. -/
theorem ofBreakdown_eq (b : Breakdown) (c : Config) :
    ofBreakdown b c =
      ((selection c b.allocations).mapM (c.entry b.allocationFlags)).map (Report.mk b.api) := by
  have hentries := map_mapM (fun a => analyze a b.allocationFlags c.duplicateIds)
    (fun e => if c.showBindings then e else e.hideBindings) (selection c b.allocations)
  change _ = Except.map _ ((selection c b.allocations).mapM fun a =>
    (analyze a b.allocationFlags c.duplicateIds).map _)
  rw [← hentries, ofBreakdown]
  cases (selection c b.allocations).mapM fun a => analyze a b.allocationFlags c.duplicateIds with
  | error f => rfl
  | ok reports =>
    cases hshow : c.showBindings <;>
      simp [bind, Except.bind, pure, Except.pure, Except.map]

/-- A report is made if each allocation of the selection has an entry. -/
theorem ofBreakdown_eq_ok_iff {r : Report} :
    ofBreakdown b c = .ok r ↔ r.api = b.api ∧
      List.Forall₂ (fun a e => c.entry b.allocationFlags a = .ok e) (selection c b.allocations)
        r.allocations := by
  rw [ofBreakdown_eq, ← mapM_eq_ok_iff]
  cases (selection c b.allocations).mapM (c.entry b.allocationFlags) with
  | error f => simp [Except.map]
  | ok es =>
    obtain ⟨api, allocations⟩ := r
    simp [Except.map, eq_comm]

/-- A report depends on the entries of the selection. -/
theorem ofBreakdown_eq_of_entries {b b' : Breakdown} {c : Config} (hapi : b'.api = b.api)
    (h : (selection c b'.allocations).map (c.entry b'.allocationFlags) =
      (selection c b.allocations).map (c.entry b.allocationFlags)) :
    ofBreakdown b' c = ofBreakdown b c := by
  rw [ofBreakdown_eq, ofBreakdown_eq, ← mapM_id_map (c.entry b'.allocationFlags), h, mapM_id_map,
    hapi]

end Report

/-! ## Options that override a configuration -/

/-- The handles that are asked for: those of the options if there are any, else those of the
configuration. -/
def Overrides.handles (o : Overrides) (c : Config) : List UInt64 :=
  if o.allocations = [] then c.allocations else o.allocations

/-- Whether an allocation is asked for by its handle. Where no handle is given, all are. -/
def Asked (handles : List UInt64) (handle : UInt64) : Prop := handles = [] ∨ handle ∈ handles

instance (handles : List UInt64) (handle : UInt64) : Decidable (Asked handles handle) :=
  inferInstanceAs (Decidable (_ ∨ _))

/-- What is included under overriding options is what is asked for. -/
theorem includes_apply (o : Overrides) (c : Config) (handle : UInt64) :
    (o.apply c).includes handle = decide (Asked (o.handles c) handle) := by
  rw [Bool.eq_iff_iff, Config.includes_iff, decide_eq_true_eq, Asked, Overrides.apply,
    Overrides.handles]
  simp only [List.isEmpty_iff]

namespace Report

variable {b : Breakdown} {c : Config}

/-- **A report is part of that of all allocations**, if the latter can be made. -/
theorem eq_filter_of_ofBreakdown {r r₀ : Report} (h : ofBreakdown b c = .ok r)
    (h₀ : ofBreakdown b { c with allocations := [] } = .ok r₀) :
    r = { r₀ with allocations := r₀.allocations.filter fun e => c.includes e.handle } := by
  obtain ⟨hapi, hentries⟩ := ofBreakdown_eq_ok_iff.mp h
  obtain ⟨hapi₀, hentries₀⟩ := ofBreakdown_eq_ok_iff.mp h₀
  have hfiltered : List.Forall₂ (fun a e => c.entry b.allocationFlags a = .ok e)
      (selection c b.allocations) (r₀.allocations.filter fun e => c.includes e.handle) := by
    rw [selection_eq_filter]
    refine List.rel_filter (fun a e he => ?_) hentries₀
    simp only [Config.entry_handle he]
  -- both lists are the entries of the same allocations, and an allocation has one entry at most
  have hunique : Relator.RightUnique fun a e => c.entry b.allocationFlags a = .ok e :=
    fun a e e' he he' => Except.ok.inj (he.symm.trans he')
  exact congrArg₂ Report.mk (hapi.trans hapi₀.symm) (hunique.forall₂ hentries hfiltered)

/-- **Which entries a report has.** A report under overriding options has the entries of exactly
the allocations that are asked for, in ascending order of their handles, those of one handle in the
order of the document. Each entry is the report of its allocation by itself, but for bindings that
are hidden. It is the part that is asked for of the report of all allocations, if that can be
made. -/
theorem contents_of_report (b : Breakdown) (c : Config) (o : Overrides) {r : Report}
    (h : ofBreakdown b (o.apply c) = .ok r) :
    (∃ as : List Allocation,
      as.Perm (b.allocations.filter fun a => Asked (o.handles c) a.handle) ∧
      as.Pairwise (fun a a' => a.handle ≤ a'.handle) ∧
      (∀ id, as.filter (·.handle = id) =
        (b.allocations.filter fun a => Asked (o.handles c) a.handle).filter (·.handle = id)) ∧
      List.Forall₂ (fun a e => ∃ full,
          analyze a b.allocationFlags (o.apply c).duplicateIds = .ok full ∧
          e = if (o.apply c).showBindings then full else { full with bindings := [] })
        as r.allocations) ∧
    ∀ r₀, ofBreakdown b { o.apply c with allocations := [] } = .ok r₀ →
      r = { r₀ with allocations :=
        r₀.allocations.filter fun e => Asked (o.handles c) e.handle } := by
  have hincluded : included (o.apply c) b.allocations =
      b.allocations.filter fun a => Asked (o.handles c) a.handle :=
    List.filter_congr fun a _ => includes_apply o c a.handle
  refine ⟨⟨selection (o.apply c) b.allocations, ?_, selection_ascend _ _, fun id => ?_, ?_⟩,
    fun r₀ h₀ => ?_⟩
  · rw [← hincluded]
    exact selection_perm _ _
  · rw [← hincluded]
    exact selection_filter_handle _ _ id
  · exact (ofBreakdown_eq_ok_iff.mp h).2.imp fun a e he => Config.entry_eq_ok_iff.mp he
  · simpa only [includes_apply] using eq_filter_of_ofBreakdown h h₀

/-- Options that name two handles, one of them borne by two allocations, and hide the bindings. -/
theorem contents_of_report_repeated_handle :
    let b : Breakdown := ⟨some "vulkan", [⟨"DEVICE_LOCAL", 1⟩],
      [⟨20, "a", 1, 2, 64, 1, none, [⟨4, "x", 5, 10, .buffer⟩, ⟨3, "y", 0, 10, .image⟩]⟩,
        ⟨30, "b", 1, 2, 64, 0, none, []⟩,
        ⟨10, "c", 1, 2, 64, 0, none, [⟨1, "z", 0, 0, .buffer⟩]⟩,
        ⟨10, "d", 1, 2, 64, 0, none, []⟩]⟩
    let c : Config := ⟨.reject, true, false, [30]⟩
    let o : Overrides := ⟨[20, 10], true, false, false⟩
    let r : Report := ⟨some "vulkan",
      [⟨10, "c", 1, 2, 64, [], none, 1, [], []⟩, ⟨10, "d", 1, 2, 64, [], none, 0, [], []⟩,
        ⟨20, "a", 1, 2, 64, ["DEVICE_LOCAL"], none, 2, [], [⟨5, 5, [3, 4]⟩]⟩]⟩
    let r₀ : Report := { r with allocations :=
      r.allocations ++ [⟨30, "b", 1, 2, 64, [], none, 0, [], []⟩] }
    ofBreakdown b (o.apply c) = .ok r ∧
      ofBreakdown b { o.apply c with allocations := [] } = .ok r₀ ∧
      r = { r₀ with allocations :=
        r₀.allocations.filter fun e => Asked (o.handles c) e.handle } := by
  intro b c o r r₀
  have h : ofBreakdown b (o.apply c) = .ok r := by cbv
  have h₀ : ofBreakdown b { o.apply c with allocations := [] } = .ok r₀ := by cbv
  exact ⟨h, h₀, (contents_of_report b c o h).2 r₀ h₀⟩

end Report

end AliasReport
