import AliasReport.Proofs.Report.Entries

/-! # The fault of a report

Many allocations of a document may be impossible to analyse. The report fails with the first of
those that it covers, in ascending order of handles, and of those that share a handle with the first
in the document. What is not covered and what is shown has no part in it.

* **`Allocation.Fails`** — whether an allocation cannot be analysed.
* **`IsFaultOf`** — the fault of a document under a configuration, said without sorting.
* **`ofBreakdown_eq_error_iff`** — it is what a report fails with.
* **`fault_of_report`** — when a report fails, with what, and on what this does not depend.
* **`fault_not_perm_of_shared_handle`** — allocations that share a handle cannot be exchanged. -/

namespace AliasReport

/-! ## Allocations that cannot be analysed -/

/-- Whether an allocation cannot be analysed under a policy. -/
def Allocation.Fails (policy : DuplicatePolicy) (a : Allocation) : Prop :=
  ∃ cause, aliasedRegions policy a.ranges = .error cause

instance (policy : DuplicatePolicy) (a : Allocation) : Decidable (a.Fails policy) :=
  match h : aliasedRegions policy a.ranges with
  | .ok _ => isFalse fun ⟨_, hcause⟩ => nomatch h.symm.trans hcause
  | .error cause => isTrue ⟨cause, h⟩

/-- An allocation cannot be analysed exactly if `analyze` fails, whatever names the flags have. -/
theorem exists_analyze_error_iff (constants : List FlagConstant) {a : Allocation}
    {policy : DuplicatePolicy} :
    (∃ f, analyze a constants policy = .error f) ↔ a.Fails policy := by
  constructor
  · rintro ⟨f, hf⟩
    exact ⟨f.cause, (analyze_eq_error_iff.mp hf).2⟩
  · rintro ⟨cause, hcause⟩
    exact ⟨⟨a.handle, cause⟩, analyze_eq_error_iff.mpr ⟨rfl, hcause⟩⟩

/-- An allocation has an entry exactly if it can be analysed. -/
theorem exists_entry_iff {a : Allocation} {constants : List FlagConstant} {c : Config} :
    (∃ e, c.entry constants a = .ok e) ↔ ¬ a.Fails c.duplicateIds := by
  rw [← exists_analyze_error_iff constants]
  unfold Config.entry
  cases analyze a constants c.duplicateIds <;> simp [Except.map]

/-! ## The first in an ascending list -/

/-- In an ascending list the first element with a property has the lowest handle of all that have
it, and comes first among those of its handle. -/
theorem HandlesAscend.find?_eq_some {as : List Allocation} (h : HandlesAscend as)
    {q : Allocation → Prop} [DecidablePred q] {a : Allocation} (ha : as.find? q = some a) :
    (∀ x ∈ as, q x → a.handle ≤ x.handle) ∧
      as.find? (fun x => x.handle = a.handle ∧ q x) = some a := by
  obtain ⟨hq, before, after, rfl, hbefore⟩ := List.find?_eq_some_iff_append.mp ha
  constructor
  · intro x hx hqx
    rcases List.mem_append.mp hx with hx | hx
    · simpa [hqx] using hbefore x hx
    · exact key_head_le (List.pairwise_append.mp h).2.1 hx
  · rw [List.find?_eq_some_iff_append]
    refine ⟨by simpa using hq, before, after, rfl, fun x hx => ?_⟩
    have hnot := hbefore x hx
    simp_all

/-! ## The fault of a document -/

namespace Report

/-- Whether a fault is that of a document under a configuration: it names the lowest handle of the
included allocations that cannot be analysed, and its cause is that of the first one in the document
that has this handle and cannot be analysed. -/
structure IsFaultOf (c : Config) (as : List Allocation) (f : AllocationFault) : Prop where
  included : c.includes f.handle = true
  lowest : ∀ a ∈ as, c.includes a.handle = true → a.Fails c.duplicateIds → f.handle ≤ a.handle
  first : ∃ a, as.find? (fun a => a.handle = f.handle ∧ a.Fails c.duplicateIds) = some a ∧
    aliasedRegions c.duplicateIds a.ranges = .error f.cause

/-- The fault names the handle of an allocation that is included and cannot be analysed. -/
theorem IsFaultOf.exists_fails {c : Config} {as : List Allocation} {f : AllocationFault}
    (h : IsFaultOf c as f) :
    ∃ a ∈ as, a.handle = f.handle ∧ c.includes a.handle = true ∧ a.Fails c.duplicateIds := by
  obtain ⟨a, ha, hcause⟩ := h.first
  have hfound := List.find?_some ha
  rw [decide_eq_true_eq] at hfound
  exact ⟨a, List.mem_of_find?_eq_some ha, hfound.1, hfound.1 ▸ h.included, hfound.2⟩

/-- A document that has all allocations of another has a fault of no higher handle. -/
theorem IsFaultOf.handle_le {c : Config} {as bs : List Allocation} {f g : AllocationFault}
    (hsub : bs ⊆ as) (hf : IsFaultOf c as f) (hg : IsFaultOf c bs g) : f.handle ≤ g.handle := by
  obtain ⟨a, ha, hhandle, hincluded, hfails⟩ := hg.exists_fails
  exact hhandle ▸ hf.lowest a (hsub ha) hincluded hfails

/-- A document has one fault at most. -/
theorem IsFaultOf.unique {c : Config} {as : List Allocation} {f g : AllocationFault}
    (hf : IsFaultOf c as f) (hg : IsFaultOf c as g) : f = g := by
  have hhandle : f.handle = g.handle := by
    refine UInt64.le_antisymm ?_ ?_
    · exact hf.handle_le (List.Subset.refl as) hg
    · exact hg.handle_le (List.Subset.refl as) hf
  obtain ⟨a, ha, hcause⟩ := hf.first
  obtain ⟨a', ha', hcause'⟩ := hg.first
  -- the handle fixes which allocation is found, and that one fixes the cause
  rw [hhandle, ha', Option.some.injEq] at ha
  subst ha
  have hsame : f.cause = g.cause := Except.error.inj (hcause.symm.trans hcause')
  cases f
  cases g
  exact congrArg₂ AllocationFault.mk hhandle hsame

/-- Among the allocations of an included handle the selection finds what the document finds. -/
theorem find?_selection {c : Config} {id : UInt64} (hid : c.includes id = true)
    (as : List Allocation) (q : Allocation → Prop) [DecidablePred q] :
    (selection c as).find? (fun a => a.handle = id ∧ q a) =
      as.find? fun a => a.handle = id ∧ q a := by
  have hfilter := congrArg (List.find? fun a => decide (q a)) (selection_filter_handle c as id)
  simp only [included, List.find?_filter, decide_eq_true_eq] at hfilter
  rw [hfilter]
  refine congrArg (as.find? ·) (funext fun a => ?_)
  rw [decide_eq_decide]
  exact ⟨And.right, fun h => ⟨h.1 ▸ hid, h⟩⟩

/-- A report fails with the first allocation of the selection that cannot be analysed. -/
theorem ofBreakdown_eq_error_iff_find? {b : Breakdown} {c : Config} {f : AllocationFault} :
    ofBreakdown b c = .error f ↔
      ∃ a, (selection c b.allocations).find? (·.Fails c.duplicateIds) = some a ∧
        f.handle = a.handle ∧ aliasedRegions c.duplicateIds a.ranges = .error f.cause := by
  have hmap : ofBreakdown b c = .error f ↔
      (selection c b.allocations).mapM (c.entry b.allocationFlags) = .error f := by
    rw [ofBreakdown_eq]
    cases (selection c b.allocations).mapM (c.entry b.allocationFlags) <;> simp [Except.map]
  rw [hmap, mapM_eq_error_iff]
  simp only [exists_entry_iff, Config.entry_eq_error_iff, analyze_eq_error_iff,
    List.find?_eq_some_iff_append, decide_eq_true_eq, Bool.not_eq_true', decide_eq_false_iff_not]
  constructor
  · rintro ⟨before, a, after, heq, hbefore, hhandle, hcause⟩
    exact ⟨a, ⟨⟨_, hcause⟩, before, after, heq, hbefore⟩, hhandle, hcause⟩
  · rintro ⟨a, ⟨-, before, after, heq, hbefore⟩, hhandle, hcause⟩
    exact ⟨before, a, after, heq, hbefore, hhandle, hcause⟩

/-- What a report fails with is the fault of the document. -/
theorem isFaultOf_of_ofBreakdown {b : Breakdown} {c : Config} {f : AllocationFault}
    (h : ofBreakdown b c = .error f) : IsFaultOf c b.allocations f := by
  obtain ⟨a, ha, hhandle, hcause⟩ := ofBreakdown_eq_error_iff_find?.mp h
  obtain ⟨hlowest, hfirst⟩ := (selection_ascend c b.allocations).find?_eq_some ha
  have hincluded : c.includes f.handle = true :=
    hhandle ▸ (mem_selection.mp (List.mem_of_find?_eq_some ha)).2
  rw [← hhandle] at hlowest hfirst
  exact {
    included := hincluded
    lowest := fun x hx hxc hfails => hlowest x (mem_selection.mpr ⟨hx, hxc⟩) hfails
    first := ⟨a, by rw [← find?_selection hincluded, hfirst], hcause⟩ }

/-- A report fails if some included allocation cannot be analysed. -/
theorem exists_error_of_fails {b : Breakdown} {c : Config} {a : Allocation}
    (ha : a ∈ b.allocations) (hincluded : c.includes a.handle = true)
    (hfails : a.Fails c.duplicateIds) : ∃ f, ofBreakdown b c = .error f := by
  have hfound : ((selection c b.allocations).find? (·.Fails c.duplicateIds)).isSome := by
    rw [List.find?_isSome]
    exact ⟨a, mem_selection.mpr ⟨ha, hincluded⟩, by simpa using hfails⟩
  obtain ⟨x, hx⟩ := Option.isSome_iff_exists.mp hfound
  have hxfails := List.find?_some hx
  obtain ⟨cause, hcause⟩ : x.Fails c.duplicateIds := by simpa using hxfails
  exact ⟨⟨x.handle, cause⟩, ofBreakdown_eq_error_iff_find?.mpr ⟨x, hx, rfl, hcause⟩⟩

/-- **What a report fails with** is the fault of the document. -/
theorem ofBreakdown_eq_error_iff {b : Breakdown} {c : Config} {f : AllocationFault} :
    ofBreakdown b c = .error f ↔ IsFaultOf c b.allocations f := by
  refine ⟨isFaultOf_of_ofBreakdown, fun h => ?_⟩
  obtain ⟨a, ha, -, hincluded, hfails⟩ := h.exists_fails
  -- the report fails with something, and a document has one fault only
  obtain ⟨g, hg⟩ := exists_error_of_fails ha hincluded hfails
  rw [hg, (isFaultOf_of_ofBreakdown hg).unique h]

/-- **A report fails** exactly if some included allocation cannot be analysed. -/
theorem exists_error_iff {b : Breakdown} {c : Config} :
    (∃ f, ofBreakdown b c = .error f) ↔
      ∃ a ∈ b.allocations, c.includes a.handle = true ∧ a.Fails c.duplicateIds := by
  constructor
  · rintro ⟨f, hf⟩
    obtain ⟨a, ha, -, hincluded, hfails⟩ := (isFaultOf_of_ofBreakdown hf).exists_fails
    exact ⟨a, ha, hincluded, hfails⟩
  · rintro ⟨a, ha, hincluded, hfails⟩
    exact exists_error_of_fails ha hincluded hfails

/-! ## What the fault depends on -/

/-- **The fault depends on the policy and on the included allocations of each handle alone.** -/
theorem ofBreakdown_error_congr {b b' : Breakdown} {c c' : Config}
    (hpolicy : c'.duplicateIds = c.duplicateIds)
    (hsame : ∀ id, (included c' b'.allocations).filter (·.handle = id) =
      (included c b.allocations).filter (·.handle = id)) {f : AllocationFault} :
    ofBreakdown b' c' = .error f ↔ ofBreakdown b c = .error f := by
  rw [ofBreakdown_eq_error_iff_find?, ofBreakdown_eq_error_iff_find?, selection_congr hsame,
    hpolicy]

/-- **Which error a report returns.** A report fails if and only if some included allocation cannot
be analysed, and then it names the lowest handle of these and gives the cause of the first one in
the document that has this handle. Neither the allocations that are not included nor what is shown
play any part in it, and the order of the document does so only by the order of the included
allocations that share a handle: whether a report fails, and the handle that it names, depend on no
order. -/
theorem fault_of_report (b : Breakdown) (c : Config) :
    ((∃ f, ofBreakdown b c = .error f) ↔
      ∃ a ∈ b.allocations, c.includes a.handle = true ∧
        ∃ f, analyze a b.allocationFlags c.duplicateIds = .error f) ∧
    (∀ f, ofBreakdown b c = .error f ↔ IsFaultOf c b.allocations f) ∧
    (∀ b' c', c'.duplicateIds = c.duplicateIds →
      (∀ id, (included c' b'.allocations).filter (·.handle = id) =
        (included c b.allocations).filter (·.handle = id)) →
      ∀ f, ofBreakdown b' c' = .error f ↔ ofBreakdown b c = .error f) ∧
    ∀ b', b'.allocations.Perm b.allocations →
      ((∃ f, ofBreakdown b' c = .error f) ↔ ∃ f, ofBreakdown b c = .error f) ∧
      ∀ f f', ofBreakdown b c = .error f → ofBreakdown b' c = .error f' →
        f'.handle = f.handle := by
  refine ⟨?_, fun f => ofBreakdown_eq_error_iff,
    fun b' c' hpolicy hsame f => ofBreakdown_error_congr hpolicy hsame,
    fun b' hperm => ⟨?_, fun f f' hf hf' => ?_⟩⟩
  · simp only [exists_error_iff, exists_analyze_error_iff]
  · simp only [exists_error_iff, hperm.mem_iff]
  · have hfault := isFaultOf_of_ofBreakdown hf
    have hfault' := isFaultOf_of_ofBreakdown hf'
    exact UInt64.le_antisymm (hfault'.handle_le hperm.symm.subset hfault)
      (hfault.handle_le hperm.subset hfault')

/-- A document with faults of several allocations, one of which is not included, and another with
the same included allocations in another order. -/
theorem fault_of_report_several_faults :
    let sound : Allocation := ⟨15, "a", 0, 0, 16, 0, none, []⟩
    let overflow : Allocation :=
      ⟨15, "b", 0, 0, 16, 0, none, [⟨6, "", 0xFFFFFFFFFFFFFFFF, 1, .image⟩]⟩
    let repeated : Allocation :=
      ⟨30, "c", 0, 0, 16, 0, none, [⟨1, "", 0, 4, .buffer⟩, ⟨1, "", 8, 4, .buffer⟩]⟩
    let b : Breakdown := ⟨none, [], [repeated, sound, { overflow with handle := 3 }, overflow]⟩
    let b' : Breakdown := ⟨some "vulkan", [], [sound, overflow, repeated]⟩
    let c : Config := ⟨.reject, true, false, [15, 30]⟩
    let c' : Config := ⟨.reject, false, true, []⟩
    let f : AllocationFault := ⟨15, .overflow ⟨6, 0xFFFFFFFFFFFFFFFF, 1⟩⟩
    (∀ id, (included c' b'.allocations).filter (·.handle = id) =
        (included c b.allocations).filter (·.handle = id)) ∧
      ofBreakdown b c = .error f ∧ IsFaultOf c b.allocations f ∧ ofBreakdown b' c' = .error f := by
  intro sound overflow repeated b b' c c' f
  have hb : included c b.allocations = [repeated, sound, overflow] := by cbv
  have hb' : included c' b'.allocations = [sound, overflow, repeated] := by cbv
  have hsame : ∀ id, (included c' b'.allocations).filter (·.handle = id) =
      (included c b.allocations).filter (·.handle = id) := by
    intro id
    rw [hb, hb']
    -- 15 is the only handle that two of the allocations share
    by_cases h15 : id = 15
    · subst h15
      cbv
    · have h15' : (15 : UInt64) ≠ id := Ne.symm h15
      simp [List.filter_cons, sound, overflow, h15']
  have hf : ofBreakdown b c = .error f := by cbv
  obtain ⟨-, hfault, hcongr, -⟩ := fault_of_report b c
  exact ⟨hsame, hf, (hfault f).mp hf, (hcongr b' c' rfl hsame f).mpr hf⟩

/-- **The order matters** for allocations that share a handle and fail in different ways: the cause
is that of the first. -/
theorem fault_not_perm_of_shared_handle :
    ¬ ∀ (api : Option String) (constants : List FlagConstant) (as as' : List Allocation)
      (c : Config) (f : AllocationFault), as.Perm as' →
      ofBreakdown ⟨api, constants, as⟩ c = .error f →
      ofBreakdown ⟨api, constants, as'⟩ c = .error f := by
  intro h
  have hfirst : ofBreakdown ⟨none, [],
      [⟨5, "", 0, 0, 16, 0, none, [⟨1, "", 0, 4, .buffer⟩, ⟨1, "", 8, 4, .buffer⟩]⟩,
        ⟨5, "", 0, 0, 16, 0, none, [⟨2, "", 0, 4, .buffer⟩, ⟨2, "", 8, 4, .buffer⟩]⟩]⟩ .default =
      .error ⟨5, .repeated 1⟩ := by cbv
  have hsecond : ofBreakdown ⟨none, [],
      [⟨5, "", 0, 0, 16, 0, none, [⟨2, "", 0, 4, .buffer⟩, ⟨2, "", 8, 4, .buffer⟩]⟩,
        ⟨5, "", 0, 0, 16, 0, none, [⟨1, "", 0, 4, .buffer⟩, ⟨1, "", 8, 4, .buffer⟩]⟩]⟩ .default =
      .error ⟨5, .repeated 2⟩ := by cbv
  have hsame := h _ _ _ _ _ _ (List.Perm.swap _ _ []) hfirst
  rw [hsecond] at hsame
  cases hsame

end Report

end AliasReport
