import AliasReport.Json.Encode
import AliasReport.Proofs.Aliasing.Order
import AliasReport.Proofs.Breakdown.ResourceOrder
import AliasReport.Proofs.Report.Entries
import AliasReport.Report.Text

/-! # The order of a document

A document lists allocations, and each of them lists its bindings. Where handles are distinct on
both levels neither order matters: the bindings of an allocation have the same regions or the same
fault and are sorted alike, and the allocations are sorted alike.

* **`Allocation.Reorders`**, **`Breakdown.Reorders`** — the same document in another order.
* **`analyze_congr`** — the order of the bindings does not matter.
* **`report_of_reordered`** — nor does that of the allocations. -/

namespace AliasReport

/-- Whether an allocation is another one with its bindings in another order. -/
structure Allocation.Reorders (a a' : Allocation) : Prop where
  bindings : a.bindings.Perm a'.bindings
  /-- Nothing else differs. -/
  rest : a' = { a with bindings := a'.bindings }

/-- Whether a breakdown is another one with its allocations, and the bindings of each, in another
order. -/
structure Breakdown.Reorders (b b' : Breakdown) : Prop where
  api : b'.api = b.api
  allocationFlags : b'.allocationFlags = b.allocationFlags
  allocations : ∃ as, b.allocations.Perm as ∧ List.Forall₂ Allocation.Reorders as b'.allocations

/-- Reordering the bindings keeps the handle. -/
theorem Allocation.Reorders.handle_eq {a a' : Allocation} (h : a.Reorders a') :
    a'.handle = a.handle := by
  rw [h.rest]

/-- **The order of the bindings does not matter** for the report of an allocation, nor for its
fault, where their handles are distinct. -/
theorem analyze_congr {a a' : Allocation} (h : a.Reorders a')
    (hdistinct : (a.bindings.map (·.handle)).Nodup) (constants : List FlagConstant)
    (policy : DuplicatePolicy) : analyze a' constants policy = analyze a constants policy := by
  have hids : (a.ranges.map (·.id)).Nodup := by
    rw [Allocation.ranges, List.map_map]
    exact hdistinct
  have hregions : aliasedRegions policy a.ranges = aliasedRegions policy a'.ranges :=
    aliasedRegions_eq_of_perm (h.bindings.map _) hids
  have hreport : ∀ aliases, a'.reportWith constants aliases = a.reportWith constants aliases := by
    intro aliases
    rw [h.rest]
    simp only [Allocation.reportWith, Allocation.activeMapping, h.bindings.length_eq,
      sortResources_congr h.bindings hdistinct]
  unfold analyze
  rw [← hregions, h.handle_eq]
  cases aliasedRegions policy a.ranges with
  | error cause => rfl
  | ok aliases => exact congrArg Except.ok (hreport aliases)

namespace Report

/-- A report depends on what is analysed of each selected allocation. -/
theorem ofBreakdown_congr {b b' : Breakdown} (c : Config) (hapi : b'.api = b.api)
    (h : (selection c b'.allocations).map (fun a => analyze a b'.allocationFlags c.duplicateIds) =
      (selection c b.allocations).map fun a => analyze a b.allocationFlags c.duplicateIds) :
    ofBreakdown b' c = ofBreakdown b c := by
  refine ofBreakdown_eq_of_entries hapi ?_
  have hentries := congrArg
    (List.map (Except.map fun e => if c.showBindings then e else e.hideBindings)) h
  rwa [List.map_map, List.map_map] at hentries

/-- **A report does not depend on the order of the document.** Where handles of allocations are
distinct, and handles of bindings are within each allocation, a report of the document in any other
order is the same, or fails in the same way, and is printed alike in every form. -/
theorem report_of_reordered {b b' : Breakdown} (h : b.Reorders b')
    (hallocations : (b.allocations.map (·.handle)).Nodup)
    (hbindings : ∀ a ∈ b.allocations, (a.bindings.map (·.handle)).Nodup) (c : Config) :
    ofBreakdown b' c = ofBreakdown b c ∧
      ∀ r r', ofBreakdown b c = .ok r → ofBreakdown b' c = .ok r' →
        (Json.encode r').compact = (Json.encode r).compact ∧
        (∀ how, r'.text how = r.text how) ∧ ∀ hex, r'.aliasText hex = r.aliasText hex := by
  obtain ⟨as, hperm, hreorders⟩ := h.allocations
  have hdistinct : ∀ a ∈ as, (a.bindings.map (·.handle)).Nodup :=
    fun a ha => hbindings a (hperm.mem_iff.mpr ha)
  -- first the bindings of each allocation, place by place
  have hmap : as.map (fun a => (a.handle, analyze a b.allocationFlags c.duplicateIds)) =
      b'.allocations.map fun a => (a.handle, analyze a b'.allocationFlags c.duplicateIds) := by
    rw [← List.forall₂_eq_eq_eq, List.forall₂_map_left_iff, List.forall₂_map_right_iff,
      h.allocationFlags]
    refine ((List.forall₂_and_left _ _).mpr ⟨hdistinct, hreorders⟩).imp fun a a' ha => ?_
    rw [ha.2.handle_eq, analyze_congr ha.2 ha.1]
  -- then the allocations themselves
  have hsame : ofBreakdown b' c = ofBreakdown b c := by
    refine ofBreakdown_congr c h.api ?_
    rw [← selection_map_congr c hmap, selection_eq_of_perm c hperm hallocations]
  refine ⟨hsame, fun r r' hr hr' => ?_⟩
  obtain rfl : r' = r := Except.ok.inj (hr'.symm.trans (hsame.trans hr))
  exact ⟨rfl, fun _ => rfl, fun _ => rfl⟩

/-- A document with both orders turned round. -/
theorem report_of_reordered_both_levels :
    let x : Resource := ⟨4, "x", 5, 10, .buffer⟩
    let y : Resource := ⟨3, "y", 0, 10, .image⟩
    let a : Allocation := ⟨20, "a", 1, 2, 64, 1, none, [x, y]⟩
    let d : Allocation := ⟨10, "d", 1, 2, 64, 0, none, []⟩
    let b : Breakdown := ⟨none, [⟨"DEVICE_LOCAL", 1⟩], [a, d]⟩
    let b' : Breakdown := ⟨none, [⟨"DEVICE_LOCAL", 1⟩], [d, { a with bindings := [y, x] }]⟩
    let r : Report := ⟨none, [⟨10, "d", 1, 2, 64, [], none, 0, [], []⟩,
      ⟨20, "a", 1, 2, 64, ["DEVICE_LOCAL"], none, 2, [y, x], [⟨5, 5, [3, 4]⟩]⟩]⟩
    b.Reorders b' ∧ (b.allocations.map (·.handle)).Nodup ∧
      (∀ a ∈ b.allocations, (a.bindings.map (·.handle)).Nodup) ∧
      ofBreakdown b .default = .ok r ∧ ofBreakdown b' .default = .ok r := by
  intro x y a d b b' r
  have hreorders : b.Reorders b' := {
    api := rfl
    allocationFlags := rfl
    allocations := ⟨[d, a], List.Perm.swap _ _ _,
      .cons ⟨List.Perm.refl _, rfl⟩ (.cons ⟨List.Perm.swap _ _ _, rfl⟩ .nil)⟩ }
  have hallocations : (b.allocations.map (·.handle)).Nodup := by decide
  have hbindings : ∀ a ∈ b.allocations, (a.bindings.map (·.handle)).Nodup := by decide
  have hr : ofBreakdown b .default = .ok r := by cbv
  exact ⟨hreorders, hallocations, hbindings, hr,
    (report_of_reordered hreorders hallocations hbindings .default).1.trans hr⟩

end Report

end AliasReport
