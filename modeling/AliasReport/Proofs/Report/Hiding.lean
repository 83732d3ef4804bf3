import AliasReport.Proofs.Report.Entries
import AliasReport.Report.Summary
import AliasReport.Report.Text
import Mathlib

/-! # What is not shown does not matter

A report that hides its bindings still counts them and still has their regions, and both come from
the ranges of the bindings alone. The regions by themselves, as a summary or as text, come from even
less of a document.

* **`Breakdown.Relabels`** — the same document with other names and kinds of bindings.
* **`Breakdown.SameOccupancy`** — documents that agree on the handles and names of allocations and
  on the ranges of their bindings.
* **`ofBreakdown_relabels`** — reports without bindings do not tell relabelled documents apart.
* **`summary_of_sameOccupancy`**, **`aliasLines_eq`** — summaries tell only occupancy apart, and the
  lines of the regions are those of the summary.
* **`noninterference_of_unshown`** — both for everything that is printed. -/

namespace AliasReport

/-! ## Documents that look alike -/

/-- Whether two allocations differ in nothing but the names and the kinds of their bindings. -/
structure Allocation.Relabels (a a' : Allocation) : Prop where
  ranges : a'.ranges = a.ranges
  /-- Nothing but the bindings differs. -/
  rest : a' = { a with bindings := a'.bindings }

/-- Whether two breakdowns differ in nothing but the names and the kinds of bindings. -/
structure Breakdown.Relabels (b b' : Breakdown) : Prop where
  api : b'.api = b.api
  allocationFlags : b'.allocationFlags = b.allocationFlags
  allocations : List.Forall₂ Allocation.Relabels b.allocations b'.allocations

/-- Whether two allocations agree on their handle, their name and the ranges of their bindings. -/
structure Allocation.SameOccupancy (a a' : Allocation) : Prop where
  handle : a'.handle = a.handle
  name : a'.name = a.name
  ranges : a'.ranges = a.ranges

/-- Whether the allocations of two breakdowns agree on handles, names and ranges. -/
def Breakdown.SameOccupancy (b b' : Breakdown) : Prop :=
  List.Forall₂ Allocation.SameOccupancy b.allocations b'.allocations

variable {a a' : Allocation}

/-- Relabelling keeps the handle. -/
theorem Allocation.Relabels.handle_eq (h : a.Relabels a') : a'.handle = a.handle := by
  rw [h.rest]

/-- Relabelling keeps the number of bindings. -/
theorem Allocation.Relabels.length_eq (h : a.Relabels a') :
    a'.bindings.length = a.bindings.length := by
  have hlength := congrArg List.length h.ranges
  rwa [Allocation.ranges, Allocation.ranges, List.length_map, List.length_map] at hlength

/-! ## Reports without bindings -/

/-- **An entry without bindings** is the same for relabelled allocations. -/
theorem Config.entry_relabels (h : a.Relabels a') {c : Config} (hhidden : c.showBindings = false)
    (constants : List FlagConstant) : c.entry constants a' = c.entry constants a := by
  have hreport : ∀ aliases, (a'.reportWith constants aliases).hideBindings =
      (a.reportWith constants aliases).hideBindings := by
    intro aliases
    simp only [Allocation.reportWith, AllocationReport.hideBindings, h.length_eq]
    rw [h.rest]
    rfl
  unfold Config.entry analyze
  rw [h.ranges, h.handle_eq, hhidden]
  cases aliasedRegions c.duplicateIds a.ranges with
  | error cause => rfl
  | ok aliases => exact congrArg Except.ok (hreport aliases)

namespace Report

/-- **Reports without bindings** do not tell relabelled documents apart. -/
theorem ofBreakdown_relabels {b b' : Breakdown} (h : b.Relabels b') {c : Config}
    (hhidden : c.showBindings = false) : ofBreakdown b' c = ofBreakdown b c := by
  refine ofBreakdown_eq_of_entries h.api (selection_map_congr c ?_)
  refine map_eq_map_of_forall₂ h.allocations fun a a' ha => ?_
  rw [ha.handle_eq, h.allocationFlags, Config.entry_relabels ha hhidden]

end Report

/-! ## Regions alone -/

/-- What a summary keeps of an entry comes from the occupancy of the allocation. -/
theorem Config.entry_summary_congr (h : a.SameOccupancy a') {c c' : Config}
    (hpolicy : c'.duplicateIds = c.duplicateIds) (constants constants' : List FlagConstant) :
    (c'.entry constants' a').map AllocationReport.summary =
      (c.entry constants a).map AllocationReport.summary := by
  -- A summary has no bindings, so it does not matter whether they are hidden.
  have hsummary : ∀ (d : Config) (e : AllocationReport),
      (if d.showBindings then e else e.hideBindings).summary = e.summary := by
    intro d e
    cases d.showBindings <;> rfl
  unfold Config.entry analyze
  rw [h.ranges, h.handle, hpolicy]
  cases aliasedRegions c.duplicateIds a.ranges with
  | error cause => rfl
  | ok aliases =>
    simp only [Except.map, hsummary]
    simp only [AllocationReport.summary, Allocation.reportWith, h.handle, h.name]

/-- The regions of an allocation under its handle and its name. -/
def AllocationAliases.lines (hex : Bool) (a : AllocationAliases) : List Line :=
  ⟨0, "Allocation " ++ toString a.handle ++ " (" ++ a.name ++ ")"⟩ :: aliasLines hex a.aliases

/-- The summary of the allocations that have the given regions. -/
def AliasSummary.ofAllocations (es : List AllocationAliases) : AliasSummary :=
  ⟨(es.flatMap (·.aliases)).length, es⟩

namespace Report

/-- A summary is what it keeps of each allocation. -/
theorem summary_eq (r : Report) :
    r.summary = .ofAllocations (r.allocations.map AllocationReport.summary) := by
  rw [summary, AliasSummary.ofAllocations, totalAliases, List.flatMap_map]
  rfl

/-- **The summary of a report is the summaries of the selection**, one after the other. -/
theorem ofBreakdown_map_summary (b : Breakdown) (c : Config) :
    (ofBreakdown b c).map summary =
      ((selection c b.allocations).mapM fun a =>
        (c.entry b.allocationFlags a).map AllocationReport.summary).map .ofAllocations := by
  rw [ofBreakdown_eq, ← map_mapM]
  cases (selection c b.allocations).mapM (c.entry b.allocationFlags) with
  | error f => rfl
  | ok es => exact congrArg Except.ok (summary_eq _)

/-- **Summaries tell only occupancy apart**, and so do the faults in their place. What the
configuration shows does not matter either. -/
theorem summary_of_sameOccupancy {b b' : Breakdown} (h : b.SameOccupancy b') {c c' : Config}
    (hpolicy : c'.duplicateIds = c.duplicateIds) (hhandles : c'.allocations = c.allocations) :
    (ofBreakdown b' c').map summary = (ofBreakdown b c).map summary := by
  have hselection : selection c' b'.allocations = selection c b'.allocations := by
    unfold selection Config.includes
    rw [hhandles]
  have hmap : (selection c b'.allocations).map (fun a =>
      (c'.entry b'.allocationFlags a).map AllocationReport.summary) =
      (selection c b.allocations).map fun a =>
        (c.entry b.allocationFlags a).map AllocationReport.summary := by
    refine selection_map_congr c (map_eq_map_of_forall₂ h fun a a' ha => ?_)
    rw [ha.handle, Config.entry_summary_congr ha hpolicy]
  rw [ofBreakdown_map_summary, ofBreakdown_map_summary, hselection, ← mapM_id_map, hmap,
    mapM_id_map]

/-- **The lines of the regions are those of the summary.** -/
theorem aliasLines_eq (hex : Bool) (r : Report) :
    r.aliasLines hex = r.summary.allocations.flatMap (AllocationAliases.lines hex) := by
  rw [aliasLines, summary, List.flatMap_map]
  rfl

/-- The text of the regions is one of the summary. -/
theorem aliasText_eq (hex : Bool) (r : Report) :
    r.aliasText hex =
      Line.join (r.summary.allocations.flatMap (AllocationAliases.lines hex)) := by
  rw [aliasText, aliasLines_eq]

/-! ## Everything that is printed -/

/-- **What is not shown does not matter.** Where bindings are hidden, documents that differ only in
the names and kinds of bindings have the same report or the same fault, and the report is printed
alike in every form. Documents that agree on the handles and names of allocations and on the ranges
of bindings have, whatever is shown, the same regions or the same fault, and the regions are printed
alike as a summary and as text. -/
theorem noninterference_of_unshown (c : Config) :
    (∀ b b' : Breakdown, b.Relabels b' →
      ofBreakdown b' { c with showBindings := false } =
        ofBreakdown b { c with showBindings := false } ∧
      ∀ r r', ofBreakdown b { c with showBindings := false } = .ok r →
        ofBreakdown b' { c with showBindings := false } = .ok r' →
        (Json.encode r').compact = (Json.encode r).compact ∧
        (Json.encode r').pretty = (Json.encode r).pretty ∧
        ∀ how, r'.text how = r.text how) ∧
    ∀ (b b' : Breakdown) (shown hex : Bool), b.SameOccupancy b' →
      let c' : Config := { c with showBindings := shown, hexOffsets := hex }
      (∀ f, ofBreakdown b' c' = .error f ↔ ofBreakdown b c = .error f) ∧
      ∀ r r', ofBreakdown b c = .ok r → ofBreakdown b' c' = .ok r' →
        r'.summary = r.summary ∧
        r'.summary.toJson.compact = r.summary.toJson.compact ∧
        r'.summary.toJson.pretty = r.summary.toJson.pretty ∧
        ∀ hex, r'.aliasText hex = r.aliasText hex := by
  constructor
  · intro b b' h
    -- Equal reports are printed alike.
    have hsame := ofBreakdown_relabels h (c := { c with showBindings := false }) rfl
    refine ⟨hsame, fun r r' hr hr' => ?_⟩
    obtain rfl : r' = r := Except.ok.inj (hr'.symm.trans (hsame.trans hr))
    exact ⟨rfl, rfl, fun _ => rfl⟩
  · intro b b' shown hex h c'
    have hmap : (ofBreakdown b' c').map summary = (ofBreakdown b c).map summary :=
      summary_of_sameOccupancy h rfl rfl
    refine ⟨fun f => ?_, fun r r' hr hr' => ?_⟩
    · rw [← map_eq_error_iff (g := summary), hmap, map_eq_error_iff]
    · rw [hr, hr'] at hmap
      have hsummary : r'.summary = r.summary := Except.ok.inj hmap
      refine ⟨hsummary, by rw [hsummary], by rw [hsummary], fun hex => ?_⟩
      rw [aliasText_eq, aliasText_eq, hsummary]

/-- A document with its bindings relabelled, and one that has nothing but the occupancy in
common with it. -/
theorem noninterference_of_unshown_relabelled :
    let b : Breakdown := ⟨some "vulkan", [⟨"DEVICE_LOCAL", 1⟩], [⟨7, "heap", 1, 2, 64, 1, none,
      [⟨5, "vertices", 0, 8, .buffer⟩, ⟨6, "shadow", 4, 8, .image⟩]⟩]⟩
    let relabelled : Breakdown := ⟨some "vulkan", [⟨"DEVICE_LOCAL", 1⟩],
      [⟨7, "heap", 1, 2, 64, 1, none,
        [⟨5, "", 0, 8, .sparseBufferBlock 3⟩, ⟨6, "", 4, 8, .buffer⟩]⟩]⟩
    let other : Breakdown := ⟨none, [], [⟨7, "heap", 0, 9, 1, 0, some ⟨4096, 0, 16⟩,
      [⟨5, "x", 0, 8, .image⟩, ⟨6, "y", 4, 8, .sparseOpaqueImageBlock 0⟩]⟩]⟩
    let c : Config := { Config.default with showBindings := false }
    let r : Report :=
      ⟨some "vulkan", [⟨7, "heap", 1, 2, 64, ["DEVICE_LOCAL"], none, 2, [], [⟨4, 4, [5, 6]⟩]⟩]⟩
    let r' : Report :=
      ⟨none, [⟨7, "heap", 0, 9, 1, [], some ⟨4096, 0, 16⟩, 2, [], [⟨4, 4, [5, 6]⟩]⟩]⟩
    b.Relabels relabelled ∧ ofBreakdown b c = .ok r ∧ ofBreakdown relabelled c = .ok r ∧
      b.SameOccupancy other ∧ ofBreakdown other c = .ok r' ∧ r'.summary = r.summary ∧
      r'.aliasText true = r.aliasText true := by
  intro b relabelled other c r r'
  have hrelabels : b.Relabels relabelled := ⟨rfl, rfl, .cons ⟨rfl, rfl⟩ .nil⟩
  have hoccupancy : b.SameOccupancy other := .cons ⟨rfl, rfl, rfl⟩ .nil
  have hr : ofBreakdown b c = .ok r := by cbv
  have hr' : ofBreakdown other c = .ok r' := by cbv
  obtain ⟨hhidden, hregions⟩ := noninterference_of_unshown c
  obtain ⟨hsummary, -, -, htext⟩ := (hregions b other false false hoccupancy).2 r r' hr hr'
  exact ⟨hrelabels, hr, (hhidden b relabelled hrelabels).1.trans hr, hoccupancy, hr', hsummary,
    htext true⟩

end Report

end AliasReport
