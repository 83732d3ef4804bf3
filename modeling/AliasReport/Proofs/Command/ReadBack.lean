import Mathlib
import AliasReport.Proofs.Command.Running
import AliasReport.Proofs.Json.RoundTrip

/-! # The output of a report is read back

The JSON output of the command `report` has the members of the report next to those that tell where
it comes from. It is one JSON document, and decoded as a report it gives the report that was loaded.

* **`printed_document`** — printed JSON is a document.
* **`reportEntries`** — the members of the output.
* **`report_read_back`** — what the program prints is the output, which is a document and is decoded
  to the report. -/

namespace AliasReport

open AliasReport.Files AliasReport.Document

/-- JSON output is a document: the line feed at its end is blank. -/
theorem printed_document {depth : Nat} {j : Json} (h : j.Fits depth) :
    Json.Document depth (printed j) j.toBuffered := by
  have hvalue := Json.value_prettyChars h 0 (Json.apart_of_head (c := '\n') (by decide) [])
  refine ⟨['\n'], ?_, rfl⟩
  rwa [printed, Json.pretty, String.toList_append, String.toList_ofList]

/-- The members of the JSON output of a report: where it comes from, the digest of the snapshot, the
time, and the members of the report. -/
def reportEntries (source digest now : String) (r : Report) : List (String × Json) :=
  ("source", .text source) :: ("source_sha256", .text digest) :: ("generated_at", .text now)
    :: r.members

/-- The members of the output have different names. -/
theorem nodup_reportEntries (source digest now : String) (r : Report) :
    ((reportEntries source digest now r).map Prod.fst).Nodup := by
  obtain ⟨api, allocations⟩ := r
  cases api <;> exact of_decide_eq_true rfl

/-- The output does not open too many brackets. -/
theorem fits_reportEntries (source digest now : String) (r : Report) :
    (Json.object (reportEntries source digest now r)).Fits Json.depthLimit := by
  have hmembers : ∀ m ∈ reportEntries source digest now r, m.2.Fits Report.layout.height := by
    simp only [reportEntries, List.forall_mem_cons]
    exact ⟨.text, .text, .text, Report.layout.fits_toJson (Described.toVal r)⟩
  exact (Json.Fits.object hmembers).mono (by decide)

/-- The members of the output represent the report. -/
theorem represents_reportEntries (source digest now : String) (r : Report) :
    (Described.shape Report).Represents
      (Json.object (reportEntries source digest now r)).toBuffered (Described.toVal r) := by
  have hr : Report.layout.Represents (Json.membersToBuffered r.members) (Described.toVal r) :=
    Report.layout.represents_toJson (by decide) (by decide) (Described.toVal r)
  have hothers : ∀ e ∈ [("source", Buffered.text source), ("source_sha256", .text digest),
      ("generated_at", .text now)], e.1 ∉ Report.layout.names := by
    simp only [List.forall_mem_cons]
    exact ⟨by decide, by decide, by decide, nofun⟩
  exact ⟨_, rfl, hr.append_left hothers⟩

variable {σ : Type} [FileStore (ReaderM σ)] (s : σ)

/-- **The JSON output of a report is read back.** In any state of the files in which the command
succeeds, the program prints its output and nothing else. The output is one document, whose members
are those that tell where the report comes from and those of the report, each under a name of its
own, and it is decoded to the report that was loaded. -/
theorem report_read_back {now : String} {o : Options} (hjson : o.json = true) {out : String}
    (hout : outcomeIn s (runReport now o) = .ok out) :
    ∃ loaded digest, outcomeIn s o.load = .ok loaded ∧
      outcomeIn s (fileDigest loaded.source) = .ok digest ∧
      Json.Document Json.depthLimit out
        (Json.object (reportEntries loaded.source digest now loaded.report)).toBuffered ∧
      ((reportEntries loaded.source digest now loaded.report).map Prod.fst).Nodup ∧
      Json.decode Report out = .ok loaded.report ∧
      ∀ arguments, Request.ofArguments? arguments = some (.run (.report o)) →
        (execute now arguments : ReaderM σ Outcome).run s = ⟨0, out, ""⟩ := by
  obtain ⟨loaded, hload, ⟨-, digest, hdigest, hprinted⟩ | ⟨htext, -⟩⟩ :=
    (outcomeIn_runReport_eq_ok_iff s).mp hout
  · have hdocument := printed_document
      (fits_reportEntries loaded.source digest now loaded.report)
    have hprinted : out = printed
        (.object (reportEntries loaded.source digest now loaded.report)) := hprinted
    rw [← hprinted] at hdocument
    exact ⟨loaded, digest, hload, hdigest, hdocument, nodup_reportEntries _ _ _ _,
      Json.decode_of_document (by decide) hdocument (represents_reportEntries _ _ _ _),
      fun arguments hcommand => execute_of_success s hcommand hout⟩
  · cases htext.symm.trans hjson

/-- The output of a report on a snapshot that was written as JSON. -/
theorem report_read_back_of_shared :
    let b : Breakdown := ⟨some "vulkan", [], [⟨7, "\"heap\"", 1, 2, 64, 0, none,
      [⟨5, "vertices", 0, 8, .buffer⟩, ⟨6, "shadow", 4, 8, .image⟩]⟩]⟩
    let v : Volume := loneSnapshot (Json.encode b).compact
    let o : Options := ⟨"/s.json", none, .none, true⟩
    let r : Report := ⟨some "vulkan", [⟨7, "\"heap\"", 1, 2, 64, [], none, 2,
      [⟨5, "vertices", 0, 8, .buffer⟩, ⟨6, "shadow", 4, 8, .image⟩], [⟨4, 4, [5, 6]⟩]⟩]⟩
    let arguments := ["report", "-i", "/s.json", "--json"]
    Request.ofArguments? arguments = some (.run (.report o)) ∧
      ∃ out, outcomeIn v (runReport "now" o) = .ok out ∧ Json.decode Report out = .ok r ∧
        (execute "now" arguments : ReaderM Volume Outcome).run v = ⟨0, out, ""⟩ := by
  intro b v o r arguments
  have hcommand : Request.ofArguments? arguments = some (.run (.report o)) := by cbv
  have hr : Report.ofBreakdown b (Overrides.none.apply .default) = .ok r := by cbv
  -- The text does not matter, only what it is parsed as.
  have hmain : ∀ text, Format.json.parse text = .ok b →
      ∃ out, outcomeIn (loneSnapshot text) (runReport "now" o) = .ok out ∧
        Json.decode Report out = .ok r ∧
        (execute "now" arguments : ReaderM Volume Outcome).run (loneSnapshot text) =
          ⟨0, out, ""⟩ := by
    intro text hparse
    have hload : outcomeIn (loneSnapshot text) o.load =
        .ok ⟨"/s.json", Overrides.none.apply .default, r⟩ := by
      rw [outcomeIn_load]
      exact outcomeIn_loadReport_loneSnapshot hparse hr
    obtain ⟨digest, hdigest⟩ := outcomeIn_fileDigest_loneSnapshot text
    have hout : ∃ out, outcomeIn (loneSnapshot text) (runReport "now" o) = .ok out :=
      ⟨_, (outcomeIn_runReport_eq_ok_iff _).mpr ⟨_, hload, .inl ⟨rfl, digest, hdigest, rfl⟩⟩⟩
    obtain ⟨out, hout⟩ := hout
    obtain ⟨loaded, _, hloaded, -, -, -, hdecode, hprinted⟩ :=
      report_read_back (loneSnapshot text) rfl hout
    obtain rfl := Except.ok.inj (hload.symm.trans hloaded)
    exact ⟨out, hout, hdecode, hprinted _ hcommand⟩
  exact ⟨hcommand, hmain _ (Json.parse_encode b).1⟩

end AliasReport
