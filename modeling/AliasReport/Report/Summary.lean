import AliasReport.Json.Encode
import AliasReport.Report.Analysis

/-! # Summaries of aliasing

* **`AliasSummary`** — the aliased regions of each allocation of a report, and how many there are
  in all.
* **`AliasSummary.members`**, **`Report.members`** — the members of a summary and of a report as
  JSON.
-/

namespace AliasReport

open AliasReport.Document

/-- The aliased regions of one allocation. -/
structure AllocationAliases where
  handle : UInt64
  name : String
  aliases : List Region
deriving DecidableEq, Repr

/-- The aliased regions of several allocations. -/
structure AliasSummary where
  totalAliases : Nat
  allocations : List AllocationAliases
deriving DecidableEq, Repr

/-- What a summary keeps of an allocation. -/
def AllocationReport.summary (a : AllocationReport) : AllocationAliases :=
  ⟨a.handle, a.name, a.aliases⟩

/-- The summary of a report. -/
def Report.summary (r : Report) : AliasSummary :=
  ⟨r.totalAliases, r.allocations.map AllocationReport.summary⟩

/-- The aliased regions of one allocation as JSON. -/
def AllocationAliases.toJson (a : AllocationAliases) : Json :=
  .object
    [("handle", .number a.handle.toNat), ("name", .text a.name), ("aliases", Json.encode a.aliases)]

/-- The members of a summary as JSON. -/
def AliasSummary.members (s : AliasSummary) : List (String × Json) :=
  [("total_aliases", .number s.totalAliases),
    ("allocations", .array (s.allocations.map AllocationAliases.toJson))]

/-- A summary as JSON. -/
def AliasSummary.toJson (s : AliasSummary) : Json :=
  .object s.members

/-- The members of a report as JSON. -/
def Report.members (r : Report) : List (String × Json) :=
  Report.layout.toJson (Described.toVal r)

end AliasReport
