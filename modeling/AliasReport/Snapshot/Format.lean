import AliasReport.Breakdown.Allocation
import AliasReport.Files.Path
import AliasReport.Json.Decode
import AliasReport.Yaml.Decode

/-! # Formats of snapshots

A snapshot is a memory breakdown that is kept as text.

* **`Format`**, **`Format.ofPath?`** — the formats, and how paths tell them apart.
* **`ParseFault`** — why a text is no document of a format.
* **`Format.parse`** — the breakdown that a text stands for.
-/

namespace AliasReport

/-- A format of snapshots. -/
inductive Format
  | json
  | yaml
deriving DecidableEq, Repr

/-- Why a text is no document. -/
inductive ParseFault
  | json (fault : Json.Fault)
  | yaml (fault : Yaml.Fault)
deriving DecidableEq, Repr

/-- The text of a fault. Malformed YAML is not described any further. -/
def ParseFault.message : ParseFault → String
  | .json fault => fault.message
  | .yaml .malformed => "<yaml>"
  | .yaml (.mismatch place cause) => Yaml.mismatchMessage place cause

namespace Format

/-- The name of a format. -/
def name : Format → String
  | .json => "JSON"
  | .yaml => "YAML"

/-- The format with a file extension. -/
def ofExtension? (extension : List Char) : Option Format :=
  if extension = "json".toList then some .json
  else if extension = "yaml".toList ∨ extension = "yml".toList then some .yaml
  else none

/-- The format of the file at a path. -/
def ofPath? (path : String) : Option Format :=
  (Files.extension? path.toList).bind ofExtension?

/-- The breakdown that a text stands for. -/
def parse (format : Format) (text : String) : Except ParseFault Breakdown :=
  match format with
  | .json => (Json.decode Breakdown text).mapError .json
  | .yaml => (Yaml.decode Breakdown text).mapError .yaml

end Format

end AliasReport
