import AliasReport.Digest.Sha256
import AliasReport.Snapshot.Failure

/-! # Loading snapshots and configurations

* **`loadBreakdown`** — the breakdown in a file, in the format that the path asks for.
* **`resolveConfig`** — the configuration in a file, or the one where nothing is chosen, with
  overrides put in.
* **`loadReport`** — the report of the breakdown in a file, with the path of the file.
* **`fileDigest`** — the digest of the contents of a file.
-/

namespace AliasReport

open AliasReport.Files

variable {m : Type → Type} [Monad m] [FileStore m]

/-- The breakdown in a file. -/
def loadBreakdown (path : String) : ExceptT Failure m Breakdown := do
  match Format.ofPath? path with
  | none => throw ⟨[], .unsupportedFormat path⟩
  | some format =>
    let text ← ExceptT.mk do
      return (Task.readSnapshot path).perform .access (← readText path)
    ExceptT.mk <| pure <|
      ((Task.parseSnapshot format).perform .parse (format.parse text)).mapError
        (·.during (.acceptSnapshot path))

/-- The configuration in a file. -/
def loadConfig (path : String) : ExceptT Failure m Config := do
  let text ← ExceptT.mk do
    return (Task.readConfig path).perform .access (← readText path)
  ExceptT.mk <| pure <|
    (Task.parseConfig path).perform (fun fault => .parse (.json fault)) (Json.decode Config text)

/-- The configuration in a file, if there is one, with overrides put in. -/
def resolveConfig (path : Option String) (overrides : Overrides) : ExceptT Failure m Config := do
  match path with
  | none => return overrides.apply .default
  | some path => return overrides.apply (← loadConfig path)

/-- A report with the path of its snapshot and the configuration that it was made under. -/
structure LoadedReport where
  source : String
  config : Config
  report : Report
deriving DecidableEq, Repr

/-- The report of the breakdown in a file. -/
def loadReport (input : String) (config : Config) : ExceptT Failure m LoadedReport := do
  let source ← ExceptT.lift (absolutePath input)
  let breakdown ← loadBreakdown source
  let report ← ExceptT.mk <| pure <|
    (Task.analyzeSnapshot source).perform .analysis (Report.ofBreakdown breakdown config)
  return ⟨source, config, report⟩

/-- The digest of the contents of a file, as text. -/
def fileDigest (path : String) : ExceptT Failure m String := do
  match ← ExceptT.lift (FileStore.read path) with
  | .ok bytes => return Digest.hexDigest (Digest.sha256 bytes.toList)
  | .error fault =>
    let task := if fault.opened then Task.readForDigest path else Task.openForDigest path
    throw ⟨[task], .access fault.cause⟩

end AliasReport
