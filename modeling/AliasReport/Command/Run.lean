import AliasReport.Command.Arguments
import AliasReport.Report.Summary
import AliasReport.Report.Text
import AliasReport.Snapshot.Load

/-! # Running commands

* **`envelope`** — JSON output: where it comes from, the digest of the snapshot, the time, and the
  members of what is reported.
* **`Command.run`** — what a command prints.
* **`Outcome`**, **`execute`** — what the program prints and its exit code, given its arguments.
-/

namespace AliasReport

open AliasReport.Files

/-- The version of the program and of its library. -/
def versionNumber : String := "0.1.0"

/-- The filter of log lines when nothing else is asked for. -/
def defaultDirective (verbose : Bool) : String :=
  if verbose then "debug" else "warn"

variable {m : Type → Type} [Monad m] [FileStore m]

/-- JSON output about the snapshot at a path, at a time. -/
def envelope (source now : String) (payload : List (String × Json)) : ExceptT Failure m Json := do
  let digest ← fileDigest source
  return .object <|
    ("source", .text source) :: ("source_sha256", .text digest) :: ("generated_at", .text now)
      :: payload

/-- JSON output as it is printed. -/
def printed (j : Json) : String :=
  j.pretty ++ "\n"

/-- What the command `report` prints. -/
def runReport (now : String) (o : Options) : ExceptT Failure m String := do
  let loaded ← loadReport o.input (← resolveConfig o.config o.overrides)
  if o.json then return printed (← envelope loaded.source now loaded.report.members)
  else return loaded.report.text loaded.config.rendering

/-- What the command `aliases` prints. -/
def runAliases (now : String) (o : Options) : ExceptT Failure m String := do
  let loaded ← loadReport o.input (← resolveConfig o.config o.overrides)
  if o.json then return printed (← envelope loaded.source now loaded.report.summary.members)
  else if loaded.report.allocations.isEmpty then return "Allocations: (none)\n"
  else return loaded.report.aliasText loaded.config.hexOffsets

/-- What the command `version` prints. -/
def versionText : String :=
  "memalias v" ++ versionNumber ++ "\nmemalias-core v" ++ versionNumber ++ "\n"

/-- What a command prints. -/
def Command.run (now : String) : Command → ExceptT Failure m String
  | .report o => runReport now o
  | .aliases o => runAliases now o
  | .version => return versionText

/-! ## The program -/

/-- What the program prints, on either stream, and its exit code. -/
structure Outcome where
  code : UInt32
  output : String
  /-- What goes to the error stream. -/
  report : String
deriving DecidableEq, Repr

/-- How the program is used. -/
def usage : String :=
  "Usage: memalias [--verbose] <COMMAND>\n\n"
    ++ "Commands:\n"
    ++ "  report   Print every allocation in a snapshot with its bindings and aliased regions\n"
    ++ "  aliases  Print only the aliased regions of each allocation in a snapshot\n"
    ++ "  version  Print the CLI and core library versions\n\n"
    ++ "Options of report and aliases:\n"
    ++ "  -i, --input <INPUT>    Path to the memory breakdown snapshot\n"
    ++ "  --config <CONFIG>      Analysis config (JSON); the options below override it\n"
    ++ "  --allocation <HANDLE>  Only report this allocation (repeatable)\n"
    ++ "  --json                 Emit JSON instead of text\n"
    ++ "  --no-bindings          Omit the binding listing (report only)\n"
    ++ "  --hex                  Render offsets and sizes in hexadecimal\n"
    ++ "  --merge-duplicates     Treat bindings sharing an id as one binding\n"

/-- What the program does, given its arguments and the time. -/
def execute (now : String) (arguments : List String) : m Outcome := do
  match Request.ofArguments? arguments with
  | none => return ⟨2, "", "error: invalid arguments\n\n" ++ usage⟩
  | some .help => return ⟨0, usage, ""⟩
  | some .programVersion => return ⟨0, "memalias " ++ versionNumber ++ "\n", ""⟩
  | some (.run command) =>
    match ← (command.run now).run with
    | .ok output => return ⟨0, output, ""⟩
    | .error failure => return ⟨1, "", failure.report ++ "\n"⟩

end AliasReport
