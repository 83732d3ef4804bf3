import AliasReport.Files.Store
import AliasReport.Report.Analysis
import AliasReport.Snapshot.Format

/-! # Failures

* **`Failure`** — a cause, and what was being done when it arose, the outermost task first.
* **`Failure.chain`** — the texts of the tasks and of the cause.
* **`Failure.message`**, **`Failure.report`** — the chain on one line, and over several lines.
-/

namespace AliasReport

/-- What is being done with a file. -/
inductive Task
  | readConfig (path : String)
  | parseConfig (path : String)
  | readSnapshot (path : String)
  | acceptSnapshot (path : String)
  | parseSnapshot (format : Format)
  | analyzeSnapshot (path : String)
  | openForDigest (path : String)
  | readForDigest (path : String)
deriving DecidableEq, Repr

/-- The text of a task that fails. -/
def Task.message : Task → String
  | .readConfig path => "Failed to read config at " ++ path
  | .parseConfig path => "Failed to parse config JSON at " ++ path
  | .readSnapshot path => "Failed to read snapshot at " ++ path
  | .acceptSnapshot path => "Invalid snapshot " ++ path
  | .parseSnapshot format => "Failed to parse memory breakdown " ++ format.name
  | .analyzeSnapshot path => "Failed to analyze snapshot " ++ path
  | .openForDigest path => "Failed to open snapshot for hashing: " ++ path
  | .readForDigest path => "Failed to read snapshot for hashing: " ++ path

/-- Why a task fails. -/
inductive Cause
  | unsupportedFormat (path : String)
  | access (fault : Files.AccessFault)
  | parse (fault : ParseFault)
  | analysis (fault : AllocationFault)
deriving DecidableEq, Repr

/-- The texts of a cause. That of an allocation has one of its own. -/
def Cause.messages : Cause → List String
  | .unsupportedFormat path =>
    ["Unsupported snapshot format for " ++ path ++ " (expected .json, .yaml or .yml)"]
  | .access fault => [fault.message]
  | .parse fault => [fault.message]
  | .analysis fault => [fault.message, fault.cause.message]

/-- A cause, and what was being done when it arose, the outermost task first. -/
structure Failure where
  tasks : List Task
  cause : Cause
deriving DecidableEq, Repr

/-- The result of a task, whose failure names the task. -/
def Task.perform {ε α : Type} (task : Task) (cause : ε → Cause) :
    Except ε α → Except Failure α
  | .ok a => .ok a
  | .error e => .error ⟨[task], cause e⟩

namespace Failure

/-- A failure as part of another task. -/
def during (f : Failure) (task : Task) : Failure :=
  { f with tasks := task :: f.tasks }

/-- The texts of the tasks and of the cause. -/
def chain (f : Failure) : List String :=
  f.tasks.map Task.message ++ f.cause.messages

/-- The chain on one line. -/
def message (f : Failure) : String :=
  ": ".intercalate f.chain

/-- Text whose further lines are indented. -/
def indentLines (margin : List Char) (text : String) : List Char :=
  text.toList.flatMap fun c => if c = '\n' then '\n' :: margin else [c]

/-- Numbered texts, one below the other. -/
def numbered : (index : Nat) → List String → List Char
  | _, [] => []
  | index, text :: texts =>
    let number := (toString index).toList
    '\n' :: List.replicate (5 - number.length) ' ' ++ number ++ [':', ' ']
      ++ indentLines (List.replicate 7 ' ') text ++ numbered (index + 1) texts

/-- The chain over several lines: a headline and what caused it, numbered if it is more than one. -/
def report (f : Failure) : String :=
  match f.chain with
  | [] => "Error: "
  | [headline] => "Error: " ++ headline
  | headline :: causes =>
    let body := match causes with
      | [cause] => '\n' :: List.replicate 4 ' ' ++ indentLines (List.replicate 4 ' ') cause
      | _ => numbered 0 causes
    "Error: " ++ headline ++ "\n\nCaused by:" ++ String.ofList body

end Failure

end AliasReport
