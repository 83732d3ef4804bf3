import AliasReport.Command.Run
import AliasReport.Command.Timestamp
import Std.Time.DateTime.Timestamp

/-! # The program

Reads files from the operating system, and prints what the commands give.
-/

namespace AliasReport

open AliasReport.Files

/-- The fault of an error number of the operating system. -/
def accessFault (code : UInt32) (text : String) : AccessFault :=
  if code = 2 then .notFound
  else if code = 20 then .notDirectory
  else if code = 21 then .isDirectory
  else if code = 36 then .nameTooLong
  else if code = 40 then .tooManyLinks
  else .other text

/-- The fault of an error. Only what can be opened turns out to be a directory. -/
def readFault (e : IO.Error) : ReadFault :=
  let cause := match e with
    | .noFileOrDirectory _ code details => accessFault code details
    | .inappropriateType _ code details => accessFault code details
    | .invalidArgument _ code details => accessFault code details
    | .resourceExhausted _ code details => accessFault code details
    | .permissionDenied _ code details => accessFault code details
    | e => .other e.toString
  ⟨cause = .isDirectory, cause⟩

instance : FileStore IO where
  workDirectory := do return (← IO.currentDir).toString
  canonical? path := do
    try return some (← IO.FS.realPath path).toString
    catch _ => return none
  read path := do
    if path.contains '\x00' then return .error ⟨false, .nullInPath⟩
    else
      try return .ok (← IO.FS.readBinFile path)
      catch e => return .error (readFault e)

end AliasReport

/-- Runs the program. -/
def main (arguments : List String) : IO UInt32 := do
  let now ← Std.Time.Timestamp.now
  let text := AliasReport.timestampText now.toSecondsSinceUnixEpoch.val.toNat
  let outcome ← AliasReport.execute (m := IO) text arguments
  (← IO.getStdout).putStr outcome.output
  (← IO.getStderr).putStr outcome.report
  return outcome.code
