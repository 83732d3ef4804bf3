import AliasReport.Files.Path

/-! # Access to files

* **`AccessFault`**, **`ReadFault`** — why a file cannot be read, and whether it could be opened.
* **`FileStore`** — where files are read: a working directory, paths without links, and contents.
* **`absolutePath`** — the path of a file without links, or where it would have to be.
-/

namespace AliasReport.Files

/-- Why a file cannot be read. -/
inductive AccessFault
  | notFound
  | notDirectory
  | isDirectory
  | tooManyLinks
  | nameTooLong
  /-- A path holds the null character. -/
  | nullInPath
  /-- The contents are not text. -/
  | notText
  /-- Any other cause, with its text. -/
  | other (text : String)
deriving DecidableEq, Repr

/-- The text of a fault. -/
def AccessFault.message : AccessFault → String
  | .notFound => "No such file or directory (os error 2)"
  | .notDirectory => "Not a directory (os error 20)"
  | .isDirectory => "Is a directory (os error 21)"
  | .tooManyLinks => "Too many levels of symbolic links (os error 40)"
  | .nameTooLong => "File name too long (os error 36)"
  | .nullInPath => "file name contained an unexpected NUL byte"
  | .notText => "stream did not contain valid UTF-8"
  | .other text => text

/-- Why a file cannot be read, and whether it could be opened. -/
structure ReadFault where
  opened : Bool
  cause : AccessFault
deriving DecidableEq, Repr

/-- Where files are read. -/
class FileStore (m : Type → Type) where
  /-- The directory from which relative paths are seen. -/
  workDirectory : m String
  /-- The path without links of an entry that exists. -/
  canonical? : (path : String) → m (Option String)
  /-- The contents of a file. -/
  read : (path : String) → m (Except ReadFault ByteArray)

/-- The absolute path of a path: without links if the entry exists, and otherwise seen from the
working directory. -/
def absolutePath {m : Type → Type} [Monad m] [FileStore m] (path : String) : m String := do
  match ← FileStore.canonical? path with
  | some path => return path
  | none => return String.ofList (join (← FileStore.workDirectory).toList path.toList)

/-- The text of contents, if they are text. -/
def decodeText (bytes : ByteArray) : Except AccessFault String :=
  match String.fromUTF8? bytes with
  | some text => .ok text
  | none => .error .notText

/-- The text of a file. -/
def readText {m : Type → Type} [Monad m] [FileStore m] (path : String) :
    m (Except AccessFault String) := do
  match ← FileStore.read path with
  | .ok bytes => return decodeText bytes
  | .error fault => return .error fault.cause

end AliasReport.Files
