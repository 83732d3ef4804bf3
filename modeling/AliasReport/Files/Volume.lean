import AliasReport.Files.Store
import AliasReport.Text.Bytes

/-! # Volumes

A volume is a tree of files, directories and links at one moment.

* **`Entry`**, **`Volume`** — what a name can stand for, and a tree with a working directory.
* **`Volume.walk`**, **`Volume.locate`** — the place that a path leads to, with all links followed.
* **`Volume.find`** — the place of the entry that a path opens.
* **`Volume.resolve`** — the place that a path leads to, asked for entry by entry.
* A computation that reads a volume is a `FileStore`.

A path leads through directories only. At most 40 links are followed on the way. Whatever is asked
for by a path, the path may not be too long: one that is opened is handed over as it is written,
and when a path is resolved, the entries on its way are asked for by their paths from the root.
-/

namespace AliasReport.Files

open AliasReport.Text

/-- What a name can stand for. -/
inductive Entry
  | file (bytes : ByteArray)
  | directory
  | link (target : List Char)

/-- A tree of entries. Places are lists of names from the root; the root is a directory. -/
structure Volume where
  /-- The place from which relative paths are seen. -/
  workDirectory : List Name
  entries : List (List Name × Entry)

namespace Volume

/-- The entry at a place. -/
def entry? (v : Volume) (place : List Name) : Option Entry :=
  if place.isEmpty then some .directory else v.entries.lookup place

/-! ## Ways -/

/-- The longest name, in bytes. -/
def longestName : Nat := 255

/-- The longest path that can be opened, in bytes. -/
def longestPath : Nat := 4095

/-- The number of links that are followed on one way. -/
def linkLimit : Nat := 40

/-- All paths, however long. -/
def anyPath (_ : List Char) : Bool := true

/-- Whether a path is short enough for its entry to be asked for. -/
def isShort (path : List Char) : Bool := byteCount path ≤ longestPath

/-- Whether some steps need a directory before a further name is looked up in it: they stay there or
go up. -/
def needsDirectory (todo : List Name) : Bool :=
  match todo.dropWhile (· = here) with
  | [] => !todo.isEmpty
  | name :: _ => name = above

/-- The place that is reached from a place by some steps; `follow` goes on from a place by the steps
of a link and those behind it. Every entry on the way is asked for by its path from the root if it
may be, and a directory by the path with a slash behind it if the further steps need it to be one. -/
def walkWith (v : Volume) (mayAsk : List Char → Bool)
    (follow : List Name → List Name → Except AccessFault (List Name)) :
    (place : List Name) → (todo : List Name) → Except AccessFault (List Name)
  | place, [] => .ok place
  | place, name :: todo =>
    if name = here then v.walkWith mayAsk follow place todo
    else if name = above then v.walkWith mayAsk follow place.dropLast todo
    else if longestName < byteCount name then .error .nameTooLong
    else if !mayAsk (ofNames (place ++ [name])) then .error .nameTooLong
    else
      match v.entry? (place ++ [name]) with
      | none => .error .notFound
      | some .directory =>
        if needsDirectory todo && !mayAsk (ofNames (place ++ [name]) ++ ['/']) then
          .error .nameTooLong
        else v.walkWith mayAsk follow (place ++ [name]) todo
      | some (.file _) => if todo.isEmpty then .ok (place ++ [name]) else .error .notDirectory
      | some (.link target) =>
        follow (if isAbsolute target then [] else place) (steps target ++ todo)

/-- The place that is reached from a place by some steps, with a bound on the links followed. -/
def walk (v : Volume) (mayAsk : List Char → Bool) : (links : Nat) → (place : List Name) →
    (todo : List Name) → Except AccessFault (List Name)
  | 0 => v.walkWith mayAsk fun _ _ => .error .tooManyLinks
  | links + 1 => v.walkWith mayAsk (v.walk mayAsk links)

/-- The place at which the way of a path starts. -/
def start (v : Volume) (path : List Char) : List Name :=
  if isAbsolute path then [] else v.workDirectory

/-- The place that a path leads to by entries that may be asked for. -/
def locateBy (v : Volume) (mayAsk : List Char → Bool) (path : List Char) :
    Except AccessFault (List Name) :=
  if '\x00' ∈ path then .error .nullInPath
  else if path.isEmpty then .error .notFound
  else v.walk mayAsk linkLimit (v.start path) (steps path)

/-- The place that a path leads to, however long it is. -/
def locate (v : Volume) (path : List Char) : Except AccessFault (List Name) :=
  v.locateBy anyPath path

/-- The place of the entry that a path opens. -/
def find (v : Volume) (path : List Char) : Except AccessFault (List Name) :=
  if '\x00' ∉ path ∧ isShort path = false then .error .nameTooLong else v.locate path

/-- The place that a path leads to, if the entries on its way can be asked for. -/
def resolve (v : Volume) (path : List Char) : Except AccessFault (List Name) :=
  v.locateBy isShort path

/-! ## Contents -/

/-- The path without links of an entry that exists. -/
def canonical? (v : Volume) (path : List Char) : Option (List Char) :=
  match v.resolve path with
  | .ok place => some (ofNames place)
  | .error _ => none

/-- The contents of the entry at a place. Directories can be opened but not read. -/
def contents (v : Volume) (place : List Name) : Except ReadFault ByteArray :=
  match v.entry? place with
  | some (.file bytes) => .ok bytes
  | some .directory => .error ⟨true, .isDirectory⟩
  | _ => .error ⟨false, .notFound⟩

/-- The contents of the file that a path opens. -/
def read (v : Volume) (path : List Char) : Except ReadFault ByteArray :=
  match v.find path with
  | .ok place => v.contents place
  | .error cause => .error ⟨false, cause⟩

/-! ## New entries -/

/-- The directory that a name in a directory leads to. If there is none, it is made. -/
def enter (v : Volume) (place : List Name) (name : Name) : Volume × List Name :=
  match v.walk anyPath linkLimit place [name] with
  | .ok reached => (v, reached)
  | .error _ => ({ v with entries := (place ++ [name], .directory) :: v.entries }, place ++ [name])

/-- Puts an entry where a path from the root leads, with the directories on the way to it. -/
def put (v : Volume) (path : List Name) (e : Entry) : Volume :=
  match path.getLast? with
  | none => v
  | some name =>
    let (v, directory) := path.dropLast.foldl (fun (v, place) name => v.enter place name) (v, [])
    { v with entries := (directory ++ [name], e) :: v.entries }

end Volume

instance : FileStore (ReaderM Volume) where
  workDirectory := do return String.ofList (ofNames (← read).workDirectory)
  canonical? path := do return ((← read).canonical? path.toList).map String.ofList
  read path := do return (← read).read path.toList

/-- The working directory of a volume is the path of its place. -/
@[simp] theorem workDirectory_run (v : Volume) :
    (FileStore.workDirectory : ReaderM Volume String).run v =
      String.ofList (ofNames v.workDirectory) := rfl

/-- Canonical paths of a volume are those of its own resolution. -/
@[simp] theorem canonical?_run (v : Volume) (path : String) :
    (FileStore.canonical? path : ReaderM Volume (Option String)).run v =
      (v.canonical? path.toList).map String.ofList := rfl

/-- A file of a volume is read by its own reader. -/
@[simp] theorem read_run (v : Volume) (path : String) :
    (FileStore.read path : ReaderM Volume (Except ReadFault ByteArray)).run v =
      v.read path.toList := rfl

end AliasReport.Files
