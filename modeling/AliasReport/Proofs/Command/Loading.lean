import Mathlib
import AliasReport.Proofs.Command.AbsolutePath

/-! # Which snapshot is loaded

A report is made from the snapshot at the absolute path of the input, a breakdown from the one at
the input itself. Both paths lead to the same file, but each of them may be too long to be opened,
and the format of a snapshot is told by its path: the last name of the absolute path is another one
where the input ends in a link.

* **`LeadsToFile`**, **`Parses`** — a path leads to the text of a breakdown, in a format.
* **`loadBreakdown_eq_ok_iff`**, **`loadReport_eq_ok_iff`** — what has been read where loading
  succeeds.
* **`leadsToFile_absoluteIn`** — the input and its absolute path lead to the same contents.
* **`ofPath?_absoluteIn`** — when the two paths are of one format.
* **`loaded_from_input`** — when a report is loaded, and that it is the report of the breakdown.
* **`not_loaded_as_given`** — links and paths that are too long set the two apart. -/

namespace AliasReport

open AliasReport.Files AliasReport.Text

variable {v : Volume}

/-! ## What has been read -/

/-- A path leads to a file with some contents, however long the path is. -/
def LeadsToFile (v : Volume) (path : String) (bytes : ByteArray) : Prop :=
  ∃ place, v.locate path.toList = .ok place ∧ v.contents place = .ok bytes

/-- A path leads to the text of a breakdown in a format, if that is known. -/
def Parses (v : Volume) (path : String) (format? : Option Format) (b : Breakdown) : Prop :=
  ∃ format bytes text, format? = some format ∧ LeadsToFile v path bytes ∧
    decodeText bytes = .ok text ∧ format.parse text = .ok b

/-- **The contents at a path are read** if it leads to a file and is not too long. -/
theorem read_eq_ok_iff {path : String} {bytes : ByteArray} :
    v.read path.toList = .ok bytes ↔
      Volume.isShort path.toList = true ∧ LeadsToFile v path bytes := by
  unfold Volume.read LeadsToFile
  cases hfind : v.find path.toList with
  | ok place =>
    obtain ⟨hshort, hlocate⟩ := Volume.find_eq_ok_iff.mp hfind
    simp [hshort, hlocate]
  | error cause =>
    have hnot : ∀ place, ¬(Volume.isShort path.toList = true ∧ v.locate path.toList = .ok place) :=
      fun place hplace => by simp [Volume.find_eq_ok_iff.mpr hplace] at hfind
    refine iff_of_false (by simp) ?_
    rintro ⟨hshort, place, hlocate, -⟩
    exact hnot place ⟨hshort, hlocate⟩

/-- The text of a file is decoded from its contents. -/
theorem readText_run (v : Volume) (path : String) :
    (readText path : ReaderM Volume _).run v =
      ((v.read path.toList).mapError ReadFault.cause).bind decodeText := by
  simp only [readText, ReaderT.run_bind, read_run]
  cases v.read path.toList <;> rfl

/-- A task succeeds if what it performs does. -/
theorem perform_eq_ok_iff {α ε : Type} {task : Task} {cause : ε → Cause} {x : Except ε α} {a : α} :
    task.perform cause x = .ok a ↔ x = .ok a := by
  cases x <;> simp [Task.perform]

/-- **A breakdown that is loaded** has been read from the file, in the format of its path. -/
theorem loadBreakdown_eq_ok_iff {path : String} {b : Breakdown} :
    outcomeIn v (loadBreakdown path) = .ok b ↔
      Volume.isShort path.toList = true ∧ Parses v path (Format.ofPath? path) b := by
  rw [outcomeIn_loadBreakdown]
  unfold Parses
  cases Format.ofPath? path with
  | none => simp
  | some format =>
    rw [readText_run]
    simp only [bind_eq_ok_iff, perform_eq_ok_iff, mapError_eq_ok_iff, Option.some.injEq,
      read_eq_ok_iff]
    constructor
    · rintro ⟨text, ⟨bytes, ⟨hshort, hfile⟩, htext⟩, hparse⟩
      exact ⟨hshort, format, bytes, text, rfl, hfile, htext, hparse⟩
    · rintro ⟨hshort, _, bytes, text, rfl, hfile, htext, hparse⟩
      exact ⟨text, ⟨bytes, ⟨hshort, hfile⟩, htext⟩, hparse⟩

/-- **A report that is loaded** is made of the breakdown at the absolute path of the input. -/
theorem loadReport_eq_ok_iff {input : String} {c : Config} {loaded : LoadedReport} :
    outcomeIn v (loadReport input c) = .ok loaded ↔
      ∃ b r, outcomeIn v (loadBreakdown (absoluteIn v input)) = .ok b ∧
        Report.ofBreakdown b c = .ok r ∧ ⟨absoluteIn v input, c, r⟩ = loaded := by
  simp only [outcomeIn_loadReport, bind_eq_ok_iff, map_eq_ok_iff, perform_eq_ok_iff]
  exact exists_congr fun b => by simp

/-- A report is loaded from an input. -/
def LoadsReport (v : Volume) (input : String) (c : Config) (r : Report) : Prop :=
  ∃ loaded, outcomeIn v (loadReport input c) = .ok loaded ∧ loaded.report = r

/-- The reports that are loaded from an input are those of the breakdown that is. -/
def LoadsAsGiven (v : Volume) (input : String) (c : Config) : Prop :=
  ∀ r, LoadsReport v input c r ↔
    ∃ b, outcomeIn v (loadBreakdown input) = .ok b ∧ Report.ofBreakdown b c = .ok r

/-! ## The contents at the absolute path -/

/-- **The absolute path of an input leads to the same contents.** -/
theorem leadsToFile_absoluteIn (hv : v.Sound) {input : String} {bytes : ByteArray} :
    LeadsToFile v (absoluteIn v input) bytes ↔ LeadsToFile v input bytes := by
  unfold LeadsToFile
  by_cases hempty : input = ""
  · -- The empty path leads nowhere, but seen from the working directory it leads to a directory.
    subst hempty
    have hnowhere : ∀ {mayAsk}, v.locateBy mayAsk "".toList = .error .notFound := rfl
    have habsolute : absoluteIn v "" = String.ofList (join (ofNames v.workDirectory) []) :=
      absoluteIn_of_error hnowhere
    rw [habsolute, String.toList_ofList, Volume.locate_join_nil hv, Volume.locate, hnowhere]
    simp [hv.workDirectory.contents]
  · rw [locate_absoluteIn hv hempty]

/-! ## Formats of paths -/

/-- Paths with one last name are of one format. -/
theorem ofPath?_congr {path path' : String} (h : lastName? path.toList = lastName? path'.toList) :
    Format.ofPath? path = Format.ofPath? path' := by
  rw [Format.ofPath?, Format.ofPath?, extension?, extension?, h]

/-- **The absolute path is of the same format** as an input that leads nowhere, or whose last name
is not one of a link. -/
theorem ofPath?_absoluteIn (hv : v.Sound) {input : String}
    (h : input ≠ "" ∧ v.canonical? input.toList = none ∨
      lastName? input.toList ≠ none ∧ v.endsInLink input.toList = false) :
    Format.ofPath? (absoluteIn v input) = Format.ofPath? input := by
  refine ofPath?_congr ?_
  rw [absoluteIn_eq]
  -- An input without a last name stays where it starts or goes up, and so leads somewhere.
  obtain hhere | ⟨before, name, hend⟩ := endsWith_or input.toList
  · obtain ⟨hne, hnowhere⟩ | ⟨hname, -⟩ := h
    · have hthere : v.resolve input.toList = .ok _ :=
        Volume.locateBy_of_here (by simpa using hne) hhere
      rw [Volume.canonical?, hthere] at hnowhere
      cases hnowhere
    · exact absurd (lastName?_eq_none hhere) hname
  have hpieces : ∀ name ∈ v.workDirectory, Piece name := fun name hname =>
    (hv.workDirectory.proper name hname).toPiece
  cases hresolve : v.resolve input.toList with
  | error cause =>
    obtain ⟨front, hjoin⟩ := hend.join hpieces
    rw [String.toList_ofList, hjoin.lastName?, hend.lastName?]
  | ok place =>
    obtain ⟨-, hnowhere⟩ | ⟨hname, hlink⟩ := h
    · rw [Volume.canonical?, hresolve] at hnowhere
      cases hnowhere
    have habove : name ≠ above := by
      rintro rfl
      exact hname (hend.lastName?.trans (if_pos rfl))
    have hlocate := Volume.locate_of_resolve hresolve
    obtain ⟨directory, rfl⟩ := Volume.eq_concat_of_locate hlocate hend habove hlink
    have hproper := (Volume.stands_of_locateBy hv hlocate).proper
    have hplace :=
      endsWith_ofNames (fun piece hpiece => (hproper piece hpiece).toPiece) hend.ne_here
    rw [String.toList_ofList, hplace.lastName?, hend.lastName?]

/-- An input without a last name leads to no file. -/
theorem not_leadsToFile_of_lastName? (hv : v.Sound) {path : String}
    (h : lastName? path.toList = none) (bytes : ByteArray) : ¬LeadsToFile v path bytes := by
  rintro ⟨place, hlocate, hcontents⟩
  rw [(Volume.grounded_of_lastName?_eq_none hv hlocate h).contents] at hcontents
  cases hcontents

/-- The breakdown of an empty object is empty. -/
theorem parses_of_empty {path : String} (place : List Name)
    (hformat : Format.ofPath? path = some .json) (hlocate : v.locate path.toList = .ok place)
    (hcontents : v.contents place = .ok "\x7b\x7d".toUTF8) :
    Parses v path (Format.ofPath? path) .empty :=
  ⟨.json, "\x7b\x7d".toUTF8, "\x7b\x7d", hformat, ⟨place, hlocate, hcontents⟩,
    decodeText_toUTF8 _, by cbv⟩

/-- The breakdown of an empty object is loaded from a path that is not too long. -/
theorem loadBreakdown_of_empty {path : String} (place : List Name)
    (hshort : Volume.isShort path.toList = true) (hformat : Format.ofPath? path = some .json)
    (hlocate : v.locate path.toList = .ok place)
    (hcontents : v.contents place = .ok "\x7b\x7d".toUTF8) :
    outcomeIn v (loadBreakdown path) = .ok .empty :=
  loadBreakdown_eq_ok_iff.mpr ⟨hshort, parses_of_empty place hformat hlocate hcontents⟩

/-- A report is not the one that is loaded if only the breakdown is. -/
theorem not_loadsAsGiven {input : String} (c : Config) {b : Breakdown} {r : Report}
    (hb : outcomeIn v (loadBreakdown input) = .ok b) (hr : Report.ofBreakdown b c = .ok r)
    (hnot : ∀ b, outcomeIn v (loadBreakdown (absoluteIn v input)) ≠ .ok b) :
    ¬LoadsAsGiven v input c := by
  intro h
  obtain ⟨loaded, hloaded, -⟩ := (h r).mpr ⟨b, hb, hr⟩
  obtain ⟨b', _, hb', -⟩ := loadReport_eq_ok_iff.mp hloaded
  exact hnot b' hb'

/-- **The report of an input.** A report is loaded if the absolute path is not too long, the input
leads to a text that parses in the format of the absolute path, and the breakdown can be analysed.
Unless the input ends in a link to a path of another format, or just one of the two paths is too
long, a report is loaded just if the breakdown is loaded from the input and can be analysed, and it
is the report of that breakdown. The absolute path is of the same format as an input that is not
resolved, or whose last name is not one of a link. -/
theorem loaded_from_input (v : Volume) (hv : v.Sound) (input : String) (c : Config) :
    (∀ r, LoadsReport v input c r ↔ Volume.isShort (absoluteIn v input).toList = true ∧
      ∃ b, Parses v input (Format.ofPath? (absoluteIn v input)) b ∧
        Report.ofBreakdown b c = .ok r) ∧
    ((Volume.isShort (absoluteIn v input).toList = true ↔ Volume.isShort input.toList = true) →
      (v.endsInLink input.toList = false ∨
        Format.ofPath? (absoluteIn v input) = Format.ofPath? input) → LoadsAsGiven v input c) ∧
    (input ≠ "" ∧ v.canonical? input.toList = none ∨
        lastName? input.toList ≠ none ∧ v.endsInLink input.toList = false →
      Format.ofPath? (absoluteIn v input) = Format.ofPath? input) := by
  have hreport : ∀ r, LoadsReport v input c r ↔ Volume.isShort (absoluteIn v input).toList = true ∧
      ∃ b, Parses v input (Format.ofPath? (absoluteIn v input)) b ∧
        Report.ofBreakdown b c = .ok r := by
    intro r
    simp only [LoadsReport, loadReport_eq_ok_iff, loadBreakdown_eq_ok_iff, Parses,
      leadsToFile_absoluteIn hv]
    constructor
    · rintro ⟨loaded, ⟨b, r', ⟨hshort, hb⟩, hr, rfl⟩, rfl⟩
      exact ⟨hshort, b, hb, hr⟩
    · rintro ⟨hshort, b, hb, hr⟩
      exact ⟨_, ⟨b, r, ⟨hshort, hb⟩, hr, rfl⟩, rfl⟩
  refine ⟨hreport, fun hlength h r => (hreport r).trans ?_, ofPath?_absoluteIn hv⟩
  -- Both sides parse the same bytes, and only the formats are left to compare.
  simp only [loadBreakdown_eq_ok_iff, hlength, and_assoc, exists_and_left]
  refine and_congr_right fun _ => ?_
  by_cases hname : lastName? input.toList = none
  · -- Such an input leads to a directory or nowhere.
    have hnot : ∀ format? b, ¬Parses v input format? b := by
      rintro format? b ⟨format, bytes, text, -, hfile, -⟩
      exact not_leadsToFile_of_lastName? hv hname bytes hfile
    simp [hnot]
  · have hformat : Format.ofPath? (absoluteIn v input) = Format.ofPath? input :=
      h.elim (fun hlink => ofPath?_absoluteIn hv (.inr ⟨hname, hlink⟩)) id
    rw [hformat]

/-- A snapshot in a directory that a link leads to, seen from a working directory below it. -/
theorem loaded_from_input_below :
    let v : Volume := ⟨["w".toList], [(["w".toList], .directory),
      (["w".toList, "d".toList], .link "../".toList),
      (["s.json".toList], .file "\x7b\x7d".toUTF8)]⟩
    Format.ofPath? (absoluteIn v "d/./s.json") = Format.ofPath? "d/./s.json" ∧
      LoadsReport v "d/./s.json" .default ⟨none, []⟩ := by
  intro v
  have hv : v.Sound := Volume.sound_of_child rfl (by decide) rfl (by simp [v])
  have habsolute : absoluteIn v "d/./s.json" = "/s.json" := by
    rw [absoluteIn_eq]
    cbv
  have hloaded : outcomeIn v (loadBreakdown "d/./s.json") = .ok .empty :=
    loadBreakdown_of_empty ["s.json".toList] (by decide) (by cbv) (by cbv) (by cbv)
  obtain ⟨-, hreport, hformat⟩ := loaded_from_input v hv "d/./s.json" .default
  have hlink : v.endsInLink "d/./s.json".toList = false := by cbv
  have hname : lastName? "d/./s.json".toList = some "s.json".toList := by cbv
  have hnamed : lastName? "d/./s.json".toList ≠ none := by
    rw [hname]
    simp
  have hlength : Volume.isShort (absoluteIn v "d/./s.json").toList = true ↔
      Volume.isShort "d/./s.json".toList = true := by
    rw [habsolute]
    decide
  exact ⟨hformat (.inr ⟨hnamed, hlink⟩),
    (hreport hlength (.inl hlink) _).mpr ⟨_, hloaded, by cbv⟩⟩

/-! ## Inputs from which nothing, or something else, is loaded -/

/-- A link to a snapshot whose name has no extension. -/
def linkedSnapshot : Volume :=
  ⟨[], [(["snap.json".toList], .link "data".toList), (["data".toList], .file "\x7b\x7d".toUTF8)]⟩

/-- The format is that of the path that the link leads to, and it is none. -/
theorem not_loadsAsGiven_linkedSnapshot :
    Format.ofPath? (absoluteIn linkedSnapshot "snap.json") ≠ Format.ofPath? "snap.json" ∧
      ¬LoadsAsGiven linkedSnapshot "snap.json" .default := by
  have habsolute : absoluteIn linkedSnapshot "snap.json" = "/data" := by
    rw [absoluteIn_eq]
    cbv
  have hformat : Format.ofPath? "/data" = none := by cbv
  have hjson : Format.ofPath? "snap.json" = some .json := by cbv
  have hloaded : outcomeIn linkedSnapshot (loadBreakdown "snap.json") = .ok .empty :=
    loadBreakdown_of_empty ["data".toList] (by decide) hjson (by cbv) (by cbv)
  refine ⟨by rw [habsolute, hformat, hjson]; exact (Option.some_ne_none _).symm,
    not_loadsAsGiven (r := ⟨none, []⟩) .default hloaded (by cbv) fun b hb => ?_⟩
  obtain ⟨-, format, _, _, hsome, -⟩ := loadBreakdown_eq_ok_iff.mp hb
  rw [habsolute, hformat] at hsome
  cases hsome

/-- A path to the snapshot in the root that is too long by one byte. -/
def longInput : List Char := List.replicate 4090 '/' ++ "s.json".toList

/-- The path is too long. -/
theorem isShort_longInput : Volume.isShort longInput = false := by
  rw [Volume.isShort, longInput, byteCount_append, byteCount_replicate]
  rfl

/-- The slashes in front are no steps. -/
theorem steps_longInput : steps longInput = steps "/s.json".toList :=
  (steps_slashes 4090 _ (by decide)).trans (steps_slashes 1 "s.json".toList (by decide)).symm

/-- The absolute path of the path is the one of the snapshot. -/
theorem absoluteIn_longInput :
    absoluteIn (loneSnapshot "\x7b\x7d") (String.ofList longInput) = "/s.json" := by
  have hnull : '\x00' ∉ longInput := by
    intro hnull
    obtain hnull | hnull := List.mem_append.mp hnull
    · exact absurd (List.eq_of_mem_replicate hnull) (by decide)
    · exact absurd hnull (by decide)
  have hresolve : (loneSnapshot "\x7b\x7d").resolve longInput = .ok ["s.json".toList] := by
    rw [Volume.resolve, Volume.locateBy_of_isAbsolute hnull rfl, steps_longInput]
    cbv
  rw [absoluteIn_of_resolve (by rw [String.toList_ofList]; exact hresolve)]
  rfl

/-- The absolute path is short, so a report is loaded where no breakdown is. -/
theorem not_loadsAsGiven_longInput :
    Format.ofPath? (absoluteIn (loneSnapshot "\x7b\x7d") (String.ofList longInput)) =
        Format.ofPath? (String.ofList longInput) ∧
      ¬LoadsAsGiven (loneSnapshot "\x7b\x7d") (String.ofList longInput) .default := by
  refine ⟨?_, fun h => ?_⟩
  · rw [absoluteIn_longInput]
    exact ofPath?_congr <|
      (lastName?_congr steps_longInput.symm).trans (congrArg lastName? String.toList_ofList.symm)
  · have hloaded : outcomeIn (loneSnapshot "\x7b\x7d") (loadBreakdown "/s.json") =
        .ok .empty :=
      loadBreakdown_of_empty ["s.json".toList] (by decide) (by cbv) (by cbv) rfl
    have hreport : LoadsReport (loneSnapshot "\x7b\x7d") (String.ofList longInput) .default
        ⟨none, []⟩ := by
      refine ⟨_, loadReport_eq_ok_iff.mpr ⟨.empty, ⟨none, []⟩, ?_, by cbv, rfl⟩, rfl⟩
      rw [absoluteIn_longInput]
      exact hloaded
    obtain ⟨b, hb, -⟩ := (h _).mp hreport
    have hshort := (loadBreakdown_eq_ok_iff.mp hb).1
    rw [String.toList_ofList, isShort_longInput] at hshort
    cases hshort

/-- The absolute path is too long, so no report is loaded where a breakdown is. -/
theorem not_loadsAsGiven_deepSnapshot :
    let input := String.ofList deepInput
    Format.ofPath? (absoluteIn deepSnapshot input) = Format.ofPath? input ∧
      ¬LoadsAsGiven deepSnapshot input .default := by
  intro input
  obtain ⟨hshort, hlocate⟩ := Volume.find_eq_ok_iff.mp find_deepSnapshot
  have hend : EndsWith input.toList [here] longSnapshotName :=
    ⟨by decide, [], nofun, by rw [String.toList_ofList, steps_deepInput]; rfl⟩
  have hformat : Format.ofPath? input = some .json := by
    rw [Format.ofPath?, extension?, hend.lastName?]
    decide +kernel
  have hloaded : outcomeIn deepSnapshot (loadBreakdown input) = .ok .empty :=
    loadBreakdown_of_empty _ hshort hformat hlocate (by
      rw [Volume.contents, deepSnapshot, Volume.entry?_fileBelow])
  refine ⟨?_, not_loadsAsGiven (r := ⟨none, []⟩) .default hloaded (by cbv) fun b hb => ?_⟩
  · obtain ⟨front, hjoin⟩ :=
      hend.join fun name hname => (proper_deepPlace name hname).toPiece
    refine ofPath?_congr ?_
    rw [absoluteIn_deepSnapshot, hend.lastName?, ← hjoin.lastName?, String.toList_ofList,
      String.toList_ofList]
  · have hlong := (loadBreakdown_eq_ok_iff.mp hb).1
    rw [isShort_absoluteIn_deepSnapshot] at hlong
    cases hlong

/-- **A report is not always loaded as the breakdown is.** The input may end in a link to a path of
another format; it may be too long where the absolute path is not; and the absolute path may be too
long where the input is not. -/
theorem not_loaded_as_given :
    (linkedSnapshot.Sound ∧
      Format.ofPath? (absoluteIn linkedSnapshot "snap.json") ≠ Format.ofPath? "snap.json" ∧
      ¬LoadsAsGiven linkedSnapshot "snap.json" .default) ∧
    ((loneSnapshot "\x7b\x7d").Sound ∧
      Format.ofPath? (absoluteIn (loneSnapshot "\x7b\x7d") (String.ofList longInput)) =
        Format.ofPath? (String.ofList longInput) ∧
      ¬LoadsAsGiven (loneSnapshot "\x7b\x7d") (String.ofList longInput) .default) ∧
    deepSnapshot.Sound ∧
      Format.ofPath? (absoluteIn deepSnapshot (String.ofList deepInput)) =
        Format.ofPath? (String.ofList deepInput) ∧
      ¬LoadsAsGiven deepSnapshot (String.ofList deepInput) .default :=
  ⟨⟨Volume.sound_of_entries Volume.grounded_nil (by simp [linkedSnapshot]),
      not_loadsAsGiven_linkedSnapshot⟩,
    ⟨Volume.sound_of_entries Volume.grounded_nil (by simp [loneSnapshot]),
      not_loadsAsGiven_longInput⟩,
    Volume.sound_fileBelow proper_deepPlace, not_loadsAsGiven_deepSnapshot⟩

end AliasReport
