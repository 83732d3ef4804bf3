import Mathlib
import AliasReport.Command.Run
import AliasReport.Files.Volume
import AliasReport.Proofs.Sequencing

/-! # Commands at one moment

A command only reads files. Run on files that do not change it is a function of their state, and
its steps are computed one after the other in that state.

* **`outcomeIn`** — what a computation comes to in a state of the files.
* **`Options.load`** — the steps that all commands on a snapshot begin with.
* **`outcomeIn_loadBreakdown`**, **`outcomeIn_loadReport`**, **`outcomeIn_runReport`**,
  **`outcomeIn_runAliases`** — the commands step by step.
* **`outcomeIn_runReport_eq_ok_iff`** — what the command `report` prints.
* **`execute_of_command`** — what the program prints of a command, and its exit code.
* **`loneSnapshot`** — the volume with nothing but a snapshot. -/

namespace AliasReport

open AliasReport.Files

variable {σ α β ε : Type}

/-- What a computation that reads a state comes to in that state. -/
def outcomeIn (s : σ) (x : ExceptT ε (ReaderM σ) α) : Except ε α := x.run.run s

/-- A computation that does nothing ends with its value. -/
@[simp] theorem outcomeIn_pure (s : σ) (a : α) :
    outcomeIn s (pure a : ExceptT ε (ReaderM σ) α) = .ok a := rfl

/-- What is asked of the surroundings is what they give. -/
@[simp] theorem outcomeIn_lift (s : σ) (x : ReaderM σ α) :
    outcomeIn s (ExceptT.lift x : ExceptT ε (ReaderM σ) α) = .ok (x.run s) := rfl

/-- The outcome of a computation is what it gives in its surroundings. -/
@[simp] theorem outcomeIn_mk (s : σ) (x : ReaderM σ (Except ε α)) :
    outcomeIn s (ExceptT.mk x) = x.run s := rfl

/-- **Steps are taken one after the other** in the same state. -/
@[simp] theorem outcomeIn_bind (s : σ) (x : ExceptT ε (ReaderM σ) α)
    (f : α → ExceptT ε (ReaderM σ) β) :
    outcomeIn s (x >>= f) = (outcomeIn s x).bind fun a => outcomeIn s (f a) := by
  change (x.run.run s |> fun r => (ExceptT.bindCont f r).run s) = _
  unfold outcomeIn
  cases x.run.run s <;> rfl

/-! ## What commands on a snapshot begin with -/

section

variable {m : Type → Type} [Monad m] [FileStore m]

/-- The report that options ask for, with its snapshot and its configuration. -/
def Options.load (o : Options) : ExceptT Failure m LoadedReport := do
  loadReport o.input (← resolveConfig o.config o.overrides)

end

section

variable [FileStore (ReaderM σ)] (s : σ)

/-- The absolute path of a path in a state. -/
def absoluteIn (path : String) : String := (absolutePath path : ReaderM σ String).run s

/-- A breakdown is loaded by telling the format, reading the text, and parsing it. -/
theorem outcomeIn_loadBreakdown (path : String) :
    outcomeIn s (loadBreakdown path) =
      match Format.ofPath? path with
      | none => .error ⟨[], .unsupportedFormat path⟩
      | some format =>
        ((Task.readSnapshot path).perform .access ((readText path : ReaderM σ _).run s)).bind
          fun text => ((Task.parseSnapshot format).perform .parse (format.parse text)).mapError
            (·.during (.acceptSnapshot path)) := by
  unfold loadBreakdown
  cases Format.ofPath? path with
  | none => rfl
  | some format => exact outcomeIn_bind s _ _

/-- A report is loaded by finding the snapshot, reading it, and analysing it. -/
theorem outcomeIn_loadReport (input : String) (c : Config) :
    outcomeIn s (loadReport input c) =
      (outcomeIn s (loadBreakdown (absoluteIn s input))).bind fun b =>
        ((Task.analyzeSnapshot (absoluteIn s input)).perform .analysis
          (Report.ofBreakdown b c)).map fun r => ⟨absoluteIn s input, c, r⟩ := by
  unfold loadReport
  simp only [outcomeIn_bind, outcomeIn_lift, ok_bind, outcomeIn_mk, outcomeIn_pure, bind_ok_eq_map]
  rfl

/-- The steps of loading in a state. -/
theorem outcomeIn_load (o : Options) :
    outcomeIn s o.load = (outcomeIn s (resolveConfig o.config o.overrides)).bind fun c =>
      outcomeIn s (loadReport o.input c) :=
  outcomeIn_bind s _ _

/-- JSON output carries the path of the snapshot and its digest. -/
theorem outcomeIn_envelope (source now : String) (payload : List (String × Json)) :
    outcomeIn s (envelope source now payload) =
      (outcomeIn s (fileDigest source)).map fun digest =>
        .object (("source", .text source) :: ("source_sha256", .text digest) ::
          ("generated_at", .text now) :: payload) := by
  unfold envelope
  rw [outcomeIn_bind, ← bind_ok_eq_map]
  rfl

/-- A command on a snapshot goes on from what is loaded. -/
theorem outcomeIn_load_bind (o : Options) (next : LoadedReport → ExceptT Failure (ReaderM σ) α) :
    outcomeIn s (do next (← loadReport o.input (← resolveConfig o.config o.overrides))) =
      (outcomeIn s o.load).bind fun loaded => outcomeIn s (next loaded) := by
  simp only [Options.load, outcomeIn_bind, bind_bind]

/-- The steps of the command `report` in a state. -/
theorem outcomeIn_runReport (now : String) (o : Options) :
    outcomeIn s (runReport now o) = (outcomeIn s o.load).bind fun loaded =>
      if o.json then
        (outcomeIn s (envelope loaded.source now loaded.report.members)).map printed
      else .ok (loaded.report.text loaded.config.rendering) := by
  refine (outcomeIn_load_bind s o _).trans (congrArg (Except.bind _) (funext fun loaded => ?_))
  cases o.json with
  | true => exact (outcomeIn_bind s _ _).trans (bind_ok_eq_map _ _)
  | false => rfl

/-- The steps of the command `aliases` in a state. -/
theorem outcomeIn_runAliases (now : String) (o : Options) :
    outcomeIn s (runAliases now o) = (outcomeIn s o.load).bind fun loaded =>
      if o.json then
        (outcomeIn s (envelope loaded.source now loaded.report.summary.members)).map printed
      else if loaded.report.allocations.isEmpty then .ok "Allocations: (none)\n"
      else .ok (loaded.report.aliasText loaded.config.hexOffsets) := by
  refine (outcomeIn_load_bind s o _).trans (congrArg (Except.bind _) (funext fun loaded => ?_))
  cases o.json with
  | true => exact (outcomeIn_bind s _ _).trans (bind_ok_eq_map _ _)
  | false => cases loaded.report.allocations.isEmpty <;> rfl

/-- **What the command `report` prints**, if it succeeds: JSON with the digest of the snapshot, or
the text of the report. -/
theorem outcomeIn_runReport_eq_ok_iff {now : String} {o : Options} {out : String} :
    outcomeIn s (runReport now o) = .ok out ↔
      ∃ loaded, outcomeIn s o.load = .ok loaded ∧
        ((o.json = true ∧ ∃ digest, outcomeIn s (fileDigest loaded.source) = .ok digest ∧
            out = printed (.object (("source", .text loaded.source) ::
              ("source_sha256", .text digest) :: ("generated_at", .text now) ::
              loaded.report.members))) ∨
          o.json = false ∧ out = loaded.report.text loaded.config.rendering) := by
  rw [outcomeIn_runReport, bind_eq_ok_iff]
  refine exists_congr fun loaded => and_congr_right fun _ => ?_
  cases o.json with
  | true =>
    rw [if_pos rfl, map_eq_ok_iff, outcomeIn_envelope]
    simp [map_eq_ok_iff, @eq_comm _ out]
  | false => simp [eq_comm]

/-- **The program runs the command** that its arguments ask for: it prints what the command prints,
or on the error stream why the command fails. -/
theorem execute_of_command {now : String} {arguments : List String} {command : Command}
    (hcommand : Request.ofArguments? arguments = some (.run command)) :
    (execute now arguments : ReaderM σ Outcome).run s =
      match outcomeIn s (command.run now) with
      | .ok output => ⟨0, output, ""⟩
      | .error f => ⟨1, "", f.report ++ "\n"⟩ := by
  have hrun : ReaderT.run (m := Id)
      (ExceptT.run (command.run now : ExceptT Failure (ReaderM σ) String)) s =
        outcomeIn s (command.run now) := rfl
  unfold execute
  rw [hcommand]
  simp only [ReaderT.run_bind]
  rw [hrun]
  cases outcomeIn s (command.run now) <;> rfl

/-- **A command that succeeds prints its output**, on the standard output and nowhere else. -/
theorem execute_of_success {now : String} {arguments : List String} {command : Command}
    (hcommand : Request.ofArguments? arguments = some (.run command)) {output : String}
    (houtput : outcomeIn s (command.run now) = .ok output) :
    (execute now arguments : ReaderM σ Outcome).run s = ⟨0, output, ""⟩ := by
  rw [execute_of_command s hcommand, houtput]

end

/-! ## A volume with one file -/

/-- The volume with nothing but a snapshot in its root. -/
def loneSnapshot (text : String) : Volume :=
  ⟨[], [(["s.json".toList], .file text.toUTF8)]⟩

/-- The only file of a volume is read under its path. -/
theorem read_loneSnapshot (text : String) :
    (loneSnapshot text).read "/s.json".toList = .ok text.toUTF8 := by
  cbv

/-- The path of the only file of a volume is absolute as it is. -/
theorem absoluteIn_loneSnapshot (text : String) :
    absoluteIn (loneSnapshot text) "/s.json" = "/s.json" := by
  have hcanonical : (loneSnapshot text).canonical? "/s.json".toList = some "/s.json".toList := by
    cbv
  simp only [absoluteIn, absolutePath, ReaderT.run_bind, canonical?_run]
  rw [hcanonical]
  rfl

/-- Text is decoded from its bytes. -/
theorem decodeText_toUTF8 (text : String) : decodeText text.toUTF8 = .ok text := by
  unfold decodeText String.fromUTF8?
  rw [String.toUTF8_eq_toByteArray, dif_pos text.isValidUTF8]
  rfl

/-- A snapshot that parses is loaded. -/
theorem outcomeIn_loadBreakdown_loneSnapshot {text : String} {b : Breakdown}
    (hparse : Format.json.parse text = .ok b) :
    outcomeIn (loneSnapshot text) (loadBreakdown "/s.json") = .ok b := by
  have hformat : Format.ofPath? "/s.json" = some .json := by cbv
  have htext : (readText "/s.json" : ReaderM Volume _).run (loneSnapshot text) = .ok text := by
    simp only [readText, ReaderT.run_bind, read_run, read_loneSnapshot]
    exact decodeText_toUTF8 text
  rw [outcomeIn_loadBreakdown, hformat, htext]
  simp only [Task.perform, ok_bind, hparse]
  rfl

/-- The report on a snapshot that parses. -/
theorem outcomeIn_loadReport_loneSnapshot {text : String} {b : Breakdown} {c : Config} {r : Report}
    (hparse : Format.json.parse text = .ok b) (hr : Report.ofBreakdown b c = .ok r) :
    outcomeIn (loneSnapshot text) (loadReport "/s.json" c) = .ok ⟨"/s.json", c, r⟩ := by
  rw [outcomeIn_loadReport, absoluteIn_loneSnapshot, outcomeIn_loadBreakdown_loneSnapshot hparse,
    ok_bind, hr]
  rfl

/-- The digest of a snapshot can be taken. -/
theorem outcomeIn_fileDigest_loneSnapshot (text : String) :
    ∃ digest, outcomeIn (loneSnapshot text) (fileDigest "/s.json") = .ok digest := by
  unfold fileDigest
  simp only [outcomeIn_bind, outcomeIn_lift, read_run, read_loneSnapshot, ok_bind]
  exact ⟨_, rfl⟩

end AliasReport
