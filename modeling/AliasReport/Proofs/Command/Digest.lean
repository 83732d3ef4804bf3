import Mathlib
import AliasReport.Proofs.Command.Loading
import AliasReport.Proofs.Number.Decimal

/-! # The digest of a snapshot

JSON output carries the digest of the snapshot next to what is reported of it. The snapshot is read
once for the report and once more for the digest, and other programs may write to it in between: the
digest is the one of the contents at the second reading.

* **`hexDigest_injective`** — digests are told apart by their text.
* **`envelopeAcross`** — JSON output where the files change between the two readings.
* **`runReport_eq_envelopeAcross`**, **`runAliases_eq_envelopeAcross`** — the output of the commands
  where nothing changes.
* **`digest_of_second_reading`** — which contents are parsed and which are digested, and when the
  digest is the one of the contents that were parsed. -/

namespace AliasReport.Digest

open AliasReport.Number

/-- A byte is told by its two digits. -/
theorem hexByte_inj {a b : UInt8} (h : hexByte a = hexByte b) : a = b := by
  simp only [hexByte, List.cons.injEq, and_true] at h
  have ha := a.toNat_lt
  have hb := b.toNat_lt
  have hhigh : a.toNat / 16 = b.toNat / 16 :=
    digitChar_inj _ (by omega) _ (by omega) h.1
  have hlow : a.toNat % 16 = b.toNat % 16 :=
    digitChar_inj _ (by omega) _ (by omega) h.2
  exact UInt8.toNat_inj.mp (by omega)

/-- Bytes are told by their digits, since all of them have two. -/
theorem eq_of_flatMap_hexByte {as bs : List UInt8} (h : as.flatMap hexByte = bs.flatMap hexByte) :
    as = bs := by
  induction as generalizing bs with
  | nil => cases bs with
    | nil => rfl
    | cons b bs => exact nomatch h
  | cons a as ih => cases bs with
    | nil => exact nomatch h
    | cons b bs =>
      obtain ⟨hbyte, hrest⟩ := List.append_inj h rfl
      rw [hexByte_inj hbyte, ih hrest]

/-- **Digests are told apart by their text.** -/
theorem hexDigest_injective : Function.Injective hexDigest :=
  fun _ _ h => eq_of_flatMap_hexByte (String.ofList_injective h)

end AliasReport.Digest

namespace AliasReport

open AliasReport.Files AliasReport.Digest

/-! ## Two readings -/

/-- JSON output about a snapshot that is loaded in one state of the files and digested in another;
`payload` is what is output of its report. -/
def envelopeAcross (v v' : Volume) (now input : String) (c : Config)
    (payload : Report → List (String × Json)) : Except Failure Json :=
  (outcomeIn v (loadReport input c)).bind fun loaded =>
    outcomeIn v' (envelope loaded.source now (payload loaded.report))

section

variable (v : Volume) (now : String) {o : Options}

/-- The output of the command `report`, where nothing changes. -/
theorem runReport_eq_envelopeAcross (hjson : o.json = true) :
    outcomeIn v (runReport now o) =
      (outcomeIn v (resolveConfig o.config o.overrides)).bind fun c =>
        (envelopeAcross v v now o.input c Report.members).map printed := by
  simp only [outcomeIn_runReport, outcomeIn_load, bind_bind, hjson, if_true, envelopeAcross,
    map_bind]

/-- The output of the command `aliases`, where nothing changes. -/
theorem runAliases_eq_envelopeAcross (hjson : o.json = true) :
    outcomeIn v (runAliases now o) =
      (outcomeIn v (resolveConfig o.config o.overrides)).bind fun c =>
        (envelopeAcross v v now o.input c (·.summary.members)).map printed := by
  simp only [outcomeIn_runAliases, outcomeIn_load, bind_bind, hjson, if_true, envelopeAcross,
    map_bind]

end

/-- A report is made of contents: they are the text of a breakdown, in the format of the path, and
the report is the one of this breakdown. -/
def MadeFrom (bytes : ByteArray) (path : String) (c : Config) (r : Report) : Prop :=
  ∃ format text b, Format.ofPath? path = some format ∧ decodeText bytes = .ok text ∧
    format.parse text = .ok b ∧ Report.ofBreakdown b c = .ok r

/-- JSON output with the digest of some contents. -/
def enveloped (source now : String) (bytes : ByteArray) (payload : List (String × Json)) : Json :=
  .object (("source", .text source) ::
    ("source_sha256", .text (hexDigest (sha256 bytes.toList))) :: ("generated_at", .text now) ::
    payload)

/-- The digest of a file is that of its contents. -/
theorem fileDigest_eq_ok_iff {v : Volume} {path digest : String} :
    outcomeIn v (fileDigest path) = .ok digest ↔
      ∃ bytes, v.read path.toList = .ok bytes ∧ hexDigest (sha256 bytes.toList) = digest := by
  unfold fileDigest
  simp only [outcomeIn_bind, outcomeIn_lift, read_run, ok_bind]
  cases v.read path.toList with
  | ok bytes => simp
  | error fault => exact iff_of_false nofun (by simp)

/-- **The digest is the one of the second reading.** Whenever there is output, its report is made of
the contents that were read first, and its digest is that of the contents that were read last. The
digest is the one of the contents that were parsed just if both have the same digest. -/
theorem digest_of_second_reading {v v' : Volume} {now input : String} {c : Config}
    {payload : Report → List (String × Json)} {j : Json}
    (h : envelopeAcross v v' now input c payload = .ok j) :
    ∃ loaded bytes bytes', outcomeIn v (loadReport input c) = .ok loaded ∧
      v.read loaded.source.toList = .ok bytes ∧ MadeFrom bytes loaded.source c loaded.report ∧
      v'.read loaded.source.toList = .ok bytes' ∧
      j = enveloped loaded.source now bytes' (payload loaded.report) ∧
      (j = enveloped loaded.source now bytes (payload loaded.report) ↔
        sha256 bytes'.toList = sha256 bytes.toList) := by
  obtain ⟨loaded, hloaded, henvelope⟩ := bind_eq_ok_iff.mp h
  rw [outcomeIn_envelope, map_eq_ok_iff] at henvelope
  obtain ⟨digest, hdigest, rfl⟩ := henvelope
  obtain ⟨bytes', hread', rfl⟩ := fileDigest_eq_ok_iff.mp hdigest
  obtain ⟨b, r, hb, hr, rfl⟩ := loadReport_eq_ok_iff.mp hloaded
  obtain ⟨hshort, format, bytes, text, hformat, hfile, htext, hparse⟩ :=
    loadBreakdown_eq_ok_iff.mp hb
  have hread := read_eq_ok_iff.mpr ⟨hshort, hfile⟩
  refine ⟨_, bytes, bytes', hloaded, hread, ⟨format, text, b, hformat, htext, hparse, hr⟩, hread',
    rfl, ?_⟩
  -- The two outputs differ in the digest at most.
  simp [enveloped, hexDigest_injective.eq_iff]

/-- Output about the snapshot of a volume, digested in another one. -/
theorem envelopeAcross_loneSnapshot {text text' : String} {b : Breakdown} {c : Config} {r : Report}
    (hparse : Format.json.parse text = .ok b) (hr : Report.ofBreakdown b c = .ok r) (now : String)
    (payload : Report → List (String × Json)) :
    envelopeAcross (loneSnapshot text) (loneSnapshot text') now "/s.json" c payload =
      .ok (enveloped "/s.json" now text'.toUTF8 (payload r)) := by
  have hdigest : outcomeIn (loneSnapshot text') (fileDigest "/s.json") =
      .ok (hexDigest (sha256 text'.toUTF8.toList)) :=
    fileDigest_eq_ok_iff.mpr ⟨_, read_loneSnapshot text', rfl⟩
  rw [envelopeAcross, outcomeIn_loadReport_loneSnapshot hparse hr, ok_bind, outcomeIn_envelope,
    hdigest]
  rfl

/-- Where the snapshot stays the same, the digest is the one of what was parsed. -/
theorem digest_of_second_reading_unchanged :
    let v := loneSnapshot "\x7b\x7d"
    ∃ (loaded : LoadedReport) (bytes : ByteArray), v.read loaded.source.toList = .ok bytes ∧
      MadeFrom bytes loaded.source .default loaded.report ∧
      envelopeAcross v v "now" "/s.json" .default Report.members =
        .ok (enveloped loaded.source "now" bytes loaded.report.members) := by
  intro v
  have hparse : Format.json.parse "\x7b\x7d" = .ok ⟨none, [], []⟩ := by cbv
  have hreport : Report.ofBreakdown ⟨none, [], []⟩ .default = .ok ⟨none, []⟩ := by cbv
  have hout : envelopeAcross v v "now" "/s.json" .default Report.members = _ :=
    envelopeAcross_loneSnapshot hparse hreport "now" Report.members
  obtain ⟨loaded, bytes, bytes', -, hread, hmade, hread', hj, -⟩ := digest_of_second_reading hout
  obtain rfl := Except.ok.inj (hread.symm.trans hread')
  exact ⟨loaded, bytes, hread, hmade, hj ▸ hout⟩

/-- A snapshot that is replaced after it was parsed: the digest is the one of its successor. -/
theorem digest_of_replaced_snapshot :
    let v := loneSnapshot "\x7b\x7d"
    let v' := loneSnapshot "\x7b\"allocations\":[]\x7d"
    ∃ bytes, v.read "/s.json".toList = .ok bytes ∧ MadeFrom bytes "/s.json" .default ⟨none, []⟩ ∧
      hexDigest (sha256 bytes.toList) =
        "44136fa355b3678a1146ad16f7e8649e94fb4fc21fe77e8310c060f61caaff8a" ∧
      envelopeAcross v v' "now" "/s.json" .default Report.members = .ok (.object
        [("source", .text "/s.json"),
          ("source_sha256", .text
            "4df28b535f1613ecd5ea5d3514d1e7843a7ec3061680192f66eedcea3b1590b0"),
          ("generated_at", .text "now"), ("allocations", .array [])]) := by
  intro v v'
  have hparse : Format.json.parse "\x7b\x7d" = .ok ⟨none, [], []⟩ := by cbv
  have hreport : Report.ofBreakdown ⟨none, [], []⟩ .default = .ok ⟨none, []⟩ := by cbv
  have hparsed : "\x7b\x7d".toUTF8.toList = [123, 125] := by cbv
  have hreplaced : "\x7b\"allocations\":[]\x7d".toUTF8.toList =
      [123, 34, 97, 108, 108, 111, 99, 97, 116, 105, 111, 110, 115, 34, 58, 91, 93, 125] := by cbv
  refine ⟨_, read_loneSnapshot _,
    ⟨.json, _, _, by cbv, decodeText_toUTF8 _, hparse, hreport⟩, ?_, ?_⟩
  · rw [hparsed]
    decide +kernel
  · have hdigest : hexDigest (sha256
        [123, 34, 97, 108, 108, 111, 99, 97, 116, 105, 111, 110, 115, 34, 58, 91, 93, 125]) =
        "4df28b535f1613ecd5ea5d3514d1e7843a7ec3061680192f66eedcea3b1590b0" := by
      decide +kernel
    rw [envelopeAcross_loneSnapshot hparse hreport, enveloped, hreplaced, hdigest]
    rfl

end AliasReport
