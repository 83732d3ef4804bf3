import AliasReport.Json.Encode
import AliasReport.Proofs.Json.Decoding
import AliasReport.Proofs.Json.Printing
import AliasReport.Report.Config
import AliasReport.Report.Analysis
import AliasReport.Snapshot.Format

/-! # Written documents are read back

What is written for a value represents it, and is decoded to the value again, in both printed forms.

* **`Shape.height`**, **`Shape.fits_toJson`** — how many brackets the documents of a shape open.
* **`Shape.represents_toJson`** — the JSON value of a value represents it.
* **`Json.decode_encode`** — values of described types are read back.
* **`Json.round_trip`** — breakdowns, configurations and reports are read back. -/

namespace AliasReport.Document

/-! ## Brackets -/

mutual

/-- The number of brackets that a document of a shape may have open at once. -/
def Shape.height : Shape → Nat
  | .word _ => 0
  | .truth _ => 0
  | .text => 0
  | .choice _ _ => 0
  | .list item => item.height + 1
  | .optional item => item.height
  | .record _ members => members.height + 1
  | .union _ _ cases => cases.height + 1

/-- The number of brackets that may be open at once behind the names of members. -/
def Members.height : Members → Nat
  | .nil => 0
  | .cons _ _ shape rest => max shape.height rest.height

/-- The number of brackets that may be open at once behind the names of members of a case. -/
def Cases.height : Cases → Nat
  | .nil => 0
  | .cons _ _ members rest => max members.height rest.height

end

/-- A member is written unless it is optional and holds nothing. -/
theorem addMember_cases (name : String) (s : Shape) (v : s.Val) (j : Json)
    (members : List (String × Json)) :
    (addMember name s v j members = members ∧ s.isOptional = true ∧ s.blank? = some v) ∨
      addMember name s v j members = (name, j) :: members := by
  cases s with
  | optional item =>
    cases v with
    | none => exact .inl ⟨rfl, rfl, rfl⟩
    | some v => exact .inr rfl
  | _ => exact .inr rfl

/-- What stands among the members stood there before, or is the one that was put in front. -/
theorem mem_addMember {name : String} {s : Shape} {v : s.Val} {j : Json}
    {members : List (String × Json)} {e : String × Json}
    (h : e ∈ addMember name s v j members) : e = (name, j) ∨ e ∈ members := by
  obtain ⟨hmembers, -, -⟩ | hmembers := addMember_cases name s v j members
  · exact .inr (hmembers ▸ h)
  · exact List.mem_cons.mp (hmembers ▸ h)

/-- Every word has at most 64 bits. -/
theorem Width.unpack_lt_size (w : Width) (v : (Shape.word w).Val) : w.unpack v < UInt64.size := by
  refine (w.unpack_lt v).trans_le ?_
  cases w <;> decide

mutual

/-- **The document of a value fits** the height of its shape. -/
theorem Shape.fits_toJson : (s : Shape) → ∀ v, (s.toJson v).Fits s.height
  | .word w, v => .number (w.unpack_lt_size v)
  | .truth _, _ => .bool
  | .text, _ => .text
  | .choice _ _, _ => .text
  | .list item, vs => .array fun j hj => by
    obtain ⟨v, -, rfl⟩ := List.mem_map.mp hj
    exact item.fits_toJson v
  | .optional item, v => by
    cases v with
    | none => exact .null
    | some v => exact item.fits_toJson v
  | .record _ members, vs => .object (members.fits_toJson vs)
  | .union _ tag cases, v => .object (cases.fits_toJson tag v)

/-- The members of a record fit the height of the record. -/
theorem Members.fits_toJson : (m : Members) → ∀ vs, ∀ e ∈ m.toJson vs, e.2.Fits m.height
  | .nil, _, _, he => nomatch he
  | .cons name _ shape rest, (v, vs), e, he => by
    obtain rfl | he := mem_addMember he
    · exact (shape.fits_toJson v).mono (Nat.le_max_left _ _)
    · exact (rest.fits_toJson vs e he).mono (Nat.le_max_right _ _)

/-- The members of a case fit the height of the union. -/
theorem Cases.fits_toJson (tag : String) : (c : Cases) → ∀ v, ∀ e ∈ c.toJson tag v,
    e.2.Fits c.height
  | .nil, v, _, _ => nomatch v
  | .cons _ _ members _, .inl vs, e, he => by
    obtain rfl | he := List.mem_cons.mp he
    · exact .text
    · exact (members.fits_toJson vs e he).mono (Nat.le_max_left _ _)
  | .cons _ _ _ rest, .inr v, e, he =>
    (rest.fits_toJson tag v e he).mono (Nat.le_max_right _ _)

end

/-! ## Representation -/

/-- The members of a record are written under their names. -/
theorem Members.name_mem_of_mem_toJson : (m : Members) → ∀ vs, ∀ e ∈ m.toJson vs, e.1 ∈ m.names
  | .nil, _, _, he => nomatch he
  | .cons name _ shape rest, (v, vs), e, he => by
    obtain rfl | he := mem_addMember he
    · exact List.mem_cons_self
    · exact List.mem_cons_of_mem _ (rest.name_mem_of_mem_toJson vs e he)

/-- No member of a record is written under a name that is none of its own. -/
theorem Members.filter_toJson_eq_nil (m : Members) (vs : m.Vals) {name : String}
    (hname : name ∉ m.names) :
    (Json.membersToBuffered (m.toJson vs)).filter (·.1 = name) = [] := by
  rw [Json.membersToBuffered_eq_map, List.filter_eq_nil_iff]
  intro e he
  obtain ⟨e, hmem, rfl⟩ := List.mem_map.mp he
  have hmem := m.name_mem_of_mem_toJson vs e hmem
  exact fun heq => hname (of_decide_eq_true heq ▸ hmem)

/-- Only what holds nothing and is optional is written as null. -/
theorem Shape.toJson_ne_null {s : Shape} (hs : s.isOptional = false) (v : s.Val) :
    (s.toJson v).toBuffered ≠ .nothing := by
  cases s with
  | optional => cases hs
  | _ => exact nofun

mutual

/-- **The JSON value of a value represents it.** -/
theorem Shape.represents_toJson :
    (s : Shape) → s.sound = true → ∀ v, s.Represents (s.toJson v).toBuffered v
  | .word _, _, _ => rfl
  | .truth _, _, _ => rfl
  | .text, _, _ => rfl
  | .choice _ _, _, _ => rfl
  | .list item, hsound, vs => by
    have hitems : ∀ vs : List item.Val,
        List.Forall₂ item.Represents (Json.itemsToBuffered (vs.map item.toJson)) vs := by
      intro vs
      induction vs with
      | nil => exact .nil
      | cons v vs ih => exact .cons (item.represents_toJson hsound v) ih
    exact ⟨_, rfl, hitems vs⟩
  | .optional item, hsound, v => by
    obtain ⟨hitem, hsound⟩ := Bool.and_eq_true_iff.mp hsound
    cases v with
    | none => exact rfl
    | some v =>
      exact ⟨Shape.toJson_ne_null (Bool.not_eq_true' _ ▸ hitem) v, item.represents_toJson hsound v⟩
  | .record _ members, hsound, vs => by
    obtain ⟨hnodup, hsound⟩ := Bool.and_eq_true_iff.mp hsound
    exact ⟨_, rfl, members.represents_toJson (of_decide_eq_true hnodup) hsound vs⟩
  | .union _ tag cases, hsound, v => by
    obtain ⟨-, hsound⟩ := Bool.and_eq_true_iff.mp hsound
    exact ⟨_, rfl, cases.represents_toJson tag hsound v⟩

/-- The members of a record as JSON represent it. -/
theorem Members.represents_toJson : (m : Members) → m.names.Nodup → m.sound = true → ∀ vs,
    m.Represents (Json.membersToBuffered (m.toJson vs)) vs
  | .nil, _, _, _ => trivial
  | .cons name required shape rest, hnodup, hsound, (v, vs) => by
    obtain ⟨hfresh, hnodup⟩ := List.nodup_cons.mp hnodup
    simp only [Members.sound, Bool.and_eq_true] at hsound
    have hv := shape.represents_toJson hsound.1.2 v
    have hvs := rest.represents_toJson hnodup hsound.2 vs
    have hnone := rest.filter_toJson_eq_nil vs hfresh
    rw [Members.toJson]
    obtain ⟨hmembers, hoptional, hblank⟩ | hmembers :=
      addMember_cases name shape v (shape.toJson v) (rest.toJson vs)
    · -- What is left out is what a missing member is taken to be.
      rw [hmembers]
      have hrequired : required = false := by simpa [hoptional] using hsound.1.1
      exact ⟨.inr ⟨hnone, by rw [Shape.default?, hrequired]; exact hblank⟩, hvs⟩
    · rw [hmembers, Json.membersToBuffered]
      refine ⟨.inl ⟨_, ?_, hv⟩, Members.Represents.congr rest hvs fun n hn => ?_⟩
      · rw [List.filter_cons_of_pos (by simp), hnone]
      · exact List.filter_cons_of_neg (by simpa using ne_of_mem_of_not_mem hn hfresh |>.symm)

/-- The members of a union as JSON represent it. -/
theorem Cases.represents_toJson (tag : String) : (c : Cases) → c.sound tag = true → ∀ v,
    c.Represents tag (Json.membersToBuffered (c.toJson tag v)) v
  | .nil, _, v => nomatch v
  | .cons name _ members _, hsound, .inl vs => by
    simp only [Cases.sound, Bool.and_eq_true, decide_eq_true_eq] at hsound
    obtain ⟨⟨hnodup, hsound⟩, -⟩ := hsound
    obtain ⟨hfresh, hnodup⟩ := List.nodup_cons.mp hnodup
    have hnone := members.filter_toJson_eq_nil vs hfresh
    have hvs := members.represents_toJson hnodup hsound vs
    rw [Cases.toJson, Json.membersToBuffered]
    refine ⟨?_, ?_⟩
    · rw [List.filter_cons_of_pos (by simp), hnone]
      rfl
    · -- No member is named as the tag, so all of them are left.
      have hall := List.filter_eq_nil_iff.mp hnone
      rw [List.filter_cons_of_neg (by simp), List.filter_eq_self.mpr]
      · exact hvs
      · intro e he
        simpa using hall e he
  | .cons _ _ _ rest, hsound, .inr v =>
    rest.represents_toJson tag (Bool.and_eq_true_iff.mp hsound).2 v

end

end AliasReport.Document

namespace AliasReport.Json

open AliasReport.Document

/-- **What is written for a value is read back**, in both printed forms, if its shape is sound and
does not open too many brackets. -/
theorem decode_encode {α : Type} [Described α] (hsound : (Described.shape α).sound = true)
    (hheight : (Described.shape α).height ≤ depthLimit) (a : α) :
    decode α (encode a).compact = .ok a ∧ decode α (encode a).pretty = .ok a := by
  have hfits : (encode a).Fits depthLimit :=
    ((Described.shape α).fits_toJson (Described.toVal a)).mono hheight
  have hrepresents := (Described.shape α).represents_toJson hsound (Described.toVal a)
  exact ⟨decode_of_document hsound (document_compact hfits) hrepresents,
    decode_of_document hsound (document_pretty hfits) hrepresents⟩

/-- Snapshots that are written as JSON are parsed. -/
theorem parse_encode (b : Breakdown) :
    Format.json.parse (encode b).compact = .ok b ∧ Format.json.parse (encode b).pretty = .ok b := by
  obtain ⟨hcompact, hpretty⟩ := decode_encode (by decide) (by decide) b
  unfold Format.parse
  exact ⟨by rw [hcompact]; rfl, by rw [hpretty]; rfl⟩

/-- **Breakdowns, configurations and reports are read back** from what is written for them, whatever
they hold. -/
theorem round_trip :
    (∀ b : Breakdown, Format.json.parse (encode b).compact = .ok b ∧
      Format.json.parse (encode b).pretty = .ok b) ∧
    (∀ c : Config, decode Config (encode c).compact = .ok c ∧
      decode Config (encode c).pretty = .ok c) ∧
    ∀ r : Report, decode Report (encode r).compact = .ok r ∧
      decode Report (encode r).pretty = .ok r :=
  ⟨parse_encode, decode_encode (by decide) (by decide), decode_encode (by decide) (by decide)⟩

end AliasReport.Json
