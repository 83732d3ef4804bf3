import AliasReport.Json.Decode
import AliasReport.Proofs.Json.Reading

/-! # Reading what represents a value

A JSON text that represents a value of a sound shape is read as this value, whichever way it is laid
out. Members are read in the order in which they stand and unknown ones are skipped; the members of
a union are buffered first.

* **`readTagged_of_entries`** — the tag of a union and its other members.
* **`Shape.readJson_of_value`** — a value of a shape.
* **`Json.decode_of_document`** — a whole document. -/

namespace AliasReport.Json

open AliasReport.Document

/-! ## Unions -/

/-- A text is read as a name. -/
theorem readName_of_value {depth : Nat} {cs rest : List Char} {s : String}
    (h : Value depth cs (.text s) rest) (wanted : Wanted) :
    readName wanted cs = .ok (s, rest) := by
  have hscalar : Scalar cs (.text s) rest := h.scalar nofun nofun
  unfold readName
  rw [readHead_of_scalar hscalar]
  rfl

/-- A bare name is read as the choice that it names. -/
theorem readJsonChoice_of_value {depth : Nat} {cs rest : List Char} {first name : String}
    {others : List String} {i : (Shape.choice first others).Val}
    (h : Value depth cs (.text name) rest) (hname : choose first others name = .ok i)
    (limit : Nat) : readJsonChoice first others limit cs = .ok (i, rest) := by
  have hscalar : Scalar cs (.text name) rest := h.scalar nofun nofun
  obtain ⟨inner, s, rfl, hquote, hspells⟩ := hscalar.spells
  have hinner : Scalar ('"' :: inner) (.text (String.ofList s)) rest := .text rfl hspells
  unfold readJsonChoice
  rw [hquote]
  simp [readName_of_value (hinner.value depth), hname, bind, pure, Except.pure]

/-- A tag that names a known case is read. -/
theorem readTag_of_value {depth : Nat} {cs rest : List Char} {known : List String} {name : String}
    (h : Value depth cs (.text name) rest) (hknown : name ∈ known) :
    readTag known cs = .ok (name, rest) := by
  unfold readTag
  rw [readName_of_value h]
  simp [bind, hknown, pure, Except.pure]

/-- What is known of a union when some of its entries have been read: the tag, if it is among them,
and the other entries, the last one first. -/
def taggedState (tag chosen : String) (done : List (String × Buffered)) :
    Option String × List (Buffered × Buffered) :=
  (if tag ∈ done.map Prod.fst then some chosen else none,
    (keyed (done.filter (·.1 ≠ tag))).reverse)

/-- The tag is known once it has been read. -/
theorem taggedState_append_tag (tag chosen : String) (done : List (String × Buffered))
    (b : Buffered) :
    taggedState tag chosen (done ++ [(tag, b)]) =
      (some chosen, (taggedState tag chosen done).2) := by
  have hmem : tag ∈ (done ++ [(tag, b)]).map Prod.fst := by simp
  unfold taggedState
  rw [if_pos hmem]
  simp

/-- Another member is kept. -/
theorem taggedState_append_other {tag key : String} (hkey : key ≠ tag) (chosen : String)
    (done : List (String × Buffered)) (b : Buffered) :
    taggedState tag chosen (done ++ [(key, b)]) =
      ((taggedState tag chosen done).1, (.text key, b) :: (taggedState tag chosen done).2) := by
  have hmem : tag ∈ (done ++ [(key, b)]).map Prod.fst ↔ tag ∈ done.map Prod.fst := by
    simp [hkey.symm]
  unfold taggedState
  rw [if_congr hmem rfl rfl]
  simp [hkey, keyed]

/-- One entry of a union is read when those before it have been read. -/
theorem readTaggedMember_of_value {tag chosen key : String} {known : List String}
    (hchosen : chosen ∈ known) {before after : List (String × Buffered)} {b : Buffered}
    (htag : (before ++ (key, b) :: after).filter (·.1 = tag) = [(tag, .text chosen)])
    {depth : Nat} {cs rest : List Char} (h : BehindColon (Value depth) cs b rest) :
    readTaggedMember tag known depth key (taggedState tag chosen before) cs =
      .ok (taggedState tag chosen (before ++ [(key, b)]), rest) := by
  obtain ⟨inner, hcolon, hvalue⟩ := h
  unfold readTaggedMember
  rw [readColon_of_skipBlanks hcolon]
  by_cases hkey : key = tag
  · subst hkey
    obtain ⟨hbefore, rfl⟩ := notMem_of_filter_eq_singleton htag
    have hnone : (taggedState key chosen before).1 = none := if_neg hbefore
    rw [taggedState_append_tag, if_pos rfl, hnone]
    simp [readTag_of_value hvalue hchosen, bind, pure, Except.pure]
  · rw [taggedState_append_other hkey, if_neg hkey]
    simp [readBuffered_of_value hvalue, bind, pure, Except.pure]

/-- **The tag of a union is read, and its other members are buffered.** -/
theorem readTagged_of_entries {tag chosen : String} {known : List String}
    (hchosen : chosen ∈ known) {es : List (String × Buffered)}
    (htag : es.filter (·.1 = tag) = [(tag, .text chosen)]) {depth : Nat} {cs rest : List Char}
    (h : Entries (Value depth) true cs es rest) :
    readTagged tag known depth true cs =
      .ok ((chosen, .mapping (keyed (es.filter (·.1 ≠ tag)))), rest) := by
  have hmem : tag ∈ es.map Prod.fst := by
    simp [mem_map_fst_iff, htag]
  have hstate : readMembers (readTaggedMember tag known depth) (none, []) cs =
      .ok (taggedState tag chosen es, rest) :=
    readMembers_of_entries (Value.proper depth) h (taggedState tag chosen)
      fun before key b after hes cs rest => readTaggedMember_of_value hchosen (hes ▸ htag)
  unfold readTagged
  rw [if_pos rfl, hstate]
  simp [bind, taggedState, hmem, pure, Except.pure]

end AliasReport.Json

namespace AliasReport.Document

open AliasReport.Json

/-! ## Shapes behind their first character -/

section

variable {depth : Nat} {cs inner : List Char}

/-- A list in brackets is read by its items. -/
theorem Shape.readJson_list_of_open {item : Shape} (h : skipBlanks cs = '[' :: inner) :
    (Shape.list item).readJson (depth + 1) cs = readItems (item.readJson depth) true inner := by
  unfold Shape.readJson
  rw [readHead_of_skipBlanks_list h]
  rfl

/-- A record in the brackets of a list is read by its members in their order. -/
theorem Shape.readJson_record_of_list {name : String} {members : Members}
    (h : skipBlanks cs = '[' :: inner) :
    (Shape.record name members).readJson (depth + 1) cs =
      members.readJsonItems (.recordItems name members.count) depth 0 inner := by
  unfold Shape.readJson
  rw [readHead_of_skipBlanks_list h]
  rfl

/-- A record in braces is read by its members under their names, and then completed. -/
theorem Shape.readJson_record_of_object {name : String} {members : Members}
    (h : skipBlanks cs = '\x7b' :: inner) :
    (Shape.record name members).readJson (depth + 1) cs =
      (readMembers (members.readJsonMember depth) members.empty inner).bind fun x =>
        (matching (members.finish x.1)).map (·, x.2) := by
  unfold Shape.readJson
  rw [readHead_of_skipBlanks_object h]
  change (readMembers _ _ _).bind _ = (readMembers _ _ _).bind _
  refine congrArg _ (funext fun x => ?_)
  exact bind_ok_eq_map _ _

/-- What does not start like null is read as something. -/
theorem Shape.readJson_optional_of_head {item : Shape} (h : (skipBlanks cs).head? ≠ some 'n') :
    (Shape.optional item).readJson depth cs =
      (item.readJson depth cs).map fun x => (some x.1, x.2) := by
  conv_lhs => unfold Shape.readJson
  cases hskip : skipBlanks cs with
  | nil => rfl
  | cons c tail =>
    rw [hskip] at h
    exact if_neg fun hc => h (congrArg some hc)

/-- Null is read as nothing. -/
theorem Shape.readJson_optional_of_null {item : Shape} {tail : List Char}
    (h : skipBlanks cs = 'n' :: tail) :
    (Shape.optional item).readJson depth cs =
      (readKeyword "ull".toList tail).map fun rest => (none, rest) := by
  conv_lhs => unfold Shape.readJson
  rw [h]
  rfl

end

/-! ## Values of any shape -/

/-- A member of another name is left to those behind. -/
theorem Members.readJsonMember_of_ne {name key : String} (hkey : key ≠ name) {required : Bool}
    {shape : Shape} {rest : Members} {depth : Nat} {slot : Option shape.Val} {slots : rest.Slots}
    {cs : List Char} :
    (Members.cons name required shape rest).readJsonMember depth key (slot, slots) cs =
      (rest.readJsonMember depth key slots cs).map fun (slots, cs) => ((slot, slots), cs) := by
  cases slot <;> exact if_neg hkey

mutual

/-- **A text that represents a value is read as this value.** -/
theorem Shape.readJson_of_value :
    (s : Shape) → s.sound = true → ∀ {depth cs b rest v}, Value depth cs b rest →
      s.Represents b v → s.readJson depth cs = .ok (v, rest)
  | .word w, _, depth, cs, b, rest, v, hvalue, h => by
    cases h
    -- A value that is no collection stands there as a scalar.
    have hscalar : Scalar cs (.unsigned (w.unpack v)) rest := hvalue.scalar nofun nofun
    unfold Shape.readJson
    simp [readHead_of_scalar hscalar, bind, w.ofFound_unpack v, pure, Except.pure]
  | .truth _, _, depth, cs, b, rest, v, hvalue, h => by
    cases h
    have hscalar : Scalar cs (.truth v) rest := hvalue.scalar nofun nofun
    unfold Shape.readJson
    rw [readHead_of_scalar hscalar]
    rfl
  | .text, _, depth, cs, b, rest, v, hvalue, h => by
    cases h
    exact readName_of_value hvalue .text
  | .choice first others, hsound, depth, cs, b, rest, v, hvalue, h => by
    cases h
    exact readJsonChoice_of_value hvalue (choose_chosen (of_decide_eq_true hsound) v) depth
  | .list item, hsound, depth, cs, b, rest, vs, hvalue, h => by
    obtain ⟨bs, rfl, hbs⟩ := h
    obtain ⟨depth, inner, rfl, hopen, hitems⟩ := hvalue.list
    have hvs : readItems (item.readJson depth) true inner = .ok (vs, rest) :=
      readItems_of_items (Value.proper depth) hitems <|
        hbs.imp fun _ _ hb _ _ hvalue => item.readJson_of_value hsound hvalue hb
    rw [Shape.readJson_list_of_open hopen]
    exact hvs
  | .optional item, hsound, depth, cs, b, rest, v, hvalue, h => by
    cases v with
    | none =>
      cases h
      have hscalar : Scalar cs .nothing rest := hvalue.scalar nofun nofun
      rw [Shape.readJson_optional_of_null hscalar.null_text]
      rfl
    | some v =>
      obtain ⟨hb, h⟩ := h
      have hitem := item.readJson_of_value (Bool.and_eq_true_iff.mp hsound).2 hvalue h
      obtain ⟨c, tail, htail, hc⟩ := hvalue.head_ne hb
      rw [Shape.readJson_optional_of_head (by simpa [htail] using hc), hitem]
      rfl
  | .record name members, hsound, depth, cs, b, rest, vs, hvalue, h => by
    obtain ⟨es, rfl, hes⟩ := h
    obtain ⟨hnodup, hsound⟩ := Bool.and_eq_true_iff.mp hsound
    obtain ⟨depth, inner, rfl, hopen, hentries⟩ := hvalue.object
    -- Slots are filled in the order of the text, and emptied in that of the record.
    have hslots : readMembers (members.readJsonMember depth) members.empty inner =
        .ok (members.reached (es.map Prod.fst) vs, rest) := by
      rw [← members.reached_nil vs]
      refine readMembers_of_entries (Value.proper depth) hentries
        (fun done => members.reached (done.map Prod.fst) vs) ?_
      intro before key b after heq cs rest hb
      rw [List.map_append]
      exact members.readJsonMember_of_value heq (of_decide_eq_true hnodup) hsound hes hb
    rw [Shape.readJson_record_of_object hopen, hslots, ok_bind, members.finish_reached vs hes]
    rfl
  | .union name tag cases, hsound, depth, cs, b, rest, v, hvalue, h => by
    obtain ⟨es, rfl, hes⟩ := h
    obtain ⟨hnodup, hsound⟩ := Bool.and_eq_true_iff.mp hsound
    -- The case is read from the buffer that holds the other members.
    obtain ⟨chosen, hchosen, htag, hcase⟩ :=
      cases.ofBuffered_of_represents name cases.names (of_decide_eq_true hnodup) hsound hes
    obtain ⟨depth, inner, rfl, hopen, hentries⟩ := hvalue.object
    unfold Shape.readJson
    simp only [readHead_of_skipBlanks_object hopen, bind, ok_bind, pure, Except.pure,
      readTagged_of_entries hchosen htag hentries, hcase]
    rfl

/-- **A member is read** from its entry when those before it have been read. -/
theorem Members.readJsonMember_of_value {es before after : List (String × Buffered)} {key : String}
    {b : Buffered} (hes : es = before ++ (key, b) :: after) :
    (m : Members) → m.names.Nodup → m.sound = true → ∀ {vs}, m.Represents es vs →
      ∀ {depth cs rest}, BehindColon (Value depth) cs b rest →
        m.readJsonMember depth key (m.reached (before.map Prod.fst) vs) cs =
          .ok (m.reached (before.map Prod.fst ++ [key]) vs, rest)
  | .nil, _, _, _, _, depth, cs, rest, ⟨inner, hcolon, hvalue⟩ => by
    unfold Members.readJsonMember
    simp only [readColon_of_skipBlanks hcolon, skipValue_of_value hvalue, bind, ok_bind]
    rfl
  | .cons name required shape others, hnodup, hsound, (v, vs), h, depth, cs, rest, hbehind => by
    obtain ⟨hfresh, hnodup⟩ := List.nodup_cons.mp hnodup
    simp only [Members.sound, Bool.and_eq_true] at hsound
    -- The entry is the one of this member or belongs to those behind it.
    by_cases hkey : key = name
    · subst hkey hes
      obtain ⟨hv, hbefore, hafter⟩ := Members.reached_append_self hfresh h
      obtain ⟨inner, hcolon, hvalue⟩ := hbehind
      have hv := shape.readJson_of_value hsound.1.2 hvalue hv
      rw [hbefore, hafter]
      simp only [Members.readJsonMember, if_pos, readColon_of_skipBlanks hcolon, hv, bind, ok_bind]
      rfl
    · obtain ⟨slot, hbefore, hafter⟩ := Members.reached_append_of_ne hkey (before.map Prod.fst)
      rw [hbefore, hafter, Members.readJsonMember_of_ne hkey,
        others.readJsonMember_of_value hes hnodup hsound.2 h.2 hbehind]
      rfl

end

end AliasReport.Document

namespace AliasReport.Json

open AliasReport.Document

/-- **A document that represents a value is decoded** to this value. -/
theorem decode_of_document {α : Type} [Described α]
    (hsound : (Described.shape α).sound = true) {text : String} {b : Buffered}
    (htext : Document depthLimit text b) {a : α}
    (h : (Described.shape α).Represents b (Described.toVal a)) : decode α text = .ok a := by
  obtain ⟨rest, hvalue, hrest⟩ := htext
  have hread := (Described.shape α).readJson_of_value hsound hvalue h
  have hend : readEnd rest = .ok () := by simp [readEnd, hrest]
  unfold decode
  simp only [hread, hend, bind, ok_bind, Described.ofVal_toVal]
  rfl

end AliasReport.Json
