import AliasReport.Json.Decode
import AliasReport.Proofs.Document.Entries
import AliasReport.Proofs.Json.Consumption

/-! # Unions and what would be buffered of them

A union is read member by member: its tag is recognized at once, whatever else there is goes into
a buffer. The same value comes out where everything is buffered first and looked at afterwards.

* **`readName_eq_ok_iff`** — names are texts that would be buffered as such.
* **`Tagged`** — what is known of a union while its members are read.
* **`readTagged_object_eq_ok_iff`**, **`readTagged_list_eq_ok_iff`** — tags among other members and
  in front of other items.
* **`Shape.readJson_union_eq_ok_iff`** — unions are read as they would be from a buffer. -/

namespace AliasReport.Json

open AliasReport.Document

/-! ## Names and tags -/

/-- Names are read by a reader of values. -/
theorem takesValues_readName (wanted : Wanted) : TakesValues (readName wanted) := by
  refine takesValues_of_scalar (fun found cs => ?_) nofun nofun
  cases found <;> rfl

/-- Only a list is buffered as one, and only an object as one. -/
theorem bufferFrom_eq_scalar {depth : Nat} {found : Found} {cs rest : List Char} {b : Buffered}
    (h : bufferFrom depth (found, cs) = .ok (b, rest)) (hlist : b.found ≠ .sequence)
    (hobject : b.found ≠ .mapping) : b = ofScalar found ∧ rest = cs := by
  -- A list or an object is buffered as one, or is open too deep.
  by_cases hfound : found ≠ .sequence ∧ found ≠ .mapping
  · rw [bufferFrom_of_scalar hfound] at h
    cases h
    exact ⟨rfl, rfl⟩
  · cases found with
    | sequence =>
      cases depth with
      | zero => cases h
      | succ depth =>
        obtain ⟨x, -, heq⟩ := map_eq_ok_iff.mp h
        cases heq
        exact absurd rfl hlist
    | mapping =>
      cases depth with
      | zero => cases h
      | succ depth =>
        obtain ⟨x, -, heq⟩ := map_eq_ok_iff.mp h
        cases heq
        exact absurd rfl hobject
    | _ => exact absurd ⟨nofun, nofun⟩ hfound

/-- **A name is a text that would be buffered as such.** -/
theorem readName_eq_ok_iff (wanted : Wanted) (depth : Nat) {cs rest : List Char} {s : String} :
    readName wanted cs = .ok (s, rest) ↔ readBuffered depth cs = .ok (.text s, rest) := by
  rw [readBuffered_eq]
  constructor
  · intro h
    obtain ⟨⟨found, behind⟩, hhead, h⟩ := bind_eq_ok_iff.mp h
    refine bind_eq_ok_iff.mpr ⟨_, hhead, ?_⟩
    cases found <;> cases h
    rfl
  · intro h
    obtain ⟨⟨found, behind⟩, hhead, h⟩ := bind_eq_ok_iff.mp h
    obtain ⟨hfound, rfl⟩ := bufferFrom_eq_scalar h nofun nofun
    refine bind_eq_ok_iff.mpr ⟨_, hhead, ?_⟩
    cases found <;> cases hfound
    rfl

/-- A tag is a buffered text that is one of the known names. -/
theorem readTag_eq_ok_iff {known : List String} (depth : Nat) {cs rest : List Char}
    {name : String} :
    readTag known cs = .ok (name, rest) ↔
      readBuffered depth cs = .ok (.text name, rest) ∧ name ∈ known := by
  rw [← readName_eq_ok_iff .caseName]
  constructor
  · intro h
    obtain ⟨⟨name, rest⟩, hname, h⟩ := bind_eq_ok_iff.mp h
    dsimp only at h
    split_ifs at h with hknown
    · cases h
      exact ⟨hname, hknown⟩
  · rintro ⟨hname, hknown⟩
    exact bind_eq_ok_iff.mpr ⟨_, hname, if_pos hknown⟩

/-! ## Unions -/

/-- **What is known of a union** once some of its members have been read: its tag, which is a known
name and stands there once if at all, and the other members. -/
def Tagged (tag : String) (known : List String) (entries : List (Buffered × Buffered))
    (s : Option String × List (Buffered × Buffered)) : Prop :=
  s.2 = entriesBeside tag entries ∧
    ((s.1 = none ∧ entriesUnder tag entries = []) ∨
      ∃ chosen ∈ known, s.1 = some chosen ∧
        entriesUnder tag entries = [(.text tag, .text chosen)])

section

variable {tag : String} {known : List String} {depth : Nat} {key : String} {cs rest : List Char}
  {entries entries' : List (Buffered × Buffered)}
  {s s' : Option String × List (Buffered × Buffered)}

/-- An entry of an object is a value behind a colon, put in front of the others. -/
theorem readEntry_eq_ok_iff :
    readEntry depth key entries cs = .ok (entries', rest) ↔
      ∃ inner b, readColon cs = .ok inner ∧ readBuffered depth inner = .ok (b, rest) ∧
        entries' = (.text key, b) :: entries := by
  constructor
  · intro h
    obtain ⟨inner, hcolon, h⟩ := bind_eq_ok_iff.mp h
    obtain ⟨⟨b, rest⟩, hb, heq⟩ := map_eq_ok_iff.mp h
    cases heq
    exact ⟨inner, b, hcolon, hb, rfl⟩
  · rintro ⟨inner, b, hcolon, hb, rfl⟩
    exact bind_eq_ok_iff.mpr ⟨inner, hcolon, map_eq_ok_iff.mpr ⟨_, hb, rfl⟩⟩

/-- The tag of a union is the first of its kind, and known. -/
theorem readTaggedMember_tag_eq_ok_iff :
    readTaggedMember tag known depth tag s cs = .ok (s', rest) ↔
      s.1 = none ∧ ∃ inner name, readColon cs = .ok inner ∧
        readBuffered depth inner = .ok (.text name, rest) ∧ name ∈ known ∧
          s' = (some name, s.2) := by
  have htag : ∀ {inner name rest}, readTag known inner = .ok (name, rest) ↔
      readBuffered depth inner = .ok (.text name, rest) ∧ name ∈ known :=
    readTag_eq_ok_iff depth
  rw [readTaggedMember, if_pos rfl]
  cases hs : s.1 with
  | some name => simp
  | none =>
    simp only [Option.isSome_none, Bool.false_eq_true, if_false, true_and]
    constructor
    · intro h
      obtain ⟨inner, hcolon, h⟩ := bind_eq_ok_iff.mp h
      obtain ⟨⟨name, rest⟩, hname, heq⟩ := bind_eq_ok_iff.mp h
      cases heq
      obtain ⟨hb, hknown⟩ := htag.mp hname
      exact ⟨inner, name, hcolon, hb, hknown, rfl⟩
    · rintro ⟨inner, name, hcolon, hb, hknown, rfl⟩
      exact bind_eq_ok_iff.mpr
        ⟨inner, hcolon, bind_eq_ok_iff.mpr ⟨_, htag.mpr ⟨hb, hknown⟩, rfl⟩⟩

/-- A member of a union that is not its tag is kept for the case to read. -/
theorem readTaggedMember_eq_ok_iff_of_ne (hkey : key ≠ tag) :
    readTaggedMember tag known depth key s cs = .ok (s', rest) ↔
      ∃ inner b, readColon cs = .ok inner ∧ readBuffered depth inner = .ok (b, rest) ∧
        s' = (s.1, (.text key, b) :: s.2) := by
  rw [readTaggedMember, if_neg hkey]
  constructor
  · intro h
    obtain ⟨inner, hcolon, h⟩ := bind_eq_ok_iff.mp h
    obtain ⟨⟨b, rest⟩, hb, heq⟩ := bind_eq_ok_iff.mp h
    cases heq
    exact ⟨inner, b, hcolon, hb, rfl⟩
  · rintro ⟨inner, b, hcolon, hb, rfl⟩
    exact bind_eq_ok_iff.mpr ⟨inner, hcolon, bind_eq_ok_iff.mpr ⟨_, hb, rfl⟩⟩

/-- Another entry does not change what is known of the tag. -/
theorem Tagged.cons_of_ne (h : Tagged tag known entries s) (hkey : key ≠ tag) (b : Buffered) :
    Tagged tag known ((.text key, b) :: entries) (s.1, (.text key, b) :: s.2) := by
  obtain ⟨hothers, htag⟩ := h
  constructor
  · simpa [entriesBeside, Buffered.found, hkey] using hothers
  · simpa [entriesUnder, Buffered.found, hkey] using htag

/-- The tag is known from its entry on. -/
theorem Tagged.cons_tag (h : Tagged tag known entries s) (hs : s.1 = none) {chosen : String}
    (hchosen : chosen ∈ known) :
    Tagged tag known ((.text tag, .text chosen) :: entries) (some chosen, s.2) := by
  obtain ⟨hothers, ⟨-, htag⟩ | ⟨_, -, hsome, -⟩⟩ := h
  · constructor
    · simpa [entriesBeside, Buffered.found] using hothers
    · refine .inr ⟨chosen, hchosen, rfl, ?_⟩
      simpa [entriesUnder, Buffered.found] using htag
  · rw [hs] at hsome
    cases hsome

/-- A member of a union is read as one that is buffered. -/
theorem readEntry_of_readTaggedMember (h : Tagged tag known entries s)
    (hread : readTaggedMember tag known depth key s cs = .ok (s', rest)) :
    ∃ entries', readEntry depth key entries cs = .ok (entries', rest) ∧
      Tagged tag known entries' s' := by
  by_cases hkey : key = tag
  · subst hkey
    obtain ⟨hs, inner, name, hcolon, hb, hknown, rfl⟩ := readTaggedMember_tag_eq_ok_iff.mp hread
    exact ⟨_, readEntry_eq_ok_iff.mpr ⟨inner, _, hcolon, hb, rfl⟩, h.cons_tag hs hknown⟩
  · obtain ⟨inner, b, hcolon, hb, rfl⟩ := (readTaggedMember_eq_ok_iff_of_ne hkey).mp hread
    exact ⟨_, readEntry_eq_ok_iff.mpr ⟨inner, _, hcolon, hb, rfl⟩, h.cons_of_ne hkey b⟩

/-- A member that is buffered is read as one of a union, if no tag but a known one is among the
members. -/
theorem readTaggedMember_of_readEntry (h : Tagged tag known entries s)
    (hread : readEntry depth key entries cs = .ok (entries', rest)) {chosen : String}
    (hknown : chosen ∈ known) (hunder : entriesUnder tag entries' <:+ [(.text tag, .text chosen)]) :
    ∃ s', readTaggedMember tag known depth key s cs = .ok (s', rest) ∧
      Tagged tag known entries' s' := by
  obtain ⟨inner, b, hcolon, hb, rfl⟩ := readEntry_eq_ok_iff.mp hread
  by_cases hkey : key = tag
  · subst hkey
    -- There is no room for a tag before this one.
    have hhead : entriesUnder key ((.text key, b) :: entries) =
        (.text key, b) :: entriesUnder key entries := by
      simp [entriesUnder, Buffered.found]
    rw [hhead] at hunder
    have hnil : entriesUnder key entries = [] := by
      have hlen := hunder.length_le
      simpa using hlen
    rw [hnil] at hunder
    obtain ⟨hentry, -⟩ := List.cons.inj (hunder.eq_of_length rfl)
    obtain ⟨-, rfl⟩ := Prod.mk.inj hentry
    have hs : s.1 = none := by
      obtain ⟨-, ⟨hs, -⟩ | ⟨_, -, -, htag⟩⟩ := h
      · exact hs
      · rw [hnil] at htag
        cases htag
    exact ⟨_, readTaggedMember_tag_eq_ok_iff.mpr ⟨hs, inner, chosen, hcolon, hb, hknown, rfl⟩,
      h.cons_tag hs hknown⟩
  · exact ⟨_, (readTaggedMember_eq_ok_iff_of_ne hkey).mpr ⟨inner, b, hcolon, hb, rfl⟩,
      h.cons_of_ne hkey b⟩

/-- The members of a union are read as ones that are buffered. -/
theorem run_readEntry_of_tagged {first : Bool}
    (hrun : Run (readTaggedMember tag known depth) first s cs s' rest)
    (h : Tagged tag known entries s) :
    ∃ entries', Run (readEntry depth) first entries cs entries' rest ∧
      Tagged tag known entries' s' := by
  induction hrun generalizing entries with
  | close hclose => exact ⟨entries, .close hclose, h⟩
  | member hkey hmember _ ih =>
    obtain ⟨mid, hmid, h⟩ := readEntry_of_readTaggedMember h hmember
    obtain ⟨entries', htail, h⟩ := ih h
    exact ⟨entries', .member hkey hmid htail, h⟩

/-- Entries are put in front of those before them. -/
theorem suffix_of_run_readEntry {first : Bool}
    (hrun : Run (readEntry depth) first entries cs entries' rest) : entries <:+ entries' := by
  induction hrun with
  | close hclose => exact List.suffix_refl _
  | member hkey hmember _ ih =>
    obtain ⟨inner, b, -, -, rfl⟩ := readEntry_eq_ok_iff.mp hmember
    exact (List.suffix_cons _ _).trans ih

/-- Members that are buffered are read as those of a union, if its tag is among them once and
known. -/
theorem run_readTaggedMember_of_entries {first : Bool}
    (hrun : Run (readEntry depth) first entries cs entries' rest) {chosen : String}
    (hknown : chosen ∈ known) (hunder : entriesUnder tag entries' = [(.text tag, .text chosen)])
    (h : Tagged tag known entries s) :
    ∃ s', Run (readTaggedMember tag known depth) first s cs s' rest ∧
      Tagged tag known entries' s' := by
  induction hrun generalizing s with
  | close hclose => exact ⟨s, .close hclose, h⟩
  | member hkey hmember htail ih =>
    -- Entries are only added, so that the tags so far are among those at the end.
    have hsuffix := (suffix_of_run_readEntry htail).filter fun entry => entry.1.found = .text tag
    obtain ⟨t, ht, h⟩ := readTaggedMember_of_readEntry h hmember hknown (hunder ▸ hsuffix)
    obtain ⟨s', htail, h⟩ := ih hunder h
    exact ⟨s', .member hkey ht htail, h⟩

/-- The members of a union are read by a reader of members. -/
theorem takesMembers_readTaggedMember :
    TakesMembers (readTaggedMember tag known depth) where
  near key s := by
    refine .ite (fun _ => .ite (fun _ => .error _) fun _ => ?_) fun _ => ?_
    · refine .behind readColon_local (.bind ?_ fun name => .pure _)
      exact (takesValues_readName _).near.bind fun name =>
        .ite (fun _ => .pure name) fun _ => .error _
    · exact .behind readColon_local ((takesValues_readBuffered depth).near.bind fun b => .pure _)
  skips {key s cs s' rest} h := by
    by_cases hkey : key = tag
    · subst hkey
      obtain ⟨-, inner, name, hcolon, hb, -, -⟩ := readTaggedMember_tag_eq_ok_iff.mp h
      exact ⟨inner, readColon_eq_ok_iff.mp hcolon, (takesValues_readBuffered depth).skips hb⟩
    · obtain ⟨inner, b, hcolon, hb, -⟩ := (readTaggedMember_eq_ok_iff_of_ne hkey).mp h
      exact ⟨inner, readColon_eq_ok_iff.mp hcolon, (takesValues_readBuffered depth).skips hb⟩

/-- **The tag of a union that is an object** stands there once, beside the other members. -/
theorem readTagged_object_eq_ok_iff {chosen : String} {body : Buffered} :
    readTagged tag known depth true cs = .ok ((chosen, body), rest) ↔
      ∃ entries, readMembers (readEntry depth) [] cs = .ok (entries, rest) ∧ chosen ∈ known ∧
        entriesUnder tag entries = [(.text tag, .text chosen)] ∧
          body = .mapping (entriesBeside tag entries).reverse := by
  have hentry := takesMembers_readEntry (takesValues_readBuffered depth)
  have hmember : TakesMembers (readTaggedMember tag known depth) := takesMembers_readTaggedMember
  have hnone : Tagged tag known [] (none, []) := ⟨rfl, .inl ⟨rfl, rfl⟩⟩
  constructor
  · intro h
    obtain ⟨⟨⟨name, others⟩, rest⟩, hread, h⟩ := bind_eq_ok_iff.mp h
    -- The run over the members is one that buffers them, and tells what became of the tag.
    obtain ⟨entries, hrun, hothers, htag⟩ :=
      run_readEntry_of_tagged ((readRun_eq_ok_iff hmember).mp hread) hnone
    cases name with
    | none => cases h
    | some name =>
      cases h
      obtain ⟨hname, -⟩ | ⟨chosen, hknown, hname, hunder⟩ := htag
      · cases hname
      · cases hname
        exact ⟨entries, (readRun_eq_ok_iff hentry).mpr hrun, hknown, hunder, by rw [← hothers]⟩
  · rintro ⟨entries, hread, hknown, hunder, rfl⟩
    obtain ⟨⟨name, others⟩, hrun, hothers, htag⟩ :=
      run_readTaggedMember_of_entries ((readRun_eq_ok_iff hentry).mp hread) hknown hunder hnone
    obtain ⟨-, hnil⟩ | ⟨name', -, hname, hunder'⟩ := htag
    · rw [hunder] at hnil
      cases hnil
    · rw [hunder] at hunder'
      cases hunder'
      obtain rfl : name = some chosen := hname
      obtain rfl : others = entriesBeside tag entries := hothers
      exact bind_eq_ok_iff.mpr ⟨_, (readRun_eq_ok_iff hmember).mpr hrun, rfl⟩

/-- **The tag of a union that is a list** is its first item. -/
theorem readTagged_list_eq_ok_iff {chosen : String} {body : Buffered} :
    readTagged tag known depth false cs = .ok ((chosen, body), rest) ↔
      ∃ items, readItems (readBuffered depth) true cs = .ok (.text chosen :: items, rest) ∧
        chosen ∈ known ∧ body = .sequence items := by
  have htag : ∀ {inner name rest}, readTag known inner = .ok (name, rest) ↔
      readBuffered depth inner = .ok (.text name, rest) ∧ name ∈ known :=
    readTag_eq_ok_iff depth
  simp only [readItems_eq_ok_cons_iff (takesValues_readBuffered depth)]
  constructor
  · intro h
    obtain ⟨next, hnext, h⟩ := bind_eq_ok_iff.mp h
    cases next with
    | inl rest => cases h
    | inr inner =>
      obtain ⟨⟨name, mid⟩, hname, h⟩ := bind_eq_ok_iff.mp h
      obtain ⟨⟨items, rest⟩, hitems, heq⟩ := bind_eq_ok_iff.mp h
      cases heq
      obtain ⟨hb, hknown⟩ := htag.mp hname
      exact ⟨items, ⟨inner, hnext, mid, hb, hitems⟩, hknown, rfl⟩
  · rintro ⟨items, ⟨inner, hnext, mid, hb, hitems⟩, hknown, rfl⟩
    refine bind_eq_ok_iff.mpr ⟨_, hnext, bind_eq_ok_iff.mpr ⟨_, htag.mpr ⟨hb, hknown⟩, ?_⟩⟩
    exact bind_eq_ok_iff.mpr ⟨_, hitems, rfl⟩

end

end AliasReport.Json

namespace AliasReport.Document

open AliasReport.Json

/-- A reading that can only mismatch succeeds as what it is made of. -/
theorem matching_eq_ok_iff {α : Type} {x : Except Mismatch α} {v : α} :
    matching x = .ok v ↔ x = .ok v := by
  cases x <;> simp

section

variable {name tag : String} {cases : Cases} {depth : Nat} {cs rest : List Char} {v : cases.Val}

/-- The case that a tag chooses, read from the rest of the value. -/
def Cases.readTagged (name tag : String) (cases : Cases) (depth : Nat) (isObject : Bool)
    (cs : List Char) : Except Fault (cases.Val × List Char) :=
  (Json.readTagged tag cases.names depth isObject cs).bind fun ((chosen, body), rest) =>
    (matching (cases.ofBuffered name cases.names chosen body)).map (·, rest)

/-- A tagged union is read as its tag and the rest of its members, from which the case is made. -/
theorem Cases.readTagged_eq_ok_iff {isObject : Bool} :
    cases.readTagged name tag depth isObject cs = .ok (v, rest) ↔
      ∃ chosen body,
        Json.readTagged tag cases.names depth isObject cs = .ok ((chosen, body), rest) ∧
          cases.ofBuffered name cases.names chosen body = .ok v := by
  simp [Cases.readTagged, bind_eq_ok_iff, map_eq_ok_iff, matching_eq_ok_iff]

/-- A list is read as a union as it would be from a buffer. -/
theorem Cases.readTagged_list_eq_ok_iff :
    cases.readTagged name tag depth false cs = .ok (v, rest) ↔
      ∃ b, bufferFrom (depth + 1) (.sequence, cs) = .ok (b, rest) ∧
        (Shape.union name tag cases).ofBuffered b = .ok v := by
  rw [Cases.readTagged_eq_ok_iff]
  constructor
  · rintro ⟨chosen, body, htagged, hv⟩
    obtain ⟨items, hitems, -, rfl⟩ := Json.readTagged_list_eq_ok_iff.mp htagged
    exact ⟨_, map_eq_ok_iff.mpr ⟨_, hitems, rfl⟩,
      Shape.ofBuffered_union_sequence_eq_ok_iff.mpr ⟨chosen, items, rfl, hv⟩⟩
  · rintro ⟨b, hbuffer, hb⟩
    obtain ⟨⟨items, rest⟩, hitems, heq⟩ := map_eq_ok_iff.mp hbuffer
    cases heq
    obtain ⟨chosen, others, rfl, hv⟩ := Shape.ofBuffered_union_sequence_eq_ok_iff.mp hb
    have hknown := cases.mem_names_of_ofBuffered hv
    exact ⟨chosen, _, Json.readTagged_list_eq_ok_iff.mpr ⟨others, hitems, hknown, rfl⟩, hv⟩

/-- An object is read as a union as it would be from a buffer, where its members stand in order. -/
theorem Cases.readTagged_object_eq_ok_iff :
    cases.readTagged name tag depth true cs = .ok (v, rest) ↔
      ∃ b, bufferFrom (depth + 1) (.mapping, cs) = .ok (b, rest) ∧
        (Shape.union name tag cases).ofBuffered b = .ok v := by
  rw [Cases.readTagged_eq_ok_iff]
  constructor
  · rintro ⟨chosen, body, htagged, hv⟩
    obtain ⟨entries, hentries, -, hunder, rfl⟩ := Json.readTagged_object_eq_ok_iff.mp htagged
    refine ⟨_, map_eq_ok_iff.mpr ⟨_, hentries, rfl⟩,
      Shape.ofBuffered_union_mapping_eq_ok_iff.mpr ⟨chosen, ?_, ?_⟩⟩
    · rw [entriesUnder_reverse, hunder, List.reverse_singleton]
    · rw [entriesBeside_reverse]
      exact hv
  · rintro ⟨b, hbuffer, hb⟩
    obtain ⟨⟨entries, rest⟩, hentries, heq⟩ := map_eq_ok_iff.mp hbuffer
    cases heq
    obtain ⟨chosen, hunder, hv⟩ := Shape.ofBuffered_union_mapping_eq_ok_iff.mp hb
    -- A list of one tag is its own reverse.
    rw [entriesUnder_reverse, List.reverse_eq_iff] at hunder
    rw [entriesBeside_reverse] at hv
    have hknown := cases.mem_names_of_ofBuffered hv
    exact ⟨chosen, _,
      Json.readTagged_object_eq_ok_iff.mpr ⟨entries, hentries, hknown, hunder, rfl⟩, hv⟩

/-- **A union is read as it would be from a buffer.** -/
theorem Shape.readJson_union_eq_ok_iff :
    (Shape.union name tag cases).readJson depth cs = .ok (v, rest) ↔
      ∃ b, readBuffered depth cs = .ok (b, rest) ∧
        (Shape.union name tag cases).ofBuffered b = .ok v := by
  rw [readBuffered_eq]
  unfold Shape.readJson
  cases readHead cs with
  | error err => simp [bind, Except.bind]
  | ok head =>
    obtain ⟨found, inner⟩ := head
    cases found with
    | sequence =>
      cases depth with
      | zero => simp [bind, Except.bind, pure, Except.pure, bufferFrom, malformed]
      | succ depth => exact Cases.readTagged_list_eq_ok_iff
    | mapping =>
      cases depth with
      | zero => simp [bind, Except.bind, pure, Except.pure, bufferFrom, malformed]
      | succ depth => exact Cases.readTagged_object_eq_ok_iff
    -- a scalar is no union, from a buffer or not
    | _ =>
      constructor
      · intro h
        cases h
      · rintro ⟨b, hbuffer, hb⟩
        cases hbuffer
        cases hb

end

end AliasReport.Document
