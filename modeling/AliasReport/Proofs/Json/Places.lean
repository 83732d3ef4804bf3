import AliasReport.Proofs.Document.Holes
import AliasReport.Proofs.Json.Printing
import AliasReport.Proofs.Json.Shapes

/-! # Places in JSON texts

A path leads through a text to the place where a value starts: from behind a bracket past whole
items, or past whole members to one with the right key. What stands at the place can be replaced;
all that stands in front of it is read as before.

* **`StandsAt`** — where a path leads to.
* **`readItems_at`**, **`readRun_at`** — lists and objects around an item and around a member.
* **`ScalarAt`** — a scalar, or the fault in it, and what stands behind.
* **`BufferedAt`**, **`readBuffered_at`** — a buffered value with another scalar at a place. -/

namespace AliasReport.Json

open AliasReport.Document

/-! ## Paths -/

/-- **The item at a position** in a list starts where as many others have been skipped. -/
inductive ItemAt : Nat → Bool → List Char → List Char → Prop
  | here {first : Bool} {cs value : List Char} (hstart : Starts first cs value) :
      ItemAt 0 first cs value
  | there {i : Nat} {first : Bool} {cs inner mid value : List Char}
      (hstart : Starts first cs inner) (hskip : skipValue inner = .ok mid)
      (h : ItemAt i false mid value) : ItemAt (i + 1) first cs value

/-- **The value of a member** of an object starts behind its key and a colon. -/
inductive MemberAt (key : String) : Bool → List Char → List Char → Prop
  | here {first : Bool} {cs inner s behind value : List Char}
      (hstart : Starts first cs ('"' :: inner)) (hs : Spells inner s behind)
      (hkey : String.ofList s = key) (hcolon : skipBlanks behind = ':' :: value) :
      MemberAt key first cs value
  | there {first : Bool} {cs inner s behind mid value : List Char}
      (hstart : Starts first cs ('"' :: inner)) (hs : Spells inner s behind)
      (hskip : BehindColon Skipped behind () mid) (h : MemberAt key false mid value) :
      MemberAt key first cs value

/-- **The place that a path leads to** in a text. -/
inductive StandsAt : List Selector → List Char → List Char → Prop
  | here {cs : List Char} : StandsAt [] cs (skipBlanks cs)
  | item {i : Nat} {path : List Selector} {cs inner value place : List Char}
      (hopen : skipBlanks cs = '[' :: inner) (hitem : ItemAt i true inner value)
      (h : StandsAt path value place) : StandsAt (.item i :: path) cs place
  | member {key : String} {path : List Selector} {cs inner value place : List Char}
      (hopen : skipBlanks cs = '\x7b' :: inner) (hmember : MemberAt key true inner value)
      (h : StandsAt path value place) : StandsAt (.member key :: path) cs place

/-- There are no blanks in front of a value that opens a place. -/
theorem Opens.skipBlanks {cs : List Char} (h : Opens cs) : skipBlanks cs = cs := by
  obtain ⟨c, tail, rfl, hblank, -⟩ := h
  exact skipBlanks_cons hblank tail

/-- A text opens as its beginning does. -/
theorem Opens.append_congr {pre place place' : List Char} (h : Opens (pre ++ place))
    (h' : Opens place') : Opens (pre ++ place') := by
  cases pre with
  | nil => exact h'
  | cons c pre =>
    obtain ⟨d, tail, heq, hd⟩ := h
    obtain ⟨rfl, -⟩ := List.cons.inj heq
    exact ⟨c, pre ++ place', rfl, hd⟩

/-- There is something where a path leads on. -/
theorem StandsAt.opens {path : List Selector} {cs place : List Char} (h : StandsAt path cs place)
    (hplace : Opens place) : Opens (skipBlanks cs) := by
  cases h with
  | here => exact hplace
  | item hopen => exact ⟨'[', _, hopen, rfl, by decide⟩
  | member hopen => exact ⟨'\x7b', _, hopen, rfl, by decide⟩

/-- There are no blanks in front of an item or a member. -/
theorem Starts.skipBlanks {first : Bool} {cs inner : List Char} (h : Starts first cs inner) :
    skipBlanks inner = inner := by
  cases h with
  | first => exact skipBlanks_skipBlanks _
  | next => exact skipBlanks_skipBlanks _

/-- There are no blanks in front of an item at its position. -/
theorem ItemAt.skipBlanks {i : Nat} {first : Bool} {cs value : List Char}
    (h : ItemAt i first cs value) : skipBlanks value = value := by
  induction h with
  | here hstart => exact hstart.skipBlanks
  | there _ _ _ ih => exact ih

/-! ## Texts without blanks -/

/-- A text without blanks in front stands at the empty path. -/
theorem StandsAt.of_opens {place : List Char} (h : Opens place) : StandsAt [] place place := by
  have hhere : StandsAt [] place (skipBlanks place) := .here
  rwa [h.skipBlanks] at hhere

/-- What stands in the first item stands in the list. -/
theorem StandsAt.first_item {path : List Selector} {value place : List Char} (hopens : Opens value)
    (h : StandsAt path value place) : StandsAt (.item 0 :: path) ('[' :: value) place :=
  .item (skipBlanks_cons rfl value) (.here (starts_iff.mpr (.inl ⟨rfl, hopens.skipBlanks⟩))) h

/-- What stands in the value of the first member stands in the object. -/
theorem StandsAt.first_member {path : List Selector} {value place : List Char} (key : String)
    (h : StandsAt path value place) :
    StandsAt (.member key :: path) ('\x7b' :: (quoted key ++ ':' :: value)) place := by
  have hkey : Spells (escape key.toList ++ ['"'] ++ ':' :: value) key.toList (':' :: value) := by
    rw [List.append_assoc]
    exact spells_escape key.toList (':' :: value)
  exact .member (skipBlanks_cons rfl _)
    (.here (starts_iff.mpr (.inl ⟨rfl, skipBlanks_cons rfl _⟩)) hkey String.ofList_toList
      (skipBlanks_cons rfl value)) h

/-! ## Replacing what stands at a place -/

/-- A bracket behind blanks. -/
theorem exists_open {c : Char} {cs inner : List Char} (h : skipBlanks cs = c :: inner) :
    ∃ pre, cs = pre ++ inner ∧ pre ≠ [] ∧ ∀ inner', skipBlanks (pre ++ inner') = c :: inner' := by
  obtain ⟨blanks, heq, hblanks⟩ := exists_blanks cs
  refine ⟨blanks ++ [c], by simpa [h] using heq, by simp, fun inner' => ?_⟩
  rw [List.append_assoc, hblanks]
  exact skipBlanks_cons (isBlank_of_skipBlanks h) inner'

/-- **What starts an item or a member** starts any other one. -/
theorem Starts.exists_pre {first : Bool} {cs inner : List Char} (h : Starts first cs inner) :
    ∃ pre, cs = pre ++ inner ∧ (first = false → pre ≠ []) ∧
      ∀ inner', Opens inner' → Starts first (pre ++ inner') inner' := by
  cases h with
  | first =>
    obtain ⟨blanks, heq, hblanks⟩ := exists_blanks cs
    refine ⟨blanks, heq, nofun, fun inner' h => starts_iff.mpr (.inl ⟨rfl, ?_⟩)⟩
    rw [hblanks, h.skipBlanks]
  | @next _ more hcomma =>
    obtain ⟨pre, rfl, hnil, hpre⟩ := exists_open hcomma
    obtain ⟨blanks, heq, hblanks⟩ := exists_blanks more
    refine ⟨pre ++ blanks, by rw [List.append_assoc, ← heq], fun _ => by simp [hnil],
      fun inner' h => starts_iff.mpr (.inr ⟨rfl, blanks ++ inner', ?_, ?_⟩)⟩
    · rw [List.append_assoc, hpre]
    · rw [hblanks, h.skipBlanks]

/-! ## Lists -/

/-- **A list around one of its items.** The items in front of it are read as before. -/
theorem readItems_at {α : Type} {item : List Char → Except Fault (α × List Char)}
    (h : TakesValues item) {i : Nat} {first : Bool} {cs value : List Char}
    (hitem : ItemAt i first cs value) (hopens : Opens value) {vs : List α} {rest : List Char}
    (hread : readItems item first cs = .ok (vs, rest)) :
    ∃ pre us v ws mid, cs = pre ++ value ∧ (first = false → pre ≠ []) ∧ us.length = i ∧
      vs = us ++ v :: ws ∧ item value = .ok (v, mid) ∧ readItems item false mid = .ok (ws, rest) ∧
        ∀ value', Opens value' → readItems item first (pre ++ value') =
          (item value').bind fun x =>
            (readItems item false x.2).map fun y => (us ++ x.1 :: y.1, y.2) := by
  -- The items in front of the place are read one after the other, so the induction is on them.
  induction hitem generalizing vs with
  | @here first cs value hstart =>
    obtain ⟨pre, rfl, hnil, hpre⟩ := hstart.exists_pre
    have hnext : nextItem first (pre ++ value) = .ok (.inr value) :=
      nextItem_eq_inr_iff.mpr ⟨hstart, hopens⟩
    rw [readItems_eq h.shortens, thenItems_of_inr hnext] at hread
    obtain ⟨⟨v, mid⟩, hv, hread⟩ := bind_eq_ok_iff.mp hread
    obtain ⟨⟨ws, rest⟩, hws, heq⟩ := map_eq_ok_iff.mp hread
    cases heq
    refine ⟨pre, [], v, ws, mid, rfl, hnil, rfl, rfl, hv, hws, fun value' hvalue' => ?_⟩
    rw [readItems_eq h.shortens,
      thenItems_of_inr (nextItem_eq_inr_iff.mpr ⟨hpre value' hvalue', hvalue'⟩)]
    rfl
  | @there i first cs inner mid value hstart hskip hitem ih =>
    have hnext : nextItem first cs = .ok (.inr inner) := nextItem_of_skipped hstart hskip
    rw [readItems_eq h.shortens, thenItems_of_inr hnext] at hread
    obtain ⟨⟨u, mid'⟩, hu, hread⟩ := bind_eq_ok_iff.mp hread
    obtain ⟨⟨vs, rest⟩, hvs, heq⟩ := map_eq_ok_iff.mp hread
    cases heq
    obtain rfl : mid' = mid := Except.ok.inj ((h.skips hu).symm.trans hskip)
    obtain ⟨pre, us, v, ws, mid, rfl, hnil, rfl, rfl, hv, hws, hpre⟩ := ih hopens hvs
    -- The item in front takes the same characters, whatever is at the place.
    obtain ⟨used, rfl, hused⟩ := ((nextItem_local first).comp (h.near u)) cs _ ⟨inner, hnext, hu⟩
    refine ⟨used ++ pre, u :: us, v, ws, mid, (List.append_assoc ..).symm, fun _ hempty =>
      hnil rfl (List.append_eq_nil_iff.mp hempty).2, rfl, rfl, hv, hws, fun value' hvalue' => ?_⟩
    obtain ⟨inner', hnext', hu'⟩ := hused _ (head?_append_eq (hnil rfl) value value')
    rw [List.append_assoc, readItems_eq h.shortens, thenItems_of_inr hnext', hu', ok_bind,
      hpre value' hvalue', map_bind]
    refine congrArg _ (funext fun x => ?_)
    cases readItems item false x.2 <;> rfl

/-! ## Objects -/

/-- **An object around one of its members.** The members in front of it are read as before. -/
theorem readRun_at {σ : Type} {member : String → σ → List Char → Except Fault (σ × List Char)}
    (h : TakesMembers member) {key : String} {first : Bool} {cs value : List Char}
    (hmember : MemberAt key first cs value) {s s' : σ} {rest : List Char}
    (hrun : Run member first s cs s' rest) :
    ∃ pre colon t u mid, cs = pre ++ (colon ++ value) ∧
      (∀ value', readColon (colon ++ value') = .ok value') ∧
        member key t (colon ++ value) = .ok (u, mid) ∧ Run member false u mid s' rest ∧
          ∀ value', readRun member first s (pre ++ (colon ++ value')) =
            (member key t (colon ++ value')).bind fun x => readRun member false x.1 x.2 := by
  induction hmember generalizing s with
  | @here first cs inner text behind value hstart hs hkey hcolon =>
    have hnext : nextKey first cs = .ok (.inr (key, behind)) :=
      nextKey_eq_inr_iff.mpr ⟨inner, text, hkey, hstart, hs⟩
    obtain ⟨colon, rfl, hnil, hcolon⟩ := exists_open hcolon
    obtain ⟨pre, rfl, hpre⟩ := nextKey_local first key _ _ hnext
    obtain ⟨t, mid, hmember, htail⟩ := hrun.of_nextKey hnext
    refine ⟨pre, colon, s, t, mid, rfl, fun value' => readColon_eq_ok_iff.mpr (hcolon value'),
      hmember, htail, fun value' => readRun_of_nextKey h s (hpre _ ?_)⟩
    exact head?_append_eq hnil ..
  | @there first cs inner text behind mid value hstart hs hskip _ ih =>
    have hnext : nextKey first cs = .ok (.inr (String.ofList text, behind)) :=
      nextKey_eq_inr_iff.mpr ⟨inner, text, rfl, hstart, hs⟩
    obtain ⟨t, mid, hmember, htail⟩ := hrun.of_nextKey hnext
    obtain rfl := h.eq_of_skipped hmember hskip
    obtain ⟨pre, colon, t', u, mid, rfl, hcolon, hvalue, htail, hpre⟩ := ih htail
    have hnil : colon ≠ [] := by
      rintro rfl
      cases hcolon []
    -- The member in front takes the same characters, whatever is at the place.
    obtain ⟨used, rfl, hused⟩ :=
      ((nextKey_local first _).comp (h.near _ s t)) cs _ ⟨behind, hnext, hmember⟩
    refine ⟨used ++ pre, colon, t', u, mid, (List.append_assoc ..).symm, hcolon, hvalue, htail,
      fun value' => ?_⟩
    have hhead : (pre ++ (colon ++ value')).head? = (pre ++ (colon ++ value)).head? :=
      head?_append_congr (head?_append_eq hnil value value') pre
    obtain ⟨behind', hnext', hmember'⟩ := hused _ hhead
    rw [List.append_assoc, readRun_of_nextKey h s hnext', hmember', ok_bind]
    exact hpre value'

/-! ## Buffered values -/

/-- **A scalar** at the start of a text, or the fault in it, with what stands behind. It is not
null, and does not start like it. -/
structure ScalarAt (place : List Char) (value : Except Fault Found) (post : List Char) : Prop where
  head : readHead place = value.map (·, post)
  opens : Opens place
  not_null : place.head? ≠ some 'n'
  found : ∀ found, value = .ok found → (ofScalar found).found = found ∧ found ≠ .nothing

section

variable {place post : List Char} {value : Except Fault Found}

/-- A scalar is no bracket. -/
theorem ScalarAt.not_bracket (h : ScalarAt place value post) {found : Found}
    (hfound : value = .ok found) : found ≠ .sequence ∧ found ≠ .mapping := by
  obtain ⟨hscalar, hnothing⟩ := h.found found hfound
  constructor
  · rintro rfl
    exact absurd hscalar nofun
  · rintro rfl
    exact absurd hscalar nofun

/-- What is buffered of a scalar is the scalar. -/
theorem ScalarAt.buffered (h : ScalarAt place value post) (depth : Nat) :
    readBuffered depth place = value.map fun found => (ofScalar found, post) := by
  rw [readBuffered_eq, h.head]
  cases hvalue : value with
  | error err => rfl
  | ok found => exact bufferFrom_of_scalar (h.not_bracket hvalue) depth post

/-- Members are put in front of those before them, whatever these are. -/
theorem exists_entries_of_run {depth : Nat} {first : Bool}
    {entries entries' : List (Buffered × Buffered)} {cs rest : List Char}
    (h : Run (readEntry depth) first entries cs entries' rest) :
    ∃ later, entries' = later ++ entries ∧
      ∀ others, Run (readEntry depth) first others cs (later ++ others) rest := by
  induction h with
  | close hclose => exact ⟨[], rfl, fun others => .close hclose⟩
  | @member first s t s' cs behind mid rest key hkey hmember _ ih =>
    obtain ⟨later, rfl, hlater⟩ := ih
    obtain ⟨inner, b, hcolon, hb, rfl⟩ := readEntry_eq_ok_iff.mp hmember
    refine ⟨later ++ [(.text key, b)], by simp, fun others => ?_⟩
    rw [List.append_assoc]
    exact .member hkey (readEntry_eq_ok_iff.mpr ⟨inner, b, hcolon, hb, rfl⟩) (hlater _)

/-- **What is buffered with other scalars at a place**: the same value around what such a scalar is,
or nothing. -/
def BufferedAt (depth : Nat) (path : List Selector) (cs place post : List Char) (b : Buffered)
    (rest : List Char) : Prop :=
  ∃ pre f x₀, cs = pre ++ place ∧ Hole path f ∧ b = f x₀ ∧
    ∀ place' value', ScalarAt place' value' post →
      (readBuffered depth (pre ++ place')).toOption =
        value'.toOption.map fun found => (f (ofScalar found), rest)

variable {depth i : Nat} {key : String} {path : List Selector} {cs inner around rest : List Char}
  {b : Buffered}

/-- A place with nothing but blanks in front of it. -/
theorem bufferedAt_here (hplace : ScalarAt (skipBlanks cs) value post)
    (hread : readBuffered depth cs = .ok (b, rest)) :
    BufferedAt depth [] cs (skipBlanks cs) post b rest := by
  obtain ⟨blanks, heq, hblanks⟩ := exists_blanks cs
  have hblank := (takesValues_readBuffered depth).blanks
  rw [← hblank, hplace.buffered] at hread
  obtain ⟨found, rfl, hfound⟩ := map_eq_ok_iff.mp hread
  cases hfound
  refine ⟨blanks, id, ofScalar found, heq, .here, rfl, fun place' value' h' => ?_⟩
  rw [← hblank, hblanks, h'.opens.skipBlanks, h'.buffered]
  cases value' <;> rfl

/-- A list around a value in which the place is. -/
theorem bufferedAt_item (hopen : skipBlanks cs = '[' :: inner) (hitem : ItemAt i true inner around)
    (hopens : Opens around) (hread : readBuffered depth cs = .ok (b, rest))
    (h : ∀ {depth b rest}, readBuffered depth around = .ok (b, rest) →
      BufferedAt depth path around place post b rest) :
    BufferedAt depth (.item i :: path) cs place post b rest := by
  rw [readBuffered_eq, readHead_of_skipBlanks_list hopen] at hread
  cases depth with
  | zero => cases hread
  | succ depth =>
    obtain ⟨⟨bs, rest⟩, hitems, heq⟩ := map_eq_ok_iff.mp hread
    cases heq
    obtain ⟨lead, hlead, -, hlead'⟩ := exists_open hopen
    obtain ⟨front, us, b, ws, mid, hfront, -, rfl, rfl, hb, hws, hfront'⟩ :=
      readItems_at (takesValues_readBuffered depth) hitem hopens hitems
    obtain ⟨pre, f, x₀, rfl, hole, rfl, hpre⟩ := h hb
    refine ⟨lead ++ (front ++ pre), _, x₀, by simp [hlead, hfront], .item us ws hole, rfl,
      fun place' value' h' => ?_⟩
    rw [List.append_assoc, List.append_assoc, readBuffered_eq,
      readHead_of_skipBlanks_list (hlead' _)]
    change ((readItems (readBuffered depth) true _).map _).toOption = _
    rw [hfront' _ (hopens.append_congr h'.opens)]
    refine toOption_map_of (toOption_bind_of_forall
      (k := fun found => (us ++ f (ofScalar found) :: ws, rest)) (hpre place' value' h')
        fun found => ?_) _
    rw [hws]
    rfl

/-- An object around a value in which the place is. -/
theorem bufferedAt_member (hopen : skipBlanks cs = '\x7b' :: inner)
    (hmember : MemberAt key true inner around) (hread : readBuffered depth cs = .ok (b, rest))
    (h : ∀ {depth b rest}, readBuffered depth around = .ok (b, rest) →
      BufferedAt depth path around place post b rest) :
    BufferedAt depth (.member key :: path) cs place post b rest := by
  rw [readBuffered_eq, readHead_of_skipBlanks_object hopen] at hread
  cases depth with
  | zero => cases hread
  | succ depth =>
    have hentry := takesMembers_readEntry (takesValues_readBuffered depth)
    obtain ⟨⟨entries, rest⟩, hmembers, heq⟩ := map_eq_ok_iff.mp hread
    cases heq
    obtain ⟨lead, hlead, -, hlead'⟩ := exists_open hopen
    obtain ⟨front, colon, before, _, mid, hfront, hcolon, hvalue, htail, hfront'⟩ :=
      readRun_at hentry hmember ((readRun_eq_ok_iff hentry).mp hmembers)
    obtain ⟨_, b, heq, hb, rfl⟩ := readEntry_eq_ok_iff.mp hvalue
    cases (hcolon around).symm.trans heq
    obtain ⟨pre, f, x₀, rfl, hole, rfl, hpre⟩ := h hb
    obtain ⟨later, rfl, hlater⟩ := exists_entries_of_run htail
    refine ⟨lead ++ (front ++ (colon ++ pre)), _, x₀, by simp [hlead, hfront],
      .member before.reverse later.reverse key hole, by simp, fun place' value' h' => ?_⟩
    rw [List.append_assoc, List.append_assoc, List.append_assoc, readBuffered_eq,
      readHead_of_skipBlanks_object (hlead' _)]
    change ((readRun (readEntry depth) true [] _).map _).toOption = _
    rw [hfront' (pre ++ place'), readEntry, hcolon, ok_bind]
    have hset := toOption_map_of (hpre place' value' h')
      fun x => ((.text key, x.1) :: before, x.2)
    refine (toOption_map_of (toOption_bind_of_forall hset fun found =>
      (readRun_eq_ok_iff hentry).mpr (hlater _)) _).trans ?_
    simp

/-- **A buffered value with another scalar** at a place. -/
theorem readBuffered_at (hplace : ScalarAt place value post) (h : StandsAt path cs place)
    (hread : readBuffered depth cs = .ok (b, rest)) :
    BufferedAt depth path cs place post b rest := by
  induction h generalizing depth b rest with
  | here => exact bufferedAt_here hplace hread
  | item hopen hitem h ih =>
    have hopens : Opens _ := hitem.skipBlanks ▸ h.opens hplace.opens
    exact bufferedAt_item hopen hitem hopens hread (ih hplace)
  | member hopen hmember _ ih => exact bufferedAt_member hopen hmember hread (ih hplace)

end

end AliasReport.Json
