import AliasReport.Proofs.Json.Skipping

/-! # What readers take

Lists and objects are read item by item and member by member, with fuel that is always enough.
Whatever is read takes the same characters as skipping it would, and does not depend on what stands
behind these.

* **`readItems_eq`**, **`readRun_eq`** — lists and objects without fuel.
* **`TakesValues`**, **`TakesMembers`** — readers that take what skipping takes and look no further.
* **`readItems_local`**, **`readRun_local`** — lists and objects over such readers.
* **`takesValues_of_head`** — readers that go on from the first part of a value.
* **`takesValues_readBuffered`** — values of any shape. -/

namespace AliasReport.Json

open AliasReport.Document

/-! ## Lists -/

section

variable {α : Type} {item : List Char → Except Fault (α × List Char)}

/-- The first item of a list and those behind it, given a reader of the latter. -/
def thenItems (item : List Char → Except Fault (α × List Char))
    (more : List Char → Except Fault (List α × List Char)) (first : Bool) (cs : List Char) :
    Except Fault (List α × List Char) :=
  (nextItem first cs).bind fun next => next.elim (fun rest => .ok ([], rest)) fun inner =>
    (item inner).bind fun x => (more x.2).map fun y => (x.1 :: y.1, y.2)

/-- A list that ends has no further items. -/
theorem thenItems_of_inl {more : List Char → Except Fault (List α × List Char)} {first : Bool}
    {cs rest : List Char} (h : nextItem first cs = .ok (.inl rest)) :
    thenItems item more first cs = .ok ([], rest) := by
  rw [thenItems, h]
  rfl

/-- A list that goes on has the next item in front of those behind it. -/
theorem thenItems_of_inr {more : List Char → Except Fault (List α × List Char)} {first : Bool}
    {cs inner : List Char} (h : nextItem first cs = .ok (.inr inner)) :
    thenItems item more first cs =
      (item inner).bind fun x => (more x.2).map fun y => (x.1 :: y.1, y.2) := by
  rw [thenItems, h]
  rfl

/-- Only what is behind the first item matters to the reader of the others. -/
theorem thenItems_congr (hshort : ∀ cs v rest, item cs = .ok (v, rest) → rest.length < cs.length)
    {more more' : List Char → Except Fault (List α × List Char)} {first : Bool} {cs : List Char}
    (h : ∀ mid, mid.length < cs.length → more mid = more' mid) :
    thenItems item more first cs = thenItems item more' first cs := by
  cases hnext : nextItem first cs with
  | error err => rw [thenItems, thenItems, hnext]; rfl
  | ok next =>
    cases next with
    | inl rest => rw [thenItems_of_inl hnext, thenItems_of_inl hnext]
    | inr inner =>
      rw [thenItems_of_inr hnext, thenItems_of_inr hnext]
      cases hitem : item inner with
      | error err => rfl
      | ok x =>
        have hinner := (nextItem_eq_inr_iff.mp hnext).1.length_le
        rw [ok_bind, ok_bind, h x.2 ((hshort _ _ _ hitem).trans_le hinner)]

/-- Items are read from one item to the next. -/
theorem readItemsFrom_succ (fuel : Nat) (first : Bool) (cs : List Char) :
    readItemsFrom item (fuel + 1) first cs =
      thenItems item (readItemsFrom item fuel false) first cs := by
  rw [readItemsFrom, thenItems]
  cases nextItem first cs with
  | error err => rfl
  | ok next =>
    cases next with
    | inl rest => rfl
    | inr inner =>
      simp only [bind, ok_bind, Sum.elim_inr]
      cases item inner with
      | error err => rfl
      | ok x =>
        simp only [ok_bind]
        cases readItemsFrom item fuel false x.2 <;> rfl

/-- Fuel that exceeds the text is enough. -/
theorem readItemsFrom_eq (hshort : ∀ cs v rest, item cs = .ok (v, rest) → rest.length < cs.length)
    {fuel : Nat} {first : Bool} {cs : List Char} (h : cs.length < fuel) :
    readItemsFrom item fuel first cs = readItems item first cs := by
  rw [readItems]
  generalize hn : cs.length = n at h
  induction n using Nat.strong_induction_on generalizing fuel first cs with
  | h n ih =>
    obtain ⟨fuel, rfl⟩ := Nat.exists_eq_succ_of_ne_zero (Nat.ne_zero_of_lt h)
    rw [readItemsFrom_succ, readItemsFrom_succ]
    refine thenItems_congr hshort fun mid hmid => ?_
    rw [hn] at hmid
    rw [ih _ hmid rfl (by omega), ih _ hmid rfl hmid]

/-- **The items of a list** are the first one and those behind it. -/
theorem readItems_eq (hshort : ∀ cs v rest, item cs = .ok (v, rest) → rest.length < cs.length)
    (first : Bool) (cs : List Char) :
    readItems item first cs = thenItems item (readItems item false) first cs := by
  rw [readItems, readItemsFrom_succ]
  exact thenItems_congr hshort fun mid hmid => readItemsFrom_eq hshort hmid

end

/-! ## Objects -/

section

variable {σ : Type} {member : String → σ → List Char → Except Fault (σ × List Char)}

/-- The first member of an object and those behind it, given a reader of the latter. -/
def thenMembers (member : String → σ → List Char → Except Fault (σ × List Char))
    (more : σ → List Char → Except Fault (σ × List Char)) (first : Bool) (s : σ)
    (cs : List Char) : Except Fault (σ × List Char) :=
  (nextKey first cs).bind fun next => next.elim (fun rest => .ok (s, rest)) fun key =>
    (member key.1 s key.2).bind fun x => more x.1 x.2

/-- An object that ends has no further members. -/
theorem thenMembers_of_inl {more : σ → List Char → Except Fault (σ × List Char)} {first : Bool}
    {s : σ} {cs rest : List Char} (h : nextKey first cs = .ok (.inl rest)) :
    thenMembers member more first s cs = .ok (s, rest) := by
  rw [thenMembers, h]
  rfl

/-- An object that goes on has its next member taken in before those behind it. -/
theorem thenMembers_of_inr {more : σ → List Char → Except Fault (σ × List Char)} {first : Bool}
    {s : σ} {cs behind : List Char} {key : String}
    (h : nextKey first cs = .ok (.inr (key, behind))) :
    thenMembers member more first s cs = (member key s behind).bind fun x => more x.1 x.2 := by
  rw [thenMembers, h]
  rfl

/-- What stands behind a key is shorter than what the key stands in. -/
theorem length_lt_of_nextKey {first : Bool} {cs behind : List Char} {key : String}
    (h : nextKey first cs = .ok (.inr (key, behind))) : behind.length < cs.length := by
  obtain ⟨inner, s, -, hstart, hs⟩ := nextKey_eq_inr_iff.mp h
  have hlen := hstart.length_le
  have hinner := hs.shortens
  rw [List.length_cons] at hlen
  omega

/-- Only what is behind the first member matters to the reader of the others. -/
theorem thenMembers_congr
    (hshort : ∀ key s s' cs rest, member key s cs = .ok (s', rest) → rest.length < cs.length)
    {more more' : σ → List Char → Except Fault (σ × List Char)} {first : Bool} {s : σ}
    {cs : List Char} (h : ∀ s mid, mid.length < cs.length → more s mid = more' s mid) :
    thenMembers member more first s cs = thenMembers member more' first s cs := by
  cases hnext : nextKey first cs with
  | error err => rw [thenMembers, thenMembers, hnext]; rfl
  | ok next =>
    cases next with
    | inl rest => rw [thenMembers_of_inl hnext, thenMembers_of_inl hnext]
    | inr key =>
      rw [thenMembers_of_inr hnext, thenMembers_of_inr hnext]
      cases hmember : member key.1 s key.2 with
      | error err => rfl
      | ok x =>
        have hbehind := length_lt_of_nextKey hnext
        rw [ok_bind, ok_bind, h x.1 x.2 ((hshort _ _ _ _ _ hmember).trans hbehind)]

/-- Members are read from one member to the next. -/
theorem readMembersFrom_succ (fuel : Nat) (first : Bool) (s : σ) (cs : List Char) :
    readMembersFrom member (fuel + 1) first s cs =
      thenMembers member (readMembersFrom member fuel false) first s cs := by
  rw [readMembersFrom, thenMembers]
  cases nextKey first cs with
  | error err => rfl
  | ok next =>
    cases next with
    | inl rest => rfl
    | inr key => rfl

/-- The members of an object from behind its bracket or, if `first` is false, from behind a
member. -/
def readRun (member : String → σ → List Char → Except Fault (σ × List Char)) (first : Bool)
    (s : σ) (cs : List Char) : Except Fault (σ × List Char) :=
  readMembersFrom member (cs.length + 1) first s cs

/-- The members of an object are read from behind its bracket. -/
theorem readMembers_eq_readRun (member : String → σ → List Char → Except Fault (σ × List Char))
    (s : σ) (cs : List Char) : readMembers member s cs = readRun member true s cs := rfl

/-- Fuel that exceeds the text is enough. -/
theorem readMembersFrom_eq
    (hshort : ∀ key s s' cs rest, member key s cs = .ok (s', rest) → rest.length < cs.length)
    {fuel : Nat} {first : Bool} {s : σ} {cs : List Char} (h : cs.length < fuel) :
    readMembersFrom member fuel first s cs = readRun member first s cs := by
  rw [readRun]
  generalize hn : cs.length = n at h
  induction n using Nat.strong_induction_on generalizing fuel first s cs with
  | h n ih =>
    obtain ⟨fuel, rfl⟩ := Nat.exists_eq_succ_of_ne_zero (Nat.ne_zero_of_lt h)
    rw [readMembersFrom_succ, readMembersFrom_succ]
    refine thenMembers_congr hshort fun s mid hmid => ?_
    rw [hn] at hmid
    rw [ih _ hmid rfl (by omega), ih _ hmid rfl hmid]

/-- **The members of an object** are the first one and those behind it. -/
theorem readRun_eq
    (hshort : ∀ key s s' cs rest, member key s cs = .ok (s', rest) → rest.length < cs.length)
    (first : Bool) (s : σ) (cs : List Char) :
    readRun member first s cs = thenMembers member (readRun member false) first s cs := by
  rw [readRun, readMembersFrom_succ]
  exact thenMembers_congr hshort fun s mid hmid => readMembersFrom_eq hshort hmid

end

/-! ## Readers of values -/

/-- What is skipped stands for nothing in particular. -/
def Skipped (cs : List Char) (_ : Unit) (rest : List Char) : Prop :=
  skipValue cs = .ok rest

/-- What is skipped starts as values do. -/
theorem Skipped.proper : Proper Skipped := skipValue_proper

/-- Where an item starts that can be skipped, it is found. -/
theorem nextItem_of_skipped {first : Bool} {cs inner rest : List Char}
    (hstart : Starts first cs inner) (hskip : skipValue inner = .ok rest) :
    nextItem first cs = .ok (.inr inner) :=
  nextItem_of_starts hstart (Skipped.proper.opens (show Skipped _ () _ from hskip))

/-- **A reader of values** takes what skipping takes and looks no further. -/
structure TakesValues {α : Type} (read : List Char → Except Fault (α × List Char)) : Prop where
  near : LocalReader read
  skips : ∀ {cs v rest}, read cs = .ok (v, rest) → skipValue cs = .ok rest
  blanks : ∀ cs, read (skipBlanks cs) = read cs

/-- **A reader of members** takes a colon and what skipping takes behind it. -/
structure TakesMembers {σ : Type}
    (member : String → σ → List Char → Except Fault (σ × List Char)) : Prop where
  near : ∀ key s, LocalReader (member key s)
  skips : ∀ {key s cs s' rest}, member key s cs = .ok (s', rest) → BehindColon Skipped cs () rest

section

variable {α : Type} {item : List Char → Except Fault (α × List Char)}

/-- A reader of values takes something. -/
theorem TakesValues.shortens (h : TakesValues item) :
    ∀ cs v rest, item cs = .ok (v, rest) → rest.length < cs.length :=
  fun _ _ _ hread => Skipped.proper.shortens (show Skipped _ () _ from h.skips hread)

/-- Where the next item starts is told by what stands in front of it. -/
theorem nextItem_local (first : Bool) :
    Local fun cs inner => nextItem first cs = .ok (.inr inner) := by
  intro cs inner h
  obtain ⟨hstart, c, tail, rfl, hc⟩ := nextItem_eq_inr_iff.mp h
  obtain ⟨used, rfl, hused⟩ := starts_local first _ _ hstart
  refine ⟨used, rfl, fun rest' hhead => nextItem_eq_inr_iff.mpr ⟨hused rest' hhead, ?_⟩⟩
  obtain ⟨tail', rfl⟩ := List.head?_eq_some_iff.mp hhead
  exact ⟨c, tail', rfl, hc⟩

/-- No items are read where the list ends. -/
theorem readItems_eq_ok_nil_iff (h : TakesValues item) {first : Bool} {cs rest : List Char} :
    readItems item first cs = .ok ([], rest) ↔ skipBlanks cs = ']' :: rest := by
  have hclose : nextItem first cs = .ok (.inl rest) ↔ skipBlanks cs = ']' :: rest :=
    nextItem_eq_inl_iff
  rw [readItems_eq h.shortens, ← hclose]
  constructor
  · intro hread
    obtain ⟨next, hnext, hread⟩ := bind_eq_ok_iff.mp hread
    cases next with
    | inl rest =>
      cases hread
      exact hnext
    | inr inner =>
      obtain ⟨x, -, hread⟩ := bind_eq_ok_iff.mp hread
      obtain ⟨y, -, heq⟩ := map_eq_ok_iff.mp hread
      cases heq
  · exact fun hnext => thenItems_of_inl hnext

/-- The first of several items is read where the next one starts, and the others behind it. -/
theorem readItems_eq_ok_cons_iff (h : TakesValues item) {first : Bool} {cs rest : List Char}
    {v : α} {vs : List α} :
    readItems item first cs = .ok (v :: vs, rest) ↔
      ∃ inner, nextItem first cs = .ok (.inr inner) ∧ ∃ mid, item inner = .ok (v, mid) ∧
        readItems item false mid = .ok (vs, rest) := by
  rw [readItems_eq h.shortens]
  constructor
  · intro hread
    obtain ⟨next, hnext, hread⟩ := bind_eq_ok_iff.mp hread
    cases next with
    | inl rest => cases hread
    | inr inner =>
      obtain ⟨⟨v, mid⟩, hitem, hread⟩ := bind_eq_ok_iff.mp hread
      obtain ⟨⟨vs, rest⟩, htail, heq⟩ := map_eq_ok_iff.mp hread
      cases heq
      exact ⟨inner, hnext, mid, hitem, htail⟩
  · rintro ⟨inner, hnext, mid, hitem, htail⟩
    rw [thenItems_of_inr hnext, hitem, ok_bind, htail]
    rfl

/-- **Lists are read locally.** -/
theorem readItems_local (h : TakesValues item) (first : Bool) :
    LocalReader (readItems item first) := by
  intro vs
  induction vs generalizing first with
  | nil => exact (Local.mark ']').congr fun _ _ => readItems_eq_ok_nil_iff h
  | cons v vs ih =>
    exact ((nextItem_local first).comp ((h.near v).comp (ih false))).congr
      fun _ _ => readItems_eq_ok_cons_iff h

/-- The items of a list that is read are skipped. -/
theorem items_of_readItems (h : TakesValues item) {first : Bool} {cs rest : List Char}
    {vs : List α} (hread : readItems item first cs = .ok (vs, rest)) :
    ∃ us, Items Skipped first cs us rest := by
  induction vs generalizing first cs with
  | nil => exact ⟨[], .close ((readItems_eq_ok_nil_iff h).mp hread)⟩
  | cons v vs ih =>
    obtain ⟨inner, hnext, mid, hitem, htail⟩ := (readItems_eq_ok_cons_iff h).mp hread
    obtain ⟨us, hus⟩ := ih htail
    exact ⟨() :: us, .item (nextItem_eq_inr_iff.mp hnext).1 (h.skips hitem) hus⟩

end

section

variable {σ : Type} {member : String → σ → List Char → Except Fault (σ × List Char)}

/-- A reader of members takes something. -/
theorem TakesMembers.shortens (h : TakesMembers member) :
    ∀ key s s' cs rest, member key s cs = .ok (s', rest) → rest.length < cs.length :=
  fun _ _ _ _ _ hread => (h.skips hread).shortens Skipped.proper

/-- Where the value of the next member starts is told by what stands in front of it. -/
theorem nextKey_local (first : Bool) (key : String) :
    Local fun cs behind => nextKey first cs = .ok (.inr (key, behind)) := by
  refine ((Local.exists fun s => Local.and fun _ : String.ofList s = key =>
    (starts_local first).comp ((Local.chars ['"']).comp (spells_local s))).congr
      fun cs behind => ?_)
  rw [nextKey_eq_inr_iff]
  constructor
  · rintro ⟨inner, s, heq, hstart, hs⟩
    exact ⟨s, heq, _, hstart, inner, rfl, hs⟩
  · rintro ⟨s, heq, _, hstart, inner, rfl, hs⟩
    exact ⟨inner, s, heq, hstart, hs⟩

/-- **A run over the members of an object** from one state to another. -/
inductive Run (member : String → σ → List Char → Except Fault (σ × List Char)) :
    Bool → σ → List Char → σ → List Char → Prop
  | close {first : Bool} {s : σ} {cs rest : List Char} (hclose : skipBlanks cs = '\x7d' :: rest) :
      Run member first s cs s rest
  | member {first : Bool} {s t s' : σ} {cs behind mid rest : List Char} {key : String}
      (hkey : nextKey first cs = .ok (.inr (key, behind)))
      (hmember : member key s behind = .ok (t, mid)) (htail : Run member false t mid s' rest) :
      Run member first s cs s' rest

/-- A run goes on with the member that stands next. -/
theorem Run.of_nextKey {first : Bool} {s s' : σ} {cs behind rest : List Char} {key : String}
    (h : Run member first s cs s' rest) (hkey : nextKey first cs = .ok (.inr (key, behind))) :
    ∃ t mid, member key s behind = .ok (t, mid) ∧ Run member false t mid s' rest := by
  cases h with
  | close hclose => cases hkey.symm.trans (nextKey_eq_inl_iff.mpr hclose)
  | member hkey' hmember htail =>
    cases hkey.symm.trans hkey'
    exact ⟨_, _, hmember, htail⟩

/-- A member that is read takes what would be skipped, and nothing else. -/
theorem TakesMembers.eq_of_skipped (h : TakesMembers member) {key : String} {s t : σ}
    {cs mid mid' : List Char} (hmember : member key s cs = .ok (t, mid))
    (hskip : BehindColon Skipped cs () mid') : mid = mid' := by
  obtain ⟨value, hcolon, hvalue⟩ := h.skips hmember
  obtain ⟨value', hcolon', hvalue'⟩ := hskip
  obtain ⟨-, rfl⟩ := List.cons.inj (hcolon.symm.trans hcolon')
  exact Except.ok.inj (Eq.trans (Eq.symm hvalue) hvalue')

/-- A run ends where the object does. -/
theorem readRun_of_close (h : TakesMembers member) (first : Bool) (s : σ) {cs rest : List Char}
    (hclose : skipBlanks cs = '\x7d' :: rest) : readRun member first s cs = .ok (s, rest) := by
  rw [readRun_eq h.shortens, thenMembers_of_inl (nextKey_eq_inl_iff.mpr hclose)]

/-- A run goes on behind the next key with the member of that key. -/
theorem readRun_of_nextKey (h : TakesMembers member) {first : Bool} (s : σ) {cs behind : List Char}
    {key : String} (hkey : nextKey first cs = .ok (.inr (key, behind))) :
    readRun member first s cs =
      (member key s behind).bind fun x => readRun member false x.1 x.2 := by
  rw [readRun_eq h.shortens, thenMembers_of_inr hkey]

/-- **What is read of an object is a run over its members.** -/
theorem readRun_eq_ok_iff (h : TakesMembers member) {first : Bool} {s s' : σ}
    {cs rest : List Char} :
    readRun member first s cs = .ok (s', rest) ↔ Run member first s cs s' rest := by
  constructor
  · intro hread
    generalize hn : cs.length = n
    induction n using Nat.strong_induction_on generalizing first s cs with
    | h n ih =>
      rw [readRun_eq h.shortens] at hread
      obtain ⟨next, hnext, hread⟩ := bind_eq_ok_iff.mp hread
      cases next with
      | inl rest =>
        cases hread
        exact .close (nextKey_eq_inl_iff.mp hnext)
      | inr key =>
        obtain ⟨⟨t, mid⟩, hmember, htail⟩ := bind_eq_ok_iff.mp hread
        have hlen := length_lt_of_nextKey hnext
        have hmid := h.shortens _ _ _ _ _ hmember
        exact .member hnext hmember (ih mid.length (by omega) htail rfl)
  · intro hrun
    induction hrun with
    | close hclose => exact readRun_of_close h _ _ hclose
    | member hkey hmember _ ih =>
      rw [readRun_of_nextKey h _ hkey, hmember]
      exact ih

/-- **Objects are read locally.** -/
theorem readRun_local (h : TakesMembers member) (first : Bool) (s : σ) :
    LocalReader (readRun member first s) := by
  refine fun s' => Local.congr ?_ fun cs rest => readRun_eq_ok_iff h
  intro cs rest hrun
  induction hrun with
  | close hclose =>
    obtain ⟨used, rfl, hused⟩ := Local.mark '\x7d' _ _ hclose
    exact ⟨used, rfl, fun rest' hhead => .close (hused rest' hhead)⟩
  | @member first s t s' cs behind mid rest key hkey hmember _ ih =>
    obtain ⟨more, rfl, hmore⟩ := ih
    obtain ⟨used, rfl, hused⟩ :=
      ((nextKey_local first key).comp (h.near key s t)) cs _ ⟨behind, hkey, hmember⟩
    refine ⟨used ++ more, (List.append_assoc ..).symm, fun rest' hhead => ?_⟩
    obtain ⟨behind', hkey', hmember'⟩ := hused _ (head?_append_congr hhead more)
    rw [List.append_assoc]
    exact .member hkey' hmember' (hmore rest' hhead)

/-- The members of an object that is read are skipped. -/
theorem Run.entries (h : TakesMembers member) {first : Bool} {s s' : σ} {cs rest : List Char}
    (hrun : Run member first s cs s' rest) : ∃ es, Entries Skipped first cs es rest := by
  induction hrun with
  | close hclose => exact ⟨[], .close hclose⟩
  | member hkey hmember _ ih =>
    obtain ⟨es, hes⟩ := ih
    obtain ⟨inner, s, -, hstart, hs⟩ := nextKey_eq_inr_iff.mp hkey
    exact ⟨_ :: es, .entry hstart hs (h.skips hmember) hes⟩

end

/-! ## Brackets -/

/-- A list is skipped if its items are. -/
theorem skipValue_of_items {cs inner rest : List Char} {us : List Unit}
    (hopen : skipBlanks cs = '[' :: inner) (h : Items Skipped true inner us rest) :
    skipValue cs = .ok rest := by
  refine skipValue_of_skips
    (Skips.trans (.part ?_ (partsLeft_lt (length_lt_of_skipBlanks hopen)))
      (skips_of_items (fun hskip => skips_of_skipValue hskip) Skipped.proper h []))
  exact skipPart_value hopen

/-- An object is skipped if its members are. -/
theorem skipValue_of_entries {cs inner rest : List Char} {es : List (String × Unit)}
    (hopen : skipBlanks cs = '\x7b' :: inner) (h : Entries Skipped true inner es rest) :
    skipValue cs = .ok rest := by
  refine skipValue_of_skips
    (Skips.trans (.part ?_ (partsLeft_lt (length_lt_of_skipBlanks hopen)))
      (skips_of_entries (fun hskip => skips_of_skipValue hskip) h []))
  exact skipPart_value hopen

/-! ## Heads -/

/-- The bracket that was found, if it was one. -/
def bracket? : Found → Option Bracket
  | .sequence => some .list
  | .mapping => some .object
  | _ => none

/-- A number is no bracket. -/
theorem Numeral.bracket?_value {n : Numeral} {found : Found} (h : n.value = .ok found) :
    bracket? found = none := by
  obtain ⟨_, rfl⟩ | ⟨_, rfl⟩ | ⟨_, rfl⟩ := Numeral.value_cases h <;> rfl

/-- A keyword is skipped where it is read, and no bracket is open behind it. -/
theorem skipped_of_keyword {word cs rest : List Char} {keyword found : Found}
    (h : (readKeyword word cs).map (keyword, ·) = .ok (found, rest))
    (hkeyword : bracket? keyword = none) :
    (readKeyword word cs).map (none, ·) = .ok (bracket? found, rest) := by
  obtain ⟨rest, hword, heq⟩ := map_eq_ok_iff.mp h
  cases heq
  exact map_eq_ok_iff.mpr ⟨rest, hword, by rw [hkeyword]⟩

/-- A number is skipped where it is read, and no bracket is open behind it. -/
theorem skipped_of_number {negative : Bool} {cs rest : List Char} {found : Found}
    (h : ((readNumeral negative cs).bind fun (n, rest) => n.value.map (·, rest)) =
      .ok (found, rest)) :
    (skipNumeral cs).map (none, ·) = .ok (bracket? found, rest) := by
  obtain ⟨⟨n, rest⟩, hnumeral, h⟩ := bind_eq_ok_iff.mp h
  obtain ⟨found, hvalue, heq⟩ := map_eq_ok_iff.mp h
  cases heq
  rw [skipNumeral_of_readNumeral hnumeral, Numeral.bracket?_value hvalue]
  rfl

/-- **The head of a value is skipped where it is read.** -/
theorem skipHead_of_readHead {c : Char} {cs tail rest : List Char} {found : Found}
    (hskip : skipBlanks cs = c :: tail) (h : readHead cs = .ok (found, rest)) :
    skipHead c tail = .ok (bracket? found, rest) := by
  unfold readHead at h
  rw [hskip] at h
  unfold skipHead
  dsimp only at h
  -- Both look at the first character in the same order.
  split_ifs at h ⊢
  · exact skipped_of_keyword h rfl
  · exact skipped_of_keyword h rfl
  · exact skipped_of_keyword h rfl
  · obtain ⟨⟨s, rest⟩, hs, heq⟩ := map_eq_ok_iff.mp h
    cases heq
    exact map_eq_ok_iff.mpr ⟨rest, skipText_of_spells (spells_of_readText hs), rfl⟩
  · cases h
    rfl
  · cases h
    rfl
  · exact skipped_of_number h
  · exact skipped_of_number h
  · cases h

/-- A bracket stands at the head of a value by itself. -/
theorem eq_of_skipHead_bracket {c : Char} {tail rest : List Char} {bracket : Bracket}
    (h : skipHead c tail = .ok (some bracket, rest)) :
    c :: tail = (if bracket = .list then '[' else '\x7b') :: rest := by
  -- Whatever a scalar takes, no bracket is left open behind it.
  have hscalar : ∀ take : Except Fault (List Char),
      take.map (none, ·) ≠ .ok (some bracket, rest) := by
    rintro (_ | _) <;> simp
  unfold skipHead at h
  split_ifs at h with hn ht hf hquote hlist hobject hminus hdigit
  · exact absurd h (hscalar _)
  · exact absurd h (hscalar _)
  · exact absurd h (hscalar _)
  · exact absurd h (hscalar _)
  · cases h
    rw [hlist, if_pos rfl]
  · cases h
    rw [hobject, if_neg nofun]
  · exact absurd h (hscalar _)
  · exact absurd h (hscalar _)
  · cases h

/-- A value that is complete with its head is skipped. -/
theorem skipValue_of_skipHead {c : Char} {cs tail rest : List Char}
    (hskip : skipBlanks cs = c :: tail) (h : skipHead c tail = .ok (none, rest)) :
    skipValue cs = .ok rest := by
  have hpart : skipPart .value [] cs = .ok (some (.after, []), rest) := by
    rw [skipPart_value hskip, h]
    rfl
  exact skipValue_of_skips (.part hpart (partsLeft_lt_of_skipPart hpart))

/-- A scalar is skipped where it is read. -/
theorem skipValue_of_readHead {cs rest : List Char} {found : Found}
    (h : readHead cs = .ok (found, rest)) (hfound : bracket? found = none) :
    skipValue cs = .ok rest := by
  cases hskip : skipBlanks cs with
  | nil => simp [readHead, hskip, unfinished] at h
  | cons c tail => exact skipValue_of_skipHead hskip (hfound ▸ skipHead_of_readHead hskip h)

/-- **What stands first in a value** is a bracket, or else the whole value. -/
theorem readHead_cases {cs rest : List Char} {found : Found}
    (h : readHead cs = .ok (found, rest)) :
    (found = .sequence ∧ skipBlanks cs = '[' :: rest) ∨
      (found = .mapping ∧ skipBlanks cs = '\x7b' :: rest) ∨
        (found ≠ .sequence ∧ found ≠ .mapping) ∧ skipValue cs = .ok rest := by
  cases hskip : skipBlanks cs with
  | nil => simp [readHead, hskip, unfinished] at h
  | cons c tail =>
    have hhead := skipHead_of_readHead hskip h
    cases found with
    | sequence => exact .inl ⟨rfl, eq_of_skipHead_bracket hhead⟩
    | mapping => exact .inr (.inl ⟨rfl, eq_of_skipHead_bracket hhead⟩)
    | _ => exact .inr (.inr ⟨by simp, skipValue_of_readHead h rfl⟩)

section

variable {α : Type} {next : Found × List Char → Except Fault (α × List Char)}

/-- **A reader that goes on from the head of a value** takes values if it takes the items of lists
and the members of objects, and nothing behind anything else. -/
theorem takesValues_of_head (hnear : ∀ found, LocalReader fun cs => next (found, cs))
    (hlist : ∀ {cs v rest}, next (.sequence, cs) = .ok (v, rest) →
      ∃ us, Items Skipped true cs us rest)
    (hobject : ∀ {cs v rest}, next (.mapping, cs) = .ok (v, rest) →
      ∃ es, Entries Skipped true cs es rest)
    (hscalar : ∀ found cs v rest, found ≠ .sequence ∧ found ≠ .mapping →
      next (found, cs) = .ok (v, rest) → rest = cs) :
    TakesValues fun cs => (readHead cs).bind next where
  near := readHead_local.bind hnear
  skips {cs v rest} h := by
    obtain ⟨⟨found, behind⟩, hhead, h⟩ := bind_eq_ok_iff.mp h
    obtain ⟨rfl, hopen⟩ | ⟨rfl, hopen⟩ | ⟨hfound, hskip⟩ := readHead_cases hhead
    · obtain ⟨us, hus⟩ := hlist h
      exact skipValue_of_items hopen hus
    · obtain ⟨es, hes⟩ := hobject h
      exact skipValue_of_entries hopen hes
    · rw [hscalar _ _ _ _ hfound h]
      exact hskip
  blanks cs := by rw [readHead_skipBlanks]

/-- A reader of scalars takes values. -/
theorem takesValues_of_scalar
    (hnext : ∀ found cs, next (found, cs) = (next (found, [])).map fun x => (x.1, cs))
    (hlist : ∀ x, next (.sequence, []) ≠ .ok x) (hobject : ∀ x, next (.mapping, []) ≠ .ok x) :
    TakesValues fun cs => (readHead cs).bind next := by
  -- What is found decides, and the text behind it is not looked at.
  have hvalue : ∀ {found cs v rest}, next (found, cs) = .ok (v, rest) →
      (∃ x, next (found, []) = .ok x) ∧ rest = cs := by
    intro found cs v rest h
    rw [hnext] at h
    obtain ⟨x, hx, heq⟩ := map_eq_ok_iff.mp h
    cases heq
    exact ⟨⟨x, hx⟩, rfl⟩
  refine takesValues_of_head (fun found => ?_) (fun h => ?_) (fun h => ?_)
    fun _ _ _ _ _ h => (hvalue h).2
  · rw [funext (hnext found)]
    cases next (found, []) with
    | error err => exact .error err
    | ok x => exact .pure x.1
  · obtain ⟨x, hx⟩ := (hvalue h).1
    exact absurd hx (hlist x)
  · obtain ⟨x, hx⟩ := (hvalue h).1
    exact absurd hx (hobject x)

end

/-! ## Values of any shape -/

/-- A member that is buffered, in front of those before it. -/
def readEntry (depth : Nat) (key : String) (entries : List (Buffered × Buffered))
    (cs : List Char) : Except Fault (List (Buffered × Buffered) × List Char) :=
  (readColon cs).bind fun cs =>
    (readBuffered depth cs).map fun x => ((.text key, x.1) :: entries, x.2)

/-- How a buffered value goes on from its head. -/
def bufferFrom (depth : Nat) (head : Found × List Char) : Except Fault (Buffered × List Char) :=
  match head.1, depth with
  | .sequence, 0 => malformed .tooDeep
  | .sequence, depth + 1 =>
    (readItems (readBuffered depth) true head.2).map fun x => (.sequence x.1, x.2)
  | .mapping, 0 => malformed .tooDeep
  | .mapping, depth + 1 =>
    (readMembers (readEntry depth) [] head.2).map fun x => (.mapping x.1.reverse, x.2)
  | scalar, _ => .ok (ofScalar scalar, head.2)

/-- A scalar is buffered as it stands. -/
theorem bufferFrom_of_scalar {found : Found} (h : found ≠ .sequence ∧ found ≠ .mapping)
    (depth : Nat) (cs : List Char) : bufferFrom depth (found, cs) = .ok (ofScalar found, cs) := by
  cases found with
  | sequence => exact absurd rfl h.1
  | mapping => exact absurd rfl h.2
  | _ => rfl

/-- A value is buffered from its head on. -/
theorem readBuffered_eq (depth : Nat) (cs : List Char) :
    readBuffered depth cs = (readHead cs).bind (bufferFrom depth) := by
  rw [readBuffered.eq_def]
  dsimp only
  cases readHead cs with
  | error err => rfl
  | ok head =>
    obtain ⟨found, rest⟩ := head
    cases found with
    | sequence =>
      cases depth with
      | zero => rfl
      | succ depth =>
        simp only [bind, ok_bind, bufferFrom]
        cases readItems (readBuffered depth) true rest <;> rfl
    | mapping =>
      cases depth with
      | zero => rfl
      | succ depth =>
        have hentry : readEntry depth = fun key entries cs => (readColon cs).bind fun cs =>
            (readBuffered depth cs).bind fun x => .ok ((.text key, x.1) :: entries, x.2) := by
          funext key entries cs
          simp only [readEntry, bind_ok_eq_map]
        simp only [bind, ok_bind, bufferFrom, hentry, pure, Except.pure]
        cases readMembers _ _ rest <;> rfl
    | _ => rfl

/-- A reader of values behind a colon, whose results are added to a state. -/
theorem takesMembers_of_takesValues {α σ : Type} {read : List Char → Except Fault (α × List Char)}
    (add : String → σ → α → σ) (h : TakesValues read)
    {member : String → σ → List Char → Except Fault (σ × List Char)}
    (hmember : ∀ key s cs, member key s cs = (readColon cs).bind fun cs =>
      (read cs).map fun x => (add key s x.1, x.2)) : TakesMembers member where
  near key s := by
    rw [funext (hmember key s)]
    exact .behind readColon_local (h.near.map (add key s) fun _ _ => rfl)
  skips {key s cs s' rest} hread := by
    rw [hmember] at hread
    obtain ⟨inner, hcolon, hread⟩ := bind_eq_ok_iff.mp hread
    obtain ⟨⟨v, rest⟩, hvalue, heq⟩ := map_eq_ok_iff.mp hread
    cases heq
    exact ⟨inner, readColon_eq_ok_iff.mp hcolon, h.skips hvalue⟩

/-- An entry of an object is read by what reads its value. -/
theorem takesMembers_readEntry {depth : Nat} (h : TakesValues (readBuffered depth)) :
    TakesMembers (readEntry depth) :=
  takesMembers_of_takesValues (fun key entries v => (.text key, v) :: entries) h fun _ _ _ => rfl

/-- **Values are buffered** from what they take. -/
theorem takesValues_readBuffered (depth : Nat) : TakesValues (readBuffered depth) := by
  -- What a collection holds is buffered one bracket deeper.
  induction depth with
  | zero =>
    rw [funext (readBuffered_eq 0)]
    refine takesValues_of_head (fun found => ?_) nofun nofun fun _ _ _ _ hfound h => ?_
    · cases found with
      | sequence => exact .error _
      | mapping => exact .error _
      | _ => exact .pure _
    · rw [bufferFrom_of_scalar hfound] at h
      cases h
      rfl
  | succ depth ih =>
    rw [funext (readBuffered_eq (depth + 1))]
    refine takesValues_of_head (fun found => ?_) (fun h => ?_) (fun h => ?_)
      fun _ _ _ _ hfound h => ?_
    · cases found with
      | sequence => exact (readItems_local ih true).map .sequence fun _ _ => rfl
      | mapping =>
        exact (readRun_local (takesMembers_readEntry ih) true []).map
          (fun entries => .mapping entries.reverse) fun _ _ => rfl
      | _ => exact .pure _
    · obtain ⟨⟨vs, rest⟩, hread, heq⟩ := map_eq_ok_iff.mp h
      cases heq
      exact items_of_readItems ih hread
    · obtain ⟨⟨vs, rest⟩, hread, heq⟩ := map_eq_ok_iff.mp h
      cases heq
      have hmember := takesMembers_readEntry ih
      exact ((readRun_eq_ok_iff hmember).mp hread).entries hmember
    · rw [bufferFrom_of_scalar hfound] at h
      cases h
      rfl

end AliasReport.Json
