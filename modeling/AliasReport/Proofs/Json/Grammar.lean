import Mathlib.Data.List.DropRight
import AliasReport.Json.Structure
import AliasReport.Proofs.Document.Representation

/-! # The grammar of JSON texts

Which texts are JSON documents, and what they stand for, apart from any reader. All relations are
between the text where something starts, what it stands for, and the text behind it. Blanks may
stand in front of every part.

* **`Spells`** — text, from behind its opening quote.
* **`Numeral.WellFormed`**, **`Numeral.Apart`** — numbers and what ends them.
* **`Scalar`** — values that hold no other values.
* **`Items`**, **`Entries`** — lists and objects, from behind their brackets, over any relation for
  what they hold.
* **`Value`** — values in which at most so many brackets are open at once.
* **`Document`** — a value with nothing but blanks behind it.
* **`Value.proper`** — a value starts with a character of its own. -/

namespace AliasReport.Json

open AliasReport.Document

/-! ## Text -/

/-- **Text from behind its opening quote.** A character stands for itself or is escaped; one beyond
the sixteen-bit plane is escaped as the two halves of a surrogate pair. -/
inductive Spells : List Char → List Char → List Char → Prop
  | close {rest : List Char} : Spells ('"' :: rest) [] rest
  | plain {c : Char} {cs s rest : List Char} (hquote : c ≠ '"') (hslash : c ≠ '\\')
      (hcontrol : 0x20 ≤ c.toNat) (htail : Spells cs s rest) : Spells (c :: cs) (c :: s) rest
  | short {e v : Char} {cs s rest : List Char} (hescape : shortEscape? e = some v)
      (htail : Spells cs s rest) : Spells ('\\' :: e :: cs) (v :: s) rest
  | unit {a b c d : Char} {n : Nat} {cs s rest : List Char} (hunit : codeUnit? a b c d = some n)
      (hfirst : isFirstHalf n = false) (hsecond : isSecondHalf n = false)
      (htail : Spells cs s rest) :
      Spells ('\\' :: 'u' :: a :: b :: c :: d :: cs) (Char.ofNat n :: s) rest
  | pair {a b c d a' b' c' d' : Char} {n m : Nat} {cs s rest : List Char}
      (hunit : codeUnit? a b c d = some n) (hfirst : isFirstHalf n = true)
      (hunit' : codeUnit? a' b' c' d' = some m) (hsecond : isSecondHalf m = true)
      (htail : Spells cs s rest) :
      Spells ('\\' :: 'u' :: a :: b :: c :: d :: '\\' :: 'u' :: a' :: b' :: c' :: d' :: cs)
        (joinHalves n m :: s) rest

/-- Text is at least as long as its closing quote. -/
theorem Spells.shortens {cs s rest : List Char} (h : Spells cs s rest) :
    rest.length < cs.length := by
  induction h with
  | close => simp
  | plain _ _ _ _ ih => simp only [List.length_cons]; omega
  | short _ _ ih => simp only [List.length_cons]; omega
  | unit _ _ _ _ ih => simp only [List.length_cons]; omega
  | pair _ _ _ _ _ ih => simp only [List.length_cons]; omega

/-! ## Numbers -/

/-- A run of decimal digits that is not empty. -/
structure IsDigits (ds : List Char) : Prop where
  ne_nil : ds ≠ []
  digit : ∀ c ∈ ds, c.isDigit = true

/-- A run of digits starts with one. -/
theorem IsDigits.exists_cons {ds : List Char} (h : IsDigits ds) :
    ∃ c tail, ds = c :: tail ∧ c.isDigit = true := by
  obtain ⟨c, tail, rfl⟩ := List.exists_cons_of_ne_nil h.ne_nil
  exact ⟨c, tail, rfl, h.digit c List.mem_cons_self⟩

namespace Numeral

/-- The parts of a number are runs of digits, of which the first has no needless zeros. -/
structure WellFormed (n : Numeral) : Prop where
  whole : IsDigits n.whole
  lead : n.whole.head? = some '0' → n.whole = ['0']
  fraction : ∀ ds ∈ n.fraction, IsDigits ds
  exponent : ∀ e ∈ n.exponent, IsDigits e.2

/-- The sign of a number as it is written. -/
def signChars (n : Numeral) : List Char :=
  if n.negative then ['-'] else []

/-- The fraction of a number as it is written. -/
def fractionChars (n : Numeral) : List Char :=
  match n.fraction with
  | none => []
  | some ds => '.' :: ds

/-- The ways to write an exponent. -/
inductive ExponentChars : Option (Bool × List Char) → List Char → Prop
  | none : ExponentChars none []
  | minus {mark : Char} {ds : List Char} (hmark : mark = 'e' ∨ mark = 'E') :
      ExponentChars (some (true, ds)) (mark :: '-' :: ds)
  | plus {mark : Char} {ds : List Char} (hmark : mark = 'e' ∨ mark = 'E') :
      ExponentChars (some (false, ds)) (mark :: '+' :: ds)
  | bare {mark : Char} {ds : List Char} (hmark : mark = 'e' ∨ mark = 'E') :
      ExponentChars (some (false, ds)) (mark :: ds)

/-- The text behind a number does not go on with it. -/
def Apart (rest : List Char) : Prop :=
  ∀ c ∈ rest.head?, c.isDigit = false ∧ c ≠ '.' ∧ c ≠ 'e' ∧ c ≠ 'E'

end Numeral

/-! ## Values -/

/-- **Values that hold no other values.** Numbers must be in range. -/
inductive Scalar : List Char → Found → List Char → Prop
  | null {cs rest : List Char} (htext : skipBlanks cs = "null".toList ++ rest) :
      Scalar cs .nothing rest
  | true {cs rest : List Char} (htext : skipBlanks cs = "true".toList ++ rest) :
      Scalar cs (.truth true) rest
  | false {cs rest : List Char} (htext : skipBlanks cs = "false".toList ++ rest) :
      Scalar cs (.truth false) rest
  | text {cs inner s rest : List Char} (htext : skipBlanks cs = '"' :: inner)
      (hspells : Spells inner s rest) : Scalar cs (.text (String.ofList s)) rest
  | number {cs exponent rest : List Char} {n : Numeral} {found : Found}
      (hexponent : Numeral.ExponentChars n.exponent exponent)
      (htext : skipBlanks cs =
        n.signChars ++ (n.whole ++ (n.fractionChars ++ (exponent ++ rest))))
      (hn : n.WellFormed) (hrest : Numeral.Apart rest) (hvalue : n.value = .ok found) :
      Scalar cs found rest

/-- Where the next item or member starts: the first one at once, the others behind a comma. -/
inductive Starts : Bool → List Char → List Char → Prop
  | first {cs : List Char} : Starts true cs (skipBlanks cs)
  | next {cs more : List Char} (hcomma : skipBlanks cs = ',' :: more) :
      Starts false cs (skipBlanks more)

section

variable {β : Type} (V : List Char → β → List Char → Prop)

/-- **The items of a list** up to its bracket; at its beginning if `first` holds, and otherwise from
behind an item. -/
inductive Items : Bool → List Char → List β → List Char → Prop
  | close {first : Bool} {cs rest : List Char} (hclose : skipBlanks cs = ']' :: rest) :
      Items first cs [] rest
  | item {first : Bool} {cs inner mid rest : List Char} {b : β} {bs : List β}
      (hstart : Starts first cs inner) (hitem : V inner b mid) (htail : Items false mid bs rest) :
      Items first cs (b :: bs) rest

/-- A value behind a colon. -/
def BehindColon (cs : List Char) (b : β) (rest : List Char) : Prop :=
  ∃ inner, skipBlanks cs = ':' :: inner ∧ V inner b rest

/-- **The members of an object** up to its bracket; at its beginning if `first` holds, and otherwise
from behind a member. -/
inductive Entries : Bool → List Char → List (String × β) → List Char → Prop
  | close {first : Bool} {cs rest : List Char} (hclose : skipBlanks cs = '\x7d' :: rest) :
      Entries first cs [] rest
  | entry {first : Bool} {cs inner key behind mid rest : List Char} {b : β}
      {es : List (String × β)} (hstart : Starts first cs ('"' :: inner))
      (hkey : Spells inner key behind) (hvalue : BehindColon V behind b mid)
      (htail : Entries false mid es rest) :
      Entries first cs ((String.ofList key, b) :: es) rest

end

/-- A scalar, or a list or an object of values that are given by a relation. -/
inductive Compound (V : List Char → Buffered → List Char → Prop) :
    List Char → Buffered → List Char → Prop
  | scalar {cs rest : List Char} {found : Found} (hscalar : Scalar cs found rest) :
      Compound V cs (ofScalar found) rest
  | list {cs inner rest : List Char} {bs : List Buffered}
      (hopen : skipBlanks cs = '[' :: inner) (hitems : Items V true inner bs rest) :
      Compound V cs (.sequence bs) rest
  | object {cs inner rest : List Char} {es : List (String × Buffered)}
      (hopen : skipBlanks cs = '\x7b' :: inner) (hentries : Entries V true inner es rest) :
      Compound V cs (.mapping (keyed es)) rest

/-- **Values** in which at most `depth` brackets are open at once. -/
def Value : (depth : Nat) → List Char → Buffered → List Char → Prop
  | 0, cs, b, rest => ∃ found, Scalar cs found rest ∧ ofScalar found = b
  | depth + 1, cs, b, rest => Compound (Value depth) cs b rest

/-- **A JSON document** is a value with nothing but blanks behind it. At most `depth` of its
brackets are open at once. -/
def Document (depth : Nat) (text : String) (b : Buffered) : Prop :=
  ∃ rest, Value depth text.toList b rest ∧ skipBlanks rest = []

/-! ## Where values start -/

/-- Values of a relation start with a character that closes nothing, and blanks in front of them do
not matter. -/
structure Proper {β : Type} (V : List Char → β → List Char → Prop) : Prop where
  opens : ∀ {cs b rest}, V cs b rest → ∃ c inner, skipBlanks cs = c :: inner ∧ c ≠ ']'
  shortens : ∀ {cs b rest}, V cs b rest → rest.length < cs.length
  blanks : ∀ {cs b rest}, V (skipBlanks cs) b rest ↔ V cs b rest

/-- Blanks are skipped once. -/
theorem skipBlanks_skipBlanks (cs : List Char) : skipBlanks (skipBlanks cs) = skipBlanks cs :=
  List.dropWhile_idempotent isBlank cs

/-- Skipping blanks leaves no more text than there is. -/
theorem length_skipBlanks_le (cs : List Char) : (skipBlanks cs).length ≤ cs.length :=
  (List.dropWhile_sublist isBlank).length_le

/-- What stands behind the character after some blanks is shorter. -/
theorem length_lt_of_skipBlanks {c : Char} {cs inner : List Char}
    (h : skipBlanks cs = c :: inner) : inner.length < cs.length := by
  have hlen := length_skipBlanks_le cs
  rw [h, List.length_cons] at hlen
  omega

/-- A number starts with a minus sign or a digit. -/
theorem Numeral.WellFormed.opens {n : Numeral} (hn : n.WellFormed) (tail : List Char) :
    ∃ c inner, n.signChars ++ (n.whole ++ tail) = c :: inner ∧ (c = '-' ∨ c.isDigit = true) := by
  unfold signChars
  cases n.negative with
  | true => exact ⟨'-', _, rfl, .inl rfl⟩
  | false =>
    obtain ⟨c, ds, hwhole, hc⟩ := hn.whole.exists_cons
    exact ⟨c, ds ++ tail, by rw [hwhole]; rfl, .inr hc⟩

/-- A scalar starts with a character that closes nothing, and only null with the letter of its
keyword. -/
theorem opens_of_scalar {cs rest : List Char} {found : Found} (h : Scalar cs found rest) :
    ∃ c inner, skipBlanks cs = c :: inner ∧ c ≠ ']' ∧ (found ≠ .nothing → c ≠ 'n') := by
  cases h with
  | null htext => exact ⟨_, _, htext, by decide, fun hfound => absurd rfl hfound⟩
  | true htext => exact ⟨_, _, htext, by decide, fun _ => by decide⟩
  | false htext => exact ⟨_, _, htext, by decide, fun _ => by decide⟩
  | text htext _ => exact ⟨_, _, htext, by decide, fun _ => by decide⟩
  | number _ htext hn _ _ =>
    obtain ⟨c, inner, hchars, hc⟩ := hn.opens _
    have hne : ∀ d : Char, ¬(d = '-' ∨ d.isDigit = true) → c ≠ d := by
      rintro d hd rfl
      exact hd hc
    exact ⟨c, inner, htext.trans hchars, hne _ (by decide), fun _ => hne _ (by decide)⟩

/-- Scalars start as values do. -/
theorem Scalar.proper : Proper Scalar where
  opens h := by
    obtain ⟨c, inner, hopen, hc, -⟩ := opens_of_scalar h
    exact ⟨c, inner, hopen, hc⟩
  shortens {cs found rest} h := by
    cases h with
    | null htext =>
      have hlen := length_lt_of_skipBlanks htext
      exact (List.suffix_append "ull".toList rest).length_le.trans_lt hlen
    | true htext =>
      have hlen := length_lt_of_skipBlanks htext
      exact (List.suffix_append "rue".toList rest).length_le.trans_lt hlen
    | false htext =>
      have hlen := length_lt_of_skipBlanks htext
      exact (List.suffix_append "alse".toList rest).length_le.trans_lt hlen
    | text htext hspells => exact hspells.shortens.trans (length_lt_of_skipBlanks htext)
    | number _ htext hn _ _ =>
      have hlen := length_skipBlanks_le cs
      have hwhole := List.length_pos_iff.mpr hn.whole.ne_nil
      rw [htext] at hlen
      simp only [List.length_append] at hlen
      omega
  blanks {cs found rest} := by
    -- A scalar is only looked at behind its blanks.
    have of_eq : ∀ {cs cs'}, skipBlanks cs' = skipBlanks cs → Scalar cs found rest →
        Scalar cs' found rest := by
      intro cs cs' heq h
      cases h with
      | null htext => exact .null (heq.trans htext)
      | true htext => exact .true (heq.trans htext)
      | false htext => exact .false (heq.trans htext)
      | text htext hspells => exact .text (heq.trans htext) hspells
      | number he htext hn hrest hvalue => exact .number he (heq.trans htext) hn hrest hvalue
    exact ⟨of_eq (skipBlanks_skipBlanks cs).symm, of_eq (skipBlanks_skipBlanks cs)⟩

section

variable {β : Type} {V : List Char → β → List Char → Prop}

/-- What starts behind blanks or a comma is not longer than the text. -/
theorem Starts.length_le {first : Bool} {cs inner : List Char} (h : Starts first cs inner) :
    inner.length ≤ cs.length := by
  cases h with
  | first => exact length_skipBlanks_le cs
  | next hcomma =>
    exact (length_skipBlanks_le _).trans (length_lt_of_skipBlanks hcomma).le

/-- The items of a list take some text, its bracket at least. -/
theorem Items.shortens (hV : Proper V) {first : Bool} {cs rest : List Char} {bs : List β}
    (h : Items V first cs bs rest) : rest.length < cs.length := by
  induction h with
  | close hclose => exact length_lt_of_skipBlanks hclose
  | item hstart hitem _ ih =>
    exact ih.trans ((hV.shortens hitem).trans_le hstart.length_le)

/-- A value behind a colon takes some text. -/
theorem BehindColon.shortens (hV : Proper V) {cs rest : List Char} {b : β}
    (h : BehindColon V cs b rest) : rest.length < cs.length := by
  obtain ⟨inner, hcolon, hvalue⟩ := h
  exact (hV.shortens hvalue).trans (length_lt_of_skipBlanks hcolon)

/-- The members of an object take some text, its bracket at least. -/
theorem Entries.shortens (hV : Proper V) {first : Bool} {cs rest : List Char}
    {es : List (String × β)} (h : Entries V first cs es rest) : rest.length < cs.length := by
  induction h with
  | close hclose => exact length_lt_of_skipBlanks hclose
  | entry hstart hkey hvalue _ ih =>
    have hstart := hstart.length_le
    have hkey := hkey.shortens
    have hvalue := hvalue.shortens hV
    rw [List.length_cons] at hstart
    omega

end

/-- Scalars, lists and objects start as values do if what they hold does. -/
theorem Compound.proper {V : List Char → Buffered → List Char → Prop} (hV : Proper V) :
    Proper (Compound V) where
  opens h := by
    cases h with
    | scalar hscalar => exact Scalar.proper.opens hscalar
    | list hopen _ => exact ⟨_, _, hopen, by decide⟩
    | object hopen _ => exact ⟨_, _, hopen, by decide⟩
  shortens h := by
    cases h with
    | scalar hscalar => exact Scalar.proper.shortens hscalar
    | list hopen hitems => exact (hitems.shortens hV).trans (length_lt_of_skipBlanks hopen)
    | object hopen hentries => exact (hentries.shortens hV).trans (length_lt_of_skipBlanks hopen)
  blanks {cs b rest} := by
    have hblanks := skipBlanks_skipBlanks cs
    constructor
    · intro h
      cases h with
      | scalar hscalar => exact .scalar (Scalar.proper.blanks.mp hscalar)
      | list hopen hitems => exact .list (hblanks.symm.trans hopen) hitems
      | object hopen hentries => exact .object (hblanks.symm.trans hopen) hentries
    · intro h
      cases h with
      | scalar hscalar => exact .scalar (Scalar.proper.blanks.mpr hscalar)
      | list hopen hitems => exact .list (hblanks.trans hopen) hitems
      | object hopen hentries => exact .object (hblanks.trans hopen) hentries

/-- **A value starts** with a character of its own and is not empty. -/
theorem Value.proper (depth : Nat) : Proper (Value depth) := by
  induction depth with
  | zero =>
    constructor
    · rintro cs b rest ⟨found, hscalar, -⟩
      exact Scalar.proper.opens hscalar
    · rintro cs b rest ⟨found, hscalar, -⟩
      exact Scalar.proper.shortens hscalar
    · exact exists_congr fun found => and_congr_left' Scalar.proper.blanks
  | succ depth ih => exact Compound.proper ih

/-! ## Kinds of values -/

/-- A scalar is a value in any depth. -/
theorem Scalar.value {cs rest : List Char} {found : Found} (h : Scalar cs found rest)
    (depth : Nat) : Value depth cs (ofScalar found) rest := by
  cases depth with
  | zero => exact ⟨found, h, rfl⟩
  | succ depth => exact .scalar h

/-- The value of a number is natural, negative or real. -/
theorem Numeral.value_cases {n : Numeral} {found : Found} (h : n.value = .ok found) :
    (∃ k, found = .unsigned k) ∨ (∃ k, found = .signed k) ∨ ∃ x, found = .real x := by
  simp only [value] at h
  split_ifs at h
  · exact .inl ⟨_, (Except.ok.inj h).symm⟩
  · exact .inr (.inl ⟨_, (Except.ok.inj h).symm⟩)
  · cases hreal : n.real? with
    | none => rw [hreal] at h; cases h
    | some x =>
      rw [hreal] at h
      exact .inr (.inr ⟨x, (Except.ok.inj h).symm⟩)

/-- A scalar keeps what was found when it is buffered. -/
theorem Scalar.found_ofScalar {cs rest : List Char} {found : Found} (h : Scalar cs found rest) :
    (ofScalar found).found = found := by
  cases h with
  | null => rfl
  | true => rfl
  | false => rfl
  | text => rfl
  | number _ _ _ _ hvalue =>
    obtain ⟨_, rfl⟩ | ⟨_, rfl⟩ | ⟨_, rfl⟩ := Numeral.value_cases hvalue <;> rfl

/-- A value that is no list and no object is a scalar. -/
theorem Value.scalar {depth : Nat} {cs rest : List Char} {b : Buffered}
    (h : Value depth cs b rest) (hlist : b.found ≠ .sequence) (hobject : b.found ≠ .mapping) :
    Scalar cs b.found rest := by
  cases depth with
  | zero =>
    obtain ⟨found, hscalar, rfl⟩ := h
    rwa [hscalar.found_ofScalar]
  | succ depth =>
    cases h with
    | scalar hscalar => rwa [hscalar.found_ofScalar]
    | list => exact absurd rfl hlist
    | object => exact absurd rfl hobject

/-- A scalar is no list and no object. -/
theorem ofScalar_ne_sequence (found : Found) (bs : List Buffered) :
    ofScalar found ≠ .sequence bs := by
  cases found <;> exact nofun

/-- What a scalar is buffered as is no object. -/
theorem ofScalar_ne_mapping (found : Found) (es : List (Buffered × Buffered)) :
    ofScalar found ≠ .mapping es := by
  cases found <;> exact nofun

/-- A list opens a bracket. -/
theorem Value.list {depth : Nat} {cs rest : List Char} {bs : List Buffered}
    (h : Value depth cs (.sequence bs) rest) :
    ∃ depth' inner, depth = depth' + 1 ∧ skipBlanks cs = '[' :: inner ∧
      Items (Value depth') true inner bs rest := by
  -- The cases of a value need a variable for what it stands for.
  generalize hb : Buffered.sequence bs = b at h
  cases depth with
  | zero =>
    obtain ⟨found, -, hfound⟩ := h
    exact absurd (hfound.trans hb.symm) (ofScalar_ne_sequence found bs)
  | succ depth =>
    cases h with
    | scalar => exact absurd hb.symm (ofScalar_ne_sequence _ bs)
    | list hopen hitems =>
      obtain rfl := Buffered.sequence.inj hb
      exact ⟨_, _, rfl, hopen, hitems⟩
    | object => cases hb

/-- An object opens a bracket. -/
theorem Value.object {depth : Nat} {cs rest : List Char} {es : List (String × Buffered)}
    (h : Value depth cs (.mapping (keyed es)) rest) :
    ∃ depth' inner, depth = depth' + 1 ∧ skipBlanks cs = '\x7b' :: inner ∧
      Entries (Value depth') true inner es rest := by
  generalize hb : Buffered.mapping (keyed es) = b at h
  cases depth with
  | zero =>
    obtain ⟨found, -, hfound⟩ := h
    exact absurd (hfound.trans hb.symm) (ofScalar_ne_mapping found _)
  | succ depth =>
    cases h with
    | scalar => exact absurd hb.symm (ofScalar_ne_mapping _ _)
    | list => cases hb
    | object hopen hentries =>
      obtain rfl := keyed_injective (Buffered.mapping.inj hb)
      exact ⟨_, _, rfl, hopen, hentries⟩

/-- Null is the keyword. -/
theorem Scalar.null_text {cs rest : List Char} (h : Scalar cs .nothing rest) :
    skipBlanks cs = "null".toList ++ rest := by
  generalize hfound : Found.nothing = found at h
  cases h with
  | null htext => exact htext
  | true => cases hfound
  | false => cases hfound
  | text => cases hfound
  | number _ _ _ _ hvalue =>
    subst hfound
    obtain ⟨_, h⟩ | ⟨_, h⟩ | ⟨_, h⟩ := Numeral.value_cases hvalue <;> cases h

/-- Text stands between quotes. -/
theorem Scalar.spells {cs rest : List Char} {name : String} (h : Scalar cs (.text name) rest) :
    ∃ inner s, String.ofList s = name ∧ skipBlanks cs = '"' :: inner ∧ Spells inner s rest := by
  generalize hfound : Found.text name = found at h
  cases h with
  | null => cases hfound
  | true => cases hfound
  | false => cases hfound
  | text htext hspells => exact ⟨_, _, (Found.text.inj hfound).symm, htext, hspells⟩
  | number _ _ _ _ hvalue =>
    subst hfound
    obtain ⟨_, h⟩ | ⟨_, h⟩ | ⟨_, h⟩ := Numeral.value_cases hvalue <;> cases h

/-- No value but null starts with the letter of its keyword. -/
theorem Value.head_ne {depth : Nat} {cs rest : List Char} {b : Buffered}
    (h : Value depth cs b rest) (hb : b ≠ .nothing) :
    ∃ c tail, skipBlanks cs = c :: tail ∧ c ≠ 'n' := by
  -- Only null starts with this letter, and it stands for nothing.
  have hscalar : ∀ {found}, Scalar cs found rest → ofScalar found ≠ .nothing →
      ∃ c tail, skipBlanks cs = c :: tail ∧ c ≠ 'n' := by
    intro found hscalar hfound
    obtain ⟨c, tail, hopen, -, hc⟩ := opens_of_scalar hscalar
    refine ⟨c, tail, hopen, hc ?_⟩
    rintro rfl
    exact hfound rfl
  cases depth with
  | zero =>
    obtain ⟨found, h, rfl⟩ := h
    exact hscalar h hb
  | succ depth =>
    cases h with
    | scalar h => exact hscalar h hb
    | list hopen _ => exact ⟨_, _, hopen, by decide⟩
    | object hopen _ => exact ⟨_, _, hopen, by decide⟩

end AliasReport.Json
