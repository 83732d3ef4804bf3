import Mathlib.Data.List.TakeDrop
import AliasReport.Proofs.Json.Grammar
import AliasReport.Proofs.Sequencing

/-! # Readers follow the grammar

What stands at the start of a text by the grammar is what the readers read there, and they leave the
text behind it.

* **`readText_of_spells`**, **`readParts_of_wellFormed`**, **`readHead_of_scalar`** — text, numbers
  and scalars.
* **`readItems_of_items`**, **`readMembers_of_entries`** — lists and objects, for any reader of what
  they hold.
* **`readBuffered_of_value`** — values of any shape.
* **`skipPart_value`**, **`skipPart_key`**, **`skipPart_opened`**, **`skipPart_after`** — one part
  of a value that does not matter, at each stage.
* **`skipValue_of_value`** — values that do not matter. -/

namespace AliasReport.Json

open AliasReport.Document

/-! ## Text -/

/-- The letter of an escape by code point is no short escape. -/
@[simp] theorem shortEscape?_u : shortEscape? 'u' = none := rfl

/-- A half of a surrogate pair is either a first or a second one. -/
theorem isSecondHalf_of_isFirstHalf {n : Nat} (h : isFirstHalf n = true) :
    isSecondHalf n = false := by
  simp only [isFirstHalf, isSecondHalf, Bool.and_eq_true, decide_eq_true_eq,
    Bool.and_eq_false_iff, decide_eq_false_iff_not] at h ⊢
  omega

/-- **Text is read** with its escapes resolved. -/
theorem readText_of_spells {cs s rest : List Char} (h : Spells cs s rest) :
    readText cs = .ok (s, rest) := by
  induction h with
  | close => rw [readText.eq_def]; rfl
  | plain hquote hslash hcontrol _ ih =>
    rw [readText.eq_def]
    simp only [if_neg hquote, if_neg hslash, if_neg (Nat.not_lt.mpr hcontrol), ih, map_ok]
  | short hescape _ ih =>
    rw [readText.eq_def]
    simp [hescape, ih]
  | unit hunit hfirst hsecond _ ih =>
    rw [readText.eq_def]
    simp [hunit, hfirst, hsecond, ih]
  | pair hunit hfirst hunit' hsecond _ ih =>
    rw [readText.eq_def]
    simp [hunit, hfirst, isSecondHalf_of_isFirstHalf hfirst, hunit', hsecond, ih]

/-- Skipping text ends where reading it ends. -/
theorem skipText_of_spells {cs s rest : List Char} (h : Spells cs s rest) :
    skipText cs = .ok rest := by
  induction h with
  | close => rw [skipText.eq_def]; rfl
  | plain hquote hslash hcontrol _ ih =>
    rw [skipText.eq_def]
    simp only [if_neg hquote, if_neg hslash, if_neg (Nat.not_lt.mpr hcontrol), ih]
  | short hescape _ ih =>
    rw [skipText.eq_def]
    simp [hescape, ih]
  | unit hunit _ _ _ ih =>
    rw [skipText.eq_def]
    simp [hunit, ih]
  | pair hunit _ hunit' _ _ ih =>
    rw [skipText.eq_def]
    simp only [shortEscape?_u, Option.isSome_none, hunit, Option.isSome_some, reduceCtorEq,
      ↓reduceIte]
    rw [skipText.eq_def]
    simp [hunit', ih]

/-! ## Numbers -/

/-- A character that starts a number starts nothing else. -/
theorem ne_of_isDigit {c d : Char} (hc : c.isDigit = true) (hd : d.isDigit = false) : c ≠ d := by
  rintro rfl
  exact absurd hc (by rw [hd]; decide)

/-- A run of digits is read up to what is no digit. -/
theorem readDigits_append {ds rest : List Char} (hds : IsDigits ds)
    (hrest : ∀ c ∈ rest.head?, c.isDigit = false) (atEnd : Fault) :
    readDigits atEnd (ds ++ rest) = .ok (ds, rest) := by
  have hspan : (ds ++ rest).span Char.isDigit = (ds, rest) := by
    rw [List.span_eq_takeWhile_dropWhile, List.takeWhile_append_of_pos hds.digit,
      List.dropWhile_append_of_pos hds.digit]
    cases rest with
    | nil => simp
    | cons c rest => simp [hrest c rfl]
  unfold readDigits
  rw [hspan]
  obtain ⟨c, ds, rfl⟩ := List.exists_cons_of_ne_nil hds.ne_nil
  rfl

/-- **Digits are read** as far as they go. -/
theorem readDigits_eq_ok_iff {atEnd : Fault} {cs ds rest : List Char} :
    readDigits atEnd cs = .ok (ds, rest) ↔
      cs = ds ++ rest ∧ IsDigits ds ∧ ∀ c ∈ rest.head?, c.isDigit = false := by
  constructor
  · intro h
    -- The digits are the longest front of the text that has no other character.
    have hsplit := List.takeWhile_append_dropWhile (p := Char.isDigit) (l := cs)
    have hnext := List.head?_dropWhile_not Char.isDigit cs
    unfold readDigits at h
    rw [List.span_eq_takeWhile_dropWhile] at h
    cases htake : cs.takeWhile Char.isDigit with
    | nil =>
      rw [htake] at h
      cases hdrop : cs.dropWhile Char.isDigit <;> rw [hdrop] at h <;> cases h
    | cons c tail =>
      rw [htake] at h
      cases h
      rw [htake] at hsplit
      refine ⟨hsplit.symm, ⟨List.cons_ne_nil _ _, fun d hd => ?_⟩, fun d hd => ?_⟩
      · exact List.mem_takeWhile_imp (htake ▸ hd)
      · rw [hd] at hnext
        exact hnext
  · rintro ⟨rfl, hds, hrest⟩
    exact readDigits_append hds hrest atEnd

/-- The digits before the point are read up to what is no digit. -/
theorem readWhole_append {ds rest : List Char} (hds : IsDigits ds)
    (hlead : ds.head? = some '0' → ds = ['0']) (hrest : ∀ c ∈ rest.head?, c.isDigit = false)
    (atEnd : Fault) : readWhole atEnd (ds ++ rest) = .ok (ds, rest) := by
  unfold readWhole
  rw [readDigits_append hds hrest]
  simp only [bind, ok_bind]
  split
  · rename_i hzero
    cases hlead (by simp)
  · rfl

namespace Numeral

/-- A fraction as it is written. -/
def pointed (fraction : Option (List Char)) : List Char :=
  fraction.elim [] ('.' :: ·)

/-- The fraction is written behind a point, if there is one. -/
theorem fractionChars_eq_pointed (n : Numeral) : n.fractionChars = pointed n.fraction := by
  unfold fractionChars
  cases n.fraction <;> rfl

/-- Where a fraction ends, by the next character: behind its digits, or where it would begin. -/
def FractionEnds : Option (List Char) → Option Char → Prop
  | none, next => next ≠ some '.'
  | some ds, next => IsDigits ds ∧ ∀ c ∈ next, c.isDigit = false

/-- Where an exponent ends, by the next character: behind its digits, or where it would begin. -/
def ExponentEnds : Option (Bool × List Char) → Option Char → Prop
  | none, next => ∀ c ∈ next, ¬(c = 'e' ∨ c = 'E')
  | some (_, ds), next => IsDigits ds ∧ ∀ c ∈ next, c.isDigit = false

/-- The exponent of a number does not go on with digits, and has no point. -/
theorem ExponentChars.apart {e : Option (Bool × List Char)} {exponent rest : List Char}
    (he : ExponentChars e exponent) (hrest : Apart rest) :
    ∀ c ∈ (exponent ++ rest).head?, c.isDigit = false ∧ c ≠ '.' := by
  have hmark : ∀ {mark : Char}, mark = 'e' ∨ mark = 'E' →
      mark.isDigit = false ∧ mark ≠ '.' := by
    rintro mark (rfl | rfl) <;> decide
  intro c hc
  cases he with
  | none => exact ⟨(hrest c hc).1, (hrest c hc).2.1⟩
  | minus h => obtain rfl := Option.some.inj hc; exact hmark h
  | plus h => obtain rfl := Option.some.inj hc; exact hmark h
  | bare h => obtain rfl := Option.some.inj hc; exact hmark h

/-- The fraction of a number ends where no digit and no point stands. -/
theorem WellFormed.fractionEnds {n : Numeral} (hn : n.WellFormed) {next : Option Char}
    (hnext : ∀ c ∈ next, c.isDigit = false ∧ c ≠ '.') : FractionEnds n.fraction next := by
  cases h : n.fraction with
  | none => exact fun hpoint => (hnext '.' hpoint).2 rfl
  | some ds => exact ⟨hn.fraction ds h, fun c hc => (hnext c hc).1⟩

/-- The exponent of a number ends where something stands that is apart from it. -/
theorem WellFormed.exponentEnds {n : Numeral} (hn : n.WellFormed) {rest : List Char}
    (hrest : Apart rest) : ExponentEnds n.exponent rest.head? := by
  cases h : n.exponent with
  | none => exact fun c hc => not_or.mpr (hrest c hc).2.2
  | some e => exact ⟨hn.exponent e h, fun c hc => (hrest c hc).1⟩

end Numeral

/-- **A fraction is read** if there is one. -/
theorem readFraction_eq_ok_iff {atEnd : Fault} {cs rest : List Char}
    {fraction : Option (List Char)} :
    readFraction atEnd cs = .ok (fraction, rest) ↔
      cs = Numeral.pointed fraction ++ rest ∧ Numeral.FractionEnds fraction rest.head? := by
  constructor
  · intro h
    unfold readFraction at h
    split at h
    · obtain ⟨⟨ds, rest⟩, hds, heq⟩ := map_eq_ok_iff.mp h
      cases heq
      obtain ⟨rfl, hends⟩ := readDigits_eq_ok_iff.mp hds
      exact ⟨rfl, hends⟩
    · rename_i hpoint
      cases h
      refine ⟨rfl, fun hhead => ?_⟩
      obtain ⟨tail, rfl⟩ := List.head?_eq_some_iff.mp hhead
      exact hpoint tail rfl
  · rintro ⟨rfl, hends⟩
    cases fraction with
    | none =>
      unfold readFraction
      split
      · rename_i heq
        exact absurd (congrArg List.head? heq) hends
      · rfl
    | some ds => exact map_eq_ok_iff.mpr ⟨_, readDigits_append hends.1 hends.2 atEnd, rfl⟩

/-- An exponent is read up to where it ends. -/
theorem readExponent_append {exponent : Option (Bool × List Char)} {chars rest : List Char}
    (hchars : Numeral.ExponentChars exponent chars)
    (hends : Numeral.ExponentEnds exponent rest.head?) (atEnd : Fault) :
    readExponent atEnd (chars ++ rest) = .ok (exponent, rest) := by
  cases hchars with
  | none =>
    cases rest with
    | nil => rfl
    | cons c rest => exact if_neg (hends c rfl)
  | minus hmark =>
    simp only [List.cons_append, readExponent, if_pos hmark]
    rw [readDigits_append hends.1 hends.2]
    rfl
  | plus hmark =>
    simp only [List.cons_append, readExponent, if_pos hmark]
    rw [readDigits_append hends.1 hends.2]
    rfl
  | bare hmark =>
    have hdigits := readDigits_append hends.1 hends.2 atEnd
    obtain ⟨d, tail, rfl, hd⟩ := hends.1.exists_cons
    simp only [List.cons_append, readExponent, if_pos hmark] at hdigits ⊢
    -- The first digit is no sign.
    split
    · rename_i heq
      exact absurd (List.cons.inj heq).1 (ne_of_isDigit hd rfl)
    · rename_i heq
      exact absurd (List.cons.inj heq).1 (ne_of_isDigit hd rfl)
    · rw [hdigits]
      rfl

/-- What is read as an exponent is one. -/
theorem exponentChars_of_readExponent {atEnd : Fault} {cs rest : List Char}
    {exponent : Option (Bool × List Char)} (h : readExponent atEnd cs = .ok (exponent, rest)) :
    ∃ chars, Numeral.ExponentChars exponent chars ∧ cs = chars ++ rest ∧
      Numeral.ExponentEnds exponent rest.head? := by
  cases cs with
  | nil =>
    cases h
    exact ⟨[], .none, rfl, nofun⟩
  | cons c tail =>
    unfold readExponent at h
    by_cases hmark : c = 'e' ∨ c = 'E'
    · simp only [if_pos hmark] at h
      split at h
      all_goals
        obtain ⟨⟨ds, rest⟩, hds, heq⟩ := map_eq_ok_iff.mp h
        cases heq
        obtain ⟨rfl, hends⟩ := readDigits_eq_ok_iff.mp hds
      · exact ⟨_, .minus hmark, rfl, hends⟩
      · exact ⟨_, .plus hmark, rfl, hends⟩
      · exact ⟨_, .bare hmark, rfl, hends⟩
    · simp only [if_neg hmark] at h
      cases h
      refine ⟨[], .none, rfl, fun d hd => ?_⟩
      obtain rfl := Option.some.inj hd
      exact hmark

/-- **An exponent is read** if there is one. -/
theorem readExponent_eq_ok_iff {atEnd : Fault} {cs rest : List Char}
    {exponent : Option (Bool × List Char)} :
    readExponent atEnd cs = .ok (exponent, rest) ↔
      ∃ chars, Numeral.ExponentChars exponent chars ∧ cs = chars ++ rest ∧
        Numeral.ExponentEnds exponent rest.head? := by
  refine ⟨exponentChars_of_readExponent, ?_⟩
  rintro ⟨chars, hchars, rfl, hends⟩
  exact readExponent_append hchars hends atEnd

/-- **The parts of a number are read** up to what does not go on with it. -/
theorem readParts_of_wellFormed {n : Numeral} (hn : n.WellFormed) {exponent rest : List Char}
    (he : Numeral.ExponentChars n.exponent exponent) (hrest : Numeral.Apart rest)
    (atEnd : Fault) :
    readParts atEnd n.negative (n.whole ++ (n.fractionChars ++ (exponent ++ rest))) =
      .ok (n, rest) := by
  have hexponent := he.apart hrest
  have hfraction : ∀ c ∈ (n.fractionChars ++ (exponent ++ rest)).head?, c.isDigit = false := by
    intro c hc
    unfold Numeral.fractionChars at hc
    cases hn' : n.fraction with
    | none => rw [hn'] at hc; exact (hexponent c hc).1
    | some ds => rw [hn'] at hc; obtain rfl := Option.some.inj hc; decide
  unfold readParts
  rw [readWhole_append hn.whole hn.lead hfraction]
  simp only [bind, ok_bind]
  rw [readFraction_eq_ok_iff.mpr ⟨by rw [n.fractionChars_eq_pointed], hn.fractionEnds hexponent⟩]
  simp only [ok_bind]
  rw [readExponent_eq_ok_iff.mpr ⟨_, he, rfl, hn.exponentEnds hrest⟩]
  rfl

/-! ## Scalars -/

/-- **A number is read** as its value, or is the fault that it is out of range. -/
theorem readHead_of_number {n : Numeral} (hn : n.WellFormed) {cs exponent rest : List Char}
    (he : Numeral.ExponentChars n.exponent exponent) (hrest : Numeral.Apart rest)
    (htext : skipBlanks cs =
      n.signChars ++ (n.whole ++ (n.fractionChars ++ (exponent ++ rest)))) :
    readHead cs = n.value.map (·, rest) := by
  have hparts := readParts_of_wellFormed hn he hrest (.unfinished .value)
  unfold readHead
  rw [htext]
  unfold Numeral.signChars
  cases hnegative : n.negative with
  | true =>
    rw [hnegative] at hparts
    simp [readNumeral, hparts]
  | false =>
    rw [hnegative] at hparts
    obtain ⟨c, ds, hwhole, hc⟩ := hn.whole.exists_cons
    rw [hwhole, List.cons_append] at hparts ⊢
    simp [ne_of_isDigit hc, hc, readNumeral, hparts]

/-- **Scalars are read** as what they stand for. -/
theorem readHead_of_scalar {cs rest : List Char} {found : Found} (h : Scalar cs found rest) :
    readHead cs = .ok (found, rest) := by
  cases h with
  | null htext => unfold readHead; rw [htext]; rfl
  | true htext => unfold readHead; rw [htext]; rfl
  | false htext => unfold readHead; rw [htext]; rfl
  | text htext hspells =>
    unfold readHead
    rw [htext]
    simp [readText_of_spells hspells]
  | number he htext hn hrest hvalue =>
    rw [readHead_of_number hn he hrest htext, hvalue]
    rfl

/-! ## Lists -/

section

variable {β α σ : Type} {V : List Char → β → List Char → Prop}

/-- Where an item starts, the next item is found. -/
theorem nextItem_of_starts {first : Bool} {cs inner : List Char} (h : Starts first cs inner)
    (hopens : ∃ c tail, skipBlanks inner = c :: tail ∧ c ≠ ']') :
    nextItem first cs = .ok (.inr inner) := by
  obtain ⟨c, tail, htail, hc⟩ := hopens
  unfold nextItem
  cases h with
  | first =>
    rw [skipBlanks_skipBlanks] at htail
    simp [htail, hc]
  | next hcomma =>
    rw [skipBlanks_skipBlanks] at htail
    simp [hcomma, htail, hc]

/-- The items of a list are read with enough fuel. -/
theorem readItemsFrom_of_items (hV : Proper V) {item : List Char → Except Fault (α × List Char)}
    {first : Bool} {cs rest : List Char} {bs : List β} (h : Items V first cs bs rest)
    {vs : List α}
    (hvs : List.Forall₂ (fun b v => ∀ cs rest, V cs b rest → item cs = .ok (v, rest)) bs vs)
    {fuel : Nat} (hfuel : cs.length < fuel) :
    readItemsFrom item fuel first cs = .ok (vs, rest) := by
  induction h generalizing vs fuel with
  | close hclose =>
    obtain ⟨fuel, rfl⟩ := Nat.exists_eq_succ_of_ne_zero (Nat.ne_zero_of_lt hfuel)
    cases hvs
    simp [readItemsFrom, nextItem, hclose, bind, pure, Except.pure]
  | @item first cs inner mid rest b bs hstart hitem htail ih =>
    obtain ⟨fuel, rfl⟩ := Nat.exists_eq_succ_of_ne_zero (Nat.ne_zero_of_lt hfuel)
    cases hvs with
    | cons hv hvs =>
      -- The text behind an item is shorter, so that the fuel left is enough for it.
      have hshorter : mid.length < cs.length := (hV.shortens hitem).trans_le hstart.length_le
      have hmid : mid.length < fuel := by omega
      have hvs := ih hvs hmid
      simp [readItemsFrom, nextItem_of_starts hstart (hV.opens hitem), hv _ _ hitem, hvs, bind,
        pure, Except.pure]

/-- **A list is read** if its items are. -/
theorem readItems_of_items (hV : Proper V) {item : List Char → Except Fault (α × List Char)}
    {first : Bool} {cs rest : List Char} {bs : List β} (h : Items V first cs bs rest)
    {vs : List α}
    (hvs : List.Forall₂ (fun b v => ∀ cs rest, V cs b rest → item cs = .ok (v, rest)) bs vs) :
    readItems item first cs = .ok (vs, rest) :=
  readItemsFrom_of_items hV h hvs (Nat.lt_succ_self _)

/-! ## Objects -/

/-- The colon behind a key is read. -/
theorem readColon_of_skipBlanks {cs inner : List Char} (h : skipBlanks cs = ':' :: inner) :
    readColon cs = .ok inner := by
  simp [readColon, h]

/-- Where a member starts, its key is found. -/
theorem nextKey_of_starts {first : Bool} {cs inner key rest : List Char}
    (h : Starts first cs ('"' :: inner)) (hkey : Spells inner key rest) :
    nextKey first cs = .ok (.inr (String.ofList key, rest)) := by
  unfold nextKey
  generalize hopen : '"' :: inner = opened at h
  cases h with
  | first =>
    simp [← hopen, readText_of_spells hkey]
  | next hcomma =>
    simp [hcomma, ← hopen, readText_of_spells hkey]

/-- The members of an object are read with enough fuel, one after the other: `state` is what has
been read of an object so far. -/
theorem readMembersFrom_of_entries (hV : Proper V)
    {member : String → σ → List Char → Except Fault (σ × List Char)}
    {first : Bool} {cs rest : List Char} {es : List (String × β)} (h : Entries V first cs es rest)
    (state : List (String × β) → σ) (done : List (String × β))
    (hstep : ∀ before key b after, done ++ es = before ++ (key, b) :: after → ∀ cs rest,
      BehindColon V cs b rest →
        member key (state before) cs = .ok (state (before ++ [(key, b)]), rest))
    {fuel : Nat} (hfuel : cs.length < fuel) :
    readMembersFrom member fuel first (state done) cs = .ok (state (done ++ es), rest) := by
  induction h generalizing done fuel with
  | close hclose =>
    obtain ⟨fuel, rfl⟩ := Nat.exists_eq_succ_of_ne_zero (Nat.ne_zero_of_lt hfuel)
    simp [readMembersFrom, nextKey, hclose, bind, pure, Except.pure]
  | @entry first cs inner key behind mid rest b es hstart hkey hvalue htail ih =>
    obtain ⟨fuel, rfl⟩ := Nat.exists_eq_succ_of_ne_zero (Nat.ne_zero_of_lt hfuel)
    have hmember := hstep done _ _ es rfl _ _ hvalue
    have hmid : mid.length < fuel := by
      have hinner := hstart.length_le
      have hbehind := hkey.shortens
      have hmid := hvalue.shortens hV
      rw [List.length_cons] at hinner
      omega
    -- This entry is done for those behind it.
    have htail := ih (done ++ [(String.ofList key, b)]) (by simpa using hstep) hmid
    rw [List.append_assoc] at htail
    simp [readMembersFrom, nextKey_of_starts hstart hkey, hmember, htail, bind]

/-- **An object is read** if its members are. -/
theorem readMembers_of_entries (hV : Proper V)
    {member : String → σ → List Char → Except Fault (σ × List Char)} {cs rest : List Char}
    {es : List (String × β)} (h : Entries V true cs es rest) (state : List (String × β) → σ)
    (hstep : ∀ before key b after, es = before ++ (key, b) :: after → ∀ cs rest,
      BehindColon V cs b rest →
        member key (state before) cs = .ok (state (before ++ [(key, b)]), rest)) :
    readMembers member (state []) cs = .ok (state es, rest) :=
  readMembersFrom_of_entries hV h state [] hstep (Nat.lt_succ_self _)

end

/-! ## Values of any shape -/

/-- A scalar is read in any depth. -/
theorem readBuffered_of_scalar {depth : Nat} {cs rest : List Char} {found : Found}
    (h : Scalar cs found rest) : readBuffered depth cs = .ok (ofScalar found, rest) := by
  have hfound := h.found_ofScalar
  rw [readBuffered.eq_def]
  simp only [readHead_of_scalar h, bind, ok_bind]
  split
  · rename_i heq
    obtain ⟨rfl, -⟩ := Prod.mk.inj heq
    cases hfound
  · rename_i heq
    obtain ⟨rfl, -⟩ := Prod.mk.inj heq
    cases hfound
  · rename_i heq
    obtain ⟨rfl, rfl⟩ := Prod.mk.inj heq
    rfl

/-- An open list or object is found. -/
theorem readHead_of_skipBlanks_list {cs inner : List Char} (h : skipBlanks cs = '[' :: inner) :
    readHead cs = .ok (.sequence, inner) := by
  simp [readHead, h]

/-- The head of an object is its bracket. -/
theorem readHead_of_skipBlanks_object {cs inner : List Char}
    (h : skipBlanks cs = '\x7b' :: inner) : readHead cs = .ok (.mapping, inner) := by
  simp [readHead, h]

/-- Members that are put in front of those read before are read in the opposite order. -/
theorem readMembers_reversed {V : List Char → Buffered → List Char → Prop} (hV : Proper V)
    {member : String → List (Buffered × Buffered) → List Char →
      Except Fault (List (Buffered × Buffered) × List Char)}
    {cs rest : List Char} {es : List (String × Buffered)} (h : Entries V true cs es rest)
    (hmember : ∀ key entries b cs rest, BehindColon V cs b rest →
      member key entries cs = .ok ((.text key, b) :: entries, rest)) :
    readMembers member [] cs = .ok ((keyed es).reverse, rest) := by
  refine readMembers_of_entries hV h (fun done => (keyed done).reverse) ?_
  intro before key b after _ cs rest hbehind
  simp [hmember _ _ _ _ _ hbehind, keyed]

/-- **Values are read** as what they stand for, if no more brackets are open than may be. -/
theorem readBuffered_of_value {depth : Nat} {cs rest : List Char} {b : Buffered}
    (h : Value depth cs b rest) : readBuffered depth cs = .ok (b, rest) := by
  induction depth generalizing cs b rest with
  | zero =>
    obtain ⟨found, hscalar, rfl⟩ := h
    exact readBuffered_of_scalar hscalar
  | succ depth ih =>
    cases h with
    | scalar hscalar => exact readBuffered_of_scalar hscalar
    | @list inner _ bs hopen hitems =>
      have hbs : readItems (readBuffered depth) true inner = .ok (bs, rest) :=
        readItems_of_items (Value.proper depth) hitems <|
          List.forall₂_same.mpr fun b _ _ _ hb => ih hb
      rw [readBuffered, readHead_of_skipBlanks_list hopen]
      simp only [bind, ok_bind, hbs]
      rfl
    | @object inner _ es hopen hentries =>
      rw [readBuffered, readHead_of_skipBlanks_object hopen]
      simp only [bind, ok_bind]
      rw [readMembers_reversed (Value.proper depth) hentries ?_]
      · simp [pure, Except.pure]
      · intro key entries b cs rest hvalue
        obtain ⟨inner, hcolon, hb⟩ := hvalue
        simp [readColon_of_skipBlanks hcolon, ih hb, pure, Except.pure]

/-! ## One part of a value that does not matter -/

/-- The text behind a scalar, or behind the bracket that opens a list or an object, with that
bracket. `c` is the first character of the value. -/
def skipHead (c : Char) (cs : List Char) : Except Fault (Option Bracket × List Char) :=
  if c = 'n' then (readKeyword "ull".toList cs).map (none, ·)
  else if c = 't' then (readKeyword "rue".toList cs).map (none, ·)
  else if c = 'f' then (readKeyword "alse".toList cs).map (none, ·)
  else if c = '"' then (skipText cs).map (none, ·)
  else if c = '[' then .ok (some .list, cs)
  else if c = '\x7b' then .ok (some .object, cs)
  else if c = '-' then (skipNumeral cs).map (none, ·)
  else if c.isDigit then (skipNumeral (c :: cs)).map (none, ·)
  else malformed .expectedValue

/-- What comes behind the head of a value: either the value is complete, or a bracket is open. -/
def behindHead (opened : List Bracket) : Option Bracket → Stage × List Bracket
  | none => (.after, opened)
  | some bracket => (.opened, bracket :: opened)

/-- What closes the innermost bracket. -/
def closing (opened : List Bracket) : Char :=
  if opened.head? = some .list then ']' else '\x7d'

/-- What comes next inside the innermost bracket. -/
def resuming (opened : List Bracket) : Stage :=
  if opened.head? = some .list then .value else .key

/-- Reading resumes in front of a value or a key, never right behind an opening bracket. -/
theorem resuming_ne_opened (opened : List Bracket) : resuming opened ≠ .opened := by
  unfold resuming
  split <;> exact nofun

section

variable {opened : List Bracket} {c : Char} {cs tail : List Char}

/-- Where a value is expected its head is taken. -/
theorem skipPart_value (h : skipBlanks cs = c :: tail) :
    skipPart .value opened cs =
      (skipHead c tail).map fun head => (some (behindHead opened head.1), head.2) := by
  have htake : ∀ take : Except Fault (List Char),
      ((take.map (none, ·)).map fun head => (some (behindHead opened head.1), head.2)) =
        take.bind fun rest => .ok (some (.after, opened), rest) := by
    rintro (_ | _) <;> rfl
  unfold skipPart skipHead
  rw [h]
  simp only [apply_ite (Except.map _), htake]
  rfl

/-- Where a key is expected it is taken with the colon behind it. -/
theorem skipPart_key (h : skipBlanks cs = c :: tail) :
    skipPart .key opened cs =
      if c ≠ '"' then malformed .keyNotText
      else ((skipText tail).bind readColon).map (some (.value, opened), ·) := by
  unfold skipPart
  rw [h, map_bind]
  rfl

/-- Behind an opening bracket stands the closing one, or nothing is taken. -/
theorem skipPart_opened (h : skipBlanks cs = c :: tail) :
    skipPart .opened opened cs =
      if c = closing opened then .ok (some (.after, opened.tail), tail)
      else .ok (some (resuming opened, opened), c :: tail) := by
  unfold skipPart
  rw [h]
  rfl

/-- Behind a value inside a bracket stands a comma or the closing bracket. -/
theorem skipPart_after {bracket : Bracket} (h : skipBlanks cs = c :: tail) :
    skipPart .after (bracket :: opened) cs =
      if c = ',' then .ok (some (resuming (bracket :: opened), bracket :: opened), tail)
      else if c = closing (bracket :: opened) then .ok (some (.after, opened), tail)
      else malformed (if bracket = .list then .expectedListEnd else .expectedObjectEnd) := by
  unfold skipPart
  rw [h]
  cases bracket <;> rfl

end

/-! ## Values that do not matter -/

/-- How many parts may be left in a text: two for each character, and one more behind an opening
bracket, where the first item or key starts without a part of its own. -/
def partsLeft (stage : Stage) (cs : List Char) : Nat :=
  2 * cs.length + if stage = .opened then 1 else 0

/-- Skipping gets from one stage to another with fuel for all parts left. -/
def Skips (stage : Stage) (opened : List Bracket) (cs : List Char) (stage' : Stage)
    (opened' : List Bracket) (rest : List Char) : Prop :=
  ∀ fuel, ∃ fuel', fuel ≤ fuel' ∧
    skipFrom (fuel + partsLeft stage cs) stage opened cs =
      skipFrom (fuel' + partsLeft stage' rest) stage' opened' rest

section

variable {stage stage' stage'' : Stage} {opened opened' opened'' : List Bracket}
  {cs mid rest : List Char}

/-- What is skipped up to a stage and on from there is skipped. -/
theorem Skips.trans (h : Skips stage opened cs stage' opened' mid)
    (h' : Skips stage' opened' mid stage'' opened'' rest) :
    Skips stage opened cs stage'' opened'' rest := by
  intro fuel
  obtain ⟨fuel', hle, hskip⟩ := h fuel
  obtain ⟨fuel'', hle', hskip'⟩ := h' fuel'
  exact ⟨fuel'', hle.trans hle', hskip.trans hskip'⟩

/-- One part is skipped if it leaves fewer parts. -/
theorem Skips.part (hpart : skipPart stage opened cs = .ok (some (stage', opened'), rest))
    (hless : partsLeft stage' rest < partsLeft stage cs) :
    Skips stage opened cs stage' opened' rest := by
  intro fuel
  -- One step is used, and what the other parts left would have needed is to spare.
  refine ⟨fuel + (partsLeft stage cs - partsLeft stage' rest - 1), by omega, ?_⟩
  have hfuel : fuel + partsLeft stage cs =
      fuel + (partsLeft stage cs - partsLeft stage' rest - 1) + partsLeft stage' rest + 1 := by
    omega
  rw [hfuel, skipFrom, hpart]
  rfl

/-- A part that takes a character leaves fewer parts. -/
theorem partsLeft_lt (h : rest.length < cs.length) :
    partsLeft stage' rest < partsLeft stage cs := by
  unfold partsLeft
  split <;> split <;> omega

/-- Where the first item or key starts there are fewer parts left than behind the bracket. -/
theorem partsLeft_lt_opened (h : stage ≠ .opened) :
    partsLeft stage (skipBlanks cs) < partsLeft .opened cs := by
  have hle := length_skipBlanks_le cs
  simp only [partsLeft, if_neg h, if_true]
  omega

end

/-- A number is skipped up to what does not go on with it. -/
theorem skipNumeral_of_wellFormed {n : Numeral} (hn : n.WellFormed) {exponent rest : List Char}
    (he : Numeral.ExponentChars n.exponent exponent) (hrest : Numeral.Apart rest) :
    skipNumeral (n.whole ++ (n.fractionChars ++ (exponent ++ rest))) = .ok rest := by
  have hunsigned : { n with negative := false }.WellFormed :=
    ⟨hn.whole, hn.lead, hn.fraction, hn.exponent⟩
  exact congrArg (Except.map Prod.snd) (readParts_of_wellFormed hunsigned he hrest _)

/-- A scalar is one part. -/
theorem skipPart_of_scalar {cs rest : List Char} {found : Found} (h : Scalar cs found rest)
    (opened : List Bracket) :
    skipPart .value opened cs = .ok (some (.after, opened), rest) := by
  suffices hhead : ∃ c tail, skipBlanks cs = c :: tail ∧ skipHead c tail = .ok (none, rest) by
    obtain ⟨c, tail, htext, hhead⟩ := hhead
    rw [skipPart_value htext, hhead]
    rfl
  cases h with
  | null htext => exact ⟨_, _, htext, rfl⟩
  | true htext => exact ⟨_, _, htext, rfl⟩
  | false htext => exact ⟨_, _, htext, rfl⟩
  | text htext hspells => exact ⟨_, _, htext, by simp [skipHead, skipText_of_spells hspells]⟩
  | @number exponent _ n _ he htext hn hrest hvalue =>
    have hskip := skipNumeral_of_wellFormed hn he hrest
    unfold Numeral.signChars at htext
    cases hnegative : n.negative with
    | true =>
      rw [hnegative] at htext
      exact ⟨_, _, htext, by simp [skipHead, hskip]⟩
    | false =>
      obtain ⟨c, ds, hwhole, hc⟩ := hn.whole.exists_cons
      rw [hnegative, hwhole] at htext
      rw [hwhole, List.cons_append] at hskip
      exact ⟨_, _, htext, by simp [skipHead, ne_of_isDigit hc, hc, hskip]⟩

section

variable {β : Type} {V : List Char → β → List Char → Prop}
  (hskips : ∀ {cs b rest}, V cs b rest → ∀ opened, Skips .value opened cs .after opened rest)

include hskips

/-- The items of a list are skipped if each of them is. -/
theorem skips_of_items (hV : Proper V) {first : Bool} {cs rest : List Char} {bs : List β}
    (h : Items V first cs bs rest) (opened : List Bracket) :
    Skips (if first then .opened else .after) (.list :: opened) cs .after opened rest := by
  induction h with
  | @close first cs rest hclose =>
    refine .part ?_ (partsLeft_lt (length_lt_of_skipBlanks hclose))
    cases first with
    | true => exact skipPart_opened hclose
    | false => exact skipPart_after hclose
  | @item first cs inner mid rest b bs hstart hitem htail ih =>
    refine Skips.trans ?_ ih
    cases hstart with
    | first =>
      obtain ⟨c, tail, hopens, hc⟩ := hV.opens hitem
      rw [skipBlanks_skipBlanks] at hopens
      refine Skips.trans (.part ?_ ?_) (hskips hitem _)
      · rw [hopens]
        exact (skipPart_opened hopens).trans (if_neg hc)
      · exact partsLeft_lt_opened nofun
    | next hcomma =>
      refine Skips.trans (.part ?_ (partsLeft_lt (length_lt_of_skipBlanks hcomma)))
        (hskips (hV.blanks.mp hitem) _)
      exact skipPart_after hcomma

/-- The members of an object are skipped if their values are. -/
theorem skips_of_entries {first : Bool} {cs rest : List Char} {es : List (String × β)}
    (h : Entries V first cs es rest) (opened : List Bracket) :
    Skips (if first then .opened else .after) (.object :: opened) cs .after opened rest := by
  induction h with
  | @close first cs rest hclose =>
    refine .part ?_ (partsLeft_lt (length_lt_of_skipBlanks hclose))
    cases first with
    | true => exact skipPart_opened hclose
    | false => exact skipPart_after hclose
  | @entry first cs inner key behind mid rest b es hstart hkey hvalue htail ih =>
    refine Skips.trans ?_ ih
    obtain ⟨value, hcolon, hvalue⟩ := hvalue
    have hlen : value.length < inner.length :=
      (length_lt_of_skipBlanks hcolon).trans hkey.shortens
    -- From the quote of a key to the value behind it.
    have hmember : ∀ cs', skipBlanks cs' = '"' :: inner →
        Skips .key (.object :: opened) cs' .after (.object :: opened) mid := by
      intro cs' hquote
      refine Skips.trans (.part ?_ (partsLeft_lt (hlen.trans (length_lt_of_skipBlanks hquote))))
        (hskips hvalue _)
      rw [skipPart_key hquote, skipText_of_spells hkey, ok_bind, readColon_of_skipBlanks hcolon]
      rfl
    generalize hopen : '"' :: inner = quoted at hstart
    cases hstart with
    | first =>
      refine Skips.trans (.part ?_ ?_) (hmember (skipBlanks cs) ?_)
      · rw [← hopen]
        exact (skipPart_opened hopen.symm).trans (if_neg nofun)
      · exact partsLeft_lt_opened nofun
      · rw [skipBlanks_skipBlanks, hopen]
    | next hcomma =>
      refine Skips.trans (.part ?_ (partsLeft_lt (length_lt_of_skipBlanks hcomma)))
        (hmember _ hopen.symm)
      exact skipPart_after hcomma

end

/-- A value is skipped whatever is open around it. -/
theorem skips_of_value {depth : Nat} {cs rest : List Char} {b : Buffered}
    (h : Value depth cs b rest) (opened : List Bracket) :
    Skips .value opened cs .after opened rest := by
  induction depth generalizing cs b rest opened with
  | zero =>
    obtain ⟨found, hscalar, -⟩ := h
    exact .part (skipPart_of_scalar hscalar opened) (partsLeft_lt (Scalar.proper.shortens hscalar))
  | succ depth ih =>
    cases h with
    | scalar hscalar =>
      exact .part (skipPart_of_scalar hscalar opened)
        (partsLeft_lt (Scalar.proper.shortens hscalar))
    | list hopen hitems =>
      refine Skips.trans (.part ?_ (partsLeft_lt (length_lt_of_skipBlanks hopen)))
        (skips_of_items ih (Value.proper depth) hitems opened)
      exact skipPart_value hopen
    | object hopen hentries =>
      refine Skips.trans (.part ?_ (partsLeft_lt (length_lt_of_skipBlanks hopen)))
        (skips_of_entries ih hentries opened)
      exact skipPart_value hopen

/-- A value is skipped if skipping gets to its end. -/
theorem skipValue_of_skips {cs rest : List Char} (h : Skips .value [] cs .after [] rest) :
    skipValue cs = .ok rest := by
  -- The last step finds that nothing is open.
  obtain ⟨fuel, hle, hskip⟩ := h 2
  obtain ⟨fuel, rfl⟩ : ∃ n, fuel = n + 1 := ⟨fuel - 1, by omega⟩
  have hfuel : 2 * cs.length + 2 = 2 + partsLeft .value cs := by
    simp only [partsLeft, reduceCtorEq, if_false]
    omega
  rw [skipValue, hfuel, hskip, Nat.add_right_comm, skipFrom]
  rfl

/-- **Values that do not matter are skipped**, however deep they are. -/
theorem skipValue_of_value {depth : Nat} {cs rest : List Char} {b : Buffered}
    (h : Value depth cs b rest) : skipValue cs = .ok rest :=
  skipValue_of_skips (skips_of_value h [])

end AliasReport.Json
