import Mathlib
import AliasReport.Json.Tree
import AliasReport.Proofs.Json.Printing
import AliasReport.Proofs.Number.Decimal
import AliasReport.Yaml.Token.Lexer

/-! # Text on one line

What is written as JSON without blanks stands on one line, and consists of characters that YAML
reads as they are.

* **`isVisible`** — the ASCII characters from the blank up to the tilde.
* **`Mark.over`** — the position behind several characters of a line.
* **`readable_of_isVisible`**, **`unifyBreaks_of_isVisible`** — such text is read as it is.
* **`readDoubleQuoted?_escape`** — text between quotes with the escapes of JSON.
* **`readPlain?_of_isAlphanum`** — words and numbers in front of an indicator. -/

namespace AliasReport.Yaml

/-! ## Characters -/

/-- The ASCII characters from the blank up to the tilde. -/
def isVisible (c : Char) : Bool :=
  0x20 ≤ c.toNat && c.toNat < 0x7f

/-- The visible characters are those of ASCII from the blank up to the tilde. -/
theorem isVisible_iff {c : Char} : isVisible c = true ↔ 0x20 ≤ c.toNat ∧ c.toNat < 0x7f := by
  simp [isVisible]

/-- A visible character is none of those beyond the tilde. -/
theorem ne_of_isVisible {c d : Char} (hc : isVisible c = true)
    (hd : isVisible d = false := by decide) : c ≠ d := by
  rintro rfl
  exact Bool.false_ne_true (hd.symm.trans hc)

/-- A visible character can be printed. -/
theorem isPrintable_of_isVisible {c : Char} (hc : isVisible c = true) : isPrintable c = true := by
  obtain ⟨hle, hlt⟩ := isVisible_iff.mp hc
  simp [isPrintable, hle, Nat.le_of_lt_succ hlt]

/-- A visible character ends no line. -/
theorem isBreak_of_isVisible {c : Char} (hc : isVisible c = true) : isBreak c = false := by
  have hfeed : c ≠ '\n' := ne_of_isVisible hc
  have hline : c ≠ '\u2028' := ne_of_isVisible hc
  have hparagraph : c ≠ '\u2029' := ne_of_isVisible hc
  simp [isBreak, hfeed, hline, hparagraph]

/-- A visible character takes one byte. -/
theorem utf8Size_of_isVisible {c : Char} (hc : isVisible c = true) : c.utf8Size = 1 := by
  obtain ⟨-, hlt⟩ := isVisible_iff.mp hc
  exact Char.utf8Size_eq_one_iff.mpr <|
    UInt32.le_iff_toNat_le.mpr (Nat.le_of_lt_succ (Nat.lt_succ_of_lt hlt))

/-- Letters and digits are visible. -/
theorem isVisible_of_isAlphanum {c : Char} (hc : c.isAlphanum = true) : isVisible c = true := by
  simp only [Char.isAlphanum, Char.isAlpha, Char.isUpper, Char.isLower, Char.isDigit,
    Bool.or_eq_true, Bool.and_eq_true, decide_eq_true_eq, ge_iff_le, UInt32.le_iff_toNat_le] at hc
  have hval : c.toNat = c.val.toNat := rfl
  rw [isVisible_iff, hval]
  simp at hc
  omega

/-! ## Whole texts -/

/-- Printable text is readable up to its end, wherever in a piece the reading is. -/
theorem readableFrom_of_isPrintable {cs : List Char} (h : ∀ c ∈ cs, isPrintable c = true)
    (done piece : List Char) (size : ℕ) :
    readableFrom done piece size cs = ((piece ++ done).reverse ++ cs, true) := by
  induction cs generalizing done piece size with
  | nil => simp [readableFrom]
  | cons c cs ih =>
    obtain ⟨hc, hcs⟩ := List.forall_mem_cons.mp h
    rw [readableFrom]
    simp only [hc]
    by_cases hfull : pieceSize < size + c.utf8Size
    · simp [hfull, ih hcs]
    · simp [hfull, ih hcs]

/-- A text whose characters are all printable is readable as a whole. -/
theorem readable_of_isPrintable {text : String} (h : ∀ c ∈ text.toList, isPrintable c = true) :
    readable text = (text.toList, true) :=
  readableFrom_of_isPrintable h [] [] 0

/-- There are no line ends to make alike in visible text. -/
theorem unifyBreaks_of_isVisible {cs : List Char} (h : ∀ c ∈ cs, isVisible c = true) :
    unifyBreaks cs = cs := by
  induction cs with
  | nil => rfl
  | cons c cs ih =>
    obtain ⟨hc, hcs⟩ := List.forall_mem_cons.mp h
    have hreturn : c ≠ '\r' := ne_of_isVisible hc
    have hnext : c ≠ '\u0085' := ne_of_isVisible hc
    rw [unifyBreaks, ih hcs]
    · simp [hreturn, hnext]
    · simp [hreturn]

/-! ## Positions -/

/-- The position behind several characters of the line. -/
def Mark.over (m : Mark) (cs : List Char) : Mark :=
  cs.foldl Mark.along m

@[simp] theorem Mark.over_nil (m : Mark) : m.over [] = m := rfl

@[simp] theorem Mark.over_cons (m : Mark) (c : Char) (cs : List Char) :
    m.over (c :: cs) = (m.along c).over cs := rfl

@[simp] theorem Mark.over_append (m : Mark) (cs ds : List Char) :
    m.over (cs ++ ds) = (m.over cs).over ds :=
  List.foldl_append

/-- A position stays on its line along visible text. -/
theorem Mark.line_over (m : Mark) (cs : List Char) : (m.over cs).line = m.line := by
  induction cs generalizing m with
  | nil => rfl
  | cons c cs ih => exact ih (m.along c)

/-- A position moves along visible text by its length. -/
theorem Mark.column_over (m : Mark) (cs : List Char) :
    (m.over cs).column = m.column + cs.length := by
  induction cs generalizing m with
  | nil => rfl
  | cons c cs ih =>
    have halong : (m.along c).column = m.column + 1 := rfl
    rw [Mark.over_cons, ih, halong, List.length_cons]
    omega

/-- Visible characters are one byte each. -/
theorem Mark.offset_over {cs : List Char} (h : ∀ c ∈ cs, isVisible c = true) (m : Mark) :
    (m.over cs).offset = m.offset + cs.length := by
  induction cs generalizing m with
  | nil => rfl
  | cons c cs ih =>
    obtain ⟨hc, hcs⟩ := List.forall_mem_cons.mp h
    have halong : (m.along c).offset = m.offset + 1 :=
      congrArg (m.offset + ·) (utf8Size_of_isVisible hc)
    rw [Mark.over_cons, ih hcs, halong, List.length_cons]
    omega

/-! ## Text between quotes -/

open AliasReport.Json AliasReport.Number

/-- An escape of one letter is read. -/
theorem readEscape?_letter {c v : Char} (h : letterEscape? c = some v) (tail : List Char) :
    readEscape? ([c] ++ tail) = some (v, 1) := by
  simp [readEscape?, h]

/-- An escape by the code point is read. -/
theorem readEscape?_unit {digits : List Char} {n : ℕ} (hlength : digits.length = 4)
    (hdigits : ofDigits? 16 digits = some n) (hn : n.isValidChar) (tail : List Char) :
    readEscape? ('u' :: digits ++ tail) = some (Char.ofNat n, 5) := by
  have htake : (digits ++ tail).take 4 = digits := List.take_left' hlength
  have hletter : letterEscape? 'u' = none := rfl
  have hcount : digitCount? 'u' = some 4 := rfl
  have hchar : ofCodePoint? n = some (Char.ofNat n) := by
    simp [ofCodePoint?, hn, Char.ofNat]
  rw [List.cons_append, readEscape?]
  simp [hletter, hcount, htake, hlength, hdigits, hchar]

/-- The characters of an escape, from behind the backslash, and what they are read as. -/
structure Escape (e : List Char) (c : Char) : Prop where
  visible : ∀ d ∈ e, isVisible d = true
  nonempty : e ≠ []
  read : ∀ tail, readEscape? (e ++ tail) = some (c, e.length)

/-- A character with a letter of its own is escaped by that letter. -/
theorem Escape.letter {e c : Char} (he : isVisible e = true) (h : letterEscape? e = some c) :
    Escape [e] c where
  visible := List.forall_mem_singleton.mpr he
  nonempty := List.cons_ne_nil _ _
  read := readEscape?_letter h

/-- Hexadecimal digits are visible. -/
theorem isVisible_hexDigit : ∀ d < 16, isVisible (Nat.digitChar d) = true := by
  decide

/-- **A character inside quotes** stands for itself or is escaped. -/
theorem escapeChar_cases {c : Char} (hc : c.toNat < 0x7f) :
    (isVisible c = true ∧ c ≠ '"' ∧ c ≠ '\\' ∧ escapeChar c = [c]) ∨
      ∃ e, Escape e c ∧ escapeChar c = '\\' :: e := by
  unfold escapeChar
  split_ifs with hquote hb ht hn hf hr hcontrol
  · obtain rfl | rfl := hquote
    · exact .inr ⟨_, .letter rfl rfl, rfl⟩
    · exact .inr ⟨_, .letter rfl rfl, rfl⟩
  · exact .inr ⟨_, .letter rfl (hb ▸ rfl), rfl⟩
  · exact .inr ⟨_, .letter rfl (ht ▸ rfl), rfl⟩
  · exact .inr ⟨_, .letter rfl (hn ▸ rfl), rfl⟩
  · exact .inr ⟨_, .letter rfl (hf ▸ rfl), rfl⟩
  · exact .inr ⟨_, .letter rfl (hr ▸ rfl), rfl⟩
  · -- The other control characters, by their code points.
    obtain ⟨hchars, hunit, -, -⟩ := controlEscape_spec c.toNat hcontrol
    rw [Char.ofNat_toNat] at hchars
    rw [hchars]
    refine .inr ⟨_, ⟨?_, List.cons_ne_nil _ _, fun tail => ?_⟩, rfl⟩
    · have hhigh := isVisible_hexDigit (c.toNat / 16) (by omega)
      have hlow := isVisible_hexDigit (c.toNat % 16) (by omega)
      simp only [List.forall_mem_cons]
      exact ⟨rfl, rfl, rfl, hhigh, hlow, by simp⟩
    · have hread := readEscape?_unit rfl hunit (.inl (by omega)) tail
      rwa [Char.ofNat_toNat] at hread
  · obtain ⟨hquote, hslash⟩ := not_or.mp hquote
    exact .inl ⟨isVisible_iff.mpr ⟨Nat.not_lt.mp hcontrol, hc⟩, hquote, hslash, rfl⟩

/-- Escaped text is visible. -/
theorem isVisible_escape {s : List Char} (hs : ∀ c ∈ s, c.toNat < 0x7f) :
    ∀ d ∈ escape s, isVisible d = true := by
  intro d hd
  obtain ⟨c, hc, hd⟩ := List.mem_flatMap.mp hd
  obtain ⟨hvisible, -, -, hself⟩ | ⟨e, he, hescape⟩ := escapeChar_cases (hs c hc)
  · rw [hself] at hd
    exact List.mem_singleton.mp hd ▸ hvisible
  · rw [hescape] at hd
    obtain rfl | hd := List.mem_cons.mp hd
    · rfl
    · exact he.visible d hd

/-- Characters that have been dealt with are passed over. -/
theorem readDoubleQuoted?_skip {e : List Char} (he : ∀ d ∈ e, isVisible d = true) (gap : Gap)
    (m : Mark) (cs : List Char) :
    readDoubleQuoted? e.length gap m (e ++ cs) = readDoubleQuoted? 0 gap (m.over e) cs := by
  induction e generalizing m with
  | nil => rfl
  | cons d e ih =>
    obtain ⟨hd, he⟩ := List.forall_mem_cons.mp he
    have hpast : m.past d = m.along d := if_neg (by simp [isBreak_of_isVisible hd])
    rw [List.length_cons, List.cons_append, readDoubleQuoted?, hpast]
    exact ih he (m.along d)

section

variable {gap : Gap} {m : Mark} {cs : List Char}

/-- A blank is kept for what follows it. -/
theorem readDoubleQuoted?_blank :
    readDoubleQuoted? 0 gap m (' ' :: cs) =
      readDoubleQuoted? 0 (gap.addBlank ' ') (m.along ' ') cs := by
  rw [readDoubleQuoted?]
  rfl

/-- A character that stands for itself is read with the blanks in front of it. -/
theorem readDoubleQuoted?_plain {c : Char} (hvisible : isVisible c = true) (hblank : c ≠ ' ')
    (hquote : c ≠ '"') (hslash : c ≠ '\\') (hm : m.column ≠ 0) :
    readDoubleQuoted? 0 gap m (c :: cs) =
      (readDoubleQuoted? 0 .none (m.along c) cs).map fun (content, after) =>
        (gap.fold ++ c :: content, after) := by
  have htab : c ≠ '\t' := ne_of_isVisible hvisible
  rw [readDoubleQuoted?]
  simp [isBlank, hblank, htab, isBreak_of_isVisible hvisible, hm, hquote, hslash]

/-- An escape is read with the blanks in front of it. -/
theorem readDoubleQuoted?_escaped {e : List Char} {c : Char} (he : Escape e c)
    (hm : m.column ≠ 0) :
    readDoubleQuoted? 0 gap m ('\\' :: e ++ cs) =
      (readDoubleQuoted? 0 .none (m.over ('\\' :: e)) cs).map fun (content, after) =>
        (gap.fold ++ c :: content, after) := by
  obtain ⟨d, e', rfl⟩ := List.exists_cons_of_ne_nil he.nonempty
  have hbreak : isBreak d = false := isBreak_of_isVisible (he.visible d List.mem_cons_self)
  have hskip := readDoubleQuoted?_skip he.visible .none (m.along '\\') cs
  have hread := he.read cs
  have hslash : isBreak '\\' = false := rfl
  rw [List.length_cons, List.cons_append] at hskip
  rw [List.cons_append] at hread
  rw [List.cons_append, List.cons_append, readDoubleQuoted?]
  simp [isBlank, hbreak, hslash, hm, hread, bind, pure, hskip, Option.map_eq_bind]

end

/-- **Text between quotes** with the escapes of JSON is read as it is meant. -/
theorem readDoubleQuoted?_escape {s : List Char} (hs : ∀ c ∈ s, c.toNat < 0x7f) {gap : Gap}
    (hgap : gap.broken = false) {m : Mark} (hm : m.column ≠ 0) (rest : List Char) :
    readDoubleQuoted? 0 gap m (escape s ++ '"' :: rest) =
      some (gap.fold ++ s, ⟨m.over (escape s ++ ['"']), rest⟩) := by
  induction s generalizing gap m with
  | nil =>
    rw [escape_nil, List.nil_append, readDoubleQuoted?]
    simp [isBlank, isBreak, hm]
  | cons c s ih =>
    obtain ⟨hc, hcs⟩ := List.forall_mem_cons.mp hs
    have hnone : Gap.none.broken = false := rfl
    rw [escape_cons, List.append_assoc, List.append_assoc, Mark.over_append]
    obtain ⟨hvisible, hquote, hslash, hself⟩ | ⟨e, he, hescape⟩ := escapeChar_cases hc
    · rw [hself]
      by_cases hblank : c = ' '
      · subst hblank
        have hgap' : (gap.addBlank ' ').broken = false := by simp [Gap.addBlank, hgap]
        have hfold : (gap.addBlank ' ').fold = gap.fold ++ [' '] := by
          simp [Gap.addBlank, Gap.fold, hgap]
        rw [List.singleton_append, readDoubleQuoted?_blank, ih hcs hgap' (Nat.succ_ne_zero _),
          hfold, List.append_assoc]
        rfl
      · rw [List.singleton_append, readDoubleQuoted?_plain hvisible hblank hquote hslash hm,
          ih hcs hnone (Nat.succ_ne_zero _)]
        rfl
    · rw [hescape, readDoubleQuoted?_escaped he hm, ih hcs hnone]
      · rfl
      · rw [Mark.column_over]
        simp

/-! ## Words and numbers -/

/-- The indicators that end plain text inside a flow collection. -/
def EndsPlain (cs : List Char) : Prop :=
  ∃ c rest, cs = c :: rest ∧ (c = ',' ∨ c = ']' ∨ c = '\x7d')

/-- A letter or a digit differs from any other character. -/
theorem ne_of_isAlphanum {c d : Char} (hc : c.isAlphanum = true)
    (hd : d.isAlphanum = false := by decide) : c ≠ d := by
  rintro rfl
  exact Bool.false_ne_true (hd.symm.trans hc)

/-- None of some characters is a letter or a digit. -/
theorem notMem_of_isAlphanum {c : Char} (hc : c.isAlphanum = true) {ds : List Char}
    (hds : ds.any Char.isAlphanum = false) : c ∉ ds :=
  fun hmem => List.any_eq_false.mp hds c hmem hc

/-- A letter or a digit is no blank. -/
theorem isSpace_of_isAlphanum {c : Char} (hc : c.isAlphanum = true) : isSpace c = false := by
  have hspace : c ≠ ' ' := ne_of_isAlphanum hc
  have htab : c ≠ '\t' := ne_of_isAlphanum hc
  simp [isSpace, isBlank, hspace, htab, isBreak_of_isVisible (isVisible_of_isAlphanum hc)]

/-- Plain text ends in front of an indicator. -/
theorem readPlain?_of_ends {cs : List Char} (h : EndsPlain cs) (margin : Int) {m : Mark}
    (hm : m.column ≠ 0) : readPlain? true margin .none m cs = some ([], false, ⟨m, cs⟩) := by
  obtain ⟨c, rest, rfl, rfl | rfl | rfl⟩ := h <;>
    simp [readPlain?, isBlank, isBreak, hm, Gap.isNone, Gap.none]

/-- **Words and numbers** are read up to an indicator. -/
theorem readPlain?_of_isAlphanum {text : List Char} (htext : ∀ c ∈ text, c.isAlphanum = true)
    {rest : List Char} (hrest : EndsPlain rest) (margin : Int) {m : Mark} (hm : m.column ≠ 0) :
    readPlain? true margin .none m (text ++ rest) = some (text, false, ⟨m.over text, rest⟩) := by
  induction text generalizing m with
  | nil => exact readPlain?_of_ends hrest margin hm
  | cons c text ih =>
    obtain ⟨hc, htext⟩ := List.forall_mem_cons.mp htext
    obtain ⟨hblank, hbreak⟩ := Bool.or_eq_false_iff.mp (isSpace_of_isAlphanum hc)
    have hcolon : c ≠ ':' := ne_of_isAlphanum hc
    have hflow : c ∉ ",[]\x7b\x7d".toList := notMem_of_isAlphanum hc (by decide)
    have hgap : Gap.none.isNone = true := rfl
    rw [List.cons_append, readPlain?, ih htext (m := m.along c) (Nat.succ_ne_zero _)]
    simp only [hblank, hbreak, hgap, hm, hcolon, hflow, Bool.false_eq_true, if_false,
      Bool.not_true, Bool.false_and, Bool.and_false, decide_false, Bool.or_false, Option.map_some]
    rfl

end AliasReport.Yaml
