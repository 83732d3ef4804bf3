import AliasReport.Proofs.Json.Words

/-! # Numbers are neither cut nor rounded

A literal is read as a word if it is a plain natural number below the bound of the width, whatever
its length, and as nothing otherwise. So it is at every place in a text at which a word is read.

* **`Numeral.Literal`**, **`Numeral.plain?`** — numbers as they are written, and natural numbers
  among them.
* **`Numeral.wordOf?_value`** — the words that literals stand for.
* **`decode_literal_at`** — a document with another literal in the place of a word. -/

namespace AliasReport.Document

/-- The numbers of every width fit into 64 bits. -/
theorem Width.bound_le (w : Width) : w.bound ≤ UInt64.size := by
  cases w <;> decide

/-- A natural number is a word below the bound. -/
theorem Width.wordOf?_unsigned (w : Width) (n : Nat) :
    w.wordOf? (.unsigned n) = if n < w.bound then some n else none := by
  by_cases hn : n < w.bound
  · simp [wordOf?, ofFound, ofInt, hn, Except.toOption, unpack_pack hn]
  · simp [wordOf?, ofFound, ofInt, hn, Except.toOption]

/-- A negative number is no word. -/
theorem Width.wordOf?_signed (w : Width) {n : Int} (hn : n < 0) : w.wordOf? (.signed n) = none := by
  simp [wordOf?, ofFound, ofInt, Int.not_le.mpr hn, Except.toOption]

end AliasReport.Document

namespace AliasReport.Json

open AliasReport.Document AliasReport.Number

namespace Numeral

/-- **A number as it is written.** -/
structure Literal (n : Numeral) (lit : List Char) : Prop where
  wellFormed : n.WellFormed
  chars : ∃ exponent, ExponentChars n.exponent exponent ∧
    lit = n.signChars ++ (n.whole ++ (n.fractionChars ++ exponent))

/-- The natural number that is written without a sign, a fraction and an exponent. -/
def plain? (n : Numeral) : Option Nat :=
  if n.negative = false ∧ n.fraction = none ∧ n.exponent = none then some (digitsValue n.whole)
  else none

/-- The decimal notation of a natural number is a literal. -/
theorem literal_decimal (k : Nat) : Literal (decimalNumeral k) (decimal k) :=
  ⟨decimalNumeral_wellFormed k, [], .none, by simp [signChars, fractionChars, decimalNumeral]⟩

/-- A decimal numeral is a plain number. -/
theorem plain?_decimalNumeral (k : Nat) : (decimalNumeral k).plain? = some k :=
  (if_pos ⟨rfl, rfl, rfl⟩).trans (congrArg some (digitsValue_decimal k))

/-- A number is not plain because of its sign, its fraction or its exponent. -/
theorem plain?_eq_none_iff {n : Numeral} :
    n.plain? = none ↔ n.negative = true ∨ n.fraction ≠ none ∨ n.exponent ≠ none := by
  unfold plain?
  split_ifs with hplain
  · simp [hplain]
  · simp only [true_iff]
    by_contra hnone
    simp_all

/-- A literal stands where it is read, or is the fault that it is out of range. -/
theorem Literal.scalarAt {n : Numeral} {lit post : List Char} (h : n.Literal lit)
    (hpost : Apart post) : ScalarAt (lit ++ post) n.value post := by
  obtain ⟨exponent, he, rfl⟩ := h.chars
  have hassoc : (n.signChars ++ (n.whole ++ (n.fractionChars ++ exponent))) ++ post =
      n.signChars ++ (n.whole ++ (n.fractionChars ++ (exponent ++ post))) := by simp
  obtain ⟨c, inner, hchars, hc⟩ := h.wellFormed.opens (n.fractionChars ++ (exponent ++ post))
  have hne : ∀ d : Char, ¬(d = '-' ∨ d.isDigit = true) → c ≠ d := by
    rintro d hd rfl
    exact hd hc
  have hblank : isBlank c = false := by
    simp [isBlank, hne ' ' (by decide), hne '\n' (by decide), hne '\t' (by decide),
      hne '\r' (by decide)]
  rw [hassoc]
  have hopens : Opens (n.signChars ++ (n.whole ++ (n.fractionChars ++ (exponent ++ post)))) :=
    ⟨c, inner, hchars, hblank, hne ']' (by decide)⟩
  refine ⟨readHead_of_number h.wellFormed he hpost hopens.skipBlanks, hopens, ?_, ?_⟩
  · rw [hchars]
    exact fun hnull => hne 'n' (by decide) (Option.some.inj hnull)
  · intro found hfound
    obtain ⟨_, rfl⟩ | ⟨_, rfl⟩ | ⟨_, rfl⟩ := value_cases hfound <;> exact ⟨rfl, by simp⟩

/-- A number of 64 bits that is written without a sign, a fraction and an exponent is kept. -/
theorem value_of_plain? {n : Numeral} {k : Nat} (h : n.plain? = some k) (hk : k < UInt64.size) :
    n.value = .ok (.unsigned k) := by
  unfold plain? at h
  split_ifs at h with hplain
  obtain ⟨hnegative, hfraction, hexponent⟩ := hplain
  obtain rfl := Option.some.inj h
  simp [value, hnegative, hfraction, hexponent, hk]

/-- Every other number is negative or a floating-point number, and so no word. -/
theorem wordOf?_of_value {n : Numeral} {found : Found} (h : n.value = .ok found)
    (hnot : ∀ k, n.plain? = some k → UInt64.size ≤ k) (w : Width) : w.wordOf? found = none := by
  simp only [value] at h
  split_ifs at h with hunsigned hsigned
  · obtain ⟨hfraction, hexponent, hnegative, hlt⟩ := hunsigned
    have hplain : n.plain? = some (digitsValue n.whole) :=
      if_pos ⟨Bool.eq_false_iff.mpr hnegative, Option.isNone_iff_eq_none.mp hfraction,
        Option.isNone_iff_eq_none.mp hexponent⟩
    exact absurd hlt (Nat.not_lt.mpr (hnot _ hplain))
  · cases h
    exact w.wordOf?_signed (by omega)
  · cases hreal : n.real? with
    | none =>
      rw [hreal] at h
      cases h
    | some x =>
      rw [hreal] at h
      cases h
      rfl

/-- **A literal is a word** if it is a plain natural number below the bound. -/
theorem wordOf?_value (n : Numeral) (w : Width) :
    n.value.toOption.bind w.wordOf? = n.plain?.filter (· < w.bound) := by
  by_cases hsmall : ∃ k, n.plain? = some k ∧ k < UInt64.size
  · obtain ⟨k, hplain, hk⟩ := hsmall
    rw [value_of_plain? hplain hk, hplain]
    exact (w.wordOf?_unsigned k).trans (by simp [Option.filter])
  · have hnot : ∀ k, n.plain? = some k → UInt64.size ≤ k :=
      fun k hplain => Nat.not_lt.mp fun hk => hsmall ⟨k, hplain, hk⟩
    have hleft : n.value.toOption.bind w.wordOf? = none :=
      Option.bind_eq_none_iff.mpr fun found hfound =>
        wordOf?_of_value (toOption_eq_some_iff.mp hfound) hnot w
    have hright : n.plain?.filter (· < w.bound) = none := by
      refine Option.filter_eq_none_iff.mpr fun k hplain => ?_
      have := hnot k hplain
      have := w.bound_le
      simp only [decide_eq_true_eq]
      omega
    rw [hleft, hright]

end Numeral

/-! ## Documents -/

/-- A document is read to its end. -/
theorem decode_eq {α : Type} [Described α] (text : String) :
    decode α text =
      ((Described.shape α).readJson depthLimit text.toList).bind fun x =>
        (readEnd x.2).map fun _ => Described.ofVal x.1 := by
  unfold decode
  refine congrArg _ (funext fun x => ?_)
  exact bind_ok_eq_map (readEnd x.2) _

/-- **Another literal in the place of a word** is decoded as its value, or not at all. The document
holds what it did besides. -/
theorem decode_literal_at {α : Type} [Described α] (hfaithful : Described.Faithful α)
    {pre post lit lit' : List Char} {n n' : Numeral} (hlit : n.Literal lit)
    (hlit' : n'.Literal lit') (hpost : Numeral.Apart post) {path : List Selector}
    (hplace : StandsAt path (pre ++ (lit ++ post)) (lit ++ post)) {a : α}
    (hdecode : decode α (String.ofList (pre ++ (lit ++ post))) = .ok a) {w : Width} {k : Nat}
    (hword : (Described.shape α).wordAt? path (Described.toVal a) = some (w, k)) :
    (decode α (String.ofList (pre ++ (lit' ++ post)))).toOption =
      (n'.plain?.filter (· < w.bound)).map fun m =>
        Described.ofVal ((Described.shape α).setWord path m (Described.toVal a)) := by
  rw [decode_eq, String.toList_ofList] at hdecode ⊢
  obtain ⟨⟨v, rest⟩, hread, h⟩ := bind_eq_ok_iff.mp hdecode
  obtain ⟨u, hend, rfl⟩ := map_eq_ok_iff.mp h
  rw [hfaithful] at hword ⊢
  obtain ⟨pre', heq, hpre⟩ :=
    (Described.shape α).readJson_at (hlit.scalarAt hpost) hplace hread hword
  obtain rfl := List.append_cancel_right heq
  have hread' := hpre _ _ (hlit'.scalarAt hpost)
  rw [Numeral.wordOf?_value] at hread'
  exact toOption_bind_of_forall hread' fun m => map_eq_ok_iff.mpr ⟨u, hend, rfl⟩

end AliasReport.Json
