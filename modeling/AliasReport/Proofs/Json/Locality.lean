import AliasReport.Proofs.Json.Reading

/-! # Readers look at what they take

What is read at the start of a text is told by the characters that are taken, and by no more than
the first one behind them: a number goes on for as long as there are digits.

* **`Local`** — relations between a text and what is left of it that are told so; `Local.comp`,
  `Local.or` and `Local.exists` put them together.
* **`readText_eq_ok_iff`**, **`readParts_eq_ok_iff`** — text and numbers are read where the grammar
  has them.
* **`LocalReader`** — readers whose results are told so; `LocalReader.bind` and `LocalReader.head`
  put them together.
* **`readHead_local`** — scalars and brackets.
* **`nextItem_eq_inr_iff`**, **`nextKey_eq_inr_iff`** — items and members are found where they
  start. -/

namespace AliasReport.Json

open AliasReport.Document

/-- **A local relation** between a text and what is left of it: some characters are taken, and they
can also be taken from another text that goes on with the same character. -/
def Local (R : List Char → List Char → Prop) : Prop :=
  ∀ cs rest, R cs rest → ∃ used, cs = used ++ rest ∧
    ∀ rest', rest'.head? = rest.head? → R (used ++ rest') rest'

/-- Texts that go on alike start alike. -/
theorem head?_append_congr {rest rest' : List Char} (h : rest'.head? = rest.head?)
    (used : List Char) : (used ++ rest').head? = (used ++ rest).head? := by
  cases used with
  | nil => exact h
  | cons c used => rfl

/-- Texts with something in front start alike, however they go on. -/
theorem head?_append_eq {used : List Char} (h : used ≠ []) (rest rest' : List Char) :
    (used ++ rest').head? = (used ++ rest).head? := by
  rw [List.head?_append_of_ne_nil _ h, List.head?_append_of_ne_nil _ h]

section

variable {R S : List Char → List Char → Prop}

/-- A relation that is the same as a local one is local. -/
theorem Local.congr (h : Local R) (hiff : ∀ cs rest, S cs rest ↔ R cs rest) : Local S := by
  intro cs rest hcs
  obtain ⟨used, heq, hused⟩ := h cs rest ((hiff cs rest).mp hcs)
  exact ⟨used, heq, fun rest' hhead => (hiff _ _).mpr (hused rest' hhead)⟩

/-- One of two local relations is local. -/
theorem Local.or (h : Local R) (h' : Local S) : Local fun cs rest => R cs rest ∨ S cs rest := by
  rintro cs rest (hcs | hcs)
  · obtain ⟨used, heq, hused⟩ := h cs rest hcs
    exact ⟨used, heq, fun rest' hhead => .inl (hused rest' hhead)⟩
  · obtain ⟨used, heq, hused⟩ := h' cs rest hcs
    exact ⟨used, heq, fun rest' hhead => .inr (hused rest' hhead)⟩

/-- One of many local relations is local. -/
theorem Local.exists {ι : Type} {R : ι → List Char → List Char → Prop} (h : ∀ i, Local (R i)) :
    Local fun cs rest => ∃ i, R i cs rest := by
  rintro cs rest ⟨i, hcs⟩
  obtain ⟨used, heq, hused⟩ := h i cs rest hcs
  exact ⟨used, heq, fun rest' hhead => ⟨i, hused rest' hhead⟩⟩

/-- A relation under a condition is local if it is so where the condition holds. -/
theorem Local.and {p : Prop} (h : p → Local R) : Local fun cs rest => p ∧ R cs rest := by
  rintro cs rest ⟨hp, hcs⟩
  obtain ⟨used, heq, hused⟩ := h hp cs rest hcs
  exact ⟨used, heq, fun rest' hhead => ⟨hp, hused rest' hhead⟩⟩

/-- One after the other. -/
theorem Local.comp (h : Local R) (h' : Local S) :
    Local fun cs rest => ∃ mid, R cs mid ∧ S mid rest := by
  rintro cs rest ⟨mid, hcs, hmid⟩
  obtain ⟨used, rfl, hused⟩ := h cs mid hcs
  obtain ⟨more, rfl, hmore⟩ := h' mid rest hmid
  refine ⟨used ++ more, (List.append_assoc ..).symm, fun rest' hhead => ?_⟩
  rw [List.append_assoc]
  exact ⟨more ++ rest', hused _ (head?_append_congr hhead more), hmore rest' hhead⟩

/-- A local relation leaves no more text than there is. -/
theorem Local.length_le {R : List Char → List Char → Prop} (h : Local R) {cs rest : List Char}
    (hcs : R cs rest) : rest.length ≤ cs.length := by
  obtain ⟨used, rfl, -⟩ := h cs rest hcs
  simp

/-- What is left is all there was. -/
theorem Local.eq : Local fun cs rest => cs = rest := by
  rintro cs _ rfl
  exact ⟨[], rfl, fun _ _ => rfl⟩

/-- Fixed characters. -/
theorem Local.chars (used : List Char) : Local fun cs rest => cs = used ++ rest := by
  rintro cs rest rfl
  exact ⟨used, rfl, fun _ _ => rfl⟩

end

/-! ## Blanks -/

/-- The blanks in front of a text. -/
theorem exists_blanks (cs : List Char) : ∃ blanks, cs = blanks ++ skipBlanks cs ∧
    ∀ rest, skipBlanks (blanks ++ rest) = skipBlanks rest := by
  refine ⟨cs.takeWhile isBlank, (List.takeWhile_append_dropWhile ..).symm, fun rest => ?_⟩
  exact List.dropWhile_append_of_pos fun c hc => List.mem_takeWhile_imp hc

/-- A text without blanks in front. -/
theorem skipBlanks_cons {c : Char} (hc : isBlank c = false) (cs : List Char) :
    skipBlanks (c :: cs) = c :: cs := by
  simp [skipBlanks, hc]

/-- The first character behind blanks is none. -/
theorem isBlank_of_skipBlanks {c : Char} {cs tail : List Char} (h : skipBlanks cs = c :: tail) :
    isBlank c = false := by
  have hskip := skipBlanks_skipBlanks cs
  rw [h] at hskip
  by_contra hblank
  have hlen := length_skipBlanks_le tail
  rw [skipBlanks, List.dropWhile_cons_of_pos (Bool.of_not_eq_false hblank)] at hskip
  rw [skipBlanks, hskip, List.length_cons] at hlen
  omega

/-- Blanks are taken up to what is none. -/
theorem Local.blanks : Local fun cs rest => skipBlanks cs = rest := by
  rintro cs _ rfl
  obtain ⟨blanks, heq, hblanks⟩ := exists_blanks cs
  refine ⟨blanks, heq, fun rest hhead => (hblanks rest).trans ?_⟩
  cases rest with
  | nil => rfl
  | cons c rest =>
    obtain ⟨tail, htail⟩ := List.head?_eq_some_iff.mp hhead.symm
    exact skipBlanks_cons (isBlank_of_skipBlanks htail) rest

/-- A local relation behind blanks. -/
theorem Local.behind {R : List Char → List Char → Prop} (h : Local R) :
    Local fun cs rest => R (skipBlanks cs) rest :=
  (Local.comp Local.blanks h).congr fun cs rest => by simp

/-- Characters behind blanks. -/
theorem Local.word (word : List Char) : Local fun cs rest => skipBlanks cs = word ++ rest :=
  (Local.chars word).behind

/-- One character behind blanks. -/
theorem Local.mark (c : Char) : Local fun cs rest => skipBlanks cs = c :: rest :=
  Local.word [c]

/-! ## Text -/

/-- Only what spells a text is read as text. -/
theorem spells_of_readText {cs s rest : List Char} (h : readText cs = .ok (s, rest)) :
    Spells cs s rest := by
  fun_induction readText cs generalizing s rest with
  | case2 tail =>
    cases h
    exact .close
  | case4 _ _ _ hescape _ ih =>
    obtain ⟨⟨s, rest⟩, hs, heq⟩ := map_eq_ok_iff.mp h
    cases heq
    exact .short hescape (ih hs)
  | case13 _ _ hu _ _ _ _ _ hunit hsecond hfirst _ hslash _ hu' _ _ _ _ _ _ hunit' hsecond' _ ih =>
    obtain ⟨⟨s, rest⟩, hs, heq⟩ := map_eq_ok_iff.mp h
    cases heq
    obtain rfl := Decidable.not_not.mp hu
    obtain rfl := Decidable.not_not.mp hslash
    obtain rfl := Decidable.not_not.mp hu'
    exact .pair hunit hfirst hunit' hsecond' (ih hs)
  | case16 _ _ hu _ _ _ _ _ _ hunit hsecond hfirst _ ih =>
    obtain ⟨⟨s, rest⟩, hs, heq⟩ := map_eq_ok_iff.mp h
    cases heq
    obtain rfl := Decidable.not_not.mp hu
    exact .unit hunit (Bool.eq_false_iff.mpr hfirst) (Bool.eq_false_iff.mpr hsecond) (ih hs)
  | case19 _ _ hquote hslash hcontrol ih =>
    obtain ⟨⟨s, rest⟩, hs, heq⟩ := map_eq_ok_iff.mp h
    cases heq
    exact .plain hquote hslash (Nat.not_lt.mp hcontrol) (ih hs)
  | _ => cases h

/-- **Text is read where it is spelled.** -/
theorem readText_eq_ok_iff {cs s rest : List Char} :
    readText cs = .ok (s, rest) ↔ Spells cs s rest :=
  ⟨spells_of_readText, readText_of_spells⟩

/-- Text ends with a mark of its own. -/
theorem spells_local (s : List Char) : Local fun cs rest => Spells cs s rest := by
  intro cs rest h
  induction h with
  | close => exact ⟨['"'], rfl, fun _ _ => .close⟩
  | plain hquote hslash hcontrol _ ih =>
    obtain ⟨used, rfl, hused⟩ := ih
    exact ⟨_ :: used, rfl, fun rest' h => .plain hquote hslash hcontrol (hused rest' h)⟩
  | short hescape _ ih =>
    obtain ⟨used, rfl, hused⟩ := ih
    exact ⟨_ :: _ :: used, rfl, fun rest' h => .short hescape (hused rest' h)⟩
  | unit hunit hfirst hsecond _ ih =>
    obtain ⟨used, rfl, hused⟩ := ih
    exact ⟨_ :: _ :: _ :: _ :: _ :: _ :: used, rfl,
      fun rest' h => .unit hunit hfirst hsecond (hused rest' h)⟩
  | pair hunit hfirst hunit' hsecond _ ih =>
    obtain ⟨used, rfl, hused⟩ := ih
    exact ⟨_ :: _ :: _ :: _ :: _ :: _ :: _ :: _ :: _ :: _ :: _ :: _ :: used, rfl,
      fun rest' h => .pair hunit hfirst hunit' hsecond (hused rest' h)⟩

/-- So does skipped text. -/
theorem skipText_local : Local fun cs rest => skipText cs = .ok rest := by
  intro cs rest h
  fun_induction skipText cs with
  | case2 tail =>
    obtain rfl := Except.ok.inj h
    refine ⟨['"'], rfl, fun rest' _ => ?_⟩
    change skipText ('"' :: rest') = .ok rest'
    rw [skipText.eq_def]
    rfl
  | case4 e _ hescape hquote ih =>
    obtain ⟨used, rfl, hused⟩ := ih h
    refine ⟨'\\' :: e :: used, rfl, fun rest' hhead => ?_⟩
    change skipText ('\\' :: e :: (used ++ rest')) = .ok rest'
    rw [skipText.eq_def]
    simpa [hescape] using hused rest' hhead
  | case6 e hescape hu k₁ k₂ k₃ k₄ _ hunit hquote ih =>
    obtain ⟨used, rfl, hused⟩ := ih h
    refine ⟨'\\' :: e :: k₁ :: k₂ :: k₃ :: k₄ :: used, rfl, fun rest' hhead => ?_⟩
    change skipText ('\\' :: e :: k₁ :: k₂ :: k₃ :: k₄ :: (used ++ rest')) = .ok rest'
    rw [skipText.eq_def]
    simpa [hescape, Decidable.not_not.mp hu, hunit] using hused rest' hhead
  | case10 c _ hquote hslash hcontrol ih =>
    obtain ⟨used, rfl, hused⟩ := ih h
    refine ⟨c :: used, rfl, fun rest' hhead => ?_⟩
    change skipText (c :: (used ++ rest')) = .ok rest'
    rw [skipText.eq_def]
    simpa [hquote, hslash, hcontrol] using hused rest' hhead
  | _ => cases h

/-! ## Numbers -/

/-- Digits end where the text does not go on with them. -/
theorem readDigits_local (atEnd : Fault) (ds : List Char) :
    Local fun cs rest => readDigits atEnd cs = .ok (ds, rest) := by
  intro cs rest h
  obtain ⟨rfl, hds, hrest⟩ := readDigits_eq_ok_iff.mp h
  exact ⟨ds, rfl, fun rest' hhead => readDigits_append hds (hhead ▸ hrest) atEnd⟩

/-- A fraction is told by its characters and what they stop at. -/
theorem readFraction_local (atEnd : Fault) (fraction : Option (List Char)) :
    Local fun cs rest => readFraction atEnd cs = .ok (fraction, rest) := by
  intro cs rest h
  obtain ⟨rfl, hends⟩ := readFraction_eq_ok_iff.mp h
  exact ⟨_, rfl, fun rest' hhead => readFraction_eq_ok_iff.mpr ⟨rfl, hhead ▸ hends⟩⟩

/-- An exponent is told by its characters and what they stop at. -/
theorem readExponent_local (atEnd : Fault) (exponent : Option (Bool × List Char)) :
    Local fun cs rest => readExponent atEnd cs = .ok (exponent, rest) := by
  intro cs rest h
  obtain ⟨chars, hchars, rfl, hends⟩ := readExponent_eq_ok_iff.mp h
  exact ⟨chars, rfl, fun rest' hhead =>
    readExponent_eq_ok_iff.mpr ⟨chars, hchars, rfl, hhead ▸ hends⟩⟩

/-- The digits in front of the point do not start with a needless zero. -/
theorem readWhole_eq_ok_iff {atEnd : Fault} {cs ds rest : List Char} :
    readWhole atEnd cs = .ok (ds, rest) ↔
      readDigits atEnd cs = .ok (ds, rest) ∧ (ds.head? = some '0' → ds = ['0']) := by
  constructor
  · intro h
    obtain ⟨⟨ds', rest'⟩, hds, h⟩ := bind_eq_ok_iff.mp h
    dsimp only at h
    split at h
    · cases h
    · rename_i hlead
      cases h
      refine ⟨hds, fun hzero => ?_⟩
      obtain ⟨tail, rfl⟩ := List.head?_eq_some_iff.mp hzero
      cases tail with
      | nil => rfl
      | cons c tail => exact absurd rfl (hlead c tail)
  · rintro ⟨hds, hlead⟩
    obtain ⟨rfl, hdigits, hrest⟩ := readDigits_eq_ok_iff.mp hds
    exact readWhole_append hdigits hlead hrest atEnd

/-- The whole part of a number is told by its digits and what they stop at. -/
theorem readWhole_local (atEnd : Fault) (ds : List Char) :
    Local fun cs rest => readWhole atEnd cs = .ok (ds, rest) :=
  (Local.and fun _ => readDigits_local atEnd ds).congr fun _ _ =>
    readWhole_eq_ok_iff.trans and_comm

/-- The parts of a number stand one behind the other. -/
theorem readParts_eq_ok_iff {atEnd : Fault} {negative : Bool} {cs rest : List Char} {n : Numeral} :
    readParts atEnd negative cs = .ok (n, rest) ↔
      n.negative = negative ∧ ∃ behind, readWhole atEnd cs = .ok (n.whole, behind) ∧
        ∃ behind', readFraction atEnd behind = .ok (n.fraction, behind') ∧
          readExponent atEnd behind' = .ok (n.exponent, rest) := by
  obtain ⟨negative', whole, fraction, exponent⟩ := n
  simp only [readParts, bind, bind_eq_ok_iff, pure, Except.pure, Prod.exists, Except.ok.injEq,
    Prod.mk.injEq, Numeral.mk.injEq]
  constructor
  · rintro ⟨_, behind, hwhole, _, behind', hfraction, _, _, hexponent, ⟨rfl, rfl, rfl, rfl⟩, rfl⟩
    exact ⟨rfl, behind, hwhole, behind', hfraction, hexponent⟩
  · rintro ⟨rfl, behind, hwhole, behind', hfraction, hexponent⟩
    exact ⟨_, behind, hwhole, _, behind', hfraction, _, _, hexponent, ⟨rfl, rfl, rfl, rfl⟩, rfl⟩

/-- The parts of a number are told by its characters and what they stop at. -/
theorem readParts_local (atEnd : Fault) (negative : Bool) (n : Numeral) :
    Local fun cs rest => readParts atEnd negative cs = .ok (n, rest) :=
  (Local.and fun _ => (readWhole_local atEnd n.whole).comp
    ((readFraction_local atEnd n.fraction).comp (readExponent_local atEnd n.exponent))).congr
      fun _ _ => readParts_eq_ok_iff

/-! ## Which fault is reported

What is read does not depend on the fault that an early end would be. -/

section

variable {atEnd : Fault} {cs rest : List Char}

/-- Digits that are read do not depend on the fault at the end of the text. -/
theorem readDigits_of_ok {ds : List Char} (h : readDigits atEnd cs = .ok (ds, rest))
    (atEnd' : Fault) : readDigits atEnd' cs = .ok (ds, rest) :=
  readDigits_eq_ok_iff.mpr (readDigits_eq_ok_iff.mp h)

/-- A fraction that is read does not depend on the fault at the end of the text. -/
theorem readFraction_of_ok {fraction : Option (List Char)}
    (h : readFraction atEnd cs = .ok (fraction, rest)) (atEnd' : Fault) :
    readFraction atEnd' cs = .ok (fraction, rest) :=
  readFraction_eq_ok_iff.mpr (readFraction_eq_ok_iff.mp h)

/-- An exponent that is read does not depend on the fault at the end of the text. -/
theorem readExponent_of_ok {exponent : Option (Bool × List Char)}
    (h : readExponent atEnd cs = .ok (exponent, rest)) (atEnd' : Fault) :
    readExponent atEnd' cs = .ok (exponent, rest) :=
  readExponent_eq_ok_iff.mpr (readExponent_eq_ok_iff.mp h)

/-- **A number that is read is skipped.** -/
theorem skipNumeral_of_readNumeral {negative : Bool} {n : Numeral}
    (h : readNumeral negative cs = .ok (n, rest)) : skipNumeral cs = .ok rest := by
  obtain ⟨-, behind, hwhole, behind', hfraction, hexponent⟩ := readParts_eq_ok_iff.mp h
  obtain ⟨hdigits, hlead⟩ := readWhole_eq_ok_iff.mp hwhole
  refine map_eq_ok_iff.mpr ⟨({ n with negative := false }, rest), readParts_eq_ok_iff.mpr ?_, rfl⟩
  exact ⟨rfl, behind, readWhole_eq_ok_iff.mpr ⟨readDigits_of_ok hdigits _, hlead⟩, behind',
    readFraction_of_ok hfraction _, readExponent_of_ok hexponent _⟩

end

/-! ## Readers -/

/-- **A local reader**: what it reads is told by what it takes. -/
def LocalReader {α : Type} (read : List Char → Except Fault (α × List Char)) : Prop :=
  ∀ v, Local fun cs rest => read cs = .ok (v, rest)

namespace LocalReader

variable {α β : Type} {read read' : List Char → Except Fault (α × List Char)}

/-- A reader that is the same as a local one is local. -/
theorem of_eq (h : LocalReader read') (heq : ∀ cs, read cs = read' cs) : LocalReader read :=
  funext heq ▸ h

/-- A reader that takes nothing is local. -/
theorem pure (v : α) : LocalReader fun cs => .ok (v, cs) :=
  fun v' => (Local.and fun _ : v = v' => Local.eq).congr fun cs rest => by simp

/-- A reader that fails is local. -/
theorem error (err : Fault) : LocalReader fun _ => (.error err : Except Fault (α × List Char)) :=
  fun _ _ _ h => by cases h

/-- A choice is local if each branch is so where it is taken. -/
theorem ite {p : Prop} [Decidable p] (h : p → LocalReader read) (h' : ¬p → LocalReader read') :
    LocalReader fun cs => if p then read cs else read' cs := by
  by_cases hp : p
  · simpa only [if_pos hp] using h hp
  · simpa only [if_neg hp] using h' hp

/-- What is read next may depend on what has been read. -/
theorem bind {next : α × List Char → Except Fault (β × List Char)} (h : LocalReader read)
    (hnext : ∀ v, LocalReader fun cs => next (v, cs)) :
    LocalReader fun cs => (read cs).bind next :=
  fun v => (Local.exists fun v' => (h v').comp (hnext v' v)).congr fun cs rest => by
    simp [bind_eq_ok_iff]

/-- Something may be made of what is read. -/
theorem map {f : α × List Char → β × List Char} (g : α → β) (h : LocalReader read)
    (hf : ∀ v cs, f (v, cs) = (g v, cs)) : LocalReader fun cs => (read cs).map f :=
  fun v => (Local.exists fun v' => Local.and fun _ : g v' = v => h v').congr fun cs rest => by
    simp [map_eq_ok_iff, hf, and_comm]

/-- What is read may still be refused. -/
theorem check {f : Except Fault β} {next : β → List Char → Except Fault (α × List Char)}
    (h : ∀ v, LocalReader (next v)) : LocalReader fun cs => f.bind fun v => next v cs := by
  cases f with
  | error err => exact error err
  | ok v => exact h v

/-- Something may be taken before. -/
theorem behind {take : List Char → Except Fault (List Char)}
    (htake : Local fun cs rest => take cs = .ok rest) (h : LocalReader read) :
    LocalReader fun cs => (take cs).bind read :=
  fun v => (htake.comp (h v)).congr fun cs rest => by simp [bind_eq_ok_iff]

/-- Something may be taken instead of being read. -/
theorem taken {take : List Char → Except Fault (List Char)}
    (htake : Local fun cs rest => take cs = .ok rest) (v : α) :
    LocalReader fun cs => (take cs).map (v, ·) :=
  fun v' => (Local.and fun _ : v = v' => htake).congr fun cs rest => by
    simp [map_eq_ok_iff, and_comm]

/-- The first character behind blanks may decide how to go on. -/
theorem head (hblanks : ∀ cs, read (skipBlanks cs) = read cs) (hnil : ∀ x, read [] ≠ .ok x)
    (hcons : ∀ c, isBlank c = false → LocalReader fun cs => read (c :: cs)) :
    LocalReader read := by
  refine fun v => (Local.exists fun c => Local.and fun hc : isBlank c = false =>
    (Local.mark c).comp (hcons c hc v)).congr fun cs rest => ?_
  constructor
  · intro h
    rw [← hblanks] at h
    cases hskip : skipBlanks cs with
    | nil => exact absurd (hskip ▸ h) (hnil _)
    | cons c tail =>
      rw [hskip] at h
      exact ⟨c, isBlank_of_skipBlanks hskip, tail, rfl, h⟩
  · rintro ⟨c, -, tail, hskip, h⟩
    rw [← hblanks, hskip]
    exact h

end LocalReader

/-- A keyword is read where it stands. -/
theorem readKeyword_eq_ok_iff {word cs rest : List Char} :
    readKeyword word cs = .ok rest ↔ cs = word ++ rest := by
  induction word generalizing cs with
  | nil => simp [readKeyword]
  | cons k word ih =>
    cases cs with
    | nil => simp [readKeyword, unfinished]
    | cons c cs =>
      simp only [readKeyword, List.cons_append, List.cons.injEq, ← ih]
      split
      · simp_all
      · simp_all [malformed]

/-- What stands behind a keyword does not matter. -/
theorem readKeyword_local (word : List Char) :
    Local fun cs rest => readKeyword word cs = .ok rest :=
  (Local.chars word).congr fun _ _ => readKeyword_eq_ok_iff

/-- A colon is read behind blanks. -/
theorem readColon_eq_ok_iff {cs rest : List Char} :
    readColon cs = .ok rest ↔ skipBlanks cs = ':' :: rest := by
  unfold readColon
  cases skipBlanks cs with
  | nil => simp [unfinished]
  | cons c tail =>
    by_cases hc : c = ':'
    · simp [hc]
    · simp [hc, malformed]

/-- What stands behind a colon does not matter. -/
theorem readColon_local : Local fun cs rest => readColon cs = .ok rest :=
  (Local.mark ':').congr fun _ _ => readColon_eq_ok_iff


/-- A character may have been taken before, if the next one is taken anyway. -/
theorem Local.cons {R : List Char → List Char → Prop} (h : Local R)
    (hshort : ∀ cs rest, R cs rest → rest.length < cs.length) (c : Char) :
    Local fun cs rest => R (c :: cs) rest := by
  intro cs rest hcs
  obtain ⟨used, heq, hused⟩ := h _ _ hcs
  cases used with
  | nil =>
    have hlen := hshort _ _ hcs
    rw [heq] at hlen
    exact absurd hlen (lt_irrefl _)
  | cons d used =>
    obtain ⟨rfl, rfl⟩ := List.cons.inj heq
    exact ⟨used, rfl, hused⟩

/-- A number takes a digit. -/
theorem length_lt_of_readParts {atEnd : Fault} {negative : Bool} {cs rest : List Char}
    {n : Numeral} (h : readParts atEnd negative cs = .ok (n, rest)) :
    rest.length < cs.length := by
  obtain ⟨-, behind, hwhole, behind', hfraction, hexponent⟩ := readParts_eq_ok_iff.mp h
  obtain ⟨rfl, hdigits, -⟩ := readDigits_eq_ok_iff.mp (readWhole_eq_ok_iff.mp hwhole).1
  obtain ⟨used, rfl, -⟩ := readFraction_local _ _ _ _ hfraction
  obtain ⟨used', rfl, -⟩ := readExponent_local _ _ _ _ hexponent
  have hpos := List.length_pos_iff.mpr hdigits.ne_nil
  simp only [List.length_append]
  omega

/-- What stands behind a text does not matter. -/
theorem readText_local : LocalReader readText :=
  fun s => (spells_local s).congr fun _ _ => readText_eq_ok_iff

/-- A number is told by its characters and the one that it stops at. -/
theorem readNumeral_local (negative : Bool) : LocalReader (readNumeral negative) :=
  fun n => readParts_local _ negative n

/-- Blanks in front of a head do not matter. -/
theorem readHead_skipBlanks (cs : List Char) : readHead (skipBlanks cs) = readHead cs := by
  simp only [readHead, skipBlanks_skipBlanks]

/-- Scalars and brackets are read locally. -/
theorem readHead_local : LocalReader readHead := by
  refine .head readHead_skipBlanks nofun fun c hc => ?_
  simp only [readHead, skipBlanks_cons hc]
  refine .ite (fun _ => .taken (readKeyword_local _) _) fun _ => ?_
  refine .ite (fun _ => .taken (readKeyword_local _) _) fun _ => ?_
  refine .ite (fun _ => .taken (readKeyword_local _) _) fun _ => ?_
  refine .ite (fun _ => readText_local.map (.text <| String.ofList ·) fun _ _ => rfl) fun _ => ?_
  refine .ite (fun _ => .pure _) fun _ => .ite (fun _ => .pure _) fun _ => ?_
  refine .bind (.ite (fun _ => readNumeral_local true) fun _ => ?_) fun n => ?_
  · refine .ite (fun _ n => ?_) fun _ => .error _
    exact (readNumeral_local false n).cons (fun _ _ => length_lt_of_readParts) c
  · -- The value of a number does not look at the text.
    cases hvalue : n.value with
    | error err => simpa [hvalue] using LocalReader.error err
    | ok found => simpa [hvalue] using LocalReader.pure found

/-! ## Items and keys -/

/-- A text without blanks in front that closes no list. -/
def Opens (cs : List Char) : Prop :=
  ∃ c tail, cs = c :: tail ∧ isBlank c = false ∧ c ≠ ']'

/-- What is next in a list is its end or an item. -/
theorem nextItem_cases {first : Bool} {cs : List Char} {next : List Char ⊕ List Char}
    (h : nextItem first cs = .ok next) :
    (∃ rest, next = .inl rest ∧ skipBlanks cs = ']' :: rest) ∨
      ∃ inner, next = .inr inner ∧ Starts first cs inner ∧ Opens inner := by
  unfold nextItem at h
  split at h
  · cases h
  · rename_i c tail hskip
    split_ifs at h with hclose hfirst hcomma
    · cases h
      exact .inl ⟨tail, rfl, hclose ▸ hskip⟩
    · cases h
      subst hfirst
      exact .inr ⟨c :: tail, rfl, hskip ▸ .first, c, tail, rfl, isBlank_of_skipBlanks hskip, hclose⟩
    · split at h
      · cases h
      · rename_i d more hmore
        split_ifs at h with hend
        · cases h
        · cases h
          rw [Bool.not_eq_true] at hfirst
          subst hfirst hcomma
          exact .inr ⟨d :: more, rfl, hmore ▸ .next hskip, d, more, rfl,
            isBlank_of_skipBlanks hmore, hend⟩
    · cases h

/-- **The next item is found** where one starts. -/
theorem nextItem_eq_inr_iff {first : Bool} {cs inner : List Char} :
    nextItem first cs = .ok (.inr inner) ↔ Starts first cs inner ∧ Opens inner := by
  constructor
  · intro h
    obtain ⟨rest, hnext, -⟩ | ⟨inner, hnext, hstart⟩ := nextItem_cases h
    · cases hnext
    · cases hnext
      exact hstart
  · rintro ⟨hstart, c, tail, rfl, hblank, hclose⟩
    exact nextItem_of_starts hstart ⟨c, tail, skipBlanks_cons hblank tail, hclose⟩

/-- A list ends at its bracket, behind blanks. -/
theorem nextItem_eq_inl_iff {first : Bool} {cs rest : List Char} :
    nextItem first cs = .ok (.inl rest) ↔ skipBlanks cs = ']' :: rest := by
  constructor
  · intro h
    obtain ⟨rest, hnext, hclose⟩ | ⟨inner, hnext, -⟩ := nextItem_cases h
    · cases hnext
      exact hclose
    · cases hnext
  · intro hclose
    simp [nextItem, hclose]

/-- What is next in an object is its end or a key. -/
theorem nextKey_cases {first : Bool} {cs : List Char} {next : List Char ⊕ String × List Char}
    (h : nextKey first cs = .ok next) :
    (∃ rest, next = .inl rest ∧ skipBlanks cs = '\x7d' :: rest) ∨
      ∃ inner s behind, next = .inr (String.ofList s, behind) ∧ Starts first cs ('"' :: inner) ∧
        Spells inner s behind := by
  unfold nextKey at h
  split at h
  · cases h
  · rename_i c tail hskip
    dsimp only at h
    split_ifs at h with hclose hfirst hquote hcomma
    · cases h
      exact .inl ⟨tail, rfl, hclose ▸ hskip⟩
    · obtain ⟨⟨s, behind⟩, hs, rfl⟩ := map_eq_ok_iff.mp h
      subst hfirst hquote
      exact .inr ⟨tail, s, behind, rfl, hskip ▸ .first, spells_of_readText hs⟩
    · cases h
    · split at h
      · cases h
      · rename_i d more hmore
        split_ifs at h with hquote
        · obtain ⟨⟨s, behind⟩, hs, rfl⟩ := map_eq_ok_iff.mp h
          rw [Bool.not_eq_true] at hfirst
          subst hfirst hcomma hquote
          exact .inr ⟨more, s, behind, rfl, hmore ▸ .next hskip, spells_of_readText hs⟩
        · cases h
        · cases h
    · cases h

/-- **The next key is found** where a member starts. -/
theorem nextKey_eq_inr_iff {first : Bool} {cs behind : List Char} {key : String} :
    nextKey first cs = .ok (.inr (key, behind)) ↔
      ∃ inner s, String.ofList s = key ∧ Starts first cs ('"' :: inner) ∧
        Spells inner s behind := by
  constructor
  · intro h
    obtain ⟨rest, hnext, -⟩ | ⟨inner, s, behind, hnext, hkey⟩ := nextKey_cases h
    · cases hnext
    · cases hnext
      exact ⟨inner, s, rfl, hkey⟩
  · rintro ⟨inner, s, rfl, hstart, hs⟩
    exact nextKey_of_starts hstart hs

/-- An object ends at its bracket, behind blanks. -/
theorem nextKey_eq_inl_iff {first : Bool} {cs rest : List Char} :
    nextKey first cs = .ok (.inl rest) ↔ skipBlanks cs = '\x7d' :: rest := by
  constructor
  · intro h
    obtain ⟨rest, hnext, hclose⟩ | ⟨inner, s, behind, hnext, -⟩ := nextKey_cases h
    · cases hnext
      exact hclose
    · cases hnext
  · intro hclose
    simp [nextKey, hclose]

/-- Where an item or a member starts is told by the blanks and the comma in front of it. -/
theorem starts_iff {first : Bool} {cs inner : List Char} :
    Starts first cs inner ↔ first = true ∧ skipBlanks cs = inner ∨
      first = false ∧ ∃ more, skipBlanks cs = ',' :: more ∧ skipBlanks more = inner := by
  constructor
  · rintro (_ | hcomma)
    · exact .inl ⟨rfl, rfl⟩
    · exact .inr ⟨rfl, _, hcomma, rfl⟩
  · rintro (⟨rfl, rfl⟩ | ⟨rfl, more, hcomma, rfl⟩)
    · exact .first
    · exact .next hcomma

/-- Where the next item or member starts is told by the blanks and the comma in front of it. -/
theorem starts_local (first : Bool) : Local (Starts first) :=
  ((Local.and fun _ => .blanks).or (Local.and fun _ => (Local.mark ',').comp .blanks)).congr
    fun _ _ => starts_iff

end AliasReport.Json
