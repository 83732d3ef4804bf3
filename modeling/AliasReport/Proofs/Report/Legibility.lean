import AliasReport.Proofs.Number.Decimal
import AliasReport.Proofs.Report.Hiding

/-! # Reports are told apart by their text

Indentation and the words at the beginning of lines say where each part of a report ends, so that
nothing of its allocations is lost in its text, as long as no name goes on over several lines.

* **`OneLine`**, **`shown_of_join`** — text without line feeds; lines are told apart.
* **`Legible`** — what is written can be told from what follows it.
* **`indent`**, **`lead`** — how deep a line stands, and the first character that is not blank.
* **`legible_resource`**, **`legible_regions`**, **`legible_allocation`** — the parts of a report.
* **`told_apart_by_text`** — reports with the same text have the same allocations. -/

namespace AliasReport

open AliasReport.Number

/-! ## Numbers and names -/

/-- A number is printed in decimal digits. -/
theorem toList_toString_nat (n : Nat) : (toString n).toList = decimal n :=
  String.toList_ofList

/-- A word is printed in decimal digits. -/
theorem toList_toString_word (n : UInt64) : (toString n).toList = decimal n.toNat :=
  String.toList_ofList

/-- A word of 32 bits is printed in decimal digits. -/
theorem toList_toString_half (n : UInt32) : (toString n).toList = decimal n.toNat :=
  String.toList_ofList

/-- Decimal digits tell the number. -/
theorem decimal_inj {n m : Nat} : decimal n = decimal m ↔ n = m :=
  (toDigits_injective (by decide) (by decide)).eq_iff

/-- A word can be told from its digits. -/
theorem toString_word_inj {n m : UInt64} : toString n = toString m ↔ n = m := by
  rw [← String.toList_inj, toList_toString_word, toList_toString_word, decimal_inj,
    UInt64.toNat_inj]

/-- A word of 32 bits can be told from its digits. -/
theorem toString_half_inj {n m : UInt32} : toString n = toString m ↔ n = m := by
  rw [← String.toList_inj, toList_toString_half, toList_toString_half, decimal_inj,
    UInt32.toNat_inj]

/-- An address can be told from how it is printed. -/
theorem address_inj {n m : UInt64} : address n = address m ↔ n = m := by
  refine ⟨fun h => ?_, congrArg address⟩
  have hdigits := (List.cons.inj (List.cons.inj (String.ofList_injective h)).2).2
  exact UInt64.toNat_inj.mp (toDigits_injective (by decide) (by decide) hdigits)

/-- **An offset or a size is told by its text**, in either base. -/
theorem measure_inj {hex : Bool} {n m : UInt64} : measure hex n = measure hex m ↔ n = m := by
  cases hex with
  | true => exact address_inj
  | false => exact toString_word_inj

/-- What stands in front of the first separator and what stands behind it are told apart. -/
theorem eq_of_append_cons {α : Type} {c : α} {s s' t t' : List α} (hs : c ∉ s) (hs' : c ∉ s')
    (h : s ++ c :: t = s' ++ c :: t') : s = s' ∧ t = t' := by
  induction s generalizing s' with
  | nil =>
    cases s' with
    | nil => exact ⟨rfl, (List.cons.inj h).2⟩
    | cons d s' => exact absurd ((List.cons.inj h).1 ▸ List.mem_cons_self) hs'
  | cons d s ih =>
    cases s' with
    | nil => exact absurd ((List.cons.inj h).1 ▸ List.mem_cons_self) hs
    | cons d' s' =>
      obtain ⟨rfl, htail⟩ := List.cons.inj h
      obtain ⟨rfl, rfl⟩ :=
        ih (List.not_mem_of_not_mem_cons hs) (List.not_mem_of_not_mem_cons hs') htail
      exact ⟨rfl, rfl⟩

/-- A character that is no digit does not occur in a number. -/
theorem notMem_decimal {c : Char} (hc : c.isDigit = false) (n : Nat) : c ∉ decimal n := by
  intro h
  rw [isDigit_of_mem_decimal h] at hc
  cases hc

/-- A pair stands in parentheses, with a comma between its numbers. -/
theorem toList_pair (x y : UInt32) : (pair x y).toList =
    '(' :: (decimal x.toNat ++ ',' :: ' ' :: (decimal y.toNat ++ [')'])) := by
  simp [pair, toList_toString_half]

/-- Both numbers can be told from a pair. -/
theorem pair_inj {x y x' y' : UInt32} : pair x y = pair x' y' ↔ x = x' ∧ y = y' := by
  refine ⟨fun h => ?_, fun ⟨hx, hy⟩ => hx ▸ hy ▸ rfl⟩
  rw [← String.toList_inj, toList_pair, toList_pair] at h
  have hcomma : ∀ n, ',' ∉ decimal n := notMem_decimal rfl
  obtain ⟨hx, htail⟩ := eq_of_append_cons (hcomma _) (hcomma _) (List.cons.inj h).2
  have hy := List.append_cancel_right (List.cons.inj htail).2
  exact ⟨UInt32.toNat_inj.mp (decimal_inj.mp hx), UInt32.toNat_inj.mp (decimal_inj.mp hy)⟩

/-- There are no commas in the name of an aspect. -/
theorem Aspect.comma_notMem_label (a : Aspect) : ',' ∉ a.label.toList := by
  cases a <;> decide

/-- The name of an aspect is not empty. -/
theorem Aspect.label_ne_empty (a : Aspect) : a.label ≠ "" := by
  cases a <;> decide

/-- An aspect can be told from its name. -/
theorem Aspect.label_inj {a b : Aspect} : a.label = b.label ↔ a = b := by
  cases a <;> cases b <;> decide

/-- A single aspect is listed by its name. -/
theorem aspectList_singleton (a : Aspect) : aspectList [a] = a.label := rfl

/-- Aspects are listed with commas between their names. -/
theorem toList_aspectList_cons_cons (a b : Aspect) (as : List Aspect) :
    (aspectList (a :: b :: as)).toList =
      a.label.toList ++ ',' :: ' ' :: (aspectList (b :: as)).toList := by
  simp [aspectList, String.toList_intercalate]

/-- Several aspects are told from one: only they have a comma. -/
theorem aspectList_cons_cons_ne (a b c : Aspect) (as : List Aspect) :
    aspectList (a :: b :: as) ≠ aspectList [c] := by
  intro h
  rw [← String.toList_inj, toList_aspectList_cons_cons, aspectList_singleton] at h
  have hcomma : ',' ∈ c.label.toList := h ▸ List.mem_append_right _ List.mem_cons_self
  exact c.comma_notMem_label hcomma

/-- No aspects are told from some: a name is not empty. -/
theorem aspectList_cons_ne_nil (a : Aspect) (as : List Aspect) :
    aspectList (a :: as) ≠ aspectList [] := by
  cases as with
  | nil => exact a.label_ne_empty
  | cons b as =>
    intro h
    rw [← String.toList_inj, toList_aspectList_cons_cons] at h
    exact List.append_ne_nil_of_right_ne_nil _ (List.cons_ne_nil _ _) h

/-- **Aspects are told by their names** with commas between them. -/
theorem aspectList_injective : Function.Injective aspectList := by
  intro as
  induction as with
  | nil =>
    intro as' h
    cases as' with
    | nil => rfl
    | cons a' as' => exact absurd h.symm (aspectList_cons_ne_nil a' as')
  | cons a as ih =>
    intro as' h
    cases as' with
    | nil => exact absurd h (aspectList_cons_ne_nil a as)
    | cons a' as' =>
      -- Whether a comma follows the first name tells whether it is the last one.
      cases as with
      | nil =>
        cases as' with
        | nil => exact congrArg ([·]) (Aspect.label_inj.mp h)
        | cons b' as' => exact absurd h.symm (aspectList_cons_cons_ne a' b' a as')
      | cons b as =>
        cases as' with
        | nil => exact absurd h (aspectList_cons_cons_ne a b a' as)
        | cons b' as' =>
          rw [← String.toList_inj, toList_aspectList_cons_cons, toList_aspectList_cons_cons] at h
          obtain ⟨ha, htail⟩ := eq_of_append_cons a.comma_notMem_label a'.comma_notMem_label h
          have hlist := String.toList_inj.mp (List.cons.inj htail).2
          rw [Aspect.label_inj.mp (String.toList_inj.mp ha), ih hlist]

/-! ## Lines -/

/-- Text without line feeds. -/
def OneLine (s : String) : Prop := '\n' ∉ s.toList

instance (s : String) : Decidable (OneLine s) := inferInstanceAs (Decidable ('\n' ∉ s.toList))

/-- Two texts stand on one line together if each of them does. -/
@[simp] theorem oneLine_append {s t : String} : OneLine (s ++ t) ↔ OneLine s ∧ OneLine t := by
  simp [OneLine, not_or]

/-- A line as it stands between line feeds. -/
def Line.shown (l : Line) : List Char :=
  List.replicate (4 * l.depth) ' ' ++ l.text.toList

/-- A line is what is shown of it and a line feed. -/
theorem Line.chars_eq (l : Line) : l.chars = l.shown ++ ['\n'] := rfl

/-- A line of a given depth can be told from what is shown of it. -/
@[simp] theorem Line.shown_inj {depth : Nat} {s t : String} :
    (⟨depth, s⟩ : Line).shown = (⟨depth, t⟩ : Line).shown ↔ s = t := by
  rw [shown, shown, List.append_cancel_left_eq, String.toList_inj]

/-- What is shown of a line stands on one line if its text does. -/
theorem Line.notMem_shown {l : Line} (h : OneLine l.text) : '\n' ∉ l.shown := by
  have hblank : '\n' ∉ List.replicate (4 * l.depth) ' ' := fun h =>
    absurd (List.eq_of_mem_replicate h) (by decide)
  exact List.not_mem_append hblank h

/-- **Lines are told apart by the line feeds** between them. -/
theorem shown_of_join {ls ls' : List Line} (hls : ∀ l ∈ ls, OneLine l.text)
    (hls' : ∀ l ∈ ls', OneLine l.text) (h : Line.join ls = Line.join ls') :
    ls.map Line.shown = ls'.map Line.shown := by
  have hchars := String.ofList_injective h
  clear h
  -- A line ends at the first line feed, since it holds none.
  induction ls generalizing ls' with
  | nil =>
    cases ls' with
    | nil => rfl
    | cons l' ls' => simp [Line.chars] at hchars
  | cons l ls ih =>
    cases ls' with
    | nil => simp [Line.chars] at hchars
    | cons l' ls' =>
      obtain ⟨hl, hls⟩ := List.forall_mem_cons.mp hls
      obtain ⟨hl', hls'⟩ := List.forall_mem_cons.mp hls'
      simp only [List.flatMap_cons, Line.chars_eq, List.append_assoc, List.singleton_append]
        at hchars
      obtain ⟨hhead, htail⟩ :=
        eq_of_append_cons (Line.notMem_shown hl) (Line.notMem_shown hl') hchars
      rw [List.map_cons, List.map_cons, hhead, ih hls hls' htail]

/-! ## Parts and what follows them -/

section

variable {α β : Type}

/-- **What is written can be told from what follows it.** -/
def Legible (write : α → List β) (follows : List β → Prop) : Prop :=
  ∀ ⦃a a' rest rest'⦄, follows rest → follows rest' → write a ++ rest = write a' ++ rest' →
    a = a' ∧ rest = rest'

/-- **Several parts one after the other** can be told from what follows them, if a part never looks
like what may follow the last one. -/
theorem Legible.flatMap {write : α → List β} {follows stops : List β → Prop}
    (h : Legible write follows) (hstart : ∀ a rest, follows (write a ++ rest))
    (hstop : ∀ rest, stops rest → follows rest) (hapart : ∀ a rest, ¬stops (write a ++ rest)) :
    Legible (fun as : List α => as.flatMap write) stops := by
  -- Behind a part stands the next one or what follows the last one.
  have hfollows : ∀ (as : List α) rest, stops rest → follows (as.flatMap write ++ rest) := by
    intro as rest hrest
    cases as with
    | nil => exact hstop rest hrest
    | cons a as =>
      rw [List.flatMap_cons, List.append_assoc]
      exact hstart a _
  intro as
  induction as with
  | nil =>
    intro as' rest rest' hrest hrest' heq
    cases as' with
    | nil => exact ⟨rfl, heq⟩
    | cons a' as' =>
      simp only [List.flatMap_nil, List.nil_append, List.flatMap_cons, List.append_assoc] at heq
      exact absurd (heq ▸ hrest) (hapart a' _)
  | cons a as ih =>
    intro as' rest rest' hrest hrest' heq
    cases as' with
    | nil =>
      simp only [List.flatMap_nil, List.nil_append, List.flatMap_cons, List.append_assoc] at heq
      exact absurd (heq ▸ hrest') (hapart a _)
    | cons a' as' =>
      simp only [List.flatMap_cons, List.append_assoc] at heq
      obtain ⟨rfl, htail⟩ := h (hfollows as rest hrest) (hfollows as' rest' hrest') heq
      obtain ⟨rfl, hrests⟩ := ih hrest hrest' htail
      exact ⟨rfl, hrests⟩

/-- Several single lines can be told from what follows them. -/
theorem Legible.map {write : α → β} (h : Function.Injective write) {stops : List β → Prop}
    (hapart : ∀ a rest, ¬stops (write a :: rest)) :
    Legible (fun as : List α => as.map write) stops := by
  have hline : Legible (fun a => [write a]) fun _ => True := by
    intro a a' rest rest' _ _ heq
    obtain ⟨ha, hrest⟩ := List.cons.inj heq
    exact ⟨h ha, hrest⟩
  intro as as' rest rest' hrest hrest' heq
  refine hline.flatMap (fun _ _ => trivial) (fun _ _ => trivial) hapart hrest hrest' ?_
  simpa only [List.map_eq_flatMap] using heq

end

/-! ## Where lines stand -/

/-- The number of blanks that a line starts with. -/
def indent (cs : List Char) : Nat := (cs.takeWhile (· = ' ')).length

/-- The first character of a line that is not blank. -/
def lead (cs : List Char) : Option Char := (cs.dropWhile (· = ' ')).head?

/-- The first line, if there is one, stands less deep than a depth. -/
def Outdented (depth : Nat) (ls : List (List Char)) : Prop :=
  ∀ l ∈ ls.head?, indent l < 4 * depth

/-- The first line, if there is one, starts with none of some marks. -/
def Unmarked (marks : List Char) (ls : List (List Char)) : Prop :=
  ∀ l ∈ ls.head?, ∀ c ∈ lead l, c ∉ marks

/-- The text of a line starts with a character that is not blank. -/
def Line.StartsWith (l : Line) (c : Char) : Prop :=
  l.text.toList.head? = some c ∧ c ≠ ' '

/-- Where no line follows, none stands too deep. -/
theorem outdented_nil (depth : Nat) : Outdented depth [] := nofun

/-- A line that stands less deep than a depth stands less deep than a larger one. -/
theorem Outdented.mono {depth depth' : Nat} {ls : List (List Char)} (h : Outdented depth ls)
    (hle : depth ≤ depth') : Outdented depth' ls :=
  fun l hl => (h l hl).trans_le (by omega)

/-- A line does not stand less deep than its depth. -/
theorem not_outdented_of_le {depth : Nat} {l : Line} (hle : depth ≤ l.depth)
    (rest : List (List Char)) : ¬Outdented depth (l.shown :: rest) := by
  intro h
  have hlt := h _ rfl
  rw [Line.shown, indent, List.takeWhile_append_of_pos (by simp [List.mem_replicate]),
    List.length_append, List.length_replicate] at hlt
  omega

namespace Line.StartsWith

variable {l : Line} {c : Char} (h : l.StartsWith c)

include h

/-- A line is indented by four blanks for each level of its depth. -/
theorem indent_shown : indent l.shown = 4 * l.depth := by
  obtain ⟨tail, htail⟩ := List.head?_eq_some_iff.mp h.1
  rw [shown, indent, List.takeWhile_append_of_pos (by simp [List.mem_replicate]), htail,
    List.takeWhile_cons_of_neg (by simp [h.2])]
  simp

/-- What is shown of a line starts with the first character of its text, behind the blanks. -/
theorem lead_shown : lead l.shown = some c := by
  obtain ⟨tail, htail⟩ := List.head?_eq_some_iff.mp h.1
  rw [shown, lead, List.dropWhile_append_of_pos (by simp [List.mem_replicate]), htail,
    List.dropWhile_cons_of_neg (by simp [h.2])]
  rfl

/-- A line of smaller depth stands less deep, whatever lines follow it. -/
theorem outdented {depth : Nat} (hlt : l.depth < depth) (rest : List (List Char)) :
    Outdented depth (l.shown :: rest) := by
  rintro _ ⟨rfl⟩
  rw [h.indent_shown]
  omega

/-- A line that starts with another character is not marked. -/
theorem unmarked {marks : List Char} (hc : c ∉ marks) (rest : List (List Char)) :
    Unmarked marks (l.shown :: rest) := by
  rintro _ ⟨rfl⟩ d hd
  rw [h.lead_shown] at hd
  obtain rfl := Option.some.inj hd
  exact hc

/-- A line that starts with one of the marks is marked. -/
theorem not_unmarked {marks : List Char} (hc : c ∈ marks) (rest : List (List Char)) :
    ¬Unmarked marks (l.shown :: rest) :=
  fun hrest => hrest _ rfl _ h.lead_shown hc

end Line.StartsWith

/-- A line that starts with a number starts with a digit. -/
theorem Line.exists_startsWith_digit {l : Line} {n : Nat} {tail : List Char}
    (h : l.text.toList = decimal n ++ tail) : ∃ c, c.isDigit = true ∧ l.StartsWith c := by
  obtain ⟨c, ds, hdecimal⟩ := List.exists_cons_of_ne_nil (decimal_ne_nil n)
  have hc : c.isDigit = true := isDigit_of_mem_decimal (hdecimal ▸ List.mem_cons_self)
  refine ⟨c, hc, by rw [h, hdecimal]; rfl, ?_⟩
  rintro rfl
  exact absurd hc (by decide)

/-- A digit is none of some marks that are no digits. -/
theorem notMem_of_isDigit {marks : List Char} (hmarks : ∀ c ∈ marks, c.isDigit = false) {c : Char}
    (hc : c.isDigit = true) : c ∉ marks := by
  intro h
  rw [hmarks c h] at hc
  cases hc

/-! ## Resources -/

/-- The characters that the names of kinds start with. -/
def kindMarks : List Char := ['B', 'I', 'S']

/-- There are no colons in the name of a kind. -/
theorem ResourceKind.colon_notMem_label (k : ResourceKind) : ':' ∉ k.label.toList := by
  cases k <;> simp [label]

/-- The name of a kind starts with one of its marks, which is not blank. -/
theorem ResourceKind.exists_head_label (k : ResourceKind) :
    ∃ c ∈ kindMarks, k.label.toList.head? = some c ∧ c ≠ ' ' := by
  cases k <;> simp [label, kindMarks]

/-- The kind and the name of a resource are told apart by the first colon. -/
theorem heading_inj {k k' : ResourceKind} {s s' : String} :
    k.label ++ ": " ++ s = k'.label ++ ": " ++ s' ↔ k.label = k'.label ∧ s = s' := by
  refine ⟨fun h => ?_, fun ⟨hk, hs⟩ => hk ▸ hs ▸ rfl⟩
  have hchars := congrArg String.toList h
  simp only [String.toList_append, List.append_assoc] at hchars
  obtain ⟨hk, htail⟩ := eq_of_append_cons k.colon_notMem_label k'.colon_notMem_label hchars
  exact ⟨String.toList_inj.mp hk, String.toList_inj.mp (List.cons.inj htail).2⟩

/-- What is particular to a kind can be told from what follows it once the kind is known. -/
theorem ResourceKind.eq_of_lines {hex : Bool} {k k' : ResourceKind} (hlabel : k.label = k'.label)
    {rest rest' : List (List Char)}
    (h : (k.lines hex).map Line.shown ++ rest = (k'.lines hex).map Line.shown ++ rest') :
    k = k' ∧ rest = rest' := by
  -- Different kinds have different labels.
  cases k <;> cases k' <;> simp [label] at hlabel
  all_goals
    simpa only [lines, List.map_cons, List.map_nil, List.cons_append, List.nil_append,
      List.cons.injEq, Line.shown_inj, String.append_right_inj, pair_inj, measure_inj,
      toString_half_inj, aspectList_injective.eq_iff, sparseImageBlock.injEq,
      sparseImageMetadata.injEq, sparseImageMipTail.injEq, sparseOpaqueImageBlock.injEq,
      sparseBufferBlock.injEq, and_assoc, true_and] using h

/-- **A resource can be told from what follows it.** -/
theorem legible_resource (hex : Bool) :
    Legible (fun r : Resource => (r.lines hex).map Line.shown) fun _ => True := by
  rintro ⟨handle, name, offset, size, kind⟩ ⟨handle', name', offset', size', kind'⟩ rest rest' - - h
  simp only [Resource.lines, List.map_cons, List.cons_append, List.cons.injEq, Line.shown_inj,
    heading_inj, String.append_right_inj, toString_word_inj, measure_inj] at h
  obtain ⟨⟨hlabel, rfl⟩, rfl, rfl, rfl, hkind⟩ := h
  obtain ⟨rfl, hrest⟩ := ResourceKind.eq_of_lines hlabel hkind
  exact ⟨rfl, hrest⟩

/-- Several resources can be told from a line that starts as no kind of resource does. -/
theorem legible_resources (hex : Bool) :
    Legible (fun rs : List Resource => rs.flatMap fun r => (r.lines hex).map Line.shown)
      (Unmarked kindMarks) := by
  refine (legible_resource hex).flatMap (fun _ _ => trivial) (fun _ _ => trivial) fun r rest => ?_
  obtain ⟨c, hmark, hhead, hblank⟩ := r.kind.exists_head_label
  have hline : (⟨1, r.kind.label ++ ": " ++ r.name⟩ : Line).StartsWith c := by
    refine ⟨?_, hblank⟩
    simp [String.toList_append, List.head?_append, hhead]
  exact hline.not_unmarked hmark _

/-! ## Regions -/

/-- The line of a region starts with a digit of its index. -/
theorem Region.startsWith_index (index : Nat) :
    ∃ c, c.isDigit = true ∧ (⟨1, toString index ++ ":"⟩ : Line).StartsWith c := by
  have htext : (toString index ++ ":").toList = decimal index ++ [':'] := by
    rw [String.toList_append, toList_toString_nat]
    rfl
  exact Line.exists_startsWith_digit htext

/-- Behind a region stands a line that is less deep than its sharers. -/
theorem outdented_regionLines {hex : Bool} {rest : List (List Char)} (hrest : Outdented 1 rest)
    (index : Nat) (rs : List Region) :
    Outdented 3 ((regionLines hex index rs).map Line.shown ++ rest) := by
  cases rs with
  | nil => exact hrest.mono (by decide)
  | cons r rs =>
    obtain ⟨c, -, hc⟩ := Region.startsWith_index index
    exact hc.outdented Nat.one_lt_ofNat _

/-- The sharers of a region can be told from what follows them if that stands less deep. -/
theorem legible_sharers :
    Legible (fun ids : List UInt64 => ids.map fun id => (⟨3, toString id⟩ : Line).shown)
      (Outdented 3) := by
  refine Legible.map (fun id id' h => ?_) fun id rest => not_outdented_of_le le_rfl rest
  exact toString_word_inj.mp (Line.shown_inj.mp h)

/-- **Several regions can be told from what follows them.** -/
theorem legible_regions (hex : Bool) (index : Nat) :
    Legible (fun rs => (regionLines hex index rs).map Line.shown) (Outdented 1) := by
  intro rs
  -- The heading of a region is its index, which is the same on both sides at each step.
  induction rs generalizing index with
  | nil =>
    intro rs' rest rest' hrest hrest' h
    cases rs' with
    | nil => exact ⟨rfl, h⟩
    | cons r' rs' =>
      obtain rfl : rest = _ := h
      exact absurd hrest (not_outdented_of_le le_rfl _)
  | cons r rs ih =>
    intro rs' rest rest' hrest hrest' h
    cases rs' with
    | nil =>
      obtain rfl : _ = rest' := h
      exact absurd hrest' (not_outdented_of_le le_rfl _)
    | cons r' rs' =>
      obtain ⟨offset, size, sharers⟩ := r
      obtain ⟨offset', size', sharers'⟩ := r'
      simp only [regionLines, List.map_cons, List.cons_append, List.cons.injEq, Line.shown_inj,
        String.append_right_inj, measure_inj, true_and, List.map_append, List.map_map,
        List.append_assoc] at h
      obtain ⟨rfl, rfl, h⟩ := h
      obtain ⟨rfl, htail⟩ := legible_sharers (outdented_regionLines hrest _ rs)
        (outdented_regionLines hrest' _ rs') h
      obtain ⟨rfl, hrests⟩ := ih (index + 1) hrest hrest' htail
      exact ⟨rfl, hrests⟩

/-- The first of the lines on the regions of an allocation starts with no mark of another part. -/
theorem exists_startsWith_aliasLines (hex : Bool) (rs : List Region) :
    ∃ l ls c, aliasLines hex rs = l :: ls ∧ l.depth = 1 ∧ l.StartsWith c ∧
      (c.isDigit = true ∨ rs = [] ∧ c = 'N') := by
  cases rs with
  | nil => exact ⟨_, _, 'N', rfl, rfl, ⟨rfl, by decide⟩, .inr ⟨rfl, rfl⟩⟩
  | cons r rs =>
    obtain ⟨c, hdigit, hc⟩ := Line.exists_startsWith_digit
      (l := ⟨1, toString (r :: rs).length ++ " aliased regions:"⟩) (n := (r :: rs).length)
      (by rw [String.toList_append, toList_toString_nat])
    exact ⟨_, _, c, rfl, rfl, hc, .inl hdigit⟩

/-- An allocation without regions is told from one with regions. -/
theorem aliasLines_nil_ne {hex : Bool} {r : Region} {rs : List Region}
    {rest rest' : List (List Char)} :
    (aliasLines hex []).map Line.shown ++ rest ≠
      (aliasLines hex (r :: rs)).map Line.shown ++ rest' := by
  intro h
  obtain ⟨l, ls, c, hlines, -, hc, hdigit | ⟨hnil, -⟩⟩ := exists_startsWith_aliasLines hex (r :: rs)
  · have hnone : (⟨1, "No aliased regions"⟩ : Line).StartsWith 'N' := ⟨rfl, by decide⟩
    rw [hlines] at h
    have hlead := congrArg lead (List.cons.inj h).1
    rw [hnone.lead_shown, hc.lead_shown] at hlead
    obtain rfl := Option.some.inj hlead
    exact absurd hdigit (by decide)
  · cases hnil

/-- **The regions of an allocation**, under the line that counts them, can be told from what follows
them. -/
theorem legible_aliasLines (hex : Bool) :
    Legible (fun rs => (aliasLines hex rs).map Line.shown) (Outdented 1) := by
  intro rs rs' rest rest' hrest hrest' h
  cases rs with
  | nil =>
    cases rs' with
    | nil => exact ⟨rfl, (List.cons.inj h).2⟩
    | cons r' rs' => exact absurd h aliasLines_nil_ne
  | cons r rs =>
    cases rs' with
    | nil => exact absurd h.symm aliasLines_nil_ne
    | cons r' rs' => exact legible_regions hex 0 hrest hrest' (List.cons.inj h).2

/-! ## Allocations -/

/-- Flags can be told from a line that stands less deep and does not announce flags. -/
theorem legible_flagLines :
    Legible (fun flags => (flagLines flags).map Line.shown)
      fun rest => Outdented 2 rest ∧ Unmarked ['F'] rest := by
  have hheading : (⟨1, "Flags:"⟩ : Line).StartsWith 'F' := ⟨rfl, by decide⟩
  have hflags : Legible (fun flags : List String => flags.map fun flag =>
      (⟨2, flag⟩ : Line).shown) (Outdented 2) :=
    Legible.map (fun _ _ h => Line.shown_inj.mp h) fun _ rest => not_outdented_of_le le_rfl rest
  intro flags flags' rest rest' hrest hrest' h
  cases flags with
  | nil =>
    cases flags' with
    | nil => exact ⟨rfl, h⟩
    | cons flag' flags' =>
      -- What follows does not announce flags, as the other side does.
      obtain rfl : rest = _ := h
      exact absurd hrest.2 (hheading.not_unmarked (by decide) _)
  | cons flag flags =>
    cases flags' with
    | nil =>
      obtain rfl : _ = rest' := h
      exact absurd hrest'.2 (hheading.not_unmarked (by decide) _)
    | cons flag' flags' =>
      have htail := (List.cons.inj h).2
      rw [List.map_map, List.map_map] at htail
      exact hflags hrest.1 hrest'.1 htail

/-- The host mapping can be told from a line that does not announce one. -/
theorem legible_mappingLines (hex : Bool) :
    Legible (fun m => (mappingLines hex m).map Line.shown) (Unmarked ['M']) := by
  have hheading : ∀ s, (⟨1, "Mapped into host memory at " ++ s⟩ : Line).StartsWith 'M' :=
    fun s => ⟨by simp, by decide⟩
  intro m m' rest rest' hrest hrest' h
  cases m with
  | none =>
    cases m' with
    | none => exact ⟨rfl, h⟩
    | some m' =>
      -- What follows does not announce a mapping, as the other side does.
      obtain rfl : rest = _ := h
      exact absurd hrest ((hheading _).not_unmarked (by decide) _)
  | some m =>
    cases m' with
    | none =>
      obtain rfl : _ = rest' := h
      exact absurd hrest' ((hheading _).not_unmarked (by decide) _)
    | some m' =>
      obtain ⟨mappedAddress, offset, size⟩ := m
      obtain ⟨mappedAddress', offset', size'⟩ := m'
      simp only [mappingLines, List.map_cons, List.map_nil, List.cons_append, List.nil_append,
        List.cons.injEq, Line.shown_inj, String.append_right_inj, address_inj, measure_inj] at h
      obtain ⟨rfl, rfl, rfl, hrests⟩ := h
      exact ⟨rfl, hrests⟩

/-- The line that counts bindings starts with a digit. -/
theorem exists_startsWith_count (n : UInt64) :
    ∃ c, c.isDigit = true ∧ (⟨1, toString n ++ " bindings:"⟩ : Line).StartsWith c :=
  Line.exists_startsWith_digit (by rw [String.toList_append, toList_toString_word])

/-- Behind the flags of an allocation stands its host mapping or the number of its bindings. -/
theorem marks_behind_flags (hex : Bool) (m : Option HostMapping) (n : UInt64)
    (rest : List (List Char)) :
    let ls := (mappingLines hex m).map Line.shown ++
      (⟨1, toString n ++ " bindings:"⟩ : Line).shown :: rest
    Outdented 2 ls ∧ Unmarked ['F'] ls := by
  cases m with
  | none =>
    obtain ⟨c, hdigit, hc⟩ := exists_startsWith_count n
    have hmark : c ∉ ['F'] := notMem_of_isDigit (by simp) hdigit
    exact ⟨hc.outdented Nat.one_lt_two _, hc.unmarked hmark _⟩
  | some m =>
    have hheading : (⟨1, "Mapped into host memory at " ++ address m.mappedAddress⟩ :
        Line).StartsWith 'M' := ⟨by simp, by decide⟩
    exact ⟨hheading.outdented Nat.one_lt_two _, hheading.unmarked (by decide) _⟩

/-- Behind the bindings of an allocation stand its regions. -/
theorem unmarked_aliasLines (hex : Bool) (rs : List Region) (rest : List (List Char)) :
    Unmarked kindMarks ((aliasLines hex rs).map Line.shown ++ rest) := by
  obtain ⟨l, ls, c, hlines, -, hc, hmark⟩ := exists_startsWith_aliasLines hex rs
  rw [hlines]
  refine hc.unmarked ?_ _
  obtain hdigit | ⟨-, rfl⟩ := hmark
  · exact notMem_of_isDigit (by simp [kindMarks]) hdigit
  · decide

/-- **An allocation can be told from what follows it.** -/
theorem legible_allocation (hex : Bool) :
    Legible (fun a : AllocationReport => (a.lines ⟨true, hex⟩).map Line.shown) (Outdented 1) := by
  rintro ⟨handle, name, device, memoryType, size, flags, mapping, count, bindings, aliases⟩
    ⟨handle', name', device', memoryType', size', flags', mapping', count', bindings', aliases'⟩
    rest rest' hrest hrest' h
  simp only [AllocationReport.lines, AllocationReport.headLines, bindingLines, if_true,
    List.map_append, List.map_cons, List.cons_append, List.append_assoc, List.cons.injEq,
    Line.shown_inj, String.append_right_inj, toString_word_inj, toString_half_inj, measure_inj,
    List.map_flatMap] at h
  -- Each equation is named for the part that it starts with.
  obtain ⟨rfl, rfl, rfl, rfl, rfl, hflags⟩ := h
  obtain ⟨rfl, hmapping⟩ := legible_flagLines (marks_behind_flags hex _ _ _)
    (marks_behind_flags hex _ _ _) hflags
  obtain ⟨c, hdigit, hc⟩ := exists_startsWith_count count
  obtain ⟨c', hdigit', hc'⟩ := exists_startsWith_count count'
  obtain ⟨rfl, hcount⟩ := legible_mappingLines hex
    (hc.unmarked (notMem_of_isDigit (by simp) hdigit) _)
    (hc'.unmarked (notMem_of_isDigit (by simp) hdigit') _) hmapping
  simp only [List.cons.injEq, Line.shown_inj, String.append_left_inj, toString_word_inj] at hcount
  obtain ⟨rfl, hbindings⟩ := hcount
  obtain ⟨rfl, haliases⟩ := legible_resources hex (unmarked_aliasLines hex _ _)
    (unmarked_aliasLines hex _ _) hbindings
  obtain ⟨rfl, hrests⟩ := legible_aliasLines hex hrest hrest' haliases
  exact ⟨rfl, hrests⟩

/-- The handle and the name of an allocation are told apart by the first blank. -/
theorem allocation_heading_inj {n n' : UInt64} {s s' : String}
    (h : "Allocation " ++ toString n ++ " (" ++ s ++ ")" =
      "Allocation " ++ toString n' ++ " (" ++ s' ++ ")") : n = n' ∧ s = s' := by
  rw [String.append_left_inj] at h
  simp only [String.append_assoc, String.append_right_inj] at h
  have hchars := congrArg String.toList h
  simp only [String.toList_append, toList_toString_word] at hchars
  -- A number has no blank, so the first one ends the handle.
  have hblank : ∀ n, ' ' ∉ decimal n := notMem_decimal rfl
  obtain ⟨hn, htail⟩ := eq_of_append_cons (hblank _) (hblank _) hchars
  have hs := String.toList_inj.mp (List.cons.inj htail).2
  exact ⟨UInt64.toNat_inj.mp (decimal_inj.mp hn), hs⟩

/-- **The regions of an allocation under its name** can be told from what follows them. -/
theorem legible_aliases (hex : Bool) :
    Legible (fun a : AllocationAliases => (a.lines hex).map Line.shown) (Outdented 1) := by
  rintro ⟨handle, name, aliases⟩ ⟨handle', name', aliases'⟩ rest rest' hrest hrest' h
  simp only [AllocationAliases.lines, List.map_cons, List.cons_append, List.cons.injEq,
    Line.shown_inj] at h
  obtain ⟨hheading, h⟩ := h
  obtain ⟨rfl, rfl⟩ := allocation_heading_inj hheading
  obtain ⟨rfl, hrests⟩ := legible_aliasLines hex hrest hrest' h
  exact ⟨rfl, hrests⟩

/-- Blocks that each start at the left margin are told apart up to the end of a text. -/
theorem eq_of_flatMap_blocks {α : Type} {write : α → List (List Char)}
    (h : Legible write (Outdented 1)) (first : α → Line)
    (hfirst : ∀ a, ∃ tail c, write a = (first a).shown :: tail ∧ (first a).depth = 0 ∧
      (first a).StartsWith c) {as as' : List α}
    (heq : as.flatMap write = as'.flatMap write) : as = as' := by
  have hstart : ∀ a rest, Outdented 1 (write a ++ rest) := by
    intro a rest
    obtain ⟨tail, c, hwrite, hdepth, hc⟩ := hfirst a
    rw [hwrite]
    exact hc.outdented (by omega) _
  have hapart : ∀ a rest, ¬Outdented 0 (write a ++ rest) := by
    intro a rest
    obtain ⟨tail, -, hwrite, -, -⟩ := hfirst a
    rw [hwrite]
    exact not_outdented_of_le (Nat.zero_le _) _
  have hblocks : Legible (fun as : List α => as.flatMap write) (Outdented 0) :=
    h.flatMap hstart (fun rest hrest => hrest.mono (Nat.zero_le 1)) hapart
  have hend : as.flatMap write ++ [] = as'.flatMap write ++ [] := by rw [heq]
  exact (hblocks (outdented_nil 0) (outdented_nil 0) hend).1

/-! ## Reports -/

/-- A word stands on one line. -/
@[simp] theorem oneLine_word (n : UInt64) : OneLine (toString n) := by
  rw [OneLine, toList_toString_word]
  exact notMem_decimal rfl _

/-- A word of 32 bits stands on one line. -/
@[simp] theorem oneLine_half (n : UInt32) : OneLine (toString n) := by
  rw [OneLine, toList_toString_half]
  exact notMem_decimal rfl _

/-- A number stands on one line. -/
@[simp] theorem oneLine_nat (n : Nat) : OneLine (toString n) := by
  rw [OneLine, toList_toString_nat]
  exact notMem_decimal rfl _

/-- Hexadecimal digits stand on one line. -/
theorem digitChar_ne_lineFeed : ∀ d < 16, Nat.digitChar d ≠ '\n' := by
  decide

/-- An address stands on one line. -/
@[simp] theorem oneLine_address (n : UInt64) : OneLine (address n) := by
  intro h
  rw [address, String.toList_ofList, hexadecimal] at h
  have hdigits : '\n' ∉ Nat.toDigits 16 n.toNat := fun h => by
    obtain ⟨d, hd, hc⟩ := exists_digitChar_of_mem_toDigits (by decide) h
    exact digitChar_ne_lineFeed d hd hc.symm
  simp [hdigits] at h

/-- A measure stands on one line, in either base. -/
@[simp] theorem oneLine_measure (hex : Bool) (n : UInt64) : OneLine (measure hex n) := by
  cases hex with
  | true => exact oneLine_address n
  | false => exact oneLine_word n

/-- The name of an aspect stands on one line. -/
theorem Aspect.oneLine_label (a : Aspect) : OneLine a.label := by
  cases a <;> decide

/-- A list of aspects stands on one line. -/
@[simp] theorem oneLine_aspectList (as : List Aspect) : OneLine (aspectList as) := by
  induction as with
  | nil => decide
  | cons a as ih =>
    cases as with
    | nil => exact a.oneLine_label
    | cons b as =>
      rw [OneLine, toList_aspectList_cons_cons]
      refine List.not_mem_append a.oneLine_label fun h => ?_
      simp only [List.mem_cons, Char.reduceEq, false_or] at h
      exact ih h

/-- The names of an allocation, of its bindings and of its flags stand on one line. -/
structure AllocationReport.OneLineNames (a : AllocationReport) : Prop where
  name : OneLine a.name
  flags : ∀ flag ∈ a.flags, OneLine flag
  bindings : ∀ r ∈ a.bindings, OneLine r.name

/-- The lines on a resource end where its name does. -/
theorem oneLine_resource (hex : Bool) {r : Resource} (hname : OneLine r.name) :
    ∀ l ∈ r.lines hex, OneLine l.text := by
  obtain ⟨handle, name, offset, size, kind⟩ := r
  replace hname : OneLine name := hname
  cases kind <;>
    simp [Resource.lines, ResourceKind.lines, ResourceKind.label, pair, hname] <;> decide

/-- Every line of the regions is a single one. -/
theorem oneLine_regionLines (hex : Bool) (index : Nat) (rs : List Region) :
    ∀ l ∈ regionLines hex index rs, OneLine l.text := by
  induction rs generalizing index with
  | nil => exact nofun
  | cons r rs ih =>
    simp only [regionLines, List.cons_append, List.forall_mem_cons, List.forall_mem_append,
      List.forall_mem_map, oneLine_append, oneLine_nat, oneLine_measure, oneLine_word]
    exact ⟨by decide, by decide, by decide, by decide, fun _ _ => trivial, ih (index + 1)⟩

/-- Every line about aliases is a single one. -/
theorem oneLine_aliasLines (hex : Bool) (rs : List Region) :
    ∀ l ∈ aliasLines hex rs, OneLine l.text := by
  cases rs with
  | nil =>
    rintro l hl
    obtain rfl := List.mem_singleton.mp hl
    decide
  | cons r rs =>
    refine List.forall_mem_cons.mpr ⟨?_, oneLine_regionLines hex 0 (r :: rs)⟩
    exact oneLine_append.mpr ⟨oneLine_nat _, by decide⟩

/-- The lines on an allocation end where its names do. -/
theorem oneLine_allocation (how : Rendering) {a : AllocationReport} (h : a.OneLineNames) :
    ∀ l ∈ a.lines how, OneLine l.text := by
  have hflags : ∀ l ∈ flagLines a.flags, OneLine l.text := by
    unfold flagLines
    split
    · exact nofun
    · refine List.forall_mem_cons.mpr ⟨by decide, List.forall_mem_map.mpr h.flags⟩
  have hmapping : ∀ l ∈ mappingLines how.hexOffsets a.mapping, OneLine l.text := by
    cases a.mapping with
    | none => exact nofun
    | some m => simp [mappingLines]; decide
  have hbindings : ∀ l ∈ bindingLines how a, OneLine l.text := by
    unfold bindingLines
    split
    · refine List.forall_mem_cons.mpr ⟨oneLine_append.mpr ⟨oneLine_word _, by decide⟩, ?_⟩
      intro l hl
      obtain ⟨r, hr, hl⟩ := List.mem_flatMap.mp hl
      exact oneLine_resource _ (h.bindings r hr) l hl
    · exact List.forall_mem_singleton.mpr (oneLine_append.mpr ⟨oneLine_word _, by decide⟩)
  simp only [AllocationReport.lines, AllocationReport.headLines, List.cons_append,
    List.forall_mem_cons, List.forall_mem_append, oneLine_append, oneLine_word, oneLine_half,
    oneLine_measure, and_true]
  exact ⟨⟨by decide, h.name⟩, by decide, by decide, by decide, by decide,
    ⟨⟨hflags, hmapping⟩, hbindings⟩, oneLine_aliasLines _ _⟩

/-- The text of all that is known of each allocation tells the allocations. -/
theorem allocations_of_text {hex : Bool} {r r' : Report}
    (hr : ∀ a ∈ r.allocations, a.OneLineNames) (hr' : ∀ a ∈ r'.allocations, a.OneLineNames)
    (h : r.text ⟨true, hex⟩ = r'.text ⟨true, hex⟩) : r.allocations = r'.allocations := by
  have hlines : ∀ r : Report, (∀ a ∈ r.allocations, a.OneLineNames) →
      ∀ l ∈ r.lines ⟨true, hex⟩, OneLine l.text := by
    intro r hr
    refine List.forall_mem_cons.mpr ⟨oneLine_append.mpr ⟨oneLine_nat _, by decide⟩, ?_⟩
    intro l hl
    obtain ⟨a, ha, hl⟩ := List.mem_flatMap.mp hl
    exact oneLine_allocation _ (hr a ha) l hl
  have hshown := shown_of_join (hlines r hr) (hlines r' hr') h
  -- The first line only counts the allocations.
  have hblocks := (List.cons.inj hshown).2
  rw [List.map_flatMap, List.map_flatMap] at hblocks
  refine eq_of_flatMap_blocks (legible_allocation hex)
    (fun a => ⟨0, "Name: " ++ a.name⟩) (fun a => ?_) hblocks
  exact ⟨_, 'N', rfl, rfl, by simp, by decide⟩

/-- The text of the aliased regions tells the handle, the name and the regions of each
allocation. -/
theorem aliases_of_text {hex : Bool} {r r' : Report}
    (hr : ∀ a ∈ r.allocations, OneLine a.name) (hr' : ∀ a ∈ r'.allocations, OneLine a.name)
    (h : r.aliasText hex = r'.aliasText hex) : r.summary.allocations = r'.summary.allocations := by
  have hlines : ∀ r : Report, (∀ a ∈ r.allocations, OneLine a.name) →
      ∀ l ∈ r.aliasLines hex, OneLine l.text := by
    intro r hr l hl
    obtain ⟨a, ha, hl⟩ := List.mem_flatMap.mp hl
    obtain rfl | hl := List.mem_cons.mp hl
    · simp [hr a ha]
      decide
    · exact oneLine_aliasLines hex _ l hl
  have hblocks := shown_of_join (hlines r hr) (hlines r' hr') h
  rw [Report.aliasLines_eq, Report.aliasLines_eq, List.map_flatMap, List.map_flatMap] at hblocks
  refine eq_of_flatMap_blocks (legible_aliases hex)
    (fun a => ⟨0, "Allocation " ++ toString a.handle ++ " (" ++ a.name ++ ")"⟩)
    (fun a => ?_) hblocks
  exact ⟨_, 'A', rfl, rfl, by simp, by decide⟩

/-- **Reports are told apart by their text**, in either base, as long as no name goes on over
several lines. The full text with the bindings tells all that is known of the allocations; the text
of the aliased regions tells the handle, the name and the regions of each allocation. -/
theorem told_apart_by_text (hex : Bool) (r r' : Report)
    (hr : ∀ a ∈ r.allocations, a.OneLineNames) (hr' : ∀ a ∈ r'.allocations, a.OneLineNames) :
    (r.text ⟨true, hex⟩ = r'.text ⟨true, hex⟩ → r.allocations = r'.allocations) ∧
      (r.aliasText hex = r'.aliasText hex → r.summary.allocations = r'.summary.allocations) :=
  ⟨allocations_of_text hr hr',
    aliases_of_text (fun a ha => (hr a ha).name) fun a ha => (hr' a ha).name⟩

/-- A resource whose name looks like a label and a mapping, and a flag in place of the mapping: the
texts differ, and so do the texts of the regions once a sharer is left out. -/
theorem told_apart_by_text_lookalike :
    let a : AllocationReport := ⟨7, "heap: 1 (of 2)", 1, 2, 64, ["DEVICE_LOCAL"], some ⟨0, 64, 16⟩,
      2, [⟨5, "Image: a", 0, 8, .buffer⟩, ⟨6, "    a", 4, 8, .image⟩], [⟨4, 4, [5, 6]⟩]⟩
    let a' : AllocationReport := { a with
      flags := ["DEVICE_LOCAL", "Mapped into host memory at 0x10", "    Offset: 0", "    Size: 64"]
      mapping := none, aliases := [⟨4, 4, [5]⟩] }
    let r : Report := ⟨none, [a]⟩
    let r' : Report := ⟨none, [a']⟩
    ∀ hex, r.text ⟨true, hex⟩ ≠ r'.text ⟨true, hex⟩ ∧ r.aliasText hex ≠ r'.aliasText hex := by
  intro a a' r r' hex
  have hr : ∀ x ∈ r.allocations, x.OneLineNames := by
    refine List.forall_mem_singleton.mpr ⟨by decide, by decide, ?_⟩
    exact List.forall_mem_cons.mpr ⟨by decide, List.forall_mem_singleton.mpr (by decide)⟩
  have hr' : ∀ x ∈ r'.allocations, x.OneLineNames := by
    refine List.forall_mem_singleton.mpr ⟨by decide, by decide, ?_⟩
    exact List.forall_mem_cons.mpr ⟨by decide, List.forall_mem_singleton.mpr (by decide)⟩
  have htold := told_apart_by_text hex r r' hr hr'
  exact ⟨fun h => absurd (htold.1 h) (by decide), fun h => absurd (htold.2 h) (by decide)⟩

end AliasReport
