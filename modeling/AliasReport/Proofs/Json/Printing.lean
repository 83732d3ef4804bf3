import AliasReport.Json.Tree
import AliasReport.Proofs.Json.Reading
import AliasReport.Proofs.Number.Decimal

/-! # Printed values are JSON texts

Both printed forms of a value stand for the value by the grammar, whatever follows them that does
not go on with a number.

* **`Json.toBuffered`** — what a value stands for.
* **`Json.Fits`** — values whose numbers are words and that open no more brackets than may be open.
* **`spells_escape`** — escaped text.
* **`Items.separated`**, **`Entries.separated`** — lists and objects with commas between what they
  hold.
* **`value_compactChars`**, **`value_prettyChars`** — the printed forms.
* **`document_compact`**, **`document_pretty`** — printed values as documents. -/

namespace AliasReport

open AliasReport.Document AliasReport.Number

/-! ## Values -/

mutual

/-- What a value stands for. -/
def Json.toBuffered : Json → Buffered
  | .null => .nothing
  | .bool b => .truth b
  | .number n => .unsigned n
  | .text s => .text s
  | .array items => .sequence (Json.itemsToBuffered items)
  | .object members => .mapping (keyed (Json.membersToBuffered members))

/-- What the items of a list stand for. -/
def Json.itemsToBuffered : List Json → List Buffered
  | [] => []
  | j :: items => j.toBuffered :: Json.itemsToBuffered items

/-- What the members of an object stand for. -/
def Json.membersToBuffered : List (String × Json) → List (String × Buffered)
  | [] => []
  | (name, j) :: members => (name, j.toBuffered) :: Json.membersToBuffered members

end

namespace Json

/-- The items of a list are buffered one by one. -/
@[simp] theorem itemsToBuffered_eq_map (items : List Json) :
    itemsToBuffered items = items.map toBuffered := by
  induction items with
  | nil => rfl
  | cons j items ih => rw [itemsToBuffered, ih, List.map_cons]

/-- The members of an object are buffered one by one. -/
@[simp] theorem membersToBuffered_eq_map (members : List (String × Json)) :
    membersToBuffered members = members.map fun m => (m.1, m.2.toBuffered) := by
  induction members with
  | nil => rfl
  | cons m members ih => rw [membersToBuffered, ih, List.map_cons]

/-- **A value fits** if its numbers are words of 64 bits and at most `depth` of its brackets are
open at once. -/
inductive Fits : Nat → Json → Prop
  | null {depth : Nat} : Fits depth .null
  | bool {depth : Nat} {b : Bool} : Fits depth (.bool b)
  | number {depth n : Nat} (hn : n < UInt64.size) : Fits depth (.number n)
  | text {depth : Nat} {s : String} : Fits depth (.text s)
  | array {depth : Nat} {items : List Json} (hitems : ∀ j ∈ items, Fits depth j) :
      Fits (depth + 1) (.array items)
  | object {depth : Nat} {members : List (String × Json)}
      (hmembers : ∀ m ∈ members, Fits depth m.2) : Fits (depth + 1) (.object members)

/-- A number fits if it is a word of 64 bits. -/
theorem fits_number_iff {depth n : Nat} : Fits depth (.number n) ↔ n < UInt64.size :=
  ⟨fun (.number hn) => hn, .number⟩

/-- A list fits if its items do, with one bracket less to open. -/
theorem fits_array_iff {depth : Nat} {items : List Json} :
    Fits (depth + 1) (.array items) ↔ ∀ j ∈ items, Fits depth j :=
  ⟨fun (.array hitems) => hitems, .array⟩

/-- An object fits if the values of its members do, with one bracket less to open. -/
theorem fits_object_iff {depth : Nat} {members : List (String × Json)} :
    Fits (depth + 1) (.object members) ↔ ∀ m ∈ members, Fits depth m.2 :=
  ⟨fun (.object hmembers) => hmembers, .object⟩

mutual

/-- Whether a value fits. -/
def decideFits : (depth : Nat) → (j : Json) → Decidable (j.Fits depth)
  | _, .null => .isTrue .null
  | _, .bool _ => .isTrue .bool
  | _, .number _ => decidable_of_iff' _ fits_number_iff
  | _, .text _ => .isTrue .text
  | 0, .array _ => .isFalse nofun
  | depth + 1, .array items =>
    haveI := decideItemsFit depth items
    decidable_of_iff' _ fits_array_iff
  | 0, .object _ => .isFalse nofun
  | depth + 1, .object members =>
    haveI := decideMembersFit depth members
    decidable_of_iff' _ fits_object_iff

/-- Whether all items fit. -/
def decideItemsFit : (depth : Nat) → (items : List Json) → Decidable (∀ j ∈ items, j.Fits depth)
  | _, [] => .isTrue nofun
  | depth, j :: items =>
    haveI := decideFits depth j
    haveI := decideItemsFit depth items
    decidable_of_iff' _ List.forall_mem_cons

/-- Whether the values of all members fit. -/
def decideMembersFit :
    (depth : Nat) → (members : List (String × Json)) → Decidable (∀ m ∈ members, m.2.Fits depth)
  | _, [] => .isTrue nofun
  | depth, (_, j) :: members =>
    haveI := decideFits depth j
    haveI := decideMembersFit depth members
    decidable_of_iff' _ List.forall_mem_cons

end

instance (depth : Nat) (j : Json) : Decidable (j.Fits depth) :=
  decideFits depth j

/-- A value still fits where more brackets may be open. -/
theorem Fits.mono {depth depth' : Nat} {j : Json} (h : j.Fits depth) (hle : depth ≤ depth') :
    j.Fits depth' := by
  induction h generalizing depth' with
  | null => exact .null
  | bool => exact .bool
  | number hn => exact .number hn
  | text => exact .text
  | array _ ih =>
    obtain ⟨depth', rfl⟩ : ∃ d, depth' = d + 1 := ⟨depth' - 1, by omega⟩
    exact .array fun j hj => ih j hj (by omega)
  | object _ ih =>
    obtain ⟨depth', rfl⟩ : ∃ d, depth' = d + 1 := ⟨depth' - 1, by omega⟩
    exact .object fun m hm => ih m hm (by omega)

/-! ## Text -/

/-- Every control character has an escape by its code point. -/
theorem controlEscape_spec : ∀ n < 0x20,
    controlEscape (Char.ofNat n) =
        ['\\', 'u', '0', '0', Nat.digitChar (n / 16), Nat.digitChar (n % 16)] ∧
      codeUnit? '0' '0' (Nat.digitChar (n / 16)) (Nat.digitChar (n % 16)) = some n ∧
      isFirstHalf n = false ∧ isSecondHalf n = false := by
  decide

/-- A character inside quotes is spelled by its escape. -/
theorem spells_escapeChar (c : Char) {cs s rest : List Char} (h : Spells cs s rest) :
    Spells (escapeChar c ++ cs) (c :: s) rest := by
  unfold escapeChar
  split_ifs with hquote hb ht hn hf hr hcontrol
  · refine .short ?_ h
    obtain rfl | rfl := hquote <;> rfl
  · exact .short (hb ▸ rfl) h
  · exact .short (ht ▸ rfl) h
  · exact .short (hn ▸ rfl) h
  · exact .short (hf ▸ rfl) h
  · exact .short (hr ▸ rfl) h
  · -- The other control characters, by their code points.
    obtain ⟨hchars, hunit, hfirst, hsecond⟩ := controlEscape_spec c.toNat hcontrol
    rw [Char.ofNat_toNat] at hchars
    rw [hchars]
    have hspells := Spells.unit hunit hfirst hsecond h
    rwa [Char.ofNat_toNat] at hspells
  · obtain ⟨hquote, hslash⟩ := not_or.mp hquote
    exact .plain hquote hslash (Nat.not_lt.mp hcontrol) h

/-- **Escaped text** is spelled up to the closing quote. -/
theorem spells_escape (s rest : List Char) : Spells (escape s ++ '"' :: rest) s rest := by
  induction s with
  | nil => exact .close
  | cons c s ih =>
    rw [escape_cons, List.append_assoc]
    exact spells_escapeChar c ih

/-! ## Numbers -/

/-- The number that a natural number is written as. -/
def decimalNumeral (n : Nat) : Numeral :=
  ⟨false, decimal n, none, none⟩

/-- A decimal numeral is well-formed. -/
theorem decimalNumeral_wellFormed (n : Nat) : (decimalNumeral n).WellFormed where
  whole := ⟨decimal_ne_nil n, fun _ => isDigit_of_mem_decimal⟩
  lead h := by
    rw [eq_zero_of_head?_decimal h]
    rfl
  fraction := nofun
  exponent := nofun

/-- The digits of a number have its value. -/
theorem digitsValue_decimal (n : Nat) : digitsValue (decimal n) = n := by
  have hfold := ofDigitChars_decimal n
  rw [Nat.ofDigitChars_eq_foldl] at hfold
  simpa only [digitsValue, Nat.mul_comm] using hfold

/-- A word is written as its value. -/
theorem decimalNumeral_value {n : Nat} (hn : n < UInt64.size) :
    (decimalNumeral n).value = .ok (.unsigned n) := by
  simp [Numeral.value, decimalNumeral, digitsValue_decimal, hn]

/-! ## Lists and objects -/

section

variable {α β : Type} {V : List Char → β → List Char → Prop}

/-- A list that begins behind a comma goes on behind an item. -/
theorem Items.behind_comma {cs rest : List Char} {b : β} {bs : List β}
    (h : Items V true cs (b :: bs) rest) : Items V false (',' :: cs) (b :: bs) rest := by
  cases h with
  | item hstart hitem htail =>
    cases hstart with
    | first => exact .item (.next rfl) hitem htail

/-- Members at the beginning of an object can stand behind a comma. -/
theorem Entries.behind_comma {cs rest : List Char} {e : String × β} {es : List (String × β)}
    (h : Entries V true cs (e :: es) rest) : Entries V false (',' :: cs) (e :: es) rest := by
  generalize hfirst : true = first at h
  cases h with
  | entry hstart hkey hvalue htail =>
    subst hfirst
    generalize hopen : '"' :: _ = quoted at hstart
    cases hstart with
    | first => exact .entry (hopen ▸ .next rfl) hkey hvalue htail

/-- Several texts with commas between them. -/
def separated (f : α → List Char) : List α → List Char
  | [] => []
  | [a] => f a
  | a :: b :: as => f a ++ ',' :: separated f (b :: as)

/-- What follows a comma does not go on with a number. -/
theorem apart_of_head {c : Char} (hc : c.isDigit = false ∧ c ≠ '.' ∧ c ≠ 'e' ∧ c ≠ 'E')
    (cs : List Char) : Numeral.Apart (c :: cs) := by
  rintro d hd
  obtain rfl := Option.some.inj hd
  exact hc

/-- **Items with commas between them** make up a list. -/
theorem items_separated (hV : Proper V) {f : α → List Char} {g : α → β} {tail rest : List Char}
    (hclose : skipBlanks tail = ']' :: rest) (htail : Numeral.Apart tail) (as : List α)
    (h : ∀ a ∈ as, ∀ rest, Numeral.Apart rest → V (f a ++ rest) (g a) rest) :
    Items V true (separated f as ++ tail) (as.map g) rest := by
  induction as with
  | nil => exact .close hclose
  | cons a as ih =>
    obtain ⟨ha, has⟩ := List.forall_mem_cons.mp h
    cases as with
    | nil => exact .item .first (hV.blanks.mpr (ha tail htail)) (.close hclose)
    | cons b as =>
      rw [separated, List.append_assoc, List.cons_append]
      exact .item .first (hV.blanks.mpr (ha _ (apart_of_head (by decide) _)))
        (ih has).behind_comma

/-- A member: its name between quotes, a colon, and its value. -/
def Member (V : List Char → β → List Char → Prop) (cs : List Char) (e : String × β)
    (rest : List Char) : Prop :=
  ∃ inner behind, skipBlanks cs = '"' :: inner ∧ Spells inner e.1.toList behind ∧
    BehindColon V behind e.2 rest

/-- A member in front of others makes up an object with them. -/
theorem Member.cons {cs mid rest : List Char} {e : String × β} {es : List (String × β)}
    (h : Member V cs e mid) (hes : Entries V false mid es rest) :
    Entries V true cs (e :: es) rest := by
  obtain ⟨name, b⟩ := e
  obtain ⟨inner, behind, hquote, hspells, hvalue⟩ := h
  have hstart : Starts true cs ('"' :: inner) := hquote ▸ .first
  have hentry := Entries.entry hstart hspells hvalue hes
  rwa [String.ofList_toList] at hentry

/-- **Members with commas between them** make up an object. -/
theorem entries_separated {f : α → List Char} {g : α → String × β} {tail rest : List Char}
    (hclose : skipBlanks tail = '\x7d' :: rest) (htail : Numeral.Apart tail) (as : List α)
    (h : ∀ a ∈ as, ∀ rest, Numeral.Apart rest → Member V (f a ++ rest) (g a) rest) :
    Entries V true (separated f as ++ tail) (as.map g) rest := by
  induction as with
  | nil => exact .close hclose
  | cons a as ih =>
    obtain ⟨ha, has⟩ := List.forall_mem_cons.mp h
    cases as with
    | nil => exact (ha tail htail).cons (.close hclose)
    | cons b as =>
      rw [separated, List.append_assoc, List.cons_append]
      exact (ha _ (apart_of_head (by decide) _)).cons (ih has).behind_comma

end

/-- Blanks in front of a text are skipped. -/
theorem skipBlanks_append {blanks : List Char} (hblanks : ∀ c ∈ blanks, isBlank c = true)
    (cs : List Char) : skipBlanks (blanks ++ cs) = skipBlanks cs :=
  List.dropWhile_append_of_pos hblanks

/-- A quoted name, a colon and a value are a member, with blanks in front and behind the colon. -/
theorem member_quoted {β : Type} {V : List Char → β → List Char → Prop} (hV : Proper V)
    (before between : List Char) (hbefore : ∀ c ∈ before, isBlank c = true)
    (hbetween : ∀ c ∈ between, isBlank c = true) {name : String} {b : β} {cs rest : List Char}
    (h : V cs b rest) :
    Member V (before ++ (quoted name ++ ':' :: (between ++ cs))) (name, b) rest := by
  refine ⟨escape name.toList ++ '"' :: ':' :: (between ++ cs), ':' :: (between ++ cs), ?_,
    spells_escape name.toList _, between ++ cs, rfl, ?_⟩
  · rw [skipBlanks_append hbefore, quoted, List.append_assoc]
    rfl
  · rwa [← hV.blanks, skipBlanks_append hbetween, hV.blanks]

/-! ## Scalars -/

/-- A word in decimal digits is a number. -/
theorem value_decimal {n : Nat} (hn : n < UInt64.size) (depth : Nat) {rest : List Char}
    (hrest : Numeral.Apart rest) : Value depth (decimal n ++ rest) (.unsigned n) rest := by
  have hscalar : Scalar (decimal n ++ rest) (.unsigned n) rest := by
    refine .number (n := decimalNumeral n) .none ?_ (decimalNumeral_wellFormed n) hrest
      (decimalNumeral_value hn)
    obtain ⟨c, ds, hdecimal⟩ := List.exists_cons_of_ne_nil (decimal_ne_nil n)
    have hc : c.isDigit = true := isDigit_of_mem_decimal (hdecimal ▸ List.mem_cons_self)
    have hblank : isBlank c = false := by
      simp [isBlank, ne_of_isDigit hc]
    change skipBlanks (decimal n ++ rest) = decimal n ++ rest
    rw [hdecimal]
    exact List.dropWhile_cons_of_neg (by simp [hblank])
  exact hscalar.value depth

/-- A truth value is a keyword. -/
theorem value_truthText (b : Bool) (depth : Nat) (rest : List Char) :
    Value depth (truthText b ++ rest) (.truth b) rest := by
  cases b with
  | true => exact Scalar.value (.true rfl) depth
  | false => exact Scalar.value (.false rfl) depth

/-- Quoted text is text. -/
theorem value_quoted (s : String) (depth : Nat) (rest : List Char) :
    Value depth (quoted s ++ rest) (.text s) rest := by
  have hscalar : Scalar (quoted s ++ rest) (.text (String.ofList s.toList)) rest := by
    have htext : skipBlanks (quoted s ++ rest) = '"' :: (escape s.toList ++ '"' :: rest) := by
      rw [quoted, List.append_assoc]
      rfl
    exact .text htext (spells_escape s.toList rest)
  rw [String.ofList_toList] at hscalar
  exact hscalar.value depth

/-! ## Compact form -/

/-- A member in compact form. -/
def compactMember (m : String × Json) : List Char :=
  quoted m.1 ++ ':' :: m.2.compactChars

/-- The compact items are the compact forms of the items with commas between them. -/
theorem compactItems_eq_separated : (items : List Json) →
    compactItems items = separated compactChars items
  | [] => rfl
  | [_] => rfl
  | j :: k :: items => by
    rw [compactItems, separated, compactItems_eq_separated (k :: items)]

/-- The compact members are the compact forms of the members with commas between them. -/
theorem compactMembers_eq_separated : (members : List (String × Json)) →
    compactMembers members = separated compactMember members
  | [] => rfl
  | [_] => rfl
  | (name, j) :: m :: members => by
    rw [compactMembers, separated, compactMembers_eq_separated (m :: members)]
    rfl

/-- **The compact form of a value stands for it.** -/
theorem value_compactChars {depth : Nat} {j : Json} (h : j.Fits depth) {rest : List Char}
    (hrest : Numeral.Apart rest) : Value depth (j.compactChars ++ rest) j.toBuffered rest := by
  induction h generalizing rest with
  | @null depth => exact Scalar.value (.null rfl) depth
  | @bool depth b => exact value_truthText b depth rest
  | @number depth n hn => exact value_decimal hn depth hrest
  | @text depth s => exact value_quoted s depth rest
  | @array depth items _ ih =>
    -- A bracket or a comma stands behind every item, so that no number goes on there.
    have hitems : Items (Value depth) true (separated compactChars items ++ ']' :: rest)
        (items.map toBuffered) rest :=
      items_separated (Value.proper depth) rfl (apart_of_head (by decide) rest) items
        fun j hj _ => ih j hj
    rw [compactChars, compactItems_eq_separated, List.append_assoc, toBuffered,
      itemsToBuffered_eq_map]
    exact Compound.list rfl hitems
  | @object depth members _ ih =>
    have hmembers : Entries (Value depth) true
        (separated compactMember members ++ '\x7d' :: rest)
        (members.map fun m => (m.1, m.2.toBuffered)) rest := by
      refine entries_separated rfl (apart_of_head (by decide) rest) members ?_
      intro m hm rest hrest
      rw [compactMember, List.append_assoc]
      exact member_quoted (Value.proper depth) [] [] nofun nofun (ih m hm hrest)
    rw [compactChars, compactMembers_eq_separated, List.append_assoc, toBuffered,
      membersToBuffered_eq_map]
    exact Compound.object rfl hmembers

/-! ## Pretty form -/

/-- An item on a line of its own. -/
def prettyItem (depth : Nat) (j : Json) : List Char :=
  newline depth ++ prettyChars depth j

/-- A member on a line of its own. -/
def prettyMember (depth : Nat) (m : String × Json) : List Char :=
  newline depth ++ quoted m.1 ++ ':' :: ' ' :: prettyChars depth m.2

/-- The items on lines of their own are separated by commas. -/
theorem prettyItems_eq_separated (depth : Nat) : (items : List Json) →
    prettyItems depth items = separated (prettyItem depth) items
  | [] => rfl
  | [_] => rfl
  | j :: k :: items => by
    rw [prettyItems, separated, prettyItems_eq_separated depth (k :: items)]
    rfl

/-- The members on lines of their own are separated by commas. -/
theorem prettyMembers_eq_separated (depth : Nat) : (members : List (String × Json)) →
    prettyMembers depth members = separated (prettyMember depth) members
  | [] => rfl
  | [_] => rfl
  | (name, j) :: m :: members => by
    rw [prettyMembers, separated, prettyMembers_eq_separated depth (m :: members)]
    rfl

/-- A line break and its blanks are blanks. -/
theorem isBlank_of_mem_newline {line : Nat} {c : Char} (h : c ∈ newline line) :
    isBlank c = true := by
  obtain rfl | h := List.mem_cons.mp h
  · rfl
  · rw [(List.mem_replicate.mp h).2]
    rfl

/-- A line feed and the indentation behind it are blanks. -/
theorem skipBlanks_newline (line : Nat) (cs : List Char) :
    skipBlanks (newline line ++ cs) = skipBlanks cs :=
  skipBlanks_append (fun _ => isBlank_of_mem_newline) cs

/-- **The pretty form of a value stands for it**, at whichever depth its own line is. -/
theorem value_prettyChars {depth : Nat} {j : Json} (h : j.Fits depth) (line : Nat)
    {rest : List Char} (hrest : Numeral.Apart rest) :
    Value depth (prettyChars line j ++ rest) j.toBuffered rest := by
  induction h generalizing line rest with
  | @null depth => exact Scalar.value (.null rfl) depth
  | @bool depth b => exact value_truthText b depth rest
  | @number depth n hn => exact value_decimal hn depth hrest
  | @text depth s => exact value_quoted s depth rest
  | @array depth items _ ih =>
    cases items with
    | nil => exact Compound.list rfl (.close rfl)
    | cons k items =>
      -- The line break in front of an item is skipped with the blanks in front of its value.
      have hitems : Items (Value depth) true
          (separated (prettyItem (line + 1)) (k :: items) ++ (newline line ++ ']' :: rest))
          ((k :: items).map toBuffered) rest := by
        refine items_separated (Value.proper depth) (skipBlanks_newline line _)
          (apart_of_head (by decide) _) _ fun j hj rest hrest => ?_
        rw [prettyItem, List.append_assoc, ← (Value.proper depth).blanks, skipBlanks_newline,
          (Value.proper depth).blanks]
        exact ih j hj (line + 1) hrest
      rw [prettyChars, prettyItems_eq_separated, toBuffered, itemsToBuffered_eq_map]
      simp only [List.cons_append, List.append_assoc, List.nil_append]
      exact Compound.list rfl hitems
  | @object depth members _ ih =>
    cases members with
    | nil => exact Compound.object rfl (.close rfl)
    | cons m members =>
      have hmembers : Entries (Value depth) true
          (separated (prettyMember (line + 1)) (m :: members) ++ (newline line ++ '\x7d' :: rest))
          ((m :: members).map fun m => (m.1, m.2.toBuffered)) rest := by
        refine entries_separated (skipBlanks_newline line _) (apart_of_head (by decide) _) _
          fun m hm rest hrest => ?_
        rw [prettyMember, List.append_assoc, List.append_assoc]
        exact member_quoted (Value.proper depth) (newline (line + 1)) [' ']
          (fun _ => isBlank_of_mem_newline) (List.forall_mem_singleton.mpr rfl)
          (ih m hm (line + 1) hrest)
      rw [prettyChars, prettyMembers_eq_separated, toBuffered, membersToBuffered_eq_map]
      simp only [List.cons_append, List.append_assoc, List.nil_append]
      exact Compound.object rfl hmembers

/-! ## Documents -/

/-- **The compact form of a value is a document** that stands for it. -/
theorem document_compact {depth : Nat} {j : Json} (h : j.Fits depth) :
    Document depth j.compact j.toBuffered := by
  have hvalue : Value depth (j.compactChars ++ []) j.toBuffered [] := value_compactChars h nofun
  rw [List.append_nil] at hvalue
  exact ⟨[], by rwa [compact, String.toList_ofList], rfl⟩

/-- **The pretty form of a value is a document** that stands for it. -/
theorem document_pretty {depth : Nat} {j : Json} (h : j.Fits depth) :
    Document depth j.pretty j.toBuffered := by
  have hvalue : Value depth (prettyChars 0 j ++ []) j.toBuffered [] := value_prettyChars h 0 nofun
  rw [List.append_nil] at hvalue
  exact ⟨[], by rwa [pretty, String.toList_ofList], rfl⟩

end Json

end AliasReport
