import AliasReport.Proofs.Json.RoundTrip
import AliasReport.Proofs.Number.Decimal
import AliasReport.Proofs.Yaml.Entries
import AliasReport.Yaml.Decode

/-! # Decoding the entries of JSON text

The entries of a JSON value that represents a value of a sound shape are read as this value. Text
between quotes stands for itself, whatever it spells; plain words are numbers, truth values or
nothing.

* **`asUnsigned?_decimal`**, **`resolvePlain_decimal`** — what the digits of a number spell.
* **`readItems_of_entries`**, **`readMembers_of_entries`** — lists and objects.
* **`readBuffered_of_fits`** — values of any shape.
* **`Shape.readYaml_of_represents`** — values of a shape.
* **`Yaml.decode_compact`** — whole texts. -/

namespace AliasReport.Yaml

open AliasReport.Document AliasReport.Number

/-! ## What plain text spells -/

/-- Digits do not spell a word. -/
theorem decimal_ne {n : ℕ} {cs : List Char} (hcs : cs.all Char.isDigit = false) :
    decimal n ≠ cs := by
  rintro rfl
  exact Bool.false_ne_true (hcs.symm.trans (List.all_eq_true.mpr fun _ => isDigit_of_mem_decimal))

/-- The digits of a number have no needless zeros in front. -/
theorem hasSpareZero_decimal (n : ℕ) : hasSpareZero (decimal n) = false := by
  unfold hasSpareZero
  split
  · rename_i rest h
    exact absurd h (decimal_ne rfl)
  · rename_i rest h
    exact absurd h (decimal_ne rfl)
  · -- Only zero starts with the digit zero, and it has no other digit.
    by_cases hhead : (decimal n).head? = some '0'
    · obtain rfl := eq_zero_of_head?_decimal hhead
      rfl
    · simp [hhead]

/-- The digits of a number are read as that number. -/
theorem unsignedValue?_decimal (n : ℕ) : unsignedValue? (decimal n) = some n := by
  have hbase : splitBase? (decimal n) = none := by
    unfold splitBase?
    split
    · rename_i rest h
      exact absurd h (decimal_ne rfl)
    · rename_i rest h
      exact absurd h (decimal_ne rfl)
    · rename_i rest h
      exact absurd h (decimal_ne rfl)
    · rfl
  unfold unsignedValue?
  rw [hbase]
  exact ofDigits?_decimal n

/-- **Digits spell a number.** -/
theorem asUnsigned?_decimal (n : ℕ) : asUnsigned? (decimal n) = some n := by
  unfold asUnsigned?
  rw [hasSpareZero_decimal]
  simp only [Bool.false_eq_true, if_false]
  split
  · rename_i rest h
    exact absurd h (decimal_ne rfl)
  · exact unsignedValue?_decimal n

/-- Digits are none of some words. -/
theorem decimal_notMem (n : ℕ) {words : List (List Char)}
    (hwords : ∀ cs ∈ words, cs.all Char.isDigit = false) : decimal n ∉ words :=
  fun hmem => decimal_ne (hwords _ hmem) rfl

/-- The digits of a number do not spell a missing value. -/
theorem spellsNothing_decimal (n : ℕ) : spellsNothing (decimal n) = false :=
  decide_eq_false (decimal_notMem n (by decide))

/-- The digits of a number do not spell a truth value. -/
theorem asTruth?_decimal (n : ℕ) : asTruth? (decimal n) = none := by
  unfold asTruth?
  rw [if_neg (decimal_notMem n (by decide)), if_neg (decimal_notMem n (by decide))]

/-- Digits stand for the number that they spell. -/
theorem resolvePlain_decimal {n : ℕ} (hn : n < UInt64.size) :
    resolvePlain (String.ofList (decimal n)) = .unsigned n := by
  have hinteger : asInteger? (decimal n) = some (.unsigned n) := by
    simp [asInteger?, asUnsigned?_decimal, hn]
  unfold resolvePlain
  rw [String.toList_ofList]
  simp [decimal_ne_nil, spellsNothing_decimal, asTruth?_decimal, hinteger]

/-! ## Collections -/

/-- Every value has an entry, and the first one is neither an end nor an alias. -/
theorem entries_cons (j : Json) :
    ∃ e es, j.entries = e :: es ∧
      ((∃ style text, e = .scalar none style text) ∨ e = .sequenceStart none ∨
        e = .mappingStart none) := by
  cases j with
  | array items => exact ⟨_, _, rfl, .inr (.inl rfl)⟩
  | object members => exact ⟨_, _, rfl, .inr (.inr rfl)⟩
  | _ => exact ⟨_, _, rfl, .inl ⟨_, _, rfl⟩⟩

/-- The entries of a list are those of its items between two brackets. -/
theorem entries_array_append (items : List Json) (rest : List Entry) :
    (Json.array items).entries ++ rest =
      .sequenceStart none :: (items.flatMap Json.entries ++ .sequenceEnd :: rest) := by
  rw [Json.entries, itemEntries_eq_flatMap, List.append_assoc]
  rfl

/-- The entries of an object are those of its members between two brackets. -/
theorem entries_object_append (members : List (String × Json)) (rest : List Entry) :
    (Json.object members).entries ++ rest =
      .mappingStart none :: (members.flatMap memberEntry ++ .mappingEnd :: rest) := by
  rw [Json.entries, memberEntries_eq_flatMap, List.append_assoc]
  rfl

/-- A value is read where it stands, since it is no alias. -/
theorem atNode_entries {α : Type} {g : Graph} {jumps : ℕ} (j : Json) (rest : List Entry)
    (read : Progress → Except Fault (α × Progress)) :
    atNode g ⟨jumps, j.entries ++ rest⟩ read = read ⟨jumps, j.entries ++ rest⟩ := by
  obtain ⟨e, es, hes, hbegin⟩ := entries_cons j
  rw [hes]
  obtain ⟨style, text, rfl⟩ | rfl | rfl := hbegin <;> rfl

/-- There are as many entries as there are values, or more. -/
theorem length_le_flatMap {α : Type} {f : α → List Entry} (as : List α) (h : ∀ a, f a ≠ []) :
    as.length ≤ (as.flatMap f).length := by
  induction as with
  | nil => exact Nat.le_refl 0
  | cons a as ih =>
    have hpos := List.length_pos_of_ne_nil (h a)
    rw [List.flatMap_cons, List.length_append, List.length_cons]
    omega

section

variable {jumps : ℕ} {rest : List Entry}

/-- **A list is read** if its items are. -/
theorem readItemsFrom_of_entries {α : Type}
    {item : ℕ → Progress → Except Fault (α × Progress)} {js : List Json} {vs : List α}
    (h : List.Forall₂ (fun j v => ∀ index rest,
      item index ⟨jumps, j.entries ++ rest⟩ = .ok (v, ⟨jumps, rest⟩)) js vs)
    {fuel : ℕ} (hfuel : js.length < fuel) (index : ℕ) :
    readItemsFrom item fuel index ⟨jumps, js.flatMap Json.entries ++ .sequenceEnd :: rest⟩ =
      .ok (vs, ⟨jumps, rest⟩) := by
  induction h generalizing fuel index with
  | nil =>
    obtain ⟨fuel, rfl⟩ := Nat.exists_eq_succ_of_ne_zero (Nat.ne_zero_of_lt hfuel)
    rfl
  | @cons j v js vs hj _ ih =>
    obtain ⟨fuel, rfl⟩ := Nat.exists_eq_succ_of_ne_zero (Nat.ne_zero_of_lt hfuel)
    have hrest := ih (Nat.lt_of_succ_lt_succ hfuel) (index + 1)
    have hitem := hj index (js.flatMap Json.entries ++ .sequenceEnd :: rest)
    -- The list goes on because the next entry is not its end.
    obtain ⟨e, es, hes, hbegin⟩ := entries_cons j
    rw [List.flatMap_cons, List.append_assoc]
    rw [hes, List.cons_append] at hitem ⊢
    obtain ⟨style, text, rfl⟩ | rfl | rfl := hbegin <;>
      simp [readItemsFrom, hitem, hrest, bind, pure, Except.pure]

/-- The items of a list are read if each of them is read from its entries. -/
theorem readItems_of_entries {α : Type}
    {item : ℕ → Progress → Except Fault (α × Progress)} {js : List Json} {vs : List α}
    (h : List.Forall₂ (fun j v => ∀ index rest,
      item index ⟨jumps, j.entries ++ rest⟩ = .ok (v, ⟨jumps, rest⟩)) js vs) (index : ℕ) :
    readItems item index ⟨jumps, js.flatMap Json.entries ++ .sequenceEnd :: rest⟩ =
      .ok (vs, ⟨jumps, rest⟩) := by
  refine readItemsFrom_of_entries h (Nat.lt_succ_of_le ?_) index
  have hlength := length_le_flatMap js fun j => by
    obtain ⟨e, es, hes, -⟩ := entries_cons j
    exact hes ▸ List.cons_ne_nil e es
  rw [List.length_append]
  omega

/-- **An object is read** if its members are: `state` is what has been read of them so far. -/
theorem readMembersFrom_of_entries {σ : Type}
    {member : Step → σ → Progress → Except Fault (σ × Progress)} {ms : List (String × Json)}
    (state : List (String × Json) → σ) (done : List (String × Json))
    (hstep : ∀ before key j after, done ++ ms = before ++ (key, j) :: after → ∀ rest,
      member (.member key) (state before)
          ⟨jumps, .scalar none .doubleQuoted key :: (j.entries ++ rest)⟩ =
        .ok (state (before ++ [(key, j)]), ⟨jumps, rest⟩))
    {fuel : ℕ} (hfuel : ms.length < fuel) :
    readMembersFrom member fuel (state done)
        ⟨jumps, ms.flatMap memberEntry ++ .mappingEnd :: rest⟩ =
      .ok (state (done ++ ms), ⟨jumps, rest⟩) := by
  induction ms generalizing done fuel with
  | nil =>
    obtain ⟨fuel, rfl⟩ := Nat.exists_eq_succ_of_ne_zero (Nat.ne_zero_of_lt hfuel)
    rw [List.append_nil]
    rfl
  | cons m ms ih =>
    obtain ⟨key, j⟩ := m
    obtain ⟨fuel, rfl⟩ := Nat.exists_eq_succ_of_ne_zero (Nat.ne_zero_of_lt hfuel)
    have hmember := hstep done key j ms rfl (ms.flatMap memberEntry ++ .mappingEnd :: rest)
    -- This member is done for those behind it.
    have htail := ih (done ++ [(key, j)]) (by simpa using hstep) (Nat.lt_of_succ_lt_succ hfuel)
    rw [List.append_assoc] at htail
    rw [List.flatMap_cons, List.append_assoc, memberEntry, List.cons_append]
    simp [readMembersFrom, Entry.step, hmember, htail, bind]

/-- The members of an object are read if each of them is, from the state of those in front of it. -/
theorem readMembers_of_entries {σ : Type}
    {member : Step → σ → Progress → Except Fault (σ × Progress)} {ms : List (String × Json)}
    (state : List (String × Json) → σ)
    (hstep : ∀ before key j after, ms = before ++ (key, j) :: after → ∀ rest,
      member (.member key) (state before)
          ⟨jumps, .scalar none .doubleQuoted key :: (j.entries ++ rest)⟩ =
        .ok (state (before ++ [(key, j)]), ⟨jumps, rest⟩)) :
    readMembers member (state []) ⟨jumps, ms.flatMap memberEntry ++ .mappingEnd :: rest⟩ =
      .ok (state ms, ⟨jumps, rest⟩) := by
  refine readMembersFrom_of_entries state [] hstep (Nat.lt_succ_of_le ?_)
  have hlength := length_le_flatMap (f := memberEntry) ms fun _ => List.cons_ne_nil _ _
  rw [List.length_append]
  omega

end

/-! ## Values of any shape -/

section

variable {g : Graph} {depth jumps : ℕ} {path : Path} {wanted : Wanted} {rest : List Entry}

/-- A scalar is buffered as what it stands for. -/
theorem readBuffered_scalar {style : Style} {text : String} {b : Buffered}
    (h : ofScalar wanted none style text = .ok b) :
    readBuffered g depth path wanted ⟨jumps, .scalar none style text :: rest⟩ =
      .ok (b, ⟨jumps, rest⟩) := by
  rw [readBuffered.eq_def]
  simp only [readNode, atNode, h]
  rfl

/-- A name between quotes is text. -/
theorem readBuffered_name (key : String) :
    readBuffered g depth path wanted ⟨jumps, .scalar none .doubleQuoted key :: rest⟩ =
      .ok (.text key, ⟨jumps, rest⟩) :=
  readBuffered_scalar rfl

/-- Members that are put in front of those read before are read in the opposite order. -/
theorem readMembers_reversed
    {member : Step → List (Buffered × Buffered) → Progress →
      Except Fault (List (Buffered × Buffered) × Progress)}
    {ms : List (String × Json)}
    (hmember : ∀ m ∈ ms, ∀ entries rest,
      member (.member m.1) entries
          ⟨jumps, .scalar none .doubleQuoted m.1 :: (m.2.entries ++ rest)⟩ =
        .ok ((.text m.1, m.2.toBuffered) :: entries, ⟨jumps, rest⟩)) :
    readMembers member [] ⟨jumps, ms.flatMap memberEntry ++ .mappingEnd :: rest⟩ =
      .ok ((keyed (Json.membersToBuffered ms)).reverse, ⟨jumps, rest⟩) := by
  refine readMembers_of_entries (fun done => (keyed (Json.membersToBuffered done)).reverse) ?_
  intro before key j after heq rest
  simp [hmember (key, j) (by simp [heq]), keyed]

/-- **A value is buffered as what it stands for.** -/
theorem readBuffered_of_fits {j : Json} (h : j.Fits depth) (path : Path) (wanted : Wanted)
    (rest : List Entry) :
    readBuffered g depth path wanted ⟨jumps, j.entries ++ rest⟩ =
      .ok (j.toBuffered, ⟨jumps, rest⟩) := by
  -- The reader recurs on how deep it may go, and so does `Fits`.
  induction h generalizing path wanted rest with
  | @null depth => exact readBuffered_scalar rfl
  | @bool depth b => exact readBuffered_scalar (by cases b <;> rfl)
  | @number depth n hn =>
    refine readBuffered_scalar ?_
    simp [ofScalar, resolve, resolvePlain_decimal hn, Json.toBuffered]
  | @text depth s => exact readBuffered_scalar rfl
  | @array depth items _ ih =>
    have hitems : readItems
        (fun index p => readBuffered g depth (.item index :: path) .anything p) 0
        ⟨jumps, items.flatMap Json.entries ++ .sequenceEnd :: rest⟩ =
          .ok (items.map Json.toBuffered, ⟨jumps, rest⟩) := by
      refine readItems_of_entries ?_ 0
      refine List.forall₂_map_right_iff.mpr (List.forall₂_same.mpr fun j hj index rest => ?_)
      exact ih j hj _ _ rest
    rw [entries_array_append, Json.toBuffered, Json.itemsToBuffered_eq_map, readBuffered.eq_def]
    simp [readNode, atNode, hitems, bind, pure, Except.pure]
    rfl
  | @object depth members _ ih =>
    rw [entries_object_append, Json.toBuffered, readBuffered.eq_def]
    simp only [readNode, atNode]
    rw [readMembers_reversed ?_]
    · simp [placed, bind, pure, Except.pure]
    · intro m hm entries rest
      simp [readBuffered_name, ih m hm, bind, pure, Except.pure]

end

/-! ## Values that do not matter -/

/-- Nodes one behind the other are skipped if each of them is. -/
theorem skipNode_flatMap {α : Type} {f : α → List Entry} {opened : ℕ} (as : List α)
    (h : ∀ a ∈ as, ∀ rest, skipNode (opened + 1) (f a ++ rest) = skipNode (opened + 1) rest)
    (rest : List Entry) :
    skipNode (opened + 1) (as.flatMap f ++ rest) = skipNode (opened + 1) rest := by
  induction as with
  | nil => rfl
  | cons a as ih =>
    obtain ⟨ha, has⟩ := List.forall_mem_cons.mp h
    rw [List.flatMap_cons, List.append_assoc, ha, ih has]

/-- The end of a collection goes back to the brackets around it. -/
theorem skipNode_end {e : Entry} (he : e = .sequenceEnd ∨ e = .mappingEnd) (opened : ℕ)
    (rest : List Entry) :
    skipNode (opened + 1) (e :: rest) =
      if opened = 0 then .ok rest else skipNode opened rest := by
  obtain rfl | rfl := he <;> simp [skipNode]

/-- **A value is skipped as a whole.** -/
theorem skipNode_of_fits {j : Json} {depth : ℕ} (h : j.Fits depth) (opened : ℕ)
    (rest : List Entry) :
    skipNode opened (j.entries ++ rest) =
      if opened = 0 then .ok rest else skipNode opened rest := by
  induction h generalizing opened rest with
  | null | bool | number | text => rfl
  | array _ ih =>
    rw [entries_array_append, skipNode, skipNode_flatMap _ fun j hj rest => by simp [ih j hj]]
    exact skipNode_end (.inl rfl) opened rest
  | object _ ih =>
    rw [entries_object_append, skipNode,
      skipNode_flatMap _ fun m hm rest => by simp [memberEntry, skipNode, ih m hm]]
    exact skipNode_end (.inr rfl) opened rest

/-- Only null stands for no value. -/
theorem isNothing_of_ne_null {j : Json} (hj : j.toBuffered ≠ .nothing) {e : Entry}
    {es : List Entry} (hes : j.entries = e :: es) : e.isNothing = .ok false := by
  cases j with
  | null => exact absurd rfl hj
  | bool b =>
    cases hes
    cases b <;> rfl
  | number n =>
    cases hes
    simp [Entry.isNothing, spellsNothing_decimal, decimal_ne_nil]
  | _ =>
    cases hes
    rfl

/-! ## Unions -/

section

variable {g : Graph} {depth jumps : ℕ} {path : Path} {rest : List Entry}

/-- Text between quotes is read as a name. -/
theorem readName_text (name : String) (wanted : Wanted) :
    readName g path wanted ⟨jumps, .scalar none .doubleQuoted name :: rest⟩ =
      .ok (name, ⟨jumps, rest⟩) :=
  rfl

/-- The name of a case is read where it stands as a text. -/
theorem readCaseName_text {name : String} {known : List String} (hname : name ∈ known) :
    readCaseName g path known ⟨jumps, .scalar none .doubleQuoted name :: rest⟩ =
      .ok (name, ⟨jumps, rest⟩) := by
  simp [readCaseName, readName_text, bind, hname, pure, Except.pure, placed]

/-- One member of a union is read when those before it have been read. -/
theorem readTaggedMember_of_fits {tag chosen : String} {known : List String}
    (hchosen : chosen ∈ known) {before after : List (String × Json)} {key : String} {j : Json}
    (htag : (Json.membersToBuffered (before ++ (key, j) :: after)).filter (·.1 = tag) =
      [(tag, .text chosen)])
    (hj : j.Fits depth) (step : Step) :
    readTaggedMember g tag known depth path step
        (Json.taggedState tag chosen (Json.membersToBuffered before))
        ⟨jumps, .scalar none .doubleQuoted key :: (j.entries ++ rest)⟩ =
      .ok (Json.taggedState tag chosen (Json.membersToBuffered (before ++ [(key, j)])),
        ⟨jumps, rest⟩) := by
  simp only [Json.membersToBuffered_eq_map, List.map_append, List.map_cons, List.map_nil] at htag ⊢
  unfold readTaggedMember
  simp only [readBuffered_name, bind, ok_bind, Buffered.found]
  by_cases hkey : key = tag
  · subst hkey
    obtain ⟨hbefore, hb⟩ := notMem_of_filter_eq_singleton htag
    -- Only text stands for text.
    obtain rfl : j = .text chosen := by
      cases j <;> simp_all [Json.toBuffered]
    -- The tag has not been seen in front of this member.
    have hnone : (Json.taggedState key chosen
        (before.map fun m => (m.1, m.2.toBuffered))).1 = none := if_neg hbefore
    rw [Json.taggedState_append_tag, if_pos rfl, hnone]
    simp [Json.entries, readCaseName_text hchosen, pure, Except.pure]
  · rw [Json.taggedState_append_other hkey, if_neg (by simpa using hkey)]
    simp [readBuffered_of_fits hj, pure, Except.pure]

/-- The tag and the other members are known when all members have been read. -/
theorem taggedState_of_filter {tag chosen : String} {es : List (String × Buffered)}
    (htag : es.filter (·.1 = tag) = [(tag, .text chosen)]) :
    Json.taggedState tag chosen es =
      (some chosen, (keyed (es.filter (·.1 ≠ tag))).reverse) := by
  have hmem : tag ∈ es.map Prod.fst := mem_map_fst_iff.mpr (htag ▸ List.cons_ne_nil _ _)
  rw [Json.taggedState, if_pos hmem]

/-- **The tag of a union is read, and its other members are buffered.** -/
theorem readTagged_of_fits {name tag chosen : String} {known : List String}
    (hchosen : chosen ∈ known) {ms : List (String × Json)}
    (htag : (Json.membersToBuffered ms).filter (·.1 = tag) = [(tag, .text chosen)])
    (hms : ∀ m ∈ ms, m.2.Fits depth) :
    readTagged g name tag known (depth + 1) path ⟨jumps, (Json.object ms).entries ++ rest⟩ =
      .ok ((chosen, .mapping (keyed ((Json.membersToBuffered ms).filter (·.1 ≠ tag)))),
        ⟨jumps, rest⟩) := by
  have hstate : readMembers (readTaggedMember g tag known depth path) (none, [])
      ⟨jumps, ms.flatMap memberEntry ++ .mappingEnd :: rest⟩ =
        .ok (Json.taggedState tag chosen (Json.membersToBuffered ms), ⟨jumps, rest⟩) := by
    refine readMembers_of_entries
      (fun done => Json.taggedState tag chosen (Json.membersToBuffered done)) ?_
    intro before key j after heq rest
    exact readTaggedMember_of_fits hchosen (heq ▸ htag) (hms (key, j) (by simp [heq])) _
  rw [taggedState_of_filter htag] at hstate
  rw [entries_object_append]
  simp only [readTagged, readNode, atNode, Option.any_none, Bool.false_eq_true, if_false,
    readTaggedMapping, hstate, bind, ok_bind, List.reverse_reverse, placed]
  rfl

end

end AliasReport.Yaml

namespace AliasReport.Document

open AliasReport.Yaml AliasReport.Number

/-! ## Shapes -/

/-- What stands for a sequence is a list. -/
theorem exists_of_toBuffered_sequence {j : Json} {bs : List Buffered}
    (h : j.toBuffered = .sequence bs) :
    ∃ items, j = .array items ∧ bs = items.map Json.toBuffered := by
  cases j <;> simp_all [Json.toBuffered, Json.itemsToBuffered_eq_map]

/-- What stands for a mapping with names is an object. -/
theorem exists_of_toBuffered_mapping {j : Json} {es : List (String × Buffered)}
    (h : j.toBuffered = .mapping (keyed es)) :
    ∃ ms, j = .object ms ∧ es = Json.membersToBuffered ms := by
  cases j with
  | object ms => exact ⟨ms, rfl, (keyed_injective (Buffered.mapping.inj h)).symm⟩
  | _ => cases h

/-- Buffering the members of an object keeps their names. -/
theorem map_fst_membersToBuffered (ms : List (String × Json)) :
    (Json.membersToBuffered ms).map Prod.fst = ms.map Prod.fst := by
  rw [Json.membersToBuffered_eq_map, List.map_map]
  rfl

/-- A member among others is buffered among them. -/
theorem membersToBuffered_append_cons {ms before after : List (String × Json)} {key : String}
    {j : Json} (h : ms = before ++ (key, j) :: after) :
    Json.membersToBuffered ms =
      Json.membersToBuffered before ++ (key, j.toBuffered) :: Json.membersToBuffered after := by
  simp [h]

variable {g : Graph} {depth jumps : ℕ} {path : Path} {rest : List Entry}

/-- The digits of a word are read as the word. -/
theorem Shape.readYaml_word (w : Width) (v : (Shape.word w).Val) :
    (Shape.word w).readYaml g depth path
        ⟨jumps, .scalar none .plain (String.ofList (decimal (w.unpack v))) :: rest⟩ =
      .ok (v, ⟨jumps, rest⟩) := by
  have hmeaningful : (isMeaningful .integer none .plain &&
      decide (w.unpack v < UInt64.size)) = true := by
    simp [isMeaningful, w.unpack_lt_size v]
  unfold Shape.readYaml
  simp only [readNode, atNode, String.toList_ofList, asUnsigned?_decimal, hmeaningful, if_true,
    w.ofFound_unpack v]
  rfl

/-- A list is read by its items from behind its start. -/
theorem Shape.readYaml_list_of_start (item : Shape) :
    (Shape.list item).readYaml g (depth + 1) path ⟨jumps, .sequenceStart none :: rest⟩ =
      placed path
        (readItems (fun index => item.readYaml g depth (.item index :: path)) 0 ⟨jumps, rest⟩) := by
  unfold Shape.readYaml
  rfl

/-- A record is read by its members from behind the start of its mapping, and then completed. -/
theorem Shape.readYaml_record_of_start (name : String) (members : Members) :
    (Shape.record name members).readYaml g (depth + 1) path ⟨jumps, .mappingStart none :: rest⟩ =
      placed path
        ((readMembers
          (fun step slots p => (readName g path .memberName p).bind fun x =>
            members.readYamlMember g depth (step :: path) x.1 slots x.2)
          members.empty ⟨jumps, rest⟩).bind fun x =>
            (matching (members.finish x.1)).map (·, x.2)) := by
  unfold Shape.readYaml
  change placed path ((readMembers _ _ _).bind _) = placed path ((readMembers _ _ _).bind _)
  refine congrArg (placed path) (congrArg _ (funext fun x => ?_))
  exact bind_ok_eq_map _ _

/-- What does not stand for nothing is read as something. -/
theorem Shape.readYaml_optional_of_value (item : Shape) {j : Json} (hj : j.toBuffered ≠ .nothing) :
    (Shape.optional item).readYaml g depth path ⟨jumps, j.entries ++ rest⟩ =
      (item.readYaml g depth path ⟨jumps, j.entries ++ rest⟩).map fun x => (some x.1, x.2) := by
  obtain ⟨e, es, hes, -⟩ := entries_cons j
  conv_lhs => unfold Shape.readYaml
  rw [atNode_entries, hes, List.cons_append]
  simp only [isNothing_of_ne_null hj hes]
  rfl

/-- A member of another name is left to those behind. -/
theorem Members.readYamlMember_of_ne {name key : String} (hkey : key ≠ name) {required : Bool}
    {shape : Shape} {others : Members} {slot : Option shape.Val} {slots : others.Slots}
    {p : Progress} :
    (Members.cons name required shape others).readYamlMember g depth path key (slot, slots) p =
      (others.readYamlMember g depth path key slots p).map
        fun (slots, p) => ((slot, slots), p) := by
  cases slot <;> exact if_neg hkey

/-- The members of a record are read if each is read when those before it have been read. -/
theorem Members.readMembers_reached (m : Members) (vs : m.Vals)
    {member : Step → m.Slots → Progress → Except Fault (m.Slots × Progress)}
    {ms : List (String × Json)}
    (hmember : ∀ before key j after, ms = before ++ (key, j) :: after → ∀ rest,
      member (.member key) (m.reached (before.map Prod.fst) vs)
          ⟨jumps, .scalar none .doubleQuoted key :: (j.entries ++ rest)⟩ =
        .ok (m.reached (before.map Prod.fst ++ [key]) vs, ⟨jumps, rest⟩)) :
    readMembers member m.empty ⟨jumps, ms.flatMap memberEntry ++ .mappingEnd :: rest⟩ =
      .ok (m.reached (ms.map Prod.fst) vs, ⟨jumps, rest⟩) := by
  rw [← m.reached_nil vs]
  refine readMembers_of_entries (fun done => m.reached (done.map Prod.fst) vs) ?_
  intro before key j after heq rest
  rw [List.map_append]
  exact hmember before key j after heq rest

mutual

/-- **The entries of what represents a value** are read as this value. -/
theorem Shape.readYaml_of_represents :
    (s : Shape) → s.sound = true → ∀ {depth : ℕ} {j : Json} {v}, j.Fits depth →
      s.Represents j.toBuffered v → ∀ (path : Path) (rest : List Entry),
        s.readYaml g depth path ⟨jumps, j.entries ++ rest⟩ = .ok (v, ⟨jumps, rest⟩)
  | .word w, _, depth, j, v, _, h, path, rest => by
    obtain rfl : j = .number (w.unpack v) := by
      cases j <;> cases h
      rfl
    exact Shape.readYaml_word w v
  | .truth _, _, depth, j, v, _, h, path, rest => by
    obtain rfl : j = .bool v := by
      cases j <;> cases h
      rfl
    cases v <;> rfl
  | .text, _, depth, j, v, _, h, path, rest => by
    obtain rfl : j = .text v := by
      cases j <;> cases h
      rfl
    exact readName_text v .text
  | .choice first others, hsound, depth, j, i, _, h, path, rest => by
    obtain rfl : j = .text (chosen first others i) := by
      cases j <;> cases h
      rfl
    have hchoose := choose_chosen (of_decide_eq_true hsound) i
    unfold Shape.readYaml
    simp only [Json.entries, List.cons_append, List.nil_append, readName_text, bind, ok_bind,
      hchoose]
    rfl
  | .list item, hsound, depth, j, vs, hj, h, path, rest => by
    obtain ⟨bs, hbs, hvs⟩ := h
    obtain ⟨items, rfl, rfl⟩ := exists_of_toBuffered_sequence hbs
    cases hj with | @array depth _ hitems => ?_
    have hvs := (List.forall₂_and_left items vs).mpr
      ⟨hitems, List.forall₂_map_left_iff.mp hvs⟩
    rw [entries_array_append, Shape.readYaml_list_of_start, readItems_of_entries ?_ 0]
    · rfl
    · exact hvs.imp fun j v ⟨hj, hv⟩ index rest =>
        item.readYaml_of_represents hsound hj hv (.item index :: path) rest
  | .optional item, hsound, depth, j, v, hj, h, path, rest => by
    cases v with
    | none =>
      obtain rfl : j = .null := by
        cases j <;> cases h
        rfl
      rfl
    | some v =>
      obtain ⟨hb, h⟩ := h
      have hitem := item.readYaml_of_represents
        (Bool.and_eq_true_iff.mp hsound).2 hj h path rest
      -- What is there does not look like nothing, so that the item itself is read.
      rw [Shape.readYaml_optional_of_value item hb, hitem]
      rfl
  | .record name members, hsound, depth, j, vs, hj, h, path, rest => by
    obtain ⟨es, hes, hvs⟩ := h
    obtain ⟨ms, rfl, rfl⟩ := exists_of_toBuffered_mapping hes
    obtain ⟨hnodup, hsound⟩ := Bool.and_eq_true_iff.mp hsound
    cases hj with | @object depth _ hms => ?_
    -- Slots are filled in the order of the text, and emptied in that of the record.
    have hfinish := members.finish_reached vs hvs
    rw [map_fst_membersToBuffered] at hfinish
    rw [entries_object_append, Shape.readYaml_record_of_start, members.readMembers_reached vs ?_,
      ok_bind, hfinish]
    · rfl
    · intro before key j after heq rest
      have hmember := members.readYamlMember_of_represents
        (membersToBuffered_append_cons heq) (hms (key, j) (by simp [heq]))
        (.member key :: path) rest (of_decide_eq_true hnodup) hsound hvs
      rw [map_fst_membersToBuffered] at hmember
      rw [readName_text, ok_bind, hmember]
  | .union name tag cases, hsound, depth, j, v, hj, h, path, rest => by
    obtain ⟨es, hes, hvs⟩ := h
    obtain ⟨ms, rfl, rfl⟩ := exists_of_toBuffered_mapping hes
    obtain ⟨hnodup, hsound⟩ := Bool.and_eq_true_iff.mp hsound
    -- The case is read from the buffer that holds the other members.
    obtain ⟨chosen, hchosen, htag, hcase⟩ :=
      cases.ofBuffered_of_represents name cases.names (of_decide_eq_true hnodup) hsound hvs
    cases hj with | @object depth _ hms => ?_
    unfold Shape.readYaml
    simp only [readTagged_of_fits hchosen htag hms, bind, ok_bind, hcase]
    rfl

/-- **A member is read** from its entries when those before it have been read. -/
theorem Members.readYamlMember_of_represents {es before after : List (String × Buffered)}
    {key : String} {j : Json} (hes : es = before ++ (key, j.toBuffered) :: after) {depth : ℕ}
    (hj : j.Fits depth) (path : Path) (rest : List Entry) :
    (m : Members) → m.names.Nodup → m.sound = true → ∀ {vs}, m.Represents es vs →
        m.readYamlMember g depth path key (m.reached (before.map Prod.fst) vs)
            ⟨jumps, j.entries ++ rest⟩ =
          .ok (m.reached (before.map Prod.fst ++ [key]) vs, ⟨jumps, rest⟩)
  | .nil, _, _, _, _ => by
    unfold Members.readYamlMember
    rw [skipNode_of_fits hj]
    rfl
  | .cons name required shape others, hnodup, hsound, (v, vs), h => by
    obtain ⟨hfresh, hnodup⟩ := List.nodup_cons.mp hnodup
    simp only [Members.sound, Bool.and_eq_true] at hsound
    by_cases hkey : key = name
    · subst hkey hes
      obtain ⟨hv, hbefore, hafter⟩ := Members.reached_append_self hfresh h
      have hv := shape.readYaml_of_represents hsound.1.2 hj hv path rest
      rw [hbefore, hafter]
      simp only [Members.readYamlMember, if_pos, hv]
      rfl
    · obtain ⟨slot, hbefore, hafter⟩ := Members.reached_append_of_ne hkey (before.map Prod.fst)
      rw [hbefore, hafter, Members.readYamlMember_of_ne hkey,
        others.readYamlMember_of_represents hes hj path rest hnodup hsound.2 h.2]
      rfl

end

end AliasReport.Document

namespace AliasReport.Yaml

open AliasReport.Document

/-- **The compact form of what represents a value** is decoded to this value. -/
theorem decode_compact {α : Type} [Described α] (hsound : (Described.shape α).sound = true)
    {j : Json} (hportable : j.Portable) (hcollection : j.IsCollection) (hfits : j.Fits depthLimit)
    {a : α} (h : (Described.shape α).Represents j.toBuffered (Described.toVal a)) :
    decode α j.compact = .ok a := by
  have hread : (Described.shape α).readYaml ⟨j.entries, [], true⟩ depthLimit []
      ⟨0, j.entries ++ []⟩ = .ok (Described.toVal a, ⟨0, []⟩) :=
    (Described.shape α).readYaml_of_represents hsound hfits h [] []
  rw [List.append_nil] at hread
  unfold decode Graph.decode
  simp only [graph_compact hportable hcollection, hread, bind, ok_bind, if_true,
    Described.ofVal_toVal]
  rfl

end AliasReport.Yaml
