import AliasReport.Proofs.Json.Places

/-! # Words in JSON texts

Where a word is read at the end of a path, another scalar at the place means another word there and
the same value besides, or a fault if it is no word of the right width. This holds for words that
are read at once and for those that are buffered first.

* **`Rereads`** — what a reader makes of other scalars at a place; `Rereads.map` passes it on.
* **`Members.readJsonMember_setSlot`** — members that have been read do not matter to others.
* **`Shape.RereadsAt`**, **`Members.MemberRereadsAt`**, **`Members.ItemsRereadAt`** — this for all
  values of a shape and for all members of a record, with one lemma per constructor.
* **`Shape.readJson_at`** — values of any shape. -/

namespace AliasReport.Document

open AliasReport.Json

/-- **What is read with other scalars at a place**: what `set` makes of the word that such a scalar
is, or nothing. -/
def Rereads {α : Type} (read : List Char → Except Fault (α × List Char)) (w : Width)
    (pre post : List Char) (set : Nat → α) (rest : List Char) : Prop :=
  ∀ place value, ScalarAt place value post →
    (read (pre ++ place)).toOption =
      (value.toOption.bind w.wordOf?).map fun n => (set n, rest)

/-- A reader that passes on what another one reads, with the same scalars at its place. -/
theorem Rereads.map {α β : Type} {read : List Char → Except Fault (α × List Char)}
    {read' : List Char → Except Fault (β × List Char)} {w : Width} {pre pre' post : List Char}
    {set : Nat → α} {rest : List Char} (h : Rereads read w pre post set rest) (f : α → β)
    (hread : ∀ place value, ScalarAt place value post →
      read' (pre' ++ place) = (read (pre ++ place)).map fun x => (f x.1, x.2)) :
    Rereads read' w pre' post (fun n => f (set n)) rest := by
  intro place value hplace
  rw [hread place value hplace]
  exact toOption_map_of (h place value hplace) fun x => (f x.1, x.2)

/-! ## Readers of shapes -/

section

variable {depth : Nat} {cs inner : List Char}

/-- A list that is read may be opened. -/
theorem Shape.exists_depth_of_list {item : Shape} (hopen : skipBlanks cs = '[' :: inner)
    {x : List item.Val × List Char} (h : (Shape.list item).readJson depth cs = .ok x) :
    ∃ limit, depth = limit + 1 ∧ readItems (item.readJson limit) true inner = .ok x := by
  cases depth with
  | zero =>
    unfold Shape.readJson at h
    rw [readHead_of_skipBlanks_list hopen] at h
    cases h
  | succ limit => exact ⟨limit, rfl, (Shape.readJson_list_of_open hopen).symm.trans h⟩

/-- A record that is read may be opened. -/
theorem Shape.exists_depth_of_record {name : String} {members : Members} {c : Char}
    (hc : c = '[' ∨ c = '\x7b') (hopen : skipBlanks cs = c :: inner)
    {x : members.Vals × List Char} (h : (Shape.record name members).readJson depth cs = .ok x) :
    ∃ limit, depth = limit + 1 := by
  cases depth with
  | zero =>
    unfold Shape.readJson at h
    obtain rfl | rfl := hc
    · rw [readHead_of_skipBlanks_list hopen] at h
      cases h
    · rw [readHead_of_skipBlanks_object hopen] at h
      cases h
  | succ limit => exact ⟨limit, rfl⟩

/-- A scalar is read as a word, if it is one. -/
theorem Shape.readJson_word_of_head {w : Width} {value : Except Fault Found} {post : List Char}
    (h : readHead cs = value.map (·, post)) :
    ((Shape.word w).readJson depth cs).toOption =
      (value.toOption.bind w.wordOf?).map fun n => (w.pack n, post) := by
  unfold Shape.readJson
  rw [h]
  cases value with
  | error err => rfl
  | ok found =>
    change ((matching (w.ofFound found)).bind fun v => .ok (v, post)).toOption =
      (w.wordOf? found).map fun n => (w.pack n, post)
    cases hword : w.ofFound found with
    | error err =>
      rw [Width.wordOf?, hword]
      rfl
    | ok v => simp [Width.wordOf?, hword, Except.toOption]

/-- To name a mismatch as a fault changes no value. -/
theorem toOption_matching {α : Type} (x : Except Mismatch α) :
    (matching x).toOption = x.toOption :=
  toOption_congr fun _ => matching_eq_ok_iff

/-- What is read of a union is what would be read of it from a buffer. -/
theorem Shape.toOption_readJson_union {name tag : String} {cases : Cases} :
    ((Shape.union name tag cases).readJson depth cs).toOption =
      ((readBuffered depth cs).bind fun x =>
        (matching ((Shape.union name tag cases).ofBuffered x.1)).map (·, x.2)).toOption := by
  refine toOption_congr fun ⟨v, rest⟩ => Shape.readJson_union_eq_ok_iff.trans ?_
  rw [bind_eq_ok_iff]
  constructor
  · rintro ⟨b, hread, hb⟩
    exact ⟨_, hread, map_eq_ok_iff.mpr ⟨v, matching_eq_ok_iff.mpr hb, rfl⟩⟩
  · rintro ⟨⟨b, rest⟩, hread, hb⟩
    obtain ⟨v, hv, heq⟩ := map_eq_ok_iff.mp hb
    cases heq
    exact ⟨b, hread, matching_eq_ok_iff.mp hv⟩

/-- Texts that go on in different ways start alike, or where they differ. -/
theorem head?_skipBlanks_append_ne {pre place place' : List Char} {c : Char} (hopens : Opens place')
    (hne : place'.head? ≠ some c) (h : (skipBlanks (pre ++ place)).head? ≠ some c) :
    (skipBlanks (pre ++ place')).head? ≠ some c := by
  obtain ⟨blanks, heq, hblanks⟩ := exists_blanks pre
  rw [heq, List.append_assoc, hblanks] at h ⊢
  cases hskip : skipBlanks pre with
  | nil =>
    rw [List.nil_append, hopens.skipBlanks]
    exact hne
  | cons d tail =>
    have hd := isBlank_of_skipBlanks hskip
    rw [hskip, List.cons_append, skipBlanks_cons hd] at h
    rw [List.cons_append, skipBlanks_cons hd]
    exact h

end

/-! ## Members -/

section

variable {depth : Nat} {key : String} {path : List Selector} {cs : List Char}

/-- **Members that have been read do not matter to others.** -/
theorem Members.readJsonMember_setSlot {n : Nat} {o : Option (Width × Nat)} :
    (m : Members) → ∀ {i slots slots' rest}, m.filled? i path slots = some o →
      m.readJsonMember depth key slots cs = .ok (slots', rest) →
        m.filled? i path slots' = some o ∧
          m.readJsonMember depth key (m.setSlot i path n slots) cs =
            .ok (m.setSlot i path n slots', rest)
  | .nil, i, slots, slots', rest, h, _ => by cases h
  | .cons name required shape others, i, (slot, slots), slots', rest, h, hread => by
    obtain ⟨rfl, rfl, inner, v, hcolon, hv, rfl⟩ | ⟨hkey, slots', hothers, rfl⟩ :=
      Members.readJsonMember_cons_eq_ok_iff.mp hread
    · cases i with
      | zero => cases h
      | succ i =>
        exact ⟨h, Members.readJsonMember_cons_eq_ok_iff.mpr
          (.inl ⟨rfl, rfl, inner, v, hcolon, hv, rfl⟩)⟩
    · cases i with
      | zero =>
        exact ⟨h, Members.readJsonMember_cons_eq_ok_iff.mpr (.inr ⟨hkey, slots', hothers, rfl⟩)⟩
      | succ i =>
        obtain ⟨hfilled, hset⟩ := others.readJsonMember_setSlot h hothers
        exact ⟨hfilled,
          Members.readJsonMember_cons_eq_ok_iff.mpr (.inr ⟨hkey, _, hset, rfl⟩)⟩

/-- A member that has been read is filled. -/
theorem Members.filled?_of_readJsonMember (path : List Selector) :
    (m : Members) → ∀ {i slots slots' rest}, (Selector.member key).position? m.names = some i →
      m.readJsonMember depth key slots cs = .ok (slots', rest) →
        ∃ o, m.filled? i path slots' = some o
  | .nil, i, slots, slots', rest, hi, _ => by cases hi
  | .cons name required shape others, i, (slot, slots), slots', rest, hi, hread => by
    rw [Members.names, Selector.position?_cons] at hi
    obtain ⟨rfl, rfl, inner, v, -, -, rfl⟩ | ⟨hkey, slots', hothers, rfl⟩ :=
      Members.readJsonMember_cons_eq_ok_iff.mp hread
    · rw [if_pos rfl] at hi
      cases hi
      exact ⟨_, rfl⟩
    · rw [if_neg hkey] at hi
      obtain ⟨i, hrest, rfl⟩ := Option.map_eq_some_iff.mp hi
      exact others.filled?_of_readJsonMember path hrest hothers

/-- Members behind another one do not look at the words in it. -/
theorem Members.run_setSlot {m : Members} {i n : Nat} {o : Option (Width × Nat)} {first : Bool}
    {slots slots' : m.Slots} {rest : List Char}
    (hrun : Run (m.readJsonMember depth) first slots cs slots' rest)
    (h : m.filled? i path slots = some o) :
    m.filled? i path slots' = some o ∧
      Run (m.readJsonMember depth) first (m.setSlot i path n slots) cs
        (m.setSlot i path n slots') rest := by
  induction hrun with
  | close hclose => exact ⟨h, .close hclose⟩
  | member hkey hmember _ ih =>
    obtain ⟨hfilled, hset⟩ := m.readJsonMember_setSlot h hmember
    obtain ⟨hfilled, hrun⟩ := ih hfilled
    exact ⟨hfilled, .member hkey hset hrun⟩

end

/-! ## Values -/

/-- **Other scalars at a place** in a value of a shape are other words in it, or faults. -/
def Shape.RereadsAt (s : Shape) (w : Width) (k : Nat) (place post : List Char) : Prop :=
  ∀ ⦃depth path cs v rest⦄, StandsAt path cs place → s.readJson depth cs = .ok (v, rest) →
    s.wordAt? path v = some (w, k) → ∃ pre, cs = pre ++ place ∧
      Rereads (s.readJson depth) w pre post (fun n => s.setWord path n v) rest

/-- Other scalars at a place behind a key are other words in that member. -/
def Members.MemberRereadsAt (m : Members) (w : Width) (k : Nat) (place post : List Char) : Prop :=
  ∀ ⦃key colon inner path⦄, (∀ cs, readColon (colon ++ cs) = .ok cs) → StandsAt path inner place →
    ∀ ⦃depth i slots slots' rest⦄, (Selector.member key).position? m.names = some i →
      m.readJsonMember depth key slots (colon ++ inner) = .ok (slots', rest) →
        m.filled? i path slots' = some (some (w, k)) → ∃ pre, inner = pre ++ place ∧
          Rereads (m.readJsonMember depth key slots) w (colon ++ pre) post
            (fun n => m.setSlot i path n slots') rest

/-- Other scalars at a place among the items of a list are other words in the members that these
items are. -/
def Members.ItemsRereadAt (m : Members) (w : Width) (k : Nat) (place post : List Char) : Prop :=
  ∀ ⦃wanted depth taken i path cs inner vs rest⦄, ItemAt i (taken = 0) cs inner →
    StandsAt path inner place → m.readJsonItems wanted depth taken cs = .ok (vs, rest) →
      m.wordAt? i path vs = some (w, k) → ∃ pre, cs = pre ++ place ∧ (taken ≠ 0 → pre ≠ []) ∧
        Rereads (m.readJsonItems wanted depth taken) w pre post
          (fun n => m.setWord i path n vs) rest

section

variable {w : Width} {k : Nat} {place post : List Char} {value : Except Fault Found}
  (hplace : ScalarAt place value post)

include hplace

/-- The scalar that a word is. -/
theorem Shape.word_rereadsAt (w' : Width) : (Shape.word w').RereadsAt w k place post := by
  rintro depth path cs v rest h hread hw
  cases h with
  | item => cases hw
  | member => cases hw
  | here =>
    obtain ⟨rfl, -⟩ := Prod.mk.inj (Option.some.inj hw)
    have hblank := (takesValues_word w' depth).blanks
    obtain rfl : rest = post := by
      rw [← hblank] at hread
      obtain ⟨x, hx, hread⟩ := bind_eq_ok_iff.mp hread
      rw [hplace.head] at hx
      obtain ⟨found, -, rfl⟩ := map_eq_ok_iff.mp hx
      obtain ⟨_, -, heq⟩ := bind_eq_ok_iff.mp hread
      cases heq
      rfl
    obtain ⟨blanks, heq, hblanks⟩ := exists_blanks cs
    refine ⟨blanks, heq, fun place' value' h' => ?_⟩
    rw [← hblank, hblanks, h'.opens.skipBlanks]
    exact Shape.readJson_word_of_head h'.head

/-- A place in one of the items of a list. -/
theorem Shape.list_rereadsAt {item : Shape} (hitem : item.RereadsAt w k place post) :
    (Shape.list item).RereadsAt w k place post := by
  rintro depth path cs vs rest h hread hw
  cases h with
  | here => cases hw
  | member => cases hw
  | @item i path cs inner value place hopen hat h =>
    -- A place in an item is not what closes the list.
    have hopens : Opens value := hat.skipBlanks ▸ h.opens hplace.opens
    obtain ⟨depth, rfl, hitems⟩ := Shape.exists_depth_of_list hopen hread
    obtain ⟨lead, hlead, -, hlead'⟩ := exists_open hopen
    obtain ⟨front, us, v, ws, mid, hfront, -, rfl, rfl, hv, hws, hfront'⟩ :=
      readItems_at (item.takesValues depth) hat hopens hitems
    rw [Shape.wordAt?_list] at hw
    obtain ⟨pre, rfl, hpre⟩ := hitem h hv hw
    refine ⟨lead ++ (front ++ pre), by simp [hlead, hfront], fun place' value' h' => ?_⟩
    rw [List.append_assoc, List.append_assoc, Shape.readJson_list_of_open (hlead' _),
      hfront' _ (hopens.append_congr h'.opens)]
    refine toOption_bind_of_forall (hpre place' value' h') fun n => ?_
    rw [hws]
    exact congrArg (fun vs => Except.ok (vs, rest)) (Shape.setWord_list us ws v path n).symm

omit hplace in
/-- A place in an optional value that is there: no scalar at it makes the value start like null. -/
theorem Shape.optional_rereadsAt {item : Shape} (hitem : item.RereadsAt w k place post) :
    (Shape.optional item).RereadsAt w k place post := by
  rintro depth path cs v rest h hread hw
  by_cases hnull : (skipBlanks cs).head? = some 'n'
  · obtain ⟨tail, hnull⟩ := List.head?_eq_some_iff.mp hnull
    rw [Shape.readJson_optional_of_null hnull] at hread
    obtain ⟨_, -, heq⟩ := map_eq_ok_iff.mp hread
    cases heq
    cases hw
  · rw [Shape.readJson_optional_of_head hnull] at hread
    obtain ⟨⟨v, rest⟩, hv, heq⟩ := map_eq_ok_iff.mp hread
    cases heq
    obtain ⟨pre, rfl, hpre⟩ := hitem h hv hw
    refine ⟨pre, rfl, hpre.map some fun place' value' h' => ?_⟩
    exact Shape.readJson_optional_of_head
      (head?_skipBlanks_append_ne h'.opens h'.not_null hnull)

omit hplace in
/-- A place in one of the members of a record, which is a list or an object. -/
theorem Shape.record_rereadsAt {name : String} {members : Members}
    (hmember : members.MemberRereadsAt w k place post)
    (hitems : members.ItemsRereadAt w k place post) :
    (Shape.record name members).RereadsAt w k place post := by
  rintro depth path cs vs rest h hread hw
  cases h with
  | here => cases hw
  | @item i path cs inner value place hopen hat h =>
    obtain ⟨depth, rfl⟩ := Shape.exists_depth_of_record (.inl rfl) hopen hread
    obtain ⟨lead, hlead, -, hlead'⟩ := exists_open hopen
    rw [Shape.readJson_record_of_list hopen] at hread
    obtain ⟨pre, rfl, -, hpre⟩ := hitems hat h hread hw
    refine ⟨lead ++ pre, by simp [hlead], fun place' value' h' => ?_⟩
    rw [List.append_assoc, Shape.readJson_record_of_list (hlead' _)]
    exact hpre place' value' h'
  | @member key path cs inner value place hopen hat h =>
    obtain ⟨depth, rfl⟩ := Shape.exists_depth_of_record (.inr rfl) hopen hread
    have htakes := members.takesMembers depth
    obtain ⟨lead, hlead, -, hlead'⟩ := exists_open hopen
    rw [Shape.readJson_record_of_object hopen] at hread
    obtain ⟨⟨slots, rest⟩, hrun, hread⟩ := bind_eq_ok_iff.mp hread
    obtain ⟨vs, hfinish, heq⟩ := map_eq_ok_iff.mp hread
    cases heq
    obtain ⟨front, colon, before, behind, mid, hfront, hcolon, hvalue, htail, hfront'⟩ :=
      readRun_at htakes hat ((readRun_eq_ok_iff htakes).mp hrun)
    obtain ⟨i, hi, hw⟩ := Option.bind_eq_some_iff.mp hw
    obtain ⟨o, ho⟩ := members.filled?_of_readJsonMember path hi hvalue
    -- The members behind the place keep its slot, and the record is finished with it.
    have hset := fun n => Members.run_setSlot (n := n) htail ho
    have hend := fun n =>
      members.finish_setSlot (n := n) (hset 0).1 (matching_eq_ok_iff.mp hfinish)
    obtain rfl : o = some (w, k) := (hend 0).1.symm.trans hw
    obtain ⟨pre, rfl, hpre⟩ := hmember hcolon h hi hvalue ho
    refine ⟨lead ++ (front ++ (colon ++ pre)), by simp [hlead, hfront],
      fun place' value' h' => ?_⟩
    have hthere := hpre place' value' h'
    rw [List.append_assoc] at hthere
    rw [List.append_assoc, List.append_assoc, List.append_assoc,
      Shape.readJson_record_of_object (hlead' _), readMembers_eq_readRun, hfront']
    refine toOption_bind_of_forall (toOption_bind_of_forall hthere fun n =>
      (readRun_eq_ok_iff htakes).mpr (hset n).2) fun n => ?_
    rw [matching_eq_ok_iff.mpr (hend n).2]
    exact congrArg (fun vs => Except.ok (vs, rest)) (members.setWord_at hi vs).symm

/-- A place in a union, which is buffered first. -/
theorem Shape.union_rereadsAt (name tag : String) (cases : Cases) :
    (Shape.union name tag cases).RereadsAt w k place post := by
  rintro depth path cs v rest h hread hw
  obtain ⟨b, hread, hb⟩ := Shape.readJson_union_eq_ok_iff.mp hread
  -- In the buffer the place is a hole, and what is read from there does not look at the text.
  obtain ⟨pre, f, x₀, rfl, hole, rfl, hpre⟩ := readBuffered_at hplace h hread
  refine ⟨pre, rfl, fun place' value' h' => ?_⟩
  rw [Shape.toOption_readJson_union, toOption_bind, hpre place' value' h']
  cases value' with
  | error err => rfl
  | ok found =>
    obtain ⟨hscalar, hnothing⟩ := h'.found found rfl
    have hx : ofScalar found ≠ .nothing := fun hx => hnothing (by rw [← hscalar, hx]; rfl)
    have hset := (Shape.union name tag cases).ofBuffered_hole hx hole hb hw
    rw [hscalar, ← toOption_matching] at hset
    exact toOption_map_of hset (·, rest)

omit hplace in
/-- A place in the first member, or in one of those behind it. -/
theorem Members.cons_memberRereadsAt {name : String} {required : Bool} {shape : Shape}
    {others : Members} (hshape : shape.RereadsAt w k place post)
    (hothers : others.MemberRereadsAt w k place post) :
    (Members.cons name required shape others).MemberRereadsAt w k place post := by
  rintro key colon inner path hcolon h depth i ⟨slot, slots⟩ slots' rest hi hread hw
  rw [Members.names, Selector.position?_cons] at hi
  obtain ⟨rfl, rfl, inner', v, hcolon', hv, rfl⟩ | ⟨hkey, slots', hslots, rfl⟩ :=
    Members.readJsonMember_cons_eq_ok_iff.mp hread
  · rw [if_pos rfl] at hi
    cases hi
    obtain rfl : inner = inner' := Except.ok.inj ((hcolon inner).symm.trans hcolon')
    obtain ⟨pre, rfl, hpre⟩ := hshape h hv (Option.some.inj hw)
    refine ⟨pre, rfl, hpre.map (fun v => (some v, slots)) fun place' value' h' => ?_⟩
    rw [List.append_assoc, Members.readJsonMember_self, hcolon, ok_bind]
  · rw [if_neg hkey] at hi
    obtain ⟨i, hrest, rfl⟩ := Option.map_eq_some_iff.mp hi
    obtain ⟨pre, rfl, hpre⟩ := hothers hcolon h hrest hslots hw
    exact ⟨pre, rfl, hpre.map (fun slots => (slot, slots)) fun place' value' h' =>
      Members.readJsonMember_of_ne hkey⟩

/-- A place in the item that is the first member, or in one of those behind it. -/
theorem Members.cons_itemsRereadAt {name : String} {required : Bool} {shape : Shape}
    {others : Members} (hshape : shape.RereadsAt w k place post)
    (hothers : others.ItemsRereadAt w k place post) :
    (Members.cons name required shape others).ItemsRereadAt w k place post := by
  rintro wanted depth taken i path cs value vs rest hitem h hread hw
  have hopens : Opens value := hitem.skipBlanks ▸ h.opens hplace.opens
  cases hitem with
  | here hstart =>
    have hnext : nextItem (taken = 0) cs = .ok (.inr value) :=
      nextItem_eq_inr_iff.mpr ⟨hstart, hopens⟩
    rw [Members.readJsonItems_of_inr hnext] at hread
    obtain ⟨⟨v, mid⟩, hv, hread⟩ := bind_eq_ok_iff.mp hread
    obtain ⟨⟨vs, rest⟩, hvs, heq⟩ := map_eq_ok_iff.mp hread
    cases heq
    obtain ⟨front, rfl, hnil, hfront⟩ := hstart.exists_pre
    obtain ⟨pre, rfl, hpre⟩ := hshape h hv hw
    refine ⟨front ++ pre, (List.append_assoc ..).symm, fun htaken hempty =>
      hnil (decide_eq_false htaken) (List.append_eq_nil_iff.mp hempty).1,
        fun place' value' h' => ?_⟩
    have hopens' := hopens.append_congr h'.opens
    rw [List.append_assoc, Members.readJsonItems_of_inr
      (nextItem_eq_inr_iff.mpr ⟨hfront _ hopens', hopens'⟩)]
    refine toOption_bind_of_forall (hpre place' value' h') fun n => ?_
    rw [hvs]
    rfl
  | @there i _ _ inner mid _ hstart hskip hitem =>
    have hnext : nextItem (taken = 0) cs = .ok (.inr inner) := nextItem_of_skipped hstart hskip
    rw [Members.readJsonItems_of_inr hnext] at hread
    obtain ⟨⟨v, mid'⟩, hv, hread⟩ := bind_eq_ok_iff.mp hread
    obtain ⟨⟨vs, rest⟩, hvs, heq⟩ := map_eq_ok_iff.mp hread
    cases heq
    have hvalue := shape.takesValues depth
    obtain rfl : mid' = mid := Except.ok.inj ((hvalue.skips hv).symm.trans hskip)
    obtain ⟨pre, rfl, hnil, hpre⟩ := hothers hitem h hvs hw
    -- The item in front takes the same characters, whatever is at the place.
    obtain ⟨used, rfl, hused⟩ :=
      ((nextItem_local _).comp (hvalue.near v)) cs _ ⟨inner, hnext, hv⟩
    refine ⟨used ++ pre, (List.append_assoc ..).symm, fun _ hempty =>
      hnil (Nat.succ_ne_zero taken) (List.append_eq_nil_iff.mp hempty).2,
        hpre.map (fun vs => (v, vs)) fun place' value' h' => ?_⟩
    obtain ⟨inner', hnext', hv'⟩ := hused _ (head?_append_eq (hnil (Nat.succ_ne_zero taken)) ..)
    rw [List.append_assoc, Members.readJsonItems_of_inr hnext', hv', ok_bind]

end

mutual

/-- **Another scalar at a place** is another word in what is read, or a fault. -/
theorem Shape.readJson_at {w : Width} {k : Nat} {place post : List Char}
    {value : Except Fault Found} (hplace : ScalarAt place value post) :
    (s : Shape) → s.RereadsAt w k place post
  | .word w' => Shape.word_rereadsAt hplace w'
  | .truth _ => fun _ path _ _ _ _ _ hw => by cases path <;> cases hw
  | .text => fun _ path _ _ _ _ _ hw => by cases path <;> cases hw
  | .choice _ _ => fun _ path _ _ _ _ _ hw => by cases path <;> cases hw
  | .list item => Shape.list_rereadsAt hplace (item.readJson_at hplace)
  | .optional item => Shape.optional_rereadsAt (item.readJson_at hplace)
  | .record _ members =>
    Shape.record_rereadsAt (members.readJsonMember_at hplace) (members.readJsonItems_at hplace)
  | .union name tag cases => Shape.union_rereadsAt hplace name tag cases

/-- A member with another scalar in it. -/
theorem Members.readJsonMember_at {w : Width} {k : Nat} {place post : List Char}
    {value : Except Fault Found} (hplace : ScalarAt place value post) :
    (m : Members) → m.MemberRereadsAt w k place post
  | .nil => fun _ _ _ _ _ _ _ _ _ _ _ hi => by cases hi
  | .cons _ _ shape others =>
    Members.cons_memberRereadsAt (shape.readJson_at hplace) (others.readJsonMember_at hplace)

/-- The members of a record that is a list, with another scalar in one of them. -/
theorem Members.readJsonItems_at {w : Width} {k : Nat} {place post : List Char}
    {value : Except Fault Found} (hplace : ScalarAt place value post) :
    (m : Members) → m.ItemsRereadAt w k place post
  | .nil => fun _ _ _ _ _ _ _ _ _ _ _ _ hw => by cases hw
  | .cons _ _ shape others =>
    Members.cons_itemsRereadAt hplace (shape.readJson_at hplace) (others.readJsonItems_at hplace)

end

end AliasReport.Document
