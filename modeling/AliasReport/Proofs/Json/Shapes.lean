import AliasReport.Proofs.Json.Decoding
import AliasReport.Proofs.Json.Unions

/-! # Every shape is read locally

Whatever is read of a shape takes the characters that skipping would take, and is told by them.

* **`takesValues_list`**, **`takesValues_optional`**, **`takesValues_choice`**,
  **`takesValues_record`**, **`takesValues_union`** — the kinds of shapes.
* **`Members.readJsonMember_cons_eq_ok_iff`**, **`Members.readJsonItems_cons_eq_ok_iff`** — what the
  members of a record are read from.
* **`Shape.takesValues`**, **`Members.takesMembers`**, **`Members.takesItems`** — all shapes. -/

namespace AliasReport.Document

open AliasReport.Json

/-! ## Readers of shapes -/

/-- Words are read by a reader of values. -/
theorem takesValues_word (w : Width) (depth : Nat) :
    TakesValues ((Shape.word w).readJson depth) := by
  change TakesValues fun cs => (readHead cs).bind _
  refine takesValues_of_scalar (fun found cs => ?_) nofun nofun
  cases h : w.ofFound found <;> simp [h, bind, Except.bind, pure, Except.pure]

/-- Truth values are read by a reader of values. -/
theorem takesValues_truth (ifMissing : Bool) (depth : Nat) :
    TakesValues ((Shape.truth ifMissing).readJson depth) := by
  change TakesValues fun cs => (readHead cs).bind _
  refine takesValues_of_scalar (fun found cs => ?_) nofun nofun
  cases found <;> rfl

/-- Texts are read by a reader of values. -/
theorem takesValues_text (depth : Nat) : TakesValues (Shape.text.readJson depth) := by
  exact takesValues_readName .text

/-- Unions are read by a reader of values, which buffers them first. -/
theorem takesValues_union (name tag : String) (cases : Cases) (depth : Nat) :
    TakesValues ((Shape.union name tag cases).readJson depth) where
  near v := (Local.exists fun b => Local.and fun _ => (takesValues_readBuffered depth).near b).congr
    fun cs rest => Shape.readJson_union_eq_ok_iff.trans (exists_congr fun b => and_comm)
  skips h := by
    obtain ⟨b, hread, -⟩ := Shape.readJson_union_eq_ok_iff.mp h
    exact (takesValues_readBuffered depth).skips hread
  blanks cs := by
    unfold Shape.readJson
    rw [readHead_skipBlanks]

/-- Lists are read by a reader of values if their items are. -/
theorem takesValues_list {item : Shape} (h : ∀ depth, TakesValues (item.readJson depth))
    (depth : Nat) : TakesValues ((Shape.list item).readJson depth) := by
  change TakesValues fun cs => (readHead cs).bind _
  refine takesValues_of_head (fun found => ?_) (fun hread => ?_) nofun
    fun found _ _ _ hfound hread => ?_
  · cases found with
    | sequence =>
      cases depth with
      | zero => exact .error _
      | succ depth => exact readItems_local (h depth) true
    | _ => exact .error _
  · cases depth with
    | zero => cases hread
    | succ depth => exact items_of_readItems (h depth) hread
  · cases found with
    | sequence => exact absurd rfl hfound.1
    | _ => cases hread

/-- Optional values are read by a reader of values if the values are. -/
theorem takesValues_optional {item : Shape} (h : ∀ depth, TakesValues (item.readJson depth))
    (depth : Nat) : TakesValues ((Shape.optional item).readJson depth) where
  near := by
    refine .head (fun cs => ?_) (fun x => ?_) fun c hc => ?_
    · unfold Shape.readJson
      rw [skipBlanks_skipBlanks, (h depth).blanks]
    · intro hread
      obtain ⟨⟨v, rest⟩, hread, -⟩ := map_eq_ok_iff.mp hread
      exact absurd ((h depth).shortens _ _ _ hread) (Nat.not_lt_zero _)
    · unfold Shape.readJson
      simp only [skipBlanks_cons hc]
      -- The first letter decides whether null is read, and it has been taken in either case.
      refine .ite (fun _ => .taken (readKeyword_local _) none) fun _ => ?_
      refine .map some (fun v => ?_) fun _ _ => rfl
      exact ((h depth).near v).cons (fun _ _ => (h depth).shortens _ v _) c
  skips {cs v rest} hread := by
    by_cases hnull : (skipBlanks cs).head? = some 'n'
    · obtain ⟨tail, hnull⟩ := List.head?_eq_some_iff.mp hnull
      rw [Shape.readJson_optional_of_null hnull] at hread
      obtain ⟨rest, hword, heq⟩ := map_eq_ok_iff.mp hread
      cases heq
      exact skipValue_of_skipHead hnull (map_eq_ok_iff.mpr ⟨rest, hword, rfl⟩)
    · rw [Shape.readJson_optional_of_head hnull] at hread
      obtain ⟨x, hitem, heq⟩ := map_eq_ok_iff.mp hread
      cases heq
      exact (h depth).skips hitem
  blanks cs := by
    unfold Shape.readJson
    rw [skipBlanks_skipBlanks, (h depth).blanks]

/-- A text is read as a name. -/
theorem readName_quote (wanted : Wanted) (cs : List Char) :
    readName wanted ('"' :: cs) =
      (readText cs).map fun x => (String.ofList x.1, x.2) := by
  have hhead : readHead ('"' :: cs) =
      (readText cs).map fun x => (.text (String.ofList x.1), x.2) := rfl
  unfold readName
  rw [hhead]
  cases readText cs <;> rfl

/-- The only key of an object is told by what is read of it. -/
theorem readLoneKey_local : LocalReader readLoneKey := by
  refine .head (fun cs => ?_) nofun fun c hc => ?_
  · unfold readLoneKey
    rw [skipBlanks_skipBlanks]
  · unfold readLoneKey
    simp only [skipBlanks_cons hc]
    refine .ite (fun hquote => ?_) fun _ => .error _
    subst hquote
    simp only [readName_quote]
    exact readText_local.map _ fun _ _ => rfl

/-- The only key of an object is spelled behind a quote. -/
theorem spells_of_readLoneKey {cs rest : List Char} {name : String}
    (h : readLoneKey cs = .ok (name, rest)) :
    ∃ inner s, skipBlanks cs = '"' :: inner ∧ Spells inner s rest := by
  unfold readLoneKey at h
  cases hskip : skipBlanks cs with
  | nil =>
    rw [hskip] at h
    cases h
  | cons c tail =>
    rw [hskip] at h
    dsimp only at h
    split_ifs at h with hquote hclose
    · subst hquote
      -- A name between quotes is read as text.
      rw [readName_quote] at h
      obtain ⟨⟨s, rest⟩, hs, heq⟩ := map_eq_ok_iff.mp h
      cases heq
      exact ⟨tail, s, rfl, spells_of_readText hs⟩
    · cases h
    · cases h

/-- A choice that is an object is its only key, with null behind it. -/
theorem skipValue_of_readLoneKey {cs inner behind value mid rest : List Char} {name : String}
    (hopen : skipBlanks cs = '\x7b' :: inner) (hname : readLoneKey inner = .ok (name, behind))
    (hcolon : readColon behind = .ok value) (hhead : readHead value = .ok (.nothing, mid))
    (hclose : skipBlanks mid = '\x7d' :: rest) : skipValue cs = .ok rest := by
  obtain ⟨inner, s, hquote, hs⟩ := spells_of_readLoneKey hname
  have hvalue : skipValue value = .ok mid := skipValue_of_readHead hhead rfl
  have hmember : BehindColon Skipped behind () mid := ⟨value, readColon_eq_ok_iff.mp hcolon, hvalue⟩
  exact skipValue_of_entries hopen (.entry (hquote ▸ .first) hs hmember (.close hclose))

section

variable (first : String) (others : List String) (depth : Nat)

/-- A choice is read locally. -/
theorem readJsonChoice_local : LocalReader (readJsonChoice first others depth) := by
  refine .head (fun cs => ?_) (fun _ h => by cases h) fun c hc => ?_
  · unfold readJsonChoice
    rw [skipBlanks_skipBlanks]
  · unfold readJsonChoice
    simp only [skipBlanks_cons hc]
    refine .ite (fun hquote => ?_) fun _ => .ite (fun _ => .error _) fun _ =>
      .ite (fun _ => .error _) fun _ => ?_
    · subst hquote
      simp only [readName_quote]
      refine (readText_local.map _ fun _ _ => rfl).bind fun name => ?_
      dsimp only
      exact .check fun v => .pure v
    · refine readLoneKey_local.bind fun name => ?_
      dsimp only
      refine .check fun v => .behind readColon_local (readHead_local.bind fun found => ?_)
      cases found with
      | nothing =>
        refine .head (fun cs => ?_) (fun _ h => by cases h) fun c hc => ?_
        · dsimp only
          rw [skipBlanks_skipBlanks]
        · simp only [skipBlanks_cons hc]
          exact .ite (fun _ => .pure v) fun _ => .error _
      | _ => exact .error _

variable {first others depth} in
/-- A choice between quotes is a name. -/
theorem readName_of_readJsonChoice {cs inner rest : List Char} {v : (Shape.choice first others).Val}
    (hquote : skipBlanks cs = '"' :: inner)
    (h : readJsonChoice first others depth cs = .ok (v, rest)) :
    ∃ name, readName .caseName cs = .ok (name, rest) := by
  unfold readJsonChoice at h
  rw [hquote] at h
  obtain ⟨⟨name, rest⟩, hname, h⟩ := bind_eq_ok_iff.mp h
  obtain ⟨v, -, heq⟩ := bind_eq_ok_iff.mp h
  cases heq
  rw [← hquote, (takesValues_readName .caseName).blanks] at hname
  exact ⟨name, hname⟩

variable {first others depth} in
/-- A choice in brackets is the only key of an object, with null behind it. -/
theorem exists_parts_of_readJsonChoice {cs inner rest : List Char}
    {v : (Shape.choice first others).Val} (hopen : skipBlanks cs = '\x7b' :: inner)
    (h : readJsonChoice first others depth cs = .ok (v, rest)) :
    ∃ name behind value mid, readLoneKey inner = .ok (name, behind) ∧
      readColon behind = .ok value ∧ readHead value = .ok (.nothing, mid) ∧
        skipBlanks mid = '\x7d' :: rest := by
  have hquote : '\x7b' ≠ '"' := by decide
  unfold readJsonChoice at h
  rw [hopen] at h
  simp only [if_neg hquote, if_neg (not_not_intro rfl)] at h
  split_ifs at h with hdepth
  · cases h
  · obtain ⟨⟨name, behind⟩, hname, h⟩ := bind_eq_ok_iff.mp h
    obtain ⟨v, -, h⟩ := bind_eq_ok_iff.mp h
    obtain ⟨value, hcolon, h⟩ := bind_eq_ok_iff.mp h
    obtain ⟨⟨found, mid⟩, hhead, h⟩ := bind_eq_ok_iff.mp h
    cases found with
    | nothing =>
      refine ⟨name, behind, value, mid, hname, hcolon, hhead, ?_⟩
      cases hclose : skipBlanks mid with
      | nil =>
        simp only [hclose] at h
        cases h
      | cons c tail =>
        simp only [hclose] at h
        split_ifs at h with hc
        · cases h
          rw [hc]
        · cases h
    | _ => cases h

/-- A choice is a name, or the only key of an object. -/
theorem takesValues_choice : TakesValues (readJsonChoice first others depth) where
  near := readJsonChoice_local first others depth
  skips {cs v rest} hread := by
    by_cases hquote : (skipBlanks cs).head? = some '"'
    · obtain ⟨inner, hquote⟩ := List.head?_eq_some_iff.mp hquote
      obtain ⟨name, hname⟩ := readName_of_readJsonChoice hquote hread
      exact (takesValues_readName .caseName).skips hname
    by_cases hopen : (skipBlanks cs).head? = some '\x7b'
    · obtain ⟨inner, hopen⟩ := List.head?_eq_some_iff.mp hopen
      obtain ⟨_, _, _, _, hname, hcolon, hhead, hclose⟩ :=
        exists_parts_of_readJsonChoice hopen hread
      exact skipValue_of_readLoneKey hopen hname hcolon hhead hclose
    -- Nothing else starts a choice.
    unfold readJsonChoice at hread
    cases hskip : skipBlanks cs with
    | nil =>
      rw [hskip] at hread
      cases hread
    | cons c tail =>
      rw [hskip] at hquote hopen hread
      dsimp only at hread
      rw [if_neg fun hc => hquote (congrArg some hc), if_pos fun hc => hopen (congrArg some hc)]
        at hread
      cases hread
  blanks cs := by
    unfold readJsonChoice
    rw [skipBlanks_skipBlanks]

end

/-- The end of a list that must end. -/
theorem readListEnd_eq_ok_iff {cs rest : List Char} :
    readListEnd cs = .ok rest ↔ skipBlanks cs = ']' :: rest := by
  unfold readListEnd
  cases skipBlanks cs with
  | nil => simp [unfinished]
  | cons c tail =>
    by_cases hc : c = ']'
    · simp [hc]
    · dsimp only
      rw [if_neg hc]
      constructor
      · intro h
        split at h <;> cases h
      · exact fun h => absurd (List.cons.inj h).1 hc

/-- **A reader of the items of a list** that differ in kind. -/
structure TakesItems {α : Type} (first : Bool) (read : List Char → Except Fault (α × List Char)) :
    Prop where
  near : LocalReader read
  skips : ∀ {cs v rest}, read cs = .ok (v, rest) → ∃ us, Items Skipped first cs us rest

/-- Records are read by a reader of values, in either form, if their members are. -/
theorem takesValues_record {name : String} {members : Members}
    (hmember : ∀ depth, TakesMembers (members.readJsonMember depth))
    (hitems : ∀ wanted depth, TakesItems true (members.readJsonItems wanted depth 0))
    (depth : Nat) : TakesValues ((Shape.record name members).readJson depth) := by
  change TakesValues fun cs => (readHead cs).bind _
  -- A record is a list or an object; what it does with other heads takes nothing.
  refine takesValues_of_head (fun found => ?_) (fun hread => ?_) (fun hread => ?_)
    fun found _ _ _ hfound hread => ?_
  · cases found with
    | sequence =>
      cases depth with
      | zero => exact .error _
      | succ depth => exact (hitems _ depth).near
    | mapping =>
      cases depth with
      | zero => exact .error _
      | succ depth =>
        exact (readRun_local (hmember depth) true members.empty).bind fun slots =>
          .check fun vs => .pure vs
    | _ => exact .error _
  · cases depth with
    | zero => cases hread
    | succ depth => exact (hitems _ depth).skips hread
  · cases depth with
    | zero => cases hread
    | succ depth =>
      obtain ⟨⟨slots, rest⟩, hrun, hread⟩ := bind_eq_ok_iff.mp hread
      obtain ⟨vs, -, heq⟩ := bind_eq_ok_iff.mp hread
      cases heq
      exact ((readRun_eq_ok_iff (hmember depth)).mp hrun).entries (hmember depth)
  · cases found with
    | sequence => exact absurd rfl hfound.1
    | mapping => exact absurd rfl hfound.2
    | _ => cases hread

/-! ## Members -/

section

variable {name key : String} {required : Bool} {shape : Shape} {rest : Members} {depth : Nat}
  {cs : List Char}

/-- What stands behind an unknown key is skipped. -/
theorem Members.readJsonMember_nil {s : Members.nil.Slots} :
    Members.nil.readJsonMember depth key s cs =
      (readColon cs).bind fun cs => (skipValue cs).map ((), ·) := by
  unfold Members.readJsonMember
  cases readColon cs with
  | error err => rfl
  | ok inner => exact bind_ok_eq_map (skipValue inner) _

/-- What stands behind the key of a member is read. -/
theorem Members.readJsonMember_self {slots : rest.Slots} :
    (Members.cons name required shape rest).readJsonMember depth name (none, slots) cs =
      (readColon cs).bind fun cs =>
        (shape.readJson depth cs).map fun x => ((some x.1, slots), x.2) := by
  refine (if_pos rfl).trans ?_
  cases readColon cs with
  | error err => rfl
  | ok inner => exact bind_ok_eq_map (shape.readJson depth inner) _

/-- A member must not come twice. -/
theorem Members.readJsonMember_repeated {v : shape.Val} {slots : rest.Slots} :
    (Members.cons name required shape rest).readJsonMember depth name (some v, slots) cs =
      .error (.mismatch (.repeatedMember name)) :=
  if_pos rfl

/-- **A member of an object** is read into its own slot, which must be free, or it is one of the
members behind it. -/
theorem Members.readJsonMember_cons_eq_ok_iff {behind : List Char} {slot : Option shape.Val}
    {slots : rest.Slots} {s' : (Members.cons name required shape rest).Slots} :
    (Members.cons name required shape rest).readJsonMember depth key (slot, slots) cs =
        .ok (s', behind) ↔
      (key = name ∧ slot = none ∧ ∃ inner v, readColon cs = .ok inner ∧
          shape.readJson depth inner = .ok (v, behind) ∧ s' = (some v, slots)) ∨
        key ≠ name ∧ ∃ slots', rest.readJsonMember depth key slots cs = .ok (slots', behind) ∧
          s' = (slot, slots') := by
  constructor
  · intro h
    by_cases hkey : key = name
    · subst hkey
      cases slot with
      | some v => cases Members.readJsonMember_repeated.symm.trans h
      | none =>
        rw [Members.readJsonMember_self] at h
        obtain ⟨inner, hcolon, h⟩ := bind_eq_ok_iff.mp h
        obtain ⟨x, hx, heq⟩ := map_eq_ok_iff.mp h
        cases heq
        exact .inl ⟨rfl, rfl, inner, x.1, hcolon, hx, rfl⟩
    · rw [Members.readJsonMember_of_ne hkey] at h
      obtain ⟨x, hx, heq⟩ := map_eq_ok_iff.mp h
      cases heq
      exact .inr ⟨hkey, x.1, hx, rfl⟩
  · rintro (⟨rfl, rfl, inner, v, hcolon, hv, rfl⟩ | ⟨hkey, slots', hslots, rfl⟩)
    · rw [Members.readJsonMember_self, hcolon, ok_bind, hv]
      rfl
    · rw [Members.readJsonMember_of_ne hkey, hslots]
      rfl

variable {wanted : Wanted} {taken : Nat}

/-- Behind the members of a record its list ends. -/
theorem Members.readJsonItems_nil :
    Members.nil.readJsonItems wanted depth taken cs = (readListEnd cs).map ((), ·) := by
  unfold Members.readJsonItems
  exact bind_ok_eq_map (readListEnd cs) _

/-- Where a list ends before its members, those that are left take their defaults. -/
theorem Members.readJsonItems_of_inl {behind : List Char}
    (h : nextItem (taken = 0) cs = .ok (.inl behind)) :
    (Members.cons name required shape rest).readJsonItems wanted depth taken cs =
      (matching ((Members.cons name required shape rest).absent wanted taken)).map
        (·, behind) := by
  unfold Members.readJsonItems
  rw [h]
  exact bind_ok_eq_map _ _

/-- Where there is another item it is the next member. -/
theorem Members.readJsonItems_of_inr {inner : List Char}
    (h : nextItem (taken = 0) cs = .ok (.inr inner)) :
    (Members.cons name required shape rest).readJsonItems wanted depth taken cs =
      (shape.readJson depth inner).bind fun x =>
        (rest.readJsonItems wanted depth (taken + 1) x.2).map fun y => ((x.1, y.1), y.2) := by
  rw [Members.readJsonItems, h]
  simp only [bind, ok_bind]
  cases shape.readJson depth inner with
  | error err => rfl
  | ok x => exact bind_ok_eq_map (rest.readJsonItems wanted depth (taken + 1) x.2) _

/-- **The members of a record that is a list** are its items, as far as there are any. -/
theorem Members.readJsonItems_cons_eq_ok_iff {behind : List Char}
    {vs : (Members.cons name required shape rest).Vals} :
    (Members.cons name required shape rest).readJsonItems wanted depth taken cs =
        .ok (vs, behind) ↔
      ((Members.cons name required shape rest).absent wanted taken = .ok vs ∧
          skipBlanks cs = ']' :: behind) ∨
        ∃ inner, nextItem (taken = 0) cs = .ok (.inr inner) ∧
          ∃ mid, shape.readJson depth inner = .ok (vs.1, mid) ∧
            rest.readJsonItems wanted depth (taken + 1) mid = .ok (vs.2, behind) := by
  constructor
  · intro h
    cases hnext : nextItem (taken = 0) cs with
    | error err =>
      rw [Members.readJsonItems, hnext] at h
      cases h
    | ok next =>
      cases next with
      | inl mid =>
        rw [Members.readJsonItems_of_inl hnext] at h
        obtain ⟨vs, habsent, heq⟩ := map_eq_ok_iff.mp h
        cases heq
        exact .inl ⟨matching_eq_ok_iff.mp habsent, nextItem_eq_inl_iff.mp hnext⟩
      | inr inner =>
        rw [Members.readJsonItems_of_inr hnext] at h
        obtain ⟨x, hx, h⟩ := bind_eq_ok_iff.mp h
        obtain ⟨y, hy, heq⟩ := map_eq_ok_iff.mp h
        cases heq
        exact .inr ⟨inner, rfl, x.2, hx, hy⟩
  · rintro (⟨habsent, hclose⟩ | ⟨inner, hnext, mid, hv, hvs⟩)
    · rw [Members.readJsonItems_of_inl (nextItem_eq_inl_iff.mpr hclose), habsent]
      rfl
    · rw [Members.readJsonItems_of_inr hnext, hv, ok_bind, hvs]
      rfl

end

mutual

/-- **Readers of shapes take values.** -/
theorem Shape.takesValues : (s : Shape) → ∀ depth, TakesValues (s.readJson depth)
  | .word w, depth => takesValues_word w depth
  | .truth ifMissing, depth => takesValues_truth ifMissing depth
  | .text, depth => takesValues_text depth
  | .choice first others, depth => takesValues_choice first others depth
  | .list item, depth => takesValues_list item.takesValues depth
  | .optional item, depth => takesValues_optional item.takesValues depth
  | .record _ members, depth =>
    takesValues_record members.takesMembers
      (fun wanted depth => members.takesItems wanted depth 0) depth
  | .union name tag cases, depth => takesValues_union name tag cases depth

/-- Readers of members take members. -/
theorem Members.takesMembers : (m : Members) → ∀ depth, TakesMembers (m.readJsonMember depth)
  | .nil, depth => by
    constructor
    · intro key s
      exact .of_eq (.behind readColon_local (.taken skipValue_local ()))
        fun cs => Members.readJsonMember_nil
    · intro key s cs s' rest hread
      rw [Members.readJsonMember_nil] at hread
      obtain ⟨inner, hcolon, hread⟩ := bind_eq_ok_iff.mp hread
      obtain ⟨rest, hskip, heq⟩ := map_eq_ok_iff.mp hread
      cases heq
      exact ⟨inner, readColon_eq_ok_iff.mp hcolon, hskip⟩
  | .cons name required shape rest, depth => by
    constructor
    · rintro key ⟨slot, slots⟩
      by_cases hkey : key = name
      · subst hkey
        cases slot with
        | some v => exact .of_eq (.error _) fun cs => Members.readJsonMember_repeated
        | none =>
          refine .of_eq (.behind readColon_local ?_) fun cs => Members.readJsonMember_self
          exact (shape.takesValues depth).near.map (fun v => (some v, slots)) fun _ _ => rfl
      · refine .of_eq ?_ fun cs => Members.readJsonMember_of_ne hkey
        exact ((rest.takesMembers depth).near key slots).map (fun slots => (slot, slots))
          fun _ _ => rfl
    · rintro key ⟨slot, slots⟩ cs s' behind hread
      obtain ⟨rfl, rfl, inner, v, hcolon, hv, rfl⟩ | ⟨hkey, slots', hslots, rfl⟩ :=
        Members.readJsonMember_cons_eq_ok_iff.mp hread
      · exact ⟨inner, readColon_eq_ok_iff.mp hcolon, (shape.takesValues depth).skips hv⟩
      · exact (rest.takesMembers depth).skips hslots

/-- Readers of members in a list take items. -/
theorem Members.takesItems (wanted : Wanted) : (m : Members) → ∀ depth taken,
    TakesItems (taken = 0) (m.readJsonItems wanted depth taken)
  | .nil, depth, taken => by
    constructor
    · refine .of_eq (.taken ?_ ()) fun cs => Members.readJsonItems_nil
      exact (Local.mark ']').congr fun _ _ => readListEnd_eq_ok_iff
    · intro cs v rest hread
      rw [Members.readJsonItems_nil] at hread
      obtain ⟨rest, hclose, heq⟩ := map_eq_ok_iff.mp hread
      cases heq
      exact ⟨[], .close (readListEnd_eq_ok_iff.mp hclose)⟩
  | .cons name required shape rest, depth, taken => by
    have hvalue := shape.takesValues depth
    have hrest := rest.takesItems wanted depth (taken + 1)
    constructor
    · refine fun vs => Local.congr ?_ fun cs behind => Members.readJsonItems_cons_eq_ok_iff
      exact (Local.and fun _ => Local.mark ']').or
        ((nextItem_local _).comp ((hvalue.near vs.1).comp (hrest.near vs.2)))
    · intro cs vs behind hread
      obtain ⟨-, hclose⟩ | ⟨inner, hnext, mid, hv, hvs⟩ :=
        Members.readJsonItems_cons_eq_ok_iff.mp hread
      · exact ⟨[], .close hclose⟩
      · obtain ⟨us, hus⟩ := hrest.skips hvs
        have hfirst : decide (taken + 1 = 0) = false := rfl
        rw [hfirst] at hus
        exact ⟨() :: us, .item (nextItem_eq_inr_iff.mp hnext).1 (hvalue.skips hv) hus⟩

end

end AliasReport.Document
