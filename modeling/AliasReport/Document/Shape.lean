import AliasReport.Document.Mismatch

/-! # Shapes of documents

A shape says which values a document may hold, independently of the notation the document is
written in. Readers and writers of a notation are functions of a shape.

* **`Shape`**, **`Members`**, **`Cases`** — words, truth values, text, lists, optional values,
  records with named members, and unions whose cases are told apart by a tag member.
* **`Shape.Val`** — the values of a shape, built from pairs, sums, lists and options.
* **`Members.Slots`** — the members of a record read so far, in any order.
* **`Members.finish`** — the members of a record once all have been read: a missing one is a
  mismatch unless it has a default.
* **`Described α`** — a type with its shape, and the passage to and from the values of the shape,
  on which nothing is lost.
-/

namespace AliasReport.Document

mutual

/-- What a document, or a part of one, may hold. -/
inductive Shape
  | word (w : Width)
  /-- A truth value, with the one that stands for a missing one. -/
  | truth (ifMissing : Bool)
  | text
  /-- One of several names; the first stands for a missing one. -/
  | choice (first : String) (others : List String)
  | list (item : Shape)
  /-- A value or nothing. Nothing is not written as a member. -/
  | optional (item : Shape)
  | record (name : String) (members : Members)
  /-- One of several records, told apart by the member named `tag`. -/
  | union (name : String) (tag : String) (cases : Cases)

/-- The members of a record in the order in which they are declared and written. -/
inductive Members
  | nil
  | cons (name : String) (required : Bool) (shape : Shape) (rest : Members)

/-- The cases of a union: the name that the tag holds, and the label that messages use. -/
inductive Cases
  | nil
  | cons (name : String) (label : String) (members : Members) (rest : Cases)

end

mutual

/-- The values of a shape. -/
def Shape.Val : Shape → Type
  | .word .u32 => UInt32
  | .word .u64 => UInt64
  | .word .size => UInt64
  | .truth _ => Bool
  | .text => String
  | .choice _ others => Fin (others.length + 1)
  | .list item => List item.Val
  | .optional item => Option item.Val
  | .record _ members => members.Vals
  | .union _ _ cases => cases.Val

/-- The values of the members of a record. -/
def Members.Vals : Members → Type
  | .nil => Unit
  | .cons _ _ shape rest => shape.Val × rest.Vals

/-- The values of a union: a case and the values of its members. -/
def Cases.Val : Cases → Type
  | .nil => Empty
  | .cons _ _ members rest => members.Vals ⊕ rest.Val

end

/-! ## Names -/

/-- The number of members of a record. -/
def Members.count : Members → Nat
  | .nil => 0
  | .cons _ _ _ rest => rest.count + 1

/-- The names of the members of a record, in order. -/
def Members.names : Members → List String
  | .nil => []
  | .cons name _ _ rest => name :: rest.names

/-- The names of the cases of a union, in order. -/
def Cases.names : Cases → List String
  | .nil => []
  | .cons name _ _ rest => name :: rest.names

/-! ## Words -/

/-- The word of a given width with the value `n`, which is below the bound of the width. -/
def Width.pack : (w : Width) → Nat → (Shape.word w).Val
  | .u32, n => UInt32.ofNat n
  | .u64, n => UInt64.ofNat n
  | .size, n => UInt64.ofNat n

/-- The value of a word. -/
def Width.unpack : (w : Width) → (Shape.word w).Val → Nat
  | .u32, (n : UInt32) => n.toNat
  | .u64, (n : UInt64) => n.toNat
  | .size, (n : UInt64) => n.toNat

/-- A word of a width is what its number is packed to. -/
@[simp] theorem Width.pack_unpack (w : Width) (v : (Shape.word w).Val) :
    w.pack (w.unpack v) = v := by
  cases w
  · exact UInt32.ofNat_toNat
  · exact UInt64.ofNat_toNat
  · exact UInt64.ofNat_toNat

/-- A number within the bound is packed to a word that stands for it. -/
theorem Width.unpack_pack {w : Width} {n : Nat} (h : n < w.bound) : w.unpack (w.pack n) = n := by
  cases w
  · exact UInt32.toNat_ofNat_of_lt' h
  · exact UInt64.toNat_ofNat_of_lt' h
  · exact UInt64.toNat_ofNat_of_lt' h

/-- A word stands for a number within the bound of its width. -/
theorem Width.unpack_lt (w : Width) (v : (Shape.word w).Val) : w.unpack v < w.bound := by
  cases w
  · exact UInt32.toNat_lt_size v
  · exact UInt64.toNat_lt_size v
  · exact UInt64.toNat_lt_size v

/-- The word that an integer in a document stands for, if it has the right width. -/
def Width.ofInt (w : Width) (n : Int) (found : Found) : Except Mismatch (Shape.word w).Val :=
  if 0 ≤ n ∧ n.toNat < w.bound then .ok (w.pack n.toNat)
  else .error (.invalidValue found (.word w))

/-- The word that a value in a document stands for. -/
def Width.ofFound (w : Width) : Found → Except Mismatch (Shape.word w).Val
  | .unsigned n => w.ofInt n (.unsigned n)
  | .signed n => w.ofInt n (.signed n)
  | found => .error (.invalidType found (.word w))

/-! ## Defaults -/

/-- The value that stands for a missing one. Records and unions have none. -/
def Shape.blank? : (s : Shape) → Option s.Val
  | .word w => some (w.pack 0)
  | .truth b => some b
  | .text => some ""
  | .choice _ others => some (⟨0, Nat.succ_pos others.length⟩ : Fin (others.length + 1))
  | .list _ => some []
  | .optional _ => some none
  | .record _ _ => none
  | .union _ _ _ => none

/-- The default of a member: none if it is required. -/
def Shape.default? (s : Shape) (required : Bool) : Option s.Val :=
  if required then none else s.blank?

/-! ## Records under construction -/

/-- The members of a record read so far. -/
def Members.Slots : Members → Type
  | .nil => Unit
  | .cons _ _ shape rest => Option shape.Val × rest.Slots

/-- No member read yet. -/
def Members.empty : (m : Members) → m.Slots
  | .nil => ()
  | .cons _ _ _ rest => (none, rest.empty)

/-- The members of a record when no more follow. The first missing one without a default, in the
order of declaration, is the mismatch. -/
def Members.finish : (m : Members) → m.Slots → Except Mismatch m.Vals
  | .nil, _ => .ok ()
  | .cons name required shape rest, (slot, slots) =>
    match slot with
    | some v => (rest.finish slots).map (v, ·)
    | none =>
      match shape.default? required with
      | some v => (rest.finish slots).map (v, ·)
      | none => .error (.missingMember name)

/-- Members that are missing from the end of a sequence take their defaults; `taken` members stand
before them. The first one without a default is a mismatch with what was wanted. -/
def Members.absent (wanted : Wanted) : (taken : Nat) → (m : Members) → Except Mismatch m.Vals
  | _, .nil => .ok ()
  | taken, .cons _ required shape rest =>
    match shape.default? required with
    | some v => (rest.absent wanted (taken + 1)).map (v, ·)
    | none => .error (.invalidLength taken wanted)

/-! ## Choices -/

/-- The position of a name in a list of names. -/
def indexOf? (name : String) : (names : List String) → Option (Fin names.length)
  | [] => none
  | n :: names =>
    if name = n then some ⟨0, Nat.succ_pos _⟩
    else (indexOf? name names).map Fin.succ

/-- A name is found where it stands if it stands nowhere else. -/
theorem indexOf?_get {names : List String} (distinct : names.Nodup) (i : Fin names.length) :
    indexOf? (names.get i) names = some i := by
  induction names with
  | nil => exact i.elim0
  | cons n names ih =>
    obtain ⟨fresh, distinct⟩ := List.nodup_cons.1 distinct
    cases i using Fin.cases with
    | zero => simp [indexOf?]
    | succ i =>
      have other : names.get i ≠ n := fun h => fresh (h ▸ List.get_mem names i)
      simp only [List.get_cons_succ', indexOf?, if_neg other, ih distinct i, Option.map_some]

/-- The choice with a given name. -/
def choose (first : String) (others : List String) (name : String) :
    Except Mismatch (Shape.choice first others).Val :=
  match indexOf? name (first :: others) with
  | some i => .ok i
  | none => .error (.unknownName name (first :: others))

/-- The name of a choice. -/
def chosen (first : String) (others : List String) (i : (Shape.choice first others).Val) : String :=
  (first :: others).get i

/-- The name of an alternative chooses it if no other has the same name. -/
theorem choose_chosen {first : String} {others : List String} (distinct : (first :: others).Nodup)
    (i : (Shape.choice first others).Val) :
    choose first others (chosen first others i) = .ok i := by
  unfold choose chosen
  rw [indexOf?_get distinct i]

/-! ## Described types -/

/-- Puts a member that must be present in front of others. -/
abbrev Members.required (name : String) (shape : Shape) (rest : Members) : Members :=
  .cons name true shape rest

/-- Puts a member that may be missing in front of others. -/
abbrev Members.defaulted (name : String) (shape : Shape) (rest : Members) : Members :=
  .cons name false shape rest

/-- A type whose values are written in documents. -/
class Described (α : Type) where
  /-- The shape of the documents. -/
  shape : Shape
  /-- The value that a document stands for. -/
  ofVal : shape.Val → α
  /-- The document of a value. -/
  toVal : α → shape.Val
  /-- A document keeps all of a value. -/
  ofVal_toVal : ∀ a, ofVal (toVal a) = a := by intro _; rfl

attribute [simp] Described.ofVal_toVal

instance : Described UInt64 where
  shape := .word .u64
  ofVal := id
  toVal := id

instance : Described UInt32 where
  shape := .word .u32
  ofVal := id
  toVal := id

instance : Described String where
  shape := .text
  ofVal := id
  toVal := id

instance {α : Type} [Described α] : Described (List α) where
  shape := .list (Described.shape α)
  ofVal := List.map Described.ofVal
  toVal := List.map Described.toVal
  ofVal_toVal as := (List.map_map ..).trans (List.map_id'' Described.ofVal_toVal as)

instance {α : Type} [Described α] : Described (Option α) where
  shape := .optional (Described.shape α)
  ofVal := Option.map Described.ofVal
  toVal := Option.map Described.toVal
  ofVal_toVal a := by cases a <;> simp

end AliasReport.Document
