import AliasReport.Document.Shape

/-! # Values read before their shape is known

The members of a union can come before the tag that says which case they belong to. They are read
into a buffer first, and the buffer is read again once the case is known.

* **`Buffered`** — a document without its notation.
* **`Shape.ofBuffered`** — the value of a shape that a buffer stands for.
* **`Cases.ofBuffered`** — the same for the case of a union that the tag names.

Members are found by name, or by position where a key is a natural number. Unknown members are
ignored. A record may also be the sequence of its members in the order of declaration.
-/

namespace AliasReport.Document

open AliasReport.Number

/-- A value whose shape is not known yet. -/
inductive Buffered
  | nothing
  | truth (b : Bool)
  | unsigned (n : Nat)
  | signed (n : Int)
  | real (x : Binary64)
  | text (s : String)
  | sequence (items : List Buffered)
  | mapping (entries : List (Buffered × Buffered))

namespace Buffered

/-- A buffered value as mismatches name it. -/
def found : Buffered → Found
  | .nothing => .nothing
  | .truth b => .truth b
  | .unsigned n => .unsigned n
  | .signed n => .signed n
  | .real x => .real x
  | .text s => .text s
  | .sequence _ => .sequence
  | .mapping _ => .mapping

/-- The mismatch of a buffered value with anything but its own kind. -/
def unlike {α : Type} (b : Buffered) (wanted : Wanted) : Except Mismatch α :=
  .error (.invalidType b.found wanted)

/-- The position of the member that a key stands for: by name, or by number. Other keys are
mismatches; names and numbers that stand for no member are not. -/
def memberPosition? (names : List String) : Buffered → Except Mismatch (Option Nat)
  | .text s => .ok ((indexOf? s names).map Fin.val)
  | .unsigned n => .ok (if n < names.length then some n else none)
  | key => key.unlike .memberName

/-- The choice that a buffered name or number stands for. -/
def toChoice (first : String) (others : List String) :
    Buffered → Except Mismatch (Shape.choice first others).Val
  | .text s => choose first others s
  | .unsigned n =>
    if h : n < others.length + 1 then .ok (⟨n, h⟩ : Fin (others.length + 1))
    else .error (.invalidValue (.unsigned n) (.caseIndex (others.length + 1)))
  | b => b.unlike .caseName

/-- A choice carries nothing: it is a bare name, or the only key of a mapping to nothing. -/
def readChoice (first : String) (others : List String) :
    Buffered → Except Mismatch (Shape.choice first others).Val
  | .text s => choose first others s
  | .mapping [(name, payload)] => do
    let i ← name.toChoice first others
    match payload with
    | .nothing => return i
    | .mapping [] => return i
    | b => b.unlike .nothing
  | .mapping _ => .error (.invalidValue .mapping .loneMember)
  | b => b.unlike .nameOrMapping

/-- Reads the entries of a mapping, one after another, into the members read so far: `fill` stores
a value at a position. Entries that stand for no member are passed over. -/
def fillEntries {σ : Type} (names : List String)
    (fill : Nat → σ → Buffered → Except Mismatch σ) :
    σ → List (Buffered × Buffered) → Except Mismatch σ
  | slots, [] => .ok slots
  | slots, (key, value) :: entries => do
    match ← key.memberPosition? names with
    | none => fillEntries names fill slots entries
    | some i => fillEntries names fill (← fill i slots value) entries

end Buffered

mutual

/-- The value of a shape that a buffered value stands for. -/
def Shape.ofBuffered : (s : Shape) → Buffered → Except Mismatch s.Val
  | .word w, b => w.ofFound b.found
  | .truth _, b =>
    match b with
    | .truth v => .ok v
    | _ => b.unlike .truth
  | .text, b =>
    match b with
    | .text v => .ok v
    | _ => b.unlike .text
  | .choice first others, b => b.readChoice first others
  | .list item, b =>
    match b with
    | .sequence items => items.mapM item.ofBuffered
    | _ => b.unlike .sequence
  | .optional item, b =>
    match b with
    | .nothing => .ok none
    | _ => (item.ofBuffered b).map some
  | .record name members, b =>
    match b with
    | .mapping entries => do
      members.finish (← Buffered.fillEntries members.names members.fillAt members.empty entries)
    | .sequence items => members.ofItems (.recordItems name members.count) 0 items
    | _ => b.unlike (.record name)
  | .union name tag cases, b =>
    match b with
    | .mapping entries =>
      match entries.partition (fun entry => entry.1.found = .text tag) with
      | ([], _) => .error (.missingMember tag)
      | ([(_, .text chosen)], rest) => cases.ofBuffered name cases.names chosen (.mapping rest)
      | ([(_, b)], _) => b.unlike .caseName
      | (_, _) => .error (.repeatedMember tag)
    | .sequence (.text chosen :: rest) => cases.ofBuffered name cases.names chosen (.sequence rest)
    | .sequence (b :: _) => b.unlike .caseName
    | .sequence [] => .error (.missingMember tag)
    | _ => b.unlike (.union name)

/-- Reads a value into the member at a position, which must not have one yet. -/
def Members.fillAt : (m : Members) → Nat → m.Slots → Buffered → Except Mismatch m.Slots
  | .nil, _, slots, _ => .ok slots
  | .cons name _ shape _, 0, (slot, slots), b =>
    match slot with
    | some _ => .error (.repeatedMember name)
    | none => (shape.ofBuffered b).map fun v => (some v, slots)
  | .cons _ _ _ rest, i + 1, (slot, slots), b => (rest.fillAt i slots b).map (slot, ·)

/-- Reads members from a sequence in the order of declaration. Trailing members that have a
default may be missing; nothing may be left over. `taken` counts the members read before. -/
def Members.ofItems (wanted : Wanted) :
    (taken : Nat) → (m : Members) → List Buffered → Except Mismatch m.Vals
  | taken, .nil, items =>
    if items.isEmpty then .ok ()
    else .error (.invalidLength (taken + items.length) (.itemsTaken taken))
  | taken, .cons name required shape rest, items =>
    match items with
    | b :: items => do
      let v ← shape.ofBuffered b
      let vs ← rest.ofItems wanted (taken + 1) items
      return (v, vs)
    | [] => (Members.cons name required shape rest).absent wanted taken

/-- The value of the case named `chosen`, read from the buffered rest of a union. A case without
members asks nothing of a mapping. `known` lists all cases for the mismatch. -/
def Cases.ofBuffered (name : String) (known : List String) (chosen : String) :
    (c : Cases) → Buffered → Except Mismatch c.Val
  | .nil, _ => .error (.unknownName chosen known)
  | .cons caseName label members rest, b =>
    if chosen = caseName then
      match b with
      | .mapping entries =>
        if members.count = 0 then (members.finish members.empty).map .inl
        else do
          let slots ← Buffered.fillEntries members.names members.fillAt members.empty entries
          return .inl (← members.finish slots)
      | .sequence items =>
        (members.ofItems (.caseItems name label members.count) 0 items).map .inl
      | _ => b.unlike (.record name)
    else (rest.ofBuffered name known chosen b).map .inr

end

end AliasReport.Document
