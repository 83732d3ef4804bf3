import AliasReport.Proofs.Document.Representation

/-! # Places in values

A path leads from a value to one of the words that it holds, past items, members and the tags of
unions. Members are found by name or, since a record may be written as a list, by position.

* **`Shape.wordAt?`**, **`Shape.setWord`** — the word at the end of a path, and the value with
  another one there.
* **`Shape.wordAt?_setWord`** — what has been set is there.
* **`Members.filled?`**, **`Members.setSlot`** — the same for a record that is being read.
* **`Members.finish_setSlot`**, **`Members.fillAt_setSlot`** — once a member has been read, the
  words in it do not matter to what is read later. -/

namespace AliasReport.Document

/-! ## Paths -/

/-- A step from a value to one of those that it holds. -/
inductive Selector
  | item (i : Nat)
  | member (name : String)
deriving DecidableEq, Repr

/-- The position of the member that a step leads to. -/
def Selector.position? (names : List String) : Selector → Option Nat
  | .item i => some i
  | .member key => (indexOf? key names).map Fin.val

/-- A member stands at the first name that is its key. -/
theorem Selector.position?_cons (key name : String) (names : List String) :
    (Selector.member key).position? (name :: names) =
      if key = name then some 0 else ((Selector.member key).position? names).map (· + 1) := by
  by_cases hkey : key = name
  · rw [if_pos hkey, position?, indexOf?, if_pos hkey]
    rfl
  · rw [if_neg hkey, position?, position?, indexOf?, if_neg hkey, Option.map_map, Option.map_map]
    rfl

/-- The step in what is left of a union without its tag. -/
def Selector.past (tag : String) : Selector → Option Selector
  | .item 0 => none
  | .item (i + 1) => some (.item i)
  | .member key => if key = tag then none else some (.member key)

mutual

/-- **The word at the end of a path**, with its width. -/
def Shape.wordAt? : (s : Shape) → List Selector → s.Val → Option (Width × Nat)
  | .word w, [], v => some (w, w.unpack v)
  | .list item, .item i :: path, (vs : List item.Val) => vs[i]?.bind (item.wordAt? path)
  | .optional item, path, (v : Option item.Val) => v.bind (item.wordAt? path)
  | .record _ members, step :: path, vs =>
    (step.position? members.names).bind fun i => members.wordAt? i path vs
  | .union _ tag cases, step :: path, v =>
    (step.past tag).bind fun step => cases.wordAt? step path v
  | _, _, _ => none

/-- The word at the end of a path into the member at a position. -/
def Members.wordAt? : (m : Members) → Nat → List Selector → m.Vals → Option (Width × Nat)
  | .nil, _, _, _ => none
  | .cons _ _ shape _, 0, path, (v, _) => shape.wordAt? path v
  | .cons _ _ _ rest, i + 1, path, (_, vs) => rest.wordAt? i path vs

/-- The word at the end of a path into the members of a case. -/
def Cases.wordAt? : (c : Cases) → Selector → List Selector → c.Val → Option (Width × Nat)
  | .nil, _, _, _ => none
  | .cons _ _ members _, step, path, .inl vs =>
    (step.position? members.names).bind fun i => members.wordAt? i path vs
  | .cons _ _ _ rest, step, path, .inr v => rest.wordAt? step path v

end

mutual

/-- **The value with another word** at the end of a path. -/
def Shape.setWord : (s : Shape) → List Selector → Nat → s.Val → s.Val
  | .word w, [], n, _ => w.pack n
  | .list item, .item i :: path, n, (vs : List item.Val) => vs.modify i (item.setWord path n)
  | .optional item, path, n, (v : Option item.Val) => v.map (item.setWord path n)
  | .record _ members, step :: path, n, vs =>
    (step.position? members.names).elim vs fun i => members.setWord i path n vs
  | .union _ tag cases, step :: path, n, v =>
    (step.past tag).elim v fun step => cases.setWord step path n v
  | _, _, _, v => v

/-- The members of a record with another word at the end of a path into one of them. -/
def Members.setWord : (m : Members) → Nat → List Selector → Nat → m.Vals → m.Vals
  | .nil, _, _, _, vs => vs
  | .cons _ _ shape _, 0, path, n, (v, vs) => (shape.setWord path n v, vs)
  | .cons _ _ _ rest, i + 1, path, n, (v, vs) => (v, rest.setWord i path n vs)

/-- The case of a union with another word at the end of a path into one of its members. -/
def Cases.setWord : (c : Cases) → Selector → List Selector → Nat → c.Val → c.Val
  | .nil, _, _, _, v => v
  | .cons _ _ members _, step, path, n, .inl vs =>
    .inl ((step.position? members.names).elim vs fun i => members.setWord i path n vs)
  | .cons _ _ _ rest, step, path, n, .inr v => .inr (rest.setWord step path n v)

end

section

variable {item : Shape} (us vs : List item.Val) (v : item.Val) (path : List Selector)

/-- A path into a list goes on from one of its items. -/
theorem Shape.wordAt?_list :
    (Shape.list item).wordAt? (.item us.length :: path) (us ++ v :: vs) = item.wordAt? path v := by
  change ((us ++ v :: vs)[us.length]?).bind (item.wordAt? path) = _
  rw [List.getElem?_append_right (Nat.le_refl _), Nat.sub_self]
  rfl

/-- Another word in an item leaves the other items as they are. -/
theorem Shape.setWord_list (n : Nat) :
    (Shape.list item).setWord (.item us.length :: path) n (us ++ v :: vs) =
      us ++ item.setWord path n v :: vs := by
  change (us ++ v :: vs).modify us.length (item.setWord path n) = _
  simp [List.modify_eq_take_cons_drop]

end

/-- What is set where a search leads is found by the same search. -/
theorem bind_elim_eq_some {α β ι : Type} {found : Option ι} {get : ι → α → Option β}
    {set : ι → α → α} {a : α} {b b' : β} (h : found.bind (get · a) = some b)
    (hset : ∀ i, get i a = some b → get i (set i a) = some b') :
    found.bind (get · (found.elim a (set · a))) = some b' := by
  obtain ⟨i, rfl, hget⟩ := Option.bind_eq_some_iff.mp h
  exact hset i hget

mutual

/-- **What has been set is there.** -/
theorem Shape.wordAt?_setWord {w : Width} {k n : Nat} (hn : n < w.bound) :
    (s : Shape) → ∀ {path v}, s.wordAt? path v = some (w, k) →
      s.wordAt? path (s.setWord path n v) = some (w, n)
  | .word w', path, v, h => by
    cases path with
    | nil =>
      obtain ⟨rfl, -⟩ := Prod.mk.inj (Option.some.inj h)
      exact congrArg (fun n => some (w', n)) (Width.unpack_pack hn)
    | cons step path => cases h
  | .truth _, path, v, h => by cases path <;> cases h
  | .text, path, v, h => by cases path <;> cases h
  | .choice _ _, path, v, h => by cases path <;> cases h
  | .list item, path, (vs : List item.Val), h => by
    rcases path with _ | ⟨⟨i⟩ | ⟨key⟩, path⟩
    · cases h
    · obtain ⟨v, hv, h⟩ := Option.bind_eq_some_iff.mp h
      refine Option.bind_eq_some_iff.mpr ⟨item.setWord path n v, ?_, item.wordAt?_setWord hn h⟩
      exact List.getElem?_modify_eq .. ▸ congrArg _ hv
    · cases h
  | .optional item, path, (v : Option item.Val), h => by
    obtain ⟨v, rfl, h⟩ := Option.bind_eq_some_iff.mp h
    exact item.wordAt?_setWord hn h
  | .record name members, path, vs, h => by
    cases path with
    | nil => cases h
    | cons step path => exact bind_elim_eq_some h fun i hi => members.wordAt?_setWord hn hi
  | .union name tag cases, path, v, h => by
    cases path with
    | nil => cases h
    | cons step path => exact bind_elim_eq_some h fun step hstep => cases.wordAt?_setWord hn hstep

/-- The word that is put into a member is the word there. -/
theorem Members.wordAt?_setWord {w : Width} {k n : Nat} (hn : n < w.bound) :
    (m : Members) → ∀ {i path vs}, m.wordAt? i path vs = some (w, k) →
      m.wordAt? i path (m.setWord i path n vs) = some (w, n)
  | .nil, _, _, _, h => by cases h
  | .cons _ _ shape _, 0, path, (v, _), h =>
    have h : shape.wordAt? path v = some (w, k) := h
    shape.wordAt?_setWord hn h
  | .cons _ _ _ rest, i + 1, path, (_, vs), h =>
    have h : rest.wordAt? i path vs = some (w, k) := h
    rest.wordAt?_setWord hn h

/-- The word that is put into a case is the word there. -/
theorem Cases.wordAt?_setWord {w : Width} {k n : Nat} (hn : n < w.bound) :
    (c : Cases) → ∀ {step path v}, c.wordAt? step path v = some (w, k) →
      c.wordAt? step path (c.setWord step path n v) = some (w, n)
  | .nil, _, _, v, _ => v.elim
  | .cons _ _ members _, _, _, .inl _, h =>
    bind_elim_eq_some h fun _ hi => members.wordAt?_setWord hn hi
  | .cons _ _ _ rest, step, path, .inr v, h =>
    have h : rest.wordAt? step path v = some (w, k) := h
    rest.wordAt?_setWord hn h

end

/-! ## Described types -/

/-- **A type that holds all of its documents**: what is made of the values of the shape has them. -/
def Described.Faithful (α : Type) [Described α] : Prop :=
  ∀ v : (Described.shape α).Val, Described.toVal (Described.ofVal v : α) = v

/-- Lists hold all of their documents if their items do. -/
theorem Described.Faithful.list {α : Type} [Described α] (h : Faithful α) : Faithful (List α) :=
  fun vs => (List.map_map ..).trans (List.map_id'' h vs)

/-- Optional values hold all of their documents if the values do. -/
theorem Described.Faithful.option {α : Type} [Described α] (h : Faithful α) :
    Faithful (Option α) :=
  fun v => (Option.map_map ..).trans (by rw [show _ ∘ _ = id from funext h, Option.map_id]; rfl)

/-! ## Records that are being read -/

/-- **What a member holds** at the end of a path, if the member has been read. -/
def Members.filled? : (m : Members) → Nat → List Selector → m.Slots → Option (Option (Width × Nat))
  | .nil, _, _, _ => none
  | .cons _ _ shape _, 0, path, (slot, _) => slot.map (shape.wordAt? path)
  | .cons _ _ _ rest, i + 1, path, (_, slots) => rest.filled? i path slots

/-- The members read so far with another word at the end of a path into one of them. -/
def Members.setSlot : (m : Members) → Nat → List Selector → Nat → m.Slots → m.Slots
  | .nil, _, _, _, slots => slots
  | .cons _ _ shape _, 0, path, n, (slot, slots) => (slot.map (shape.setWord path n), slots)
  | .cons _ _ _ rest, i + 1, path, n, (slot, slots) => (slot, rest.setSlot i path n slots)

section

variable {path : List Selector} {n : Nat} {o : Option (Width × Nat)}

/-- **A record is finished** with the words that its members hold. -/
theorem Members.finish_setSlot :
    (m : Members) → ∀ {i slots vs}, m.filled? i path slots = some o → m.finish slots = .ok vs →
      m.wordAt? i path vs = o ∧ m.finish (m.setSlot i path n slots) = .ok (m.setWord i path n vs)
  | .nil, i, slots, vs, h, _ => by cases h
  | .cons name required shape rest, 0, (slot, slots), vs, h, hfinish => by
    obtain ⟨v, rfl, hv⟩ := Option.map_eq_some_iff.mp h
    obtain ⟨vs, hvs, rfl⟩ := map_eq_ok_iff.mp hfinish
    exact ⟨hv, map_eq_ok_iff.mpr ⟨vs, hvs, rfl⟩⟩
  | .cons name required shape rest, i + 1, (slot, slots), vs, h, hfinish => by
    cases slot with
    | some v =>
      obtain ⟨vs, hvs, rfl⟩ := map_eq_ok_iff.mp hfinish
      obtain ⟨hword, hset⟩ := rest.finish_setSlot h hvs
      exact ⟨hword, map_eq_ok_iff.mpr ⟨_, hset, rfl⟩⟩
    | none =>
      -- An empty slot takes its default, which is not where the path leads.
      cases hdefault : shape.default? required with
      | none => simp [Members.finish, hdefault] at hfinish
      | some v =>
        simp only [Members.finish, Members.setSlot, hdefault] at hfinish ⊢
        obtain ⟨vs, hvs, rfl⟩ := map_eq_ok_iff.mp hfinish
        obtain ⟨hword, hset⟩ := rest.finish_setSlot h hvs
        exact ⟨hword, map_eq_ok_iff.mpr ⟨_, hset, rfl⟩⟩

/-- **Later members do not look at the words of earlier ones.** -/
theorem Members.fillAt_setSlot {b : Buffered} :
    (m : Members) → ∀ {i j slots slots'}, m.filled? i path slots = some o →
      m.fillAt j slots b = .ok slots' →
        m.filled? i path slots' = some o ∧
          m.fillAt j (m.setSlot i path n slots) b = .ok (m.setSlot i path n slots')
  | .nil, i, j, slots, slots', h, _ => by cases h
  | .cons name required shape rest, i, j, (slot, slots), slots', h, hfill => by
    cases j with
    | zero =>
      cases slot with
      | some u => cases hfill
      | none =>
        obtain ⟨v, hv, rfl⟩ := map_eq_ok_iff.mp hfill
        cases i with
        | zero => cases h
        | succ i => exact ⟨h, map_eq_ok_iff.mpr ⟨v, hv, rfl⟩⟩
    | succ j =>
      obtain ⟨_, hrest, rfl⟩ := map_eq_ok_iff.mp hfill
      cases i with
      | zero => exact ⟨h, map_eq_ok_iff.mpr ⟨_, hrest, rfl⟩⟩
      | succ i =>
        obtain ⟨hfilled, hset⟩ := rest.fillAt_setSlot h hrest
        exact ⟨hfilled, map_eq_ok_iff.mpr ⟨_, hset, rfl⟩⟩

end

end AliasReport.Document
