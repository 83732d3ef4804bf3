import AliasReport.Aliasing.Boundary

/-! # Which bindings can be analysed

* **`leastById`** — the first binding among those with the least identifier.
* **`leastRepeated`** — the least element that occurs more than once.
* **`check`** — a binding without an end is a fault, and so is, where duplicates are rejected, an
  identifier that occurs more than once. Of several faults of one kind the one with the least
  identifier is reported, so the outcome hardly depends on the order of the bindings; an overflow
  goes before a repetition.
-/

namespace AliasReport

/-- The first binding among those with the least identifier. -/
def leastById : List Binding → Option Binding
  | [] => none
  | b :: bs =>
    match leastById bs with
    | none => some b
    | some c => if c.id < b.id then some c else some b

@[simp] theorem leastById_nil : leastById [] = none := rfl

/-- The first element that equals its successor. -/
def firstTwin : List UInt64 → Option UInt64
  | [] => none
  | [_] => none
  | a :: b :: rest => if a = b then some a else firstTwin (b :: rest)

@[simp] theorem firstTwin_nil : firstTwin [] = none := rfl

@[simp] theorem firstTwin_singleton (a : UInt64) : firstTwin [a] = none := rfl

/-- The least element that occurs more than once. -/
def leastRepeated (ids : List UInt64) : Option UInt64 :=
  firstTwin (sorted ids)

/-- Checks that bindings can be analysed under a policy. -/
def check (policy : DuplicatePolicy) (bs : List Binding) : Except BindingFault Unit :=
  match leastById (bs.filter fun b => b.end?.isNone) with
  | some b => .error (.overflow b)
  | none =>
    match policy with
    | .merge => .ok ()
    | .reject =>
      match leastRepeated (bs.map (·.id)) with
      | some id => .error (.repeated id)
      | none => .ok ()

end AliasReport
