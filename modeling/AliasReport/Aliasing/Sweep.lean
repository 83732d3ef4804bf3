import AliasReport.Aliasing.Check

/-! # The sweep over the boundary points

Between two neighbouring boundary points the set of covering bindings is constant. The sweep goes
from point to point, keeps the identifiers that are active, and reports the stretch up to the next
point whenever two or more are.

* **`activate`**, **`deactivate`** — the active identifiers as an ascending list without
  repetitions.
* **`sweep`** — the aliased regions, given the crossings and the boundary points.
* **`aliasedRegions`** — the aliased regions of the bindings of an allocation.

At a point bindings end before others begin, so bindings that only touch do not alias. An
identifier is active or not: it is not counted how many of its bindings are open.
-/

namespace AliasReport

/-- Adds an identifier to an ascending list without repetitions. -/
def activate (id : UInt64) : List UInt64 → List UInt64
  | [] => [id]
  | a :: rest =>
    if id < a then id :: a :: rest
    else if id = a then a :: rest
    else a :: activate id rest

@[simp] theorem activate_nil (id : UInt64) : activate id [] = [id] := rfl

/-- An identifier that becomes active joins those that are. -/
theorem mem_activate {x id : UInt64} {active : List UInt64} :
    x ∈ activate id active ↔ x = id ∨ x ∈ active := by
  induction active with
  | nil => simp
  | cons a rest ih =>
    unfold activate
    split
    · simp
    · split
      · next h => subst h; simp
      · simp only [List.mem_cons, ih]
        exact or_left_comm

/-- Removes an identifier. -/
def deactivate (id : UInt64) (active : List UInt64) : List UInt64 :=
  active.filter (· ≠ id)

/-- An identifier that ends is active no more, and the others stay so. -/
@[simp] theorem mem_deactivate {x id : UInt64} {active : List UInt64} :
    x ∈ deactivate id active ↔ x ∈ active ∧ x ≠ id := by
  simp [deactivate]

/-- The active identifiers behind a point: first those that end there go, then those that begin
there come. -/
def cross (cs : List Crossing) (point : UInt64) (active : List UInt64) : List UInt64 :=
  (idsAt cs true point).foldl (fun active id => activate id active)
    ((idsAt cs false point).foldl (fun active id => deactivate id active) active)

/-- The aliased regions between the given points. -/
def sweep (cs : List Crossing) : (active : List UInt64) → (points : List UInt64) → List Region
  | _, [] => []
  | _, [_] => []
  | active, p :: q :: points =>
    let active := cross cs p active
    let regions := sweep cs active (q :: points)
    if 1 < active.length then ⟨p, q - p, active⟩ :: regions else regions

@[simp] theorem sweep_nil (cs : List Crossing) (active : List UInt64) : sweep cs active [] = [] :=
  rfl

/-- Behind the last point there is nothing left to sweep. -/
@[simp] theorem sweep_singleton (cs : List Crossing) (active : List UInt64) (p : UInt64) :
    sweep cs active [p] = [] := rfl

/-- The aliased regions of the bindings of an allocation. -/
def aliasedRegions (policy : DuplicatePolicy) (bs : List Binding) :
    Except BindingFault (List Region) := do
  check policy bs
  let points ← boundaryPoints bs
  let cs ← crossings bs
  return sweep cs [] points

end AliasReport
