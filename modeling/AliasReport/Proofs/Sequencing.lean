import Mathlib.Data.List.Forall2

/-! # Computing one after the other

A computation for each element of a list succeeds if all of them do, and otherwise fails as the
first that does not.

* **`bind_eq_ok_iff`**, **`map_eq_ok_iff`**, **`mapError_eq_ok_iff`** — when steps succeed.
* **`mapM_eq_ok_iff`**, **`mapM_eq_error_iff`** — the two outcomes.
* **`map_mapM`**, **`mapM_id_map`** — computing and then doing something with the results.
* **`map_eq_map_of_forall₂`** — equal results from lists that agree place by place. -/

namespace AliasReport

variable {ε α β γ : Type} {f : α → Except ε β}

@[simp] theorem ok_bind (a : α) (f : α → Except ε β) : (Except.ok a).bind f = f a := rfl

@[simp] theorem map_ok (a : α) (g : α → β) : (Except.ok a : Except ε α).map g = .ok (g a) := rfl

@[simp] theorem map_error (err : ε) (g : α → β) :
    (Except.error err : Except ε α).map g = .error err := rfl

/-- Three steps in a row can be grouped either way. -/
theorem bind_bind (x : Except ε α) (f : α → Except ε β) (g : β → Except ε γ) :
    (x.bind f).bind g = x.bind fun a => (f a).bind g := by
  cases x <;> rfl

/-- Returning what is made of a result is making it. -/
theorem bind_ok_eq_map (x : Except ε α) (g : α → β) : (x.bind fun a => .ok (g a)) = x.map g := by
  cases x <;> rfl

/-- Doing something with the result of two steps is doing it with the result of the second. -/
theorem map_bind (x : Except ε α) (f : α → Except ε β) (g : β → γ) :
    (x.bind f).map g = x.bind fun a => (f a).map g := by
  cases x <;> rfl

/-- Two steps in a row succeed if both do. -/
theorem bind_eq_ok_iff {x : Except ε α} {f : α → Except ε β} {b : β} :
    x.bind f = .ok b ↔ ∃ a, x = .ok a ∧ f a = .ok b := by
  cases x <;> simp [Except.bind]

/-- A value comes out of a function that is applied to an outcome if it does so from some value. -/
theorem map_eq_ok_iff {x : Except ε α} {g : α → β} {b : β} :
    x.map g = .ok b ↔ ∃ a, x = .ok a ∧ g a = b := by
  cases x <;> simp

/-- Doing something with the error does not touch results. -/
theorem mapError_eq_ok_iff {ε' : Type} {x : Except ε α} {g : ε → ε'} {a : α} :
    x.mapError g = .ok a ↔ x = .ok a := by
  cases x <;> simp [Except.mapError]

/-- Doing something with the result does not touch errors. -/
theorem map_eq_error_iff {x : Except ε α} {g : α → β} {err : ε} :
    x.map g = .error err ↔ x = .error err := by
  cases x <;> simp

/-- What is made of a result is made of it wherever there is one. -/
theorem toOption_map_of {x : Except ε α} {o : Option γ} {g : γ → α} (h : x.toOption = o.map g)
    (g' : α → β) : (x.map g').toOption = o.map fun c => g' (g c) := by
  refine Eq.trans ?_ (Option.map_map g' g o)
  rw [← h]
  cases x <;> rfl

/-- The values of a sequence are those of its second step at those of its first. -/
theorem toOption_bind (x : Except ε α) (f : α → Except ε β) :
    (x.bind f).toOption = x.toOption.bind fun a => (f a).toOption := by
  cases x <;> rfl

/-- An outcome has a value if it is a success with that value. -/
theorem toOption_eq_some_iff {x : Except ε α} {a : α} : x.toOption = some a ↔ x = .ok a := by
  cases x <;> simp [Except.toOption]

/-- Steps that succeed alike have the same results. -/
theorem toOption_congr {ε' : Type} {x : Except ε α} {y : Except ε' α}
    (h : ∀ a, x = .ok a ↔ y = .ok a) : x.toOption = y.toOption :=
  Option.ext fun a => by rw [toOption_eq_some_iff, toOption_eq_some_iff, h]

/-- **A step that cannot fail** leaves open only whether the one before it has succeeded. -/
theorem toOption_bind_of_forall {x : Except ε α} {o : Option γ} {g : γ → α} {k : γ → β}
    (h : x.toOption = o.map g) (hf : ∀ c, f (g c) = .ok (k c)) :
    (x.bind f).toOption = o.map k := by
  cases x with
  | error err =>
    cases o with
    | none => rfl
    | some c => cases h
  | ok a =>
    cases o with
    | none => cases h
    | some c =>
      obtain rfl := Option.some.inj h
      exact congrArg Except.toOption (hf c)

/-- A computation over a longer list succeeds if its first step and the rest do. -/
theorem mapM_cons_eq_ok_iff {a : α} {as : List α} {es : List β} :
    (a :: as).mapM f = .ok es ↔
      ∃ e rest, f a = .ok e ∧ as.mapM f = .ok rest ∧ es = e :: rest := by
  rw [List.mapM_cons]
  cases f a with
  | error err => simp [bind, Except.bind]
  | ok e => cases as.mapM f <;> simp [bind, Except.bind, pure, Except.pure, eq_comm]

/-- A computation over a longer list fails as its first step does, or else as the rest does. -/
theorem mapM_cons_eq_error_iff {a : α} {as : List α} {err : ε} :
    (a :: as).mapM f = .error err ↔
      f a = .error err ∨ (∃ e, f a = .ok e) ∧ as.mapM f = .error err := by
  rw [List.mapM_cons]
  cases f a with
  | error err => simp [bind, Except.bind]
  | ok e => cases as.mapM f <;> simp [bind, Except.bind, pure, Except.pure]

/-- **Computing one after the other succeeds** with the results of each. -/
theorem mapM_eq_ok_iff {as : List α} {es : List β} :
    as.mapM f = .ok es ↔ List.Forall₂ (fun a e => f a = .ok e) as es := by
  induction as generalizing es with
  | nil => simp [pure, Except.pure, eq_comm]
  | cons a as ih =>
    rw [mapM_cons_eq_ok_iff, List.forall₂_cons_left_iff]
    simp only [ih, exists_and_left]

/-- **Computing one after the other fails** with the first error that is met. -/
theorem mapM_eq_error_iff {as : List α} {err : ε} :
    as.mapM f = .error err ↔
      ∃ before a after, as = before ++ a :: after ∧ (∀ x ∈ before, ∃ e, f x = .ok e) ∧
        f a = .error err := by
  induction as with
  | nil => simp [pure, Except.pure]
  | cons a as ih =>
    rw [mapM_cons_eq_error_iff, ih]
    constructor
    · rintro (ha | ⟨ha, before, x, after, rfl, hbefore, hx⟩)
      · exact ⟨[], a, as, rfl, nofun, ha⟩
      · exact ⟨a :: before, x, after, rfl, List.forall_mem_cons.mpr ⟨ha, hbefore⟩, hx⟩
    · rintro ⟨before, x, after, heq, hbefore, hx⟩
      cases before with
      | nil =>
        obtain ⟨rfl, rfl⟩ := List.cons.inj heq
        exact .inl hx
      | cons y before =>
        obtain ⟨rfl, rfl⟩ := List.cons.inj heq
        obtain ⟨hy, hbefore⟩ := List.forall_mem_cons.mp hbefore
        exact .inr ⟨hy, before, x, after, rfl, hbefore, hx⟩

/-- **An element in the middle** is computed after those in front of it. -/
theorem mapM_append_cons (before after : List α) (a : α) :
    (before ++ a :: after).mapM f = (before.mapM f).bind fun bs =>
      (f a).bind fun b => (after.mapM f).map fun cs => bs ++ b :: cs := by
  rw [List.mapM_append, List.mapM_cons]
  cases before.mapM f with
  | error err => rfl
  | ok bs =>
    cases f a with
    | error err => rfl
    | ok b => cases after.mapM f <;> rfl

/-- What is done to every result can be done while computing. -/
theorem map_mapM (f : α → Except ε β) (g : β → γ) (as : List α) :
    (as.mapM f).map (List.map g) = as.mapM fun a => (f a).map g := by
  induction as with
  | nil => rfl
  | cons a as ih =>
    rw [List.mapM_cons, List.mapM_cons, ← ih]
    cases f a with
    | error err => rfl
    | ok e => cases as.mapM f <;> rfl

/-- Computing is the same as collecting what has been computed. -/
theorem mapM_id_map (f : α → Except ε β) (as : List α) : (as.map f).mapM id = as.mapM f := by
  rw [List.mapM_map, Function.id_comp]

/-- Lists that agree place by place have the same results. -/
theorem map_eq_map_of_forall₂ {R : α → β → Prop} {f : α → γ} {g : β → γ} {as : List α}
    {bs : List β} (h : List.Forall₂ R as bs) (hfg : ∀ a b, R a b → g b = f a) :
    bs.map g = as.map f := by
  induction h with
  | nil => rfl
  | cons hab _ ih => rw [List.map_cons, List.map_cons, hfg _ _ hab, ih]

end AliasReport
