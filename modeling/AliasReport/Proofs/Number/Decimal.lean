import Mathlib.Tactic.IntervalCases
import AliasReport.Number.Digits

/-! # Decimal digits

* **`isDigit_of_mem_decimal`**, **`decimal_ne_nil`** — the digits of a number are digits, and there
  is at least one.
* **`eq_zero_of_head?_decimal`** — only zero starts with the digit zero.
* **`ofDigitChars_decimal`**, **`ofDigits?_decimal`** — the digits of a number have its value, and
  are read as it.
* **`toDigits_injective`** — numbers with the same digits are equal, in any base up to sixteen. -/

namespace AliasReport.Number

/-- A number has at least one digit. -/
theorem decimal_ne_nil (n : Nat) : decimal n ≠ [] :=
  Nat.toDigits_ne_nil

/-- The digits of a number are digits. -/
theorem isDigit_of_mem_decimal {n : Nat} {c : Char} (h : c ∈ decimal n) : c.isDigit = true :=
  Nat.isDigit_of_mem_toDigits (by decide) (by decide) h

/-- The digits of a number have its value. -/
@[simp] theorem ofDigitChars_decimal (n : Nat) : Nat.ofDigitChars 10 (decimal n) 0 = n :=
  Nat.ofDigitChars_ten_toDigits

/-- **Only zero starts with the digit zero**: digits have no needless zeros. -/
theorem eq_zero_of_head?_decimal {n : Nat} (h : (decimal n).head? = some '0') : n = 0 := by
  induction n using Nat.strong_induction_on with
  | _ n ih =>
    unfold decimal at h ih
    rw [Nat.toDigits_eq_if (by decide)] at h
    split at h
    · rename_i hlt
      interval_cases n <;> first | rfl | exact absurd h (by decide)
    · rename_i hge
      -- The leading digit is that of the number without its last digit.
      have hhead : (Nat.toDigits 10 (n / 10)).head? = some '0' := by
        obtain ⟨c, ds, hds⟩ := List.exists_cons_of_ne_nil (decimal_ne_nil (n / 10))
        unfold decimal at hds
        rw [hds] at h ⊢
        exact h
      have hzero := ih (n / 10) (by omega) hhead
      omega

/-! ## Reading -/

/-- The value of a digit is its distance from zero. -/
theorem digitValue?_of_isDigit {c : Char} (hc : c.isDigit = true) :
    digitValue? 10 c = some (c.toNat - '0'.toNat) := by
  simp only [Char.isDigit, Bool.and_eq_true, decide_eq_true_eq, ge_iff_le] at hc
  have hzero : '0' ≤ c := hc.1
  have hnine : c ≤ '9' := hc.2
  have hle : c.toNat ≤ 57 := hc.2
  unfold digitValue?
  simp [hzero, hnine]
  omega

/-- Digits are read as the number that they spell. -/
theorem extend?_of_isDigit {cs : List Char} (hcs : ∀ c ∈ cs, c.isDigit = true) (acc : Nat) :
    extend? 10 acc cs = some (Nat.ofDigitChars 10 cs acc) := by
  induction cs generalizing acc with
  | nil => rfl
  | cons c cs ih =>
    obtain ⟨hc, hcs⟩ := List.forall_mem_cons.mp hcs
    rw [extend?, digitValue?_of_isDigit hc]
    simp [ih hcs, Nat.ofDigitChars_cons, Nat.mul_comm]

/-- **The digits of a number are read as it.** -/
theorem ofDigits?_decimal (n : Nat) : ofDigits? 10 (decimal n) = some n := by
  have hdigits := extend?_of_isDigit (fun c (hc : c ∈ decimal n) => isDigit_of_mem_decimal hc) 0
  obtain ⟨c, cs, hcs⟩ := List.exists_cons_of_ne_nil (decimal_ne_nil n)
  rw [ofDigitChars_decimal] at hdigits
  rw [hcs] at hdigits ⊢
  exact hdigits

/-! ## Any base -/

/-- Digits are those of numbers below the base. -/
theorem exists_digitChar_of_mem_toDigits {b : Nat} (hb : 1 < b) {n : Nat} {c : Char}
    (h : c ∈ Nat.toDigits b n) : ∃ d < b, c = Nat.digitChar d := by
  induction n using Nat.strong_induction_on with
  | _ n ih =>
    rw [Nat.toDigits_eq_if hb] at h
    split_ifs at h with hn
    · exact ⟨n, hn, List.mem_singleton.mp h⟩
    · obtain hinit | hlast := List.mem_append.mp h
      · exact ih (n / b) (Nat.div_lt_self (by omega) hb) hinit
      · exact ⟨n % b, Nat.mod_lt n (by omega), List.mem_singleton.mp hlast⟩

/-- Digits up to that of fifteen are told apart. -/
theorem digitChar_inj : ∀ d < 16, ∀ e < 16, Nat.digitChar d = Nat.digitChar e → d = e := by
  decide

/-- A number with several digits does not have the digits of one with a single digit. -/
theorem append_digit_ne_singleton (b n : Nat) (c d : Char) : Nat.toDigits b n ++ [c] ≠ [d] := by
  intro h
  have hlen := congrArg List.length h
  have hpos := Nat.length_toDigits_pos (b := b) (n := n)
  rw [List.length_append, List.length_singleton, List.length_singleton] at hlen
  omega

/-- **Numbers with the same digits are equal.** -/
theorem toDigits_injective {b : Nat} (hb : 1 < b) (hle : b ≤ 16) :
    Function.Injective (Nat.toDigits b) := by
  intro n
  induction n using Nat.strong_induction_on with
  | _ n ih =>
    intro m h
    rw [Nat.toDigits_eq_if hb, Nat.toDigits_eq_if (n := m) hb] at h
    split_ifs at h with hn hm hm
    · exact digitChar_inj n (by omega) m (by omega) (List.singleton_inj.mp h)
    · exact absurd h.symm (append_digit_ne_singleton b _ _ _)
    · exact absurd h (append_digit_ne_singleton b _ _ _)
    · -- The last digits are equal, and so are the numbers without them.
      obtain ⟨hinit, hlast⟩ := List.append_inj' h rfl
      have hdiv : n / b = m / b := ih (n / b) (Nat.div_lt_self (by omega) hb) hinit
      have hlt : ∀ k, k % b < 16 := fun k => (Nat.mod_lt k (by omega)).trans_le hle
      have hmod : n % b = m % b :=
        digitChar_inj _ (hlt n) _ (hlt m) (List.singleton_inj.mp hlast)
      rw [← Nat.div_add_mod n b, hdiv, hmod, Nat.div_add_mod]

end AliasReport.Number
