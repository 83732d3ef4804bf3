/-! # Digits

Text of natural numbers in base ten and base sixteen, and the readers that invert it.

* **`decimal n`** — the decimal digits of `n`, most significant first, without leading zeros.
* **`hexadecimal n`** — the same in base sixteen, lower case, after the mark `0x`.
* **`ofDigits? base cs`** — the value of a non-empty run of digits; leading zeros are harmless.
* **`unsigned64? cs`** — a decimal word of 64 bits with an optional plus sign.
-/

namespace AliasReport.Number

/-- The decimal digits of `n`. -/
def decimal (n : Nat) : List Char :=
  Nat.toDigits 10 n

/-- The lower-case hexadecimal digits of `n` after the mark `0x`. -/
def hexadecimal (n : Nat) : List Char :=
  '0' :: 'x' :: Nat.toDigits 16 n

/-- The value of one digit in any base up to sixteen, either letter case. -/
def digitValue? (base : Nat) (c : Char) : Option Nat :=
  let value? :=
    if '0' ≤ c ∧ c ≤ '9' then some (c.toNat - '0'.toNat)
    else if 'a' ≤ c ∧ c ≤ 'f' then some (c.toNat - 'a'.toNat + 10)
    else if 'A' ≤ c ∧ c ≤ 'F' then some (c.toNat - 'A'.toNat + 10)
    else none
  value?.filter (· < base)

/-- Continues a number whose digits so far have the value `acc`. -/
def extend? (base : Nat) : (acc : Nat) → List Char → Option Nat
  | acc, [] => some acc
  | acc, c :: cs =>
    match digitValue? base c with
    | none => none
    | some d => extend? base (acc * base + d) cs

@[simp] theorem extend?_nil (base acc : Nat) : extend? base acc [] = some acc := rfl

/-- The value of a non-empty run of digits, all of them valid in `base`. -/
def ofDigits? (base : Nat) : List Char → Option Nat
  | [] => none
  | c :: cs => extend? base 0 (c :: cs)

@[simp] theorem ofDigits?_nil (base : Nat) : ofDigits? base [] = none := rfl

/-- A decimal word of 64 bits: an optional plus sign, then digits whose value fits. -/
def unsigned64? (cs : List Char) : Option UInt64 :=
  let digits := match cs with
    | '+' :: rest => rest
    | _ => cs
  ((ofDigits? 10 digits).filter (· < UInt64.size)).map UInt64.ofNat

end AliasReport.Number
