/-! # Binary floating point of 64 bits

A finite magnitude is `mantissa · 2 ^ exponent` with a mantissa below `2 ^ 53` and an exponent of
at least `-1074`. Arithmetic is exact on ratios of natural numbers and rounds once, to nearest with
ties to the even mantissa.

* **`Magnitude.ofRatio? num den`** — the magnitude nearest to `num / den`, or `none` when that
  lies beyond the largest finite magnitude.
* **`Magnitude.mul?`, `Magnitude.div?`** — product and quotient of magnitudes, rounded once.
* **`Magnitude.ofDecimal? n k`** — the magnitude nearest to `n · 10 ^ k`.
* **`Magnitude.scaled? n k`** — the magnitude reached from `n` by multiplying or dividing by
  rounded powers of ten, one rounding a step. It can differ from `ofDecimal?` in the last place.
-/

namespace AliasReport.Number

/-- A finite magnitude `mantissa · 2 ^ exponent`. -/
structure Magnitude where
  mantissa : Nat
  exponent : Int
deriving DecidableEq, Repr

/-- A floating-point number of 64 bits; all payloads of "not a number" are one. -/
inductive Binary64
  | finite (negative : Bool) (magnitude : Magnitude)
  | infinite (negative : Bool)
  | nan
deriving DecidableEq, Repr

namespace Magnitude

/-- The least exponent of a finite magnitude. -/
def leastExponent : Int := -1074

/-- The greatest exponent of a finite magnitude. -/
def greatestExponent : Int := 971

/-- The bound that every mantissa stays below. -/
def mantissaBound : Nat := 9007199254740992

/-- No magnitude at all. -/
def zero : Magnitude := ⟨0, leastExponent⟩

/-- `num / den` rounded to the nearest natural number, a half going to the even neighbour. -/
def roundHalfEven (num den : Nat) : Nat :=
  let q := num / den
  let r := num % den
  if den < 2 * r ∨ (2 * r = den ∧ q % 2 = 1) then q + 1 else q

/-- Multiplies a ratio by `2 ^ k`. -/
def shift (num den : Nat) (k : Int) : Nat × Nat :=
  if 0 ≤ k then (num * Nat.pow 2 k.toNat, den) else (num, den * Nat.pow 2 (-k).toNat)

/-- The greatest `k` with `2 ^ k ≤ num / den`, for a positive ratio. -/
def floorLog2 (num den : Nat) : Int :=
  let k : Int := (Nat.log2 num : Int) - Nat.log2 den
  let (n, d) := shift num den (-k)
  if n < d then k - 1 else k

/-- The magnitude nearest to `num / den`; `none` when it exceeds every finite magnitude. -/
def ofRatio? (num den : Nat) : Option Magnitude :=
  if num = 0 then some zero
  else
    let e := max (floorLog2 num den - 52) leastExponent
    let (n, d) := shift num den (-e)
    let m := roundHalfEven n d
    let (m, e) := if m < mantissaBound then (m, e) else (m / 2, e + 1)
    if greatestExponent < e then none else some ⟨m, e⟩

/-- A magnitude as a ratio of natural numbers. -/
def toRatio (x : Magnitude) : Nat × Nat :=
  shift x.mantissa 1 x.exponent

/-- The product of two magnitudes. -/
def mul? (x y : Magnitude) : Option Magnitude :=
  let (a, b) := x.toRatio
  let (c, d) := y.toRatio
  ofRatio? (a * c) (b * d)

/-- The quotient of two magnitudes; the divisor is positive. -/
def div? (x y : Magnitude) : Option Magnitude :=
  let (a, b) := x.toRatio
  let (c, d) := y.toRatio
  ofRatio? (a * d) (b * c)

/-- The greatest power of ten that is a finite magnitude. -/
def greatestPowerOfTen : Nat := 308

/-- The magnitude nearest to `n · 10 ^ k`. Ratios that are far outside the finite range are
settled by their number of digits, so no power of ten beyond a few hundred is formed. -/
def ofDecimal? (n : Nat) (k : Int) : Option Magnitude :=
  let digits : Int := (Nat.toDigits 10 n).length
  if n = 0 then some zero
  else if greatestPowerOfTen + 2 < digits + k then none
  else if digits + k < -400 then some zero
  else if 0 ≤ k then ofRatio? (n * Nat.pow 10 k.toNat) 1
  else ofRatio? n (Nat.pow 10 (-k).toNat)

/-- Divides by `10 ^ k` for a large `k` in steps of the greatest power of ten; `x` reaches zero
after a few of them, whatever `k` is. -/
def divPowerOfTen? : (steps : Nat) → (x : Magnitude) → (k : Nat) → Option Magnitude
  | 0, _, _ => some zero
  | steps + 1, x, k =>
    if x.mantissa = 0 then some zero
    else if k ≤ greatestPowerOfTen then
      (ofRatio? (Nat.pow 10 k) 1).bind (x.div? ·)
    else
      ((ofRatio? (Nat.pow 10 greatestPowerOfTen) 1).bind (x.div? ·)).bind
        (divPowerOfTen? steps · (k - greatestPowerOfTen))

/-- The magnitude of the word `n` times `10 ^ k`, with a rounding after `n` itself, after the power
of ten, and after the product or quotient. `none` when the result is out of range. -/
def scaled? (n : Nat) (k : Int) : Option Magnitude := do
  let x ← ofRatio? n 1
  if 0 ≤ k then
    if k.toNat ≤ greatestPowerOfTen then
      let p ← ofRatio? (Nat.pow 10 k.toNat) 1
      x.mul? p
    else if x.mantissa = 0 then some zero
    else none
  else divPowerOfTen? 4 x (-k).toNat

end Magnitude

end AliasReport.Number
