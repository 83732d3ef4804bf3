import AliasReport.Number.Digits
import AliasReport.Number.Binary64

/-! # Shortest decimal text of a floating-point number

* **`Magnitude.shortest tie x`** — the decimal with the fewest digits among those that round back
  to `x`, and of these the one nearest to `x`; `tie` decides between two that are equally near.
* **`Decimal.positional`** — digits around a point, at least one on either side.
* **`Decimal.scientific`** — one digit, a point if more follow, and a signed power of ten.
-/

namespace AliasReport.Number

/-- The decimal number `coefficient · 10 ^ power`. -/
structure Decimal where
  coefficient : Nat
  power : Int
deriving DecidableEq, Repr

/-- Which of two equally near decimals is chosen. -/
inductive Tie
  /-- The one whose last digit is even. -/
  | even
  /-- The one of greater magnitude. -/
  | away
deriving DecidableEq, Repr

/-- Whether the upper one of two equally near decimals is chosen, the lower one having the
coefficient `low`. -/
def Tie.takesUpper (tie : Tie) (low : Nat) : Bool :=
  match tie with
  | .even => low % 2 = 1
  | .away => true

namespace Magnitude

/-- The decimals that round to `x` lie between two bounds, given here in quarters of a unit in the
last place together with `x` itself: `(lower, value, upper)`. The gap below a power of two is half
as wide as the one above. -/
def interval (x : Magnitude) : Nat × Nat × Nat :=
  let v := 4 * x.mantissa
  let narrow := x.mantissa = mantissaBound / 2 ∧ leastExponent < x.exponent
  (if narrow then v - 1 else v - 2, v, v + 2)

/-- Compares `coefficient · 10 ^ power` with `quarters · 2 ^ (exponent - 2)`. -/
def compareQuarters (d : Decimal) (quarters : Nat) (exponent : Int) : Ordering :=
  let (a, b) := if 0 ≤ d.power then (d.coefficient * Nat.pow 10 d.power.toNat, 1)
    else (d.coefficient, Nat.pow 10 (-d.power).toNat)
  let (c, e) := shift quarters 1 (exponent - 2)
  compare (a * e) (c * b)

/-- Whether `d` rounds to `x`. A bound itself does so exactly when the mantissa is even. -/
def roundsTo (x : Magnitude) (d : Decimal) : Bool :=
  let (lower, _, upper) := x.interval
  let closed := x.mantissa % 2 = 0
  let above := match compareQuarters d lower x.exponent with
    | .lt => false
    | .eq => closed
    | .gt => true
  let below := match compareQuarters d upper x.exponent with
    | .lt => true
    | .eq => closed
    | .gt => false
  above && below

/-- The greatest `k` with `10 ^ k ≤ x`, for a positive magnitude. -/
def floorLog10 (x : Magnitude) : Int :=
  let (n, d) := x.toRatio
  let k : Int := (decimal n).length - (decimal d).length
  let fits := if 0 ≤ k then d * Nat.pow 10 k.toNat ≤ n else d ≤ n * Nat.pow 10 (-k).toNat
  if fits then k else k - 1

/-- The largest multiple of `10 ^ power` that is at most `x`, and whether the next one is nearer:
`lt` for the lower, `gt` for the upper, `eq` for a tie. -/
def neighbours (x : Magnitude) (power : Int) : Nat × Ordering :=
  let (n, d) := x.toRatio
  let (n, d) :=
    if 0 ≤ power then (n, d * Nat.pow 10 power.toNat) else (n * Nat.pow 10 (-power).toNat, d)
  (n / d, compare (2 * (n % d)) d)

/-- Tries grids of ever more digits, `more` further ones at most, the present one counting in
steps of `10 ^ power`. The finest grid always has a hit. -/
def shortestFrom (tie : Tie) (x : Magnitude) : (more : Nat) → (power : Int) → Decimal
  | 0, power => ⟨(x.neighbours power).1, power⟩
  | more + 1, power =>
    let (low, side) := x.neighbours power
    let below : Decimal := ⟨low, power⟩
    let above : Decimal := ⟨low + 1, power⟩
    let upper := match side with
      | .lt => false
      | .gt => true
      | .eq => tie.takesUpper low
    match x.roundsTo below, x.roundsTo above with
    | true, true => if upper then above else below
    | true, false => below
    | false, true => above
    | false, false => shortestFrom tie x more (power - 1)

/-- The shortest decimal that rounds to `x`; zero is `0 · 10 ^ 0`. The upper neighbour on a grid
can be a power of ten, whose closing zero is dropped. -/
def shortest (tie : Tie) (x : Magnitude) : Decimal :=
  if x.mantissa = 0 then ⟨0, 0⟩
  else
    let d := x.shortestFrom tie 17 x.floorLog10
    if d.coefficient % 10 = 0 then ⟨d.coefficient / 10, d.power + 1⟩ else d

end Magnitude

namespace Decimal

/-- Digits around a point, at least one on either side of it. -/
def positional (d : Decimal) : List Char :=
  let ds := decimal d.coefficient
  if 0 ≤ d.power then
    ds ++ List.replicate (if d.coefficient = 0 then 0 else d.power.toNat) '0' ++ ['.', '0']
  else
    let places := (-d.power).toNat
    let padded := List.replicate (places + 1 - ds.length) '0' ++ ds
    padded.take (padded.length - places) ++ '.' :: padded.drop (padded.length - places)

/-- The power of ten of the leading digit. -/
def leadingPower (d : Decimal) : Int :=
  d.power + (decimal d.coefficient).length - 1

/-- One digit, a point and further digits if there are any, then `e` and a power with its sign. -/
def scientific (d : Decimal) : List Char :=
  let p := d.leadingPower
  let mantissa := match decimal d.coefficient with
    | [] => []
    | [c] => [c]
    | c :: cs => c :: '.' :: cs
  mantissa ++ 'e' :: (if p < 0 then '-' else '+') :: decimal p.natAbs

end Decimal

namespace Binary64

/-- **How a floating-point number is written out.** -/
structure Style where
  /-- The least and the greatest power of the leading digit that are written positionally; without
  bounds every number is. -/
  positionalRange : Option (Int × Int)
  tie : Tie

/-- The text of a number in a given style. The sign of zero is kept. -/
def render (style : Style) : Binary64 → String
  | .nan => "NaN"
  | .infinite negative => if negative then "-inf" else "inf"
  | .finite negative x =>
    let d := x.shortest style.tie
    let positional := match style.positionalRange with
      | none => true
      | some (least, greatest) =>
        d.coefficient = 0 || least ≤ d.leadingPower && d.leadingPower ≤ greatest
    let text := if positional then d.positional else d.scientific
    String.ofList (if negative then '-' :: text else text)

end Binary64

end AliasReport.Number
