import AliasReport.Json.Fault
import AliasReport.Number.Digits
import AliasReport.Number.Binary64

/-! # Numbers in JSON

* **`Numeral`** — the parts of a number as written.
* **`readNumeral`** — the parts of a number that starts a text.
* **`Numeral.value`** — a natural number or a negative integer when it has neither a fraction nor
  an exponent and fits into 64 bits, and otherwise a floating-point number.
* **`skipNumeral`** — the text behind a number.

A floating-point number starts from as many leading digits as fit into a word of 64 bits. They are
rounded, then multiplied or divided by a rounded power of ten, and the result is rounded again.
-/

namespace AliasReport.Json

open AliasReport.Document AliasReport.Number

/-- A number as written. -/
structure Numeral where
  negative : Bool
  whole : List Char
  /-- The digits behind the point, if there is one. -/
  fraction : Option (List Char)
  /-- The sign and the digits of the exponent, if there is one. -/
  exponent : Option (Bool × List Char)
deriving DecidableEq, Repr

/-- The value of a run of decimal digits. -/
def digitsValue (ds : List Char) : Nat :=
  ds.foldl (fun n c => n * 10 + (c.toNat - '0'.toNat)) 0

/-! ## Reading -/

/-- A run of digits that must not be empty; the flaws are for an early end and for anything else. -/
def readDigits (atEnd : Fault) (cs : List Char) : Except Fault (List Char × List Char) :=
  match cs.span Char.isDigit with
  | ([], []) => .error atEnd
  | ([], _ :: _) => malformed .invalidNumber
  | (ds, rest) => .ok (ds, rest)

/-- The digits before the point: a lone zero, or a run that does not start with one. -/
def readWhole (atEnd : Fault) (cs : List Char) : Except Fault (List Char × List Char) := do
  let (ds, rest) ← readDigits atEnd cs
  match ds with
  | '0' :: _ :: _ => malformed .invalidNumber
  | _ => return (ds, rest)

/-- The point and the digits behind it. -/
def readFraction (atEnd : Fault) : List Char → Except Fault (Option (List Char) × List Char)
  | '.' :: rest => (readDigits atEnd rest).map fun (ds, rest) => (some ds, rest)
  | cs => .ok (none, cs)

/-- The exponent mark, a sign and digits. -/
def readExponent (atEnd : Fault) :
    List Char → Except Fault (Option (Bool × List Char) × List Char)
  | c :: rest =>
    if c = 'e' ∨ c = 'E' then
      let (negative, rest) := match rest with
        | '-' :: rest => (true, rest)
        | '+' :: rest => (false, rest)
        | rest => (false, rest)
      (readDigits atEnd rest).map fun (ds, rest) => (some (negative, ds), rest)
    else .ok (none, c :: rest)
  | [] => .ok (none, [])

/-- The parts of a number behind its sign; the fault is the one for an early end. -/
def readParts (atEnd : Fault) (negative : Bool) (cs : List Char) :
    Except Fault (Numeral × List Char) := do
  let (whole, rest) ← readWhole atEnd cs
  let (fraction, rest) ← readFraction atEnd rest
  let (exponent, rest) ← readExponent atEnd rest
  return (⟨negative, whole, fraction, exponent⟩, rest)

/-- The parts of a number behind its sign. -/
def readNumeral (negative : Bool) (cs : List Char) : Except Fault (Numeral × List Char) :=
  readParts (.unfinished .value) negative cs

/-- The text behind a number, starting behind its sign. A number that ends early is invalid. -/
def skipNumeral (cs : List Char) : Except Fault (List Char) :=
  (readParts (.malformed .invalidNumber) false cs).map Prod.snd

/-! ## Value -/

/-- Appends digits to a word for as long as it keeps to 64 bits, and counts the digits it takes. -/
def appendDigits : (word taken : Nat) → List Char → Nat × Nat
  | word, taken, [] => (word, taken)
  | word, taken, c :: ds =>
    let next := word * 10 + (c.toNat - '0'.toNat)
    if next < UInt64.size then appendDigits next (taken + 1) ds else (word, taken)

namespace Numeral

/-- The signed value of the exponent. -/
def power (n : Numeral) : Int :=
  match n.exponent with
  | none => 0
  | some (negative, ds) => if negative then -(digitsValue ds : Int) else digitsValue ds

/-- The value as a floating-point number; `none` if it is out of range. -/
def real? (n : Numeral) : Option Binary64 :=
  let (word, taken) := appendDigits 0 0 n.whole
  let dropped := n.whole.length - taken
  let (word, places) := appendDigits word 0 (n.fraction.getD [])
  (Magnitude.scaled? word ((dropped : Int) - places + n.power)).map (.finite n.negative)

/-- The value of a number. A negative zero is a floating-point number. -/
def value (n : Numeral) : Except Fault Found :=
  let whole := digitsValue n.whole
  if n.fraction.isNone ∧ n.exponent.isNone ∧ ¬ n.negative ∧ whole < UInt64.size then
    .ok (.unsigned whole)
  else if n.fraction.isNone ∧ n.exponent.isNone ∧ n.negative ∧ whole ≠ 0 ∧
      whole ≤ UInt64.size / 2 then
    .ok (.signed (-(whole : Int)))
  else
    match n.real? with
    | some x => .ok (.real x)
    | none => malformed .numberOutOfRange

end Numeral

end AliasReport.Json
