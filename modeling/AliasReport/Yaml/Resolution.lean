import AliasReport.Document.Mismatch
import AliasReport.Number.Binary64
import AliasReport.Yaml.Event

/-! # What scalars stand for

* **`spellsNothing`**, **`asTruth?`**, **`asUnsigned?`**, **`asInteger?`**, **`asReal?`** — the
  spellings of null, truth values and numbers.
* **`resolvePlain`** — what untagged plain text stands for. Text that is nothing else is text.
* **`resolve`** — what a scalar stands for, given its tag and style. Quoted text is text, unless a
  tag says otherwise.

Integers are written in base ten, sixteen, eight or two. A number in base ten does not start with
a superfluous zero.
-/

namespace AliasReport.Yaml

open AliasReport.Document AliasReport.Number

/-! ## Spellings -/

/-- Whether text spells null. -/
def spellsNothing (cs : List Char) : Bool :=
  cs ∈ ["null".toList, "Null".toList, "NULL".toList, "~".toList]

/-- The truth value that text spells. -/
def asTruth? (cs : List Char) : Option Bool :=
  if cs ∈ ["true".toList, "True".toList, "TRUE".toList] then some true
  else if cs ∈ ["false".toList, "False".toList, "FALSE".toList] then some false
  else none

/-- The digits behind a mark of a base, with the base. -/
def splitBase? : List Char → Option (Nat × List Char)
  | '0' :: 'x' :: rest => some (16, rest)
  | '0' :: 'o' :: rest => some (8, rest)
  | '0' :: 'b' :: rest => some (2, rest)
  | _ => none

/-- Whether text is a run of digits with a superfluous zero in front, behind an optional sign. -/
def hasSpareZero (cs : List Char) : Bool :=
  let digits := match cs with
    | '-' :: rest => rest
    | '+' :: rest => rest
    | _ => cs
  1 < digits.length && digits.head? = some '0' && digits.all Char.isDigit

/-- The value of digits behind a sign, where a mark of a base may come first. -/
def unsignedValue? (digits : List Char) : Option Nat :=
  match splitBase? digits with
  | some (base, rest) => ofDigits? base rest
  | none => ofDigits? 10 digits

/-- The natural number that text spells, with an optional plus sign. -/
def asUnsigned? (cs : List Char) : Option Nat :=
  if hasSpareZero cs then none
  else
    match cs with
    | '+' :: rest => unsignedValue? rest
    | _ => unsignedValue? cs

/-- The integer with a minus sign that text spells. -/
def asNegative? (cs : List Char) : Option Int :=
  if hasSpareZero cs then none
  else
    match cs with
    | '-' :: rest => (unsignedValue? rest).map fun n => -(n : Int)
    | _ => none

/-- The number of words of 128 bits. -/
def wideSize : Nat := UInt64.size * UInt64.size

/-- The integer that text spells, by the number of bits it needs. -/
def asInteger? (cs : List Char) : Option Found :=
  match asUnsigned? cs, asNegative? cs with
  | some n, _ =>
    if n < UInt64.size then some (.unsigned n)
    else if n < wideSize then some (.wide n)
    else none
  | none, some n =>
    if -(UInt64.size / 2 : Nat) ≤ n then some (.signed n)
    else if -(wideSize / 2 : Nat) ≤ n then some (.wide n)
    else none
  | none, none => none

/-- The digits before and behind the point, and the text behind them. -/
def splitPoint (cs : List Char) : List Char × List Char × List Char :=
  let whole := cs.takeWhile Char.isDigit
  match cs.dropWhile Char.isDigit with
  | '.' :: rest => (whole, rest.takeWhile Char.isDigit, rest.dropWhile Char.isDigit)
  | rest => (whole, [], rest)

/-- The value of an exponent: nothing, or a mark, an optional sign and digits. -/
def exponent? : List Char → Option Int
  | [] => some 0
  | c :: rest =>
    if c = 'e' ∨ c = 'E' then
      match rest with
      | '-' :: ds => (ofDigits? 10 ds).map fun n => -(n : Int)
      | '+' :: ds => (ofDigits? 10 ds).map Int.ofNat
      | ds => (ofDigits? 10 ds).map Int.ofNat
    else none

/-- The finite number that text in decimal notation spells. -/
def decimalValue? (negative : Bool) (cs : List Char) : Option Binary64 := do
  let (whole, fraction, rest) := splitPoint cs
  let n ← ofDigits? 10 (whole ++ fraction)
  let e ← exponent? rest
  let magnitude ← Magnitude.ofDecimal? n (e - fraction.length)
  return .finite negative magnitude

/-- The floating-point number that text spells. -/
def asReal? (cs : List Char) : Option Binary64 :=
  let unmarked := match cs with
    | '+' :: rest => rest
    | _ => cs
  if unmarked ∈ [".inf".toList, ".Inf".toList, ".INF".toList] then some (.infinite false)
  else if cs ∈ ["-.inf".toList, "-.Inf".toList, "-.INF".toList] then some (.infinite true)
  else if cs ∈ [".nan".toList, ".NaN".toList, ".NAN".toList] then some .nan
  else
    match cs with
    | '-' :: rest => decimalValue? true rest
    | _ => decimalValue? false unmarked

/-! ## Meaning -/

/-- What untagged plain text stands for. -/
def resolvePlain (text : String) : Found :=
  let cs := text.toList
  if cs.isEmpty || spellsNothing cs then .nothing
  else
    match asTruth? cs, asInteger? cs with
    | some b, _ => .truth b
    | none, some found => found
    | none, none =>
      if hasSpareZero cs then .text text
      else
        match asReal? cs with
        | some x => .real x
        | none => .text text

/-- Text whose tag asks for something that it does not spell. -/
def unlikeTag (text : String) (wanted : Wanted) : Except Mismatch Found :=
  .error (.invalidValue (.text text) wanted)

/-- What a scalar stands for. -/
def resolve (tag : Option Tag) (style : Style) (text : String) : Except Mismatch Found :=
  match tag with
  | none => .ok (if style = .plain then resolvePlain text else .text text)
  | some tag =>
    let cs := text.toList
    if tag = Tag.truth then
      match asTruth? cs with
      | some b => .ok (.truth b)
      | none => unlikeTag text .taggedTruth
    else if tag = Tag.integer then
      match asInteger? cs with
      | some found => .ok found
      | none => unlikeTag text .taggedInteger
    else if tag = Tag.real then
      match asReal? cs with
      | some x => .ok (.real x)
      | none => unlikeTag text .taggedReal
    else if tag = Tag.nothing then
      if spellsNothing cs then .ok .nothing else unlikeTag text .taggedNull
    else .ok (if tag.isMarked && style = .plain then resolvePlain text else .text text)

end AliasReport.Yaml
