import AliasReport.Document.Mismatch

/-! # Why a JSON text cannot be read

* **`Malformed`** — the text breaks the grammar.
* **`Unfinished`** — the text ends too early.
* **`Fault`** — either of these, or a mismatch of a value with its shape.
* **`Fault.message`** — the text of each cause.
-/

namespace AliasReport.Json

open AliasReport.Document AliasReport.Number

/-- How a text breaks the grammar. -/
inductive Malformed
  | expectedValue
  | expectedKeyword
  | expectedColon
  | expectedObjectEnd
  | expectedListEnd
  | trailingComma
  | trailingCharacters
  | keyNotText
  | invalidNumber
  | numberOutOfRange
  | invalidEscape
  /-- The first half of a surrogate pair without a second escape after it. -/
  | halfPair
  /-- Two escapes of which the second is not the second half, or a second half alone. -/
  | loneSurrogate
  | controlCharacter
  | tooDeep
deriving DecidableEq, Repr

/-- What a text that ends too early leaves open. -/
inductive Unfinished
  | value
  | list
  | object
  | text
deriving DecidableEq, Repr

/-- Why a text cannot be read. -/
inductive Fault
  | malformed (cause : Malformed)
  | unfinished (inside : Unfinished)
  | mismatch (cause : Mismatch)
deriving DecidableEq, Repr

/-- **The words of JSON messages.** Floating-point numbers whose leading digit stands for a power
of ten from `-5` to `15` are written positionally; a tie goes to the even digit. -/
def wording : Wording where
  nothing := "null"
  real := ⟨some (-5, 15), .even⟩

/-- The text of a broken rule. -/
def Malformed.message : Malformed → String
  | .expectedValue => "expected value"
  | .expectedKeyword => "expected ident"
  | .expectedColon => "expected `:`"
  | .expectedObjectEnd => "expected `,` or `\x7d`"
  | .expectedListEnd => "expected `,` or `]`"
  | .trailingComma => "trailing comma"
  | .trailingCharacters => "trailing characters"
  | .keyNotText => "key must be a string"
  | .invalidNumber => "invalid number"
  | .numberOutOfRange => "number out of range"
  | .invalidEscape => "invalid escape"
  | .halfPair => "unexpected end of hex escape"
  | .loneSurrogate => "lone leading surrogate in hex escape"
  | .controlCharacter => "control character (\\u0000-\\u001F) found while parsing a string"
  | .tooDeep => "recursion limit exceeded"

/-- The text of an early end. -/
def Unfinished.message : Unfinished → String
  | .value => "EOF while parsing a value"
  | .list => "EOF while parsing a list"
  | .object => "EOF while parsing an object"
  | .text => "EOF while parsing a string"

/-- The text of a fault. -/
def Fault.message : Fault → String
  | .malformed cause => cause.message
  | .unfinished inside => inside.message
  | .mismatch cause => cause.message wording

/-- A broken rule as the outcome of a reading. -/
def malformed {α : Type} (cause : Malformed) : Except Fault α :=
  .error (.malformed cause)

/-- An early end as the outcome of a reading. -/
def unfinished {α : Type} (inside : Unfinished) : Except Fault α :=
  .error (.unfinished inside)

/-- A reading of a shape that can only mismatch. -/
def matching {α : Type} : Except Mismatch α → Except Fault α
  | .ok v => .ok v
  | .error cause => .error (.mismatch cause)

@[simp] theorem matching_ok {α : Type} (v : α) : matching (.ok v) = .ok v := rfl

/-- A mismatch is a fault of reading. -/
@[simp] theorem matching_error {α : Type} (cause : Mismatch) :
    matching (.error cause : Except Mismatch α) = .error (.mismatch cause) := rfl

end AliasReport.Json
