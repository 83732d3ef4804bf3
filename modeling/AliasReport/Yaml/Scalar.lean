import AliasReport.Number.Digits
import AliasReport.Yaml.Character

/-! # Scalars on one or several lines

The text of a scalar can go on in the next line. A single break between two lines stands for a
blank; of several breaks the first is dropped.

* **`Style`** — how a scalar is written.
* **`Gap`**, **`Gap.fold`** — the blanks and breaks between two pieces of text, and what they stand
  for.
* **`readPlain?`** — text without any quotes. It ends at a comment, at an indicator, or at a line
  that is not indented enough.
* **`readSingleQuoted?`**, **`readDoubleQuoted?`** — text up to the closing quote.
* **`readEscape?`** — what stands behind a backslash.
-/

namespace AliasReport.Yaml

open AliasReport.Number

/-- How a scalar is written. -/
inductive Style
  | plain
  | singleQuoted
  | doubleQuoted
  | literal
  | folded
deriving DecidableEq, Repr

/-! ## Gaps -/

/-- The blanks and breaks between two pieces of text. -/
structure Gap where
  /-- The blanks before any break. -/
  blanks : List Char
  /-- Whether the text goes on in a later line. -/
  broken : Bool
  /-- The first break, if it counts. -/
  first : Option Char
  /-- The breaks after it. -/
  later : List Char
deriving DecidableEq, Repr

namespace Gap

/-- No gap. -/
def none : Gap := ⟨[], false, Option.none, []⟩

/-- A break that does not count. -/
def escaped : Gap := ⟨[], true, Option.none, []⟩

/-- Whether there is no gap. -/
def isNone (g : Gap) : Bool :=
  g.blanks.isEmpty && !g.broken

/-- A gap with one more blank. Blanks at the start of a line are dropped. -/
def addBlank (g : Gap) (c : Char) : Gap :=
  if g.broken then g else { g with blanks := g.blanks ++ [c] }

/-- A gap with one more break. The first one drops the blanks before it. -/
def addBreak (g : Gap) (c : Char) : Gap :=
  if g.broken then { g with later := g.later ++ [c] }
  else ⟨[], true, some c, []⟩

/-- The text that a gap stands for. -/
def fold (g : Gap) : List Char :=
  if g.broken then
    match g.first with
    | Option.none => g.later
    | some '\n' => if g.later.isEmpty then [' '] else g.later
    | some c => c :: g.later
  else g.blanks

@[simp] theorem fold_none : Gap.none.fold = [] := rfl

/-- A single line feed stands for a blank. -/
@[simp] theorem fold_addBreak_none : (Gap.none.addBreak '\n').fold = [' '] := rfl

end Gap

/-! ## Plain text -/

/-- Plain text from a position on: the text, whether breaks follow it, and the position behind it
and any gap after it. `margin` is the least column of a further line. -/
def readPlain? (inFlow : Bool) (margin : Int) :
    (gap : Gap) → Mark → List Char → Option (List Char × Bool × Cursor)
  | gap, m, [] => some ([], gap.broken, ⟨m, []⟩)
  | gap, m, c :: rest =>
    let stop := some ([], gap.broken, (⟨m, c :: rest⟩ : Cursor))
    if isBlank c then
      if gap.broken && c = '\t' && m.column < margin then none
      else readPlain? inFlow margin (gap.addBlank c) (m.along c) rest
    else if isBreak c then readPlain? inFlow margin (gap.addBreak c) m.below rest
    -- Behind a gap a comment ends the text, and so does a line that is not indented enough.
    else if !gap.isNone && (c = '#' || (!inFlow && m.column < margin)) then stop
    else if m.column = 0 && atDocumentMark (c :: rest) then stop
    -- Between brackets a colon in front of an indicator is neither text nor the end of a key.
    else if inFlow && c = ':' && rest.head?.any (· ∈ ",?[]\x7b\x7d".toList) then none
    else if (c = ':' && atSpace rest) || (inFlow && c ∈ ",[]\x7b\x7d".toList) then stop
    else
      (readPlain? inFlow margin .none (m.along c) rest).map fun (text, after) =>
        (gap.fold ++ c :: text, after)

/-! ## Quoted text -/

/-- Text between single quotes, from behind the opening one; a quote inside is written twice.
`skip` characters have been dealt with. -/
def readSingleQuoted? : (skip : Nat) → (gap : Gap) → Mark → List Char →
    Option (List Char × Cursor)
  | _, _, _, [] => none
  | skip + 1, gap, m, c :: rest => readSingleQuoted? skip gap (m.along c) rest
  | 0, gap, m, c :: rest =>
    if isBlank c then readSingleQuoted? 0 (gap.addBlank c) (m.along c) rest
    else if isBreak c then readSingleQuoted? 0 (gap.addBreak c) m.below rest
    else if m.column = 0 && atDocumentMark (c :: rest) then none
    else if c = '\'' && rest.head? ≠ some '\'' then some (gap.fold, ⟨m.along c, rest⟩)
    else
      (readSingleQuoted? (if c = '\'' then 1 else 0) .none (m.along c) rest).map
        fun (text, after) => (gap.fold ++ c :: text, after)

/-- The character of an escape of one letter. -/
def letterEscape? (c : Char) : Option Char :=
  if c = '0' then some '\x00'
  else if c = 'a' then some '\x07'
  else if c = 'b' then some '\x08'
  else if c = 't' ∨ c = '\t' then some '\t'
  else if c = 'n' then some '\n'
  else if c = 'v' then some '\x0b'
  else if c = 'f' then some '\x0c'
  else if c = 'r' then some '\r'
  else if c = 'e' then some '\x1b'
  else if c = ' ' ∨ c = '"' ∨ c = '/' ∨ c = '\\' then some c
  else if c = 'N' then some '\u0085'
  else if c = '_' then some '\u00a0'
  else if c = 'L' then some '\u2028'
  else if c = 'P' then some '\u2029'
  else none

/-- How many hexadecimal digits follow the letter of an escape. -/
def digitCount? (c : Char) : Option Nat :=
  if c = 'x' then some 2
  else if c = 'u' then some 4
  else if c = 'U' then some 8
  else none

/-- The character with a code point. -/
def ofCodePoint? (n : Nat) : Option Char :=
  if h : n.isValidChar then some (Char.ofNatAux n h) else none

/-- The character of the escape behind a backslash, and the length of the escape. -/
def readEscape? : List Char → Option (Char × Nat)
  | [] => none
  | c :: rest =>
    match letterEscape? c, digitCount? c with
    | some v, _ => some (v, 1)
    | none, some count =>
      let digits := rest.take count
      if digits.length = count then
        ((ofDigits? 16 digits).bind ofCodePoint?).map (·, count + 1)
      else none
    | none, none => none

/-- Text between double quotes, from behind the opening one, with escapes. An escaped break joins
two lines. `skip` characters have been dealt with. -/
def readDoubleQuoted? : (skip : Nat) → (gap : Gap) → Mark → List Char →
    Option (List Char × Cursor)
  | _, _, _, [] => none
  | skip + 1, gap, m, c :: rest => readDoubleQuoted? skip gap (m.past c) rest
  | 0, gap, m, c :: rest =>
    if isBlank c then readDoubleQuoted? 0 (gap.addBlank c) (m.along c) rest
    else if isBreak c then readDoubleQuoted? 0 (gap.addBreak c) m.below rest
    else if m.column = 0 && atDocumentMark (c :: rest) then none
    else if c = '"' then some (gap.fold, ⟨m.along c, rest⟩)
    -- The blanks before an escaped break count, unlike those before any other.
    else if c = '\\' && rest.head?.any isBreak then
      (readDoubleQuoted? 1 .escaped (m.along c) rest).map fun (text, after) =>
        (gap.fold ++ text, after)
    else if c = '\\' then do
      let (v, length) ← readEscape? rest
      let (text, after) ← readDoubleQuoted? length .none (m.along c) rest
      return (gap.fold ++ v :: text, after)
    else
      (readDoubleQuoted? 0 .none (m.along c) rest).map fun (text, after) =>
        (gap.fold ++ c :: text, after)

end AliasReport.Yaml
