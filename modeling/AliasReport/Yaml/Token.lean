import AliasReport.Yaml.Scalar
import AliasReport.Yaml.Tag

/-! # Tokens of YAML text

* **`Token`** — the words of the language: indicators, scalars, properties of nodes, directives,
  and the block structure that indentation stands for.
* **`readName?`**, **`readTag?`**, **`readDirective?`** — the tokens that have an inner structure.
-/

namespace AliasReport.Yaml

open AliasReport.Number

/-- A word of the language. -/
inductive Token
  | streamEnd
  /-- The version that a document asks for. -/
  | versionDirective (major minor : Nat)
  /-- A shorthand for the beginning of tags. -/
  | tagDirective (handle : List Char) (expansion : Tag)
  | documentStart
  | documentEnd
  | blockSequenceStart
  | blockMappingStart
  | blockEnd
  | flowSequenceStart
  | flowSequenceEnd
  | flowMappingStart
  | flowMappingEnd
  | blockEntry
  | flowEntry
  | key
  | value
  | alias (name : List Char)
  | anchor (name : List Char)
  /-- A tag as a shorthand and what follows it. Without a shorthand it stands for itself. -/
  | tag (handle : List Char) (suffix : Tag)
  | scalar (style : Style) (text : List Char)
deriving DecidableEq, Repr

/-! ## Anchors and aliases -/

/-- The name of an anchor, from behind its indicator. -/
def readName? (p : Cursor) : Option (List Char × Cursor) :=
  let (name, p) := p.takeWhile isWordChar
  let ends := atSpace p.rest || p.rest.head?.any (· ∈ "?:,]\x7d%@`".toList)
  if name.isEmpty || !ends then none else some (name, p)

/-! ## Tags -/

/-- The bytes of a tag from a position on. -/
def readTagBytes? (bracketed : Bool) (p : Cursor) : Option (List UInt8 × Cursor) :=
  (readUri? bracketed 0 p.rest).map fun (bytes, n) => (bytes, p.skip n)

/-- A shorthand as far as it reads as one: an exclamation mark, a name, and another mark if there
is one. -/
def readHandle? (p : Cursor) : Option (List Char × Cursor) :=
  if p.rest.head? = some '!' then
    let (name, p) := (p.skip 1).takeWhile isWordChar
    if p.rest.head? = some '!' then some ('!' :: name ++ ['!'], p.skip 1) else some ('!' :: name, p)
  else none

/-- Whether text that was read as a shorthand is one: it ends with a mark of its own. -/
def isHandle (cs : List Char) : Bool :=
  1 < cs.length && cs.getLast? = some '!'

/-- A tag between angle brackets. -/
def readBracketed? (p : Cursor) : Option (Token × Cursor) := do
  let (bytes, p) ← readTagBytes? true (p.skip 2)
  if bytes.isEmpty || p.rest.head? ≠ some '>' then none
  else return (.tag [] (.ofBytes bytes), p.skip 1)

/-- A tag that is a shorthand and what follows it, or a lone exclamation mark. -/
def readShorthand? (p : Cursor) : Option (Token × Cursor) := do
  let (handle, p) ← readHandle? p
  let (bytes, p) ← readTagBytes? false p
  if isHandle handle then
    if bytes.isEmpty then none else return (.tag handle (.ofBytes bytes), p)
  else
    let suffix := Tag.ofBytes ((handle.drop 1).flatMap String.utf8EncodeChar ++ bytes)
    return (if suffix.isEmpty then .tag [] .exclamation else .tag ['!'] suffix, p)

/-- A tag, from its exclamation mark on. -/
def readTag? (inFlow : Bool) (p : Cursor) : Option (Token × Cursor) := do
  let (tag, p) ← if p.rest[1]? = some '<' then readBracketed? p else readShorthand? p
  if atSpace p.rest || (inFlow && p.rest.head? = some ',') then return (tag, p) else none

/-! ## Directives -/

/-- A number of at most nine digits. -/
def readVersionNumber? (p : Cursor) : Option (Nat × Cursor) :=
  let (digits, p) := p.takeWhile Char.isDigit
  if digits.length ≤ 9 then (ofDigits? 10 digits).map (·, p) else none

/-- The version that a document asks for. -/
def readVersion? (p : Cursor) : Option (Token × Cursor) := do
  let (major, p) ← readVersionNumber? (p.skipWhile isBlank)
  if p.rest.head? ≠ some '.' then none
  else
    let (minor, p) ← readVersionNumber? (p.skip 1)
    return (.versionDirective major minor, p)

/-- A shorthand for the beginning of tags. -/
def readTagDirective? (p : Cursor) : Option (Token × Cursor) := do
  let (handle, p) ← readHandle? (p.skipWhile isBlank)
  if !(isHandle handle || handle = ['!']) || !p.rest.head?.any isBlank then none
  else
    let (bytes, p) ← readTagBytes? true (p.skipWhile isBlank)
    if bytes.isEmpty || !atSpace p.rest then none
    else return (.tagDirective handle (.ofBytes bytes), p)

/-- A directive, from behind its indicator, and the start of the next line. -/
def readDirective? (p : Cursor) : Option (Token × Cursor) := do
  let (name, p) := p.takeWhile isWordChar
  if !atSpace p.rest then none
  else
    let (directive, p) ←
      if name = "YAML".toList then readVersion? p
      else if name = "TAG".toList then readTagDirective? p
      else none
    return (directive, ← p.finishLine?)

end AliasReport.Yaml
