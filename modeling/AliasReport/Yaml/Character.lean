/-! # Characters and positions in YAML text

* **`isPrintable`** — the characters that a YAML text may hold at all.
* **`isBlank`**, **`isBreak`**, **`isWordChar`**, **`isUriChar`** — the classes that the grammar
  is written in.
* **`unifyBreaks`** — all breaks that count as a line feed become one. Only the line and paragraph
  separators remain as breaks of their own.
* **`Mark`**, **`Cursor`** — a position in a text, and a position with the text that follows it.
-/

namespace AliasReport.Yaml

/-! ## Classes -/

/-- The characters that a text may hold. -/
def isPrintable (c : Char) : Bool :=
  let n := c.toNat
  n = 0x09 || n = 0x0a || n = 0x0d || (0x20 ≤ n && n ≤ 0x7e) || n = 0x85
    || (0xa0 ≤ n && n ≤ 0xd7ff) || (0xe000 ≤ n && n ≤ 0xfffd) || 0x10000 ≤ n

/-- Blanks within a line. -/
def isBlank (c : Char) : Bool :=
  c = ' ' || c = '\t'

/-- Breaks between lines, in a text whose breaks are unified. -/
def isBreak (c : Char) : Bool :=
  c = '\n' || c = '\u2028' || c = '\u2029'

/-- Blanks and breaks. -/
def isSpace (c : Char) : Bool :=
  isBlank c || isBreak c

/-- The characters of names. -/
def isWordChar (c : Char) : Bool :=
  c.isAlphanum || c = '_' || c = '-'

/-- The characters that tags may hold besides those of names; flow indicators only between angle
brackets. -/
def isUriChar (bracketed : Bool) (c : Char) : Bool :=
  isWordChar c || c ∈ ";/?:@&=+$.!~*'()".toList || (bracketed && c ∈ ",[]".toList)

/-- Whether a text begins with a blank or a break, or is at its end. -/
def atSpace : List Char → Bool
  | [] => true
  | c :: _ => isSpace c

/-- Whether a text begins with a break or is at its end. -/
def atLineEnd : List Char → Bool
  | [] => true
  | c :: _ => isBreak c

/-- Whether a text begins with the mark of the start or the end of a document. Such a mark counts
only at the start of a line. -/
def atDocumentMark : List Char → Bool
  | '-' :: '-' :: '-' :: rest => atSpace rest
  | '.' :: '.' :: '.' :: rest => atSpace rest
  | _ => false

/-! ## Breaks -/

/-- Writes every break as a line feed, the line and paragraph separators apart. -/
def unifyBreaks : List Char → List Char
  | [] => []
  | '\r' :: '\n' :: rest => '\n' :: unifyBreaks rest
  | c :: rest => (if c = '\r' ∨ c = '\u0085' then '\n' else c) :: unifyBreaks rest

/-! ## Positions -/

/-- A position in a text: its line, and how many characters and how many bytes of the line come
before it. -/
structure Mark where
  line : Nat
  column : Nat
  offset : Nat
deriving DecidableEq, Repr

namespace Mark

/-- The first position of a text. -/
def start : Mark := ⟨0, 0, 0⟩

/-- The position behind a character of the line. -/
def along (m : Mark) (c : Char) : Mark :=
  ⟨m.line, m.column + 1, m.offset + c.utf8Size⟩

/-- The position behind a break. -/
def below (m : Mark) : Mark :=
  ⟨m.line + 1, 0, 0⟩

/-- The position behind a character. -/
def past (m : Mark) (c : Char) : Mark :=
  if isBreak c then m.below else m.along c

end Mark

/-- A position in a text, with the text that follows it. -/
structure Cursor where
  mark : Mark
  rest : List Char
deriving DecidableEq, Repr

namespace Cursor

/-- The column of a position. -/
def column (p : Cursor) : Nat := p.mark.column

/-- The position behind some more characters of the line. -/
def skip (p : Cursor) (count : Nat) : Cursor :=
  ⟨(p.rest.take count).foldl .along p.mark, p.rest.drop count⟩

/-- The position behind the next character, if there is one. -/
def next (p : Cursor) : Cursor :=
  match p.rest with
  | [] => p
  | c :: rest => ⟨p.mark.past c, rest⟩

/-- The characters of the line up to the first one outside a class, and the position there. -/
def takeWhile (p : Cursor) (inside : Char → Bool) : List Char × Cursor :=
  let taken := p.rest.takeWhile inside
  (taken, p.skip taken.length)

/-- The position of the first character outside a class. -/
def skipWhile (p : Cursor) (inside : Char → Bool) : Cursor :=
  (p.takeWhile inside).2

/-- The position at the end of the line. -/
def toLineEnd (p : Cursor) : Cursor :=
  p.skipWhile fun c => !isBreak c

/-- The position behind blanks and a comment; nothing else may be left of the line. -/
def finishLine? (p : Cursor) : Option Cursor :=
  let p := p.skipWhile isBlank
  let p := if p.rest.head? = some '#' then p.toLineEnd else p
  if atLineEnd p.rest then some p.next else none

end Cursor

end AliasReport.Yaml
