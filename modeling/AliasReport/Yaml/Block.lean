import AliasReport.Yaml.Scalar

/-! # Block scalars

Text that is set apart by its indentation, under a header that says how its lines are joined.

* **`BlockHeader`** — the kind of text, what happens to the breaks at its end, and the indentation
  if it is given.
* **`readMargin?`** — the blank lines before a line of text.
* **`BlockLine`**, **`readBlockLines?`** — the lines of the text, each with the breaks behind it.
* **`joinLines`** — the text that the lines stand for.
* **`readBlock?`** — the text of a block scalar.
-/

namespace AliasReport.Yaml

/-- What happens to the breaks at the end of a text. -/
inductive Chomping
  | strip
  /-- The last line keeps its own break. -/
  | clip
  | keep
deriving DecidableEq, Repr

/-- The header of a block scalar. -/
structure BlockHeader where
  chomping : Chomping
  /-- How much deeper the text is indented than what holds it. -/
  deeper : Option Nat
deriving DecidableEq, Repr

/-- The chomping that a header asks for. -/
def chomping? : List Char → Option (Chomping × List Char)
  | '+' :: rest => some (.keep, rest)
  | '-' :: rest => some (.strip, rest)
  | _ => none

/-- The indentation that a header asks for: a digit that is not zero. -/
def deeper? : List Char → Option (Option Nat × Nat)
  | [] => some (none, 0)
  | c :: _ =>
    if c = '0' then none
    else if c.isDigit then some (some (c.toNat - '0'.toNat), 1)
    else some (none, 0)

/-- The header of a block scalar, from behind its indicator, and the start of the next line. -/
def readHeader? (p : Cursor) : Option (BlockHeader × Cursor) := do
  match chomping? p.rest with
  | some (chomping, rest) =>
    let (deeper, length) ← deeper? rest
    return (⟨chomping, deeper⟩, ← (p.skip (1 + length)).finishLine?)
  | none =>
    let (deeper, length) ← deeper? p.rest
    let p := p.skip length
    match deeper, chomping? p.rest with
    | some _, some (chomping, _) => return (⟨chomping, deeper⟩, ← (p.skip 1).finishLine?)
    | _, _ => return (⟨.clip, deeper⟩, ← p.finishLine?)

/-- The breaks of blank lines, the widest indentation seen, and the position behind them and the
indentation of the next line. Without an `indent` all blanks count as indentation; tabs never
do. -/
def readMargin? (indent : Option Nat) :
    (widest : Nat) → Mark → List Char → Option (List Char × Nat × Cursor)
  | widest, m, [] => some ([], max widest m.column, ⟨m, []⟩)
  | widest, m, c :: rest =>
    let short := indent.all (m.column < ·)
    if short && c = ' ' then readMargin? indent widest (m.along c) rest
    else if short && c = '\t' then none
    else if isBreak c then
      (readMargin? indent (max widest m.column) m.below rest).map fun (breaks, after) =>
        (c :: breaks, after)
    else some ([], max widest m.column, ⟨m, c :: rest⟩)

/-- A line of text with its own break and those of the blank lines behind it. -/
structure BlockLine where
  text : List Char
  ending : List Char
  blankLines : List Char
deriving DecidableEq, Repr

/-- Whether a line begins with a blank. -/
def BlockLine.startsBlank (l : BlockLine) : Bool :=
  l.text.head?.any isBlank

/-- The lines of a text with a given indentation; `fuel` exceeds their number. -/
def readBlockLines? (indent : Nat) : (fuel : Nat) → Cursor → Option (List BlockLine × Cursor)
  | 0, _ => none
  | fuel + 1, p =>
    if p.column = indent && !p.rest.isEmpty then do
      let (text, p) := p.takeWhile fun c => !isBreak c
      let ending := p.rest.take 1
      let p := p.next
      let (blankLines, _, p) ← readMargin? (some indent) 0 p.mark p.rest
      let (lines, p) ← readBlockLines? indent fuel p
      return (⟨text, ending, blankLines⟩ :: lines, p)
    else some ([], p)

/-- The text behind a line: the breaks up to the next line and that line. A folded text joins two
lines by a blank unless one of them begins with one. -/
def joinLines (folded : Bool) (chomping : Chomping) : BlockLine → List BlockLine → List Char
  | l, [] =>
    match chomping with
    | .strip => l.text
    | .clip => l.text ++ l.ending
    | .keep => l.text ++ l.ending ++ l.blankLines
  | l, next :: lines =>
    let gap :=
      if folded && l.ending = ['\n'] && !l.startsBlank && !next.startsBlank then
        if l.blankLines.isEmpty then [' '] else l.blankLines
      else l.ending ++ l.blankLines
    l.text ++ gap ++ joinLines folded chomping next lines

/-- The text of a block scalar, from behind its indicator. `outer` is the indentation of what holds
it. -/
def readBlock? (folded : Bool) (outer : Int) (p : Cursor) : Option (List Char × Cursor) := do
  let (header, p) ← readHeader? p
  let given := header.deeper.map fun n => n + (max outer 0).toNat
  let (blankLines, widest, p) ← readMargin? given 0 p.mark p.rest
  let indent := given.getD (max (max widest (outer + 1).toNat) 1)
  let (lines, p) ← readBlockLines? indent (p.rest.length + 1) p
  match lines with
  | [] => return (if header.chomping = .keep then blankLines else [], p)
  | line :: lines => return (blankLines ++ joinLines folded header.chomping line lines, p)

end AliasReport.Yaml
