import AliasReport.Yaml.Block
import AliasReport.Yaml.Token

/-! # From YAML text to tokens

A colon can make a key of what stands before it. So whatever could be such a key is remembered, and
the token that marks it as a key, with the start of its mapping, is put in front of it once the
colon comes. Tokens wait in a queue until nothing can be put in front of them any more.

* **`KeyCandidate`** — a token that a later colon may make a key. It has to be on the line of the
  colon, and within 1024 bytes of it.
* **`Lexer`**, **`Lexer.next?`** — the state between two tokens of the text, and the step over the
  next one.
* **`tokens`** — the tokens of a text, up to its end or to the place where it is malformed.

A text is taken in pieces, and a character that is not printable spoils the whole of its piece. The
tokens in front of that piece are still found.
-/

namespace AliasReport.Yaml

/-- A token that a later colon may make a key. -/
structure KeyCandidate where
  /-- The number of the token, counted from the start of the text. -/
  number : Nat
  mark : Mark
  /-- Whether the token cannot be anything else, by its indentation. -/
  required : Bool
deriving DecidableEq, Repr

/-- The state between two tokens of the text. -/
structure Lexer where
  cursor : Cursor
  /-- Whether the text goes up to its end, and not only up to a piece that is spoiled. -/
  whole : Bool
  /-- Whether a key may start here. -/
  keyAllowed : Bool
  /-- The candidate of the innermost flow collection, or of the block level outside them. -/
  candidate : Option KeyCandidate
  /-- The candidates of the levels further out, one for each open flow collection. -/
  outer : List (Option KeyCandidate)
  /-- The column of the innermost block collection, or `-1`. -/
  indent : Int
  /-- The columns of the block collections further out. -/
  indents : List Int
  /-- Tokens that are not given out yet. -/
  queue : List Token
  /-- How many tokens have been given out. -/
  given : Nat
deriving Repr

namespace Lexer

/-- The state before a text. -/
def start (whole : Bool) (cs : List Char) : Lexer :=
  ⟨⟨.start, cs⟩, whole, true, none, [], -1, [], [], 0⟩

/-- Whether a flow collection is open. -/
def inFlow (s : Lexer) : Bool :=
  !s.outer.isEmpty

/-- A state with one more token. -/
def push (s : Lexer) (t : Token) : Lexer :=
  { s with queue := s.queue ++ [t] }

/-- A state with one more token in front of the one with a given number. -/
def insert (s : Lexer) (number : Nat) (t : Token) : Lexer :=
  let place := number - s.given
  { s with queue := s.queue.take place ++ t :: s.queue.drop place }

/-- A state at another position. -/
def goto (s : Lexer) (p : Cursor) : Lexer :=
  { s with cursor := p }

/-- A state where a key may start, or may not. -/
def allowKey (s : Lexer) (allowed : Bool) : Lexer :=
  { s with keyAllowed := allowed }

/-! ## Candidates for keys -/

/-- Whether a colon that is not before a position comes too late for a candidate. -/
def isStale (m : Mark) (k : KeyCandidate) : Bool :=
  k.mark.line < m.line || k.mark.offset + 1024 < m.offset

/-- Gives up the candidates for which a colon comes too late. -/
def dropStale? (s : Lexer) : Option Lexer :=
  let late := isStale s.cursor.mark
  if (s.candidate :: s.outer).any (·.any fun k => late k && k.required) then none
  else
    let keep (k : Option KeyCandidate) : Option KeyCandidate := k.filter (!late ·)
    some { s with candidate := keep s.candidate, outer := s.outer.map keep }

/-- Gives up the innermost candidate. -/
def dropCandidate? (s : Lexer) : Option Lexer :=
  if s.candidate.any (·.required) then none else some { s with candidate := none }

/-- Makes the next token a candidate where a key may start. -/
def saveCandidate? (s : Lexer) : Option Lexer :=
  if s.keyAllowed then do
    let s ← s.dropCandidate?
    let required := !s.inFlow && s.indent = s.cursor.column
    return { s with candidate := some ⟨s.given + s.queue.length, s.cursor.mark, required⟩ }
  else some s

/-! ## Block structure -/

/-- The tokens and the indentation left when the block collections deeper than a column end. -/
def endsBelow (column : Int) :
    (indent : Int) → (indents : List Int) → List Token × Int × List Int
  | indent, [] => ([], indent, [])
  | indent, i :: indents =>
    if column < indent then
      let (ends, rest) := endsBelow column i indents
      (.blockEnd :: ends, rest)
    else ([], indent, i :: indents)

/-- Ends the block collections deeper than a column. -/
def closeBlocks (s : Lexer) (column : Int) : Lexer :=
  if s.inFlow then s
  else
    let (ends, indent, indents) := endsBelow column s.indent s.indents
    { s with indent, indents, queue := s.queue ++ ends }

/-- Starts a block collection at a column, unless one is open there. Its token comes in front of the
one with a given number, or last. -/
def openBlock (s : Lexer) (column : Nat) (number : Option Nat) (t : Token) : Lexer :=
  if s.inFlow || column ≤ s.indent then s
  else
    let s := { s with indent := column, indents := s.indent :: s.indents }
    match number with
    | none => s.push t
    | some number => s.insert number t

/-! ## Steps -/

/-- The position of the next token, and whether a key may start there. Tabs are skipped only where
they cannot be taken for indentation; in a block, a key may start on a new line. A byte order mark
may start any line. -/
def findToken (inFlow : Bool) :
    (comment : Bool) → (keyAllowed : Bool) → Mark → List Char → Bool × Cursor
  | _, allowed, m, [] => (allowed, ⟨m, []⟩)
  | comment, allowed, m, c :: rest =>
    if isBreak c then findToken inFlow false (allowed || !inFlow) m.below rest
    else if comment || c = '#' then findToken inFlow true allowed (m.along c) rest
    else if c = ' ' || (c = '\t' && (inFlow || !allowed)) then
      findToken inFlow false allowed (m.along c) rest
    else if c = '\ufeff' && m.column = 0 then findToken inFlow false allowed (m.along c) rest
    else (allowed, ⟨m, c :: rest⟩)

/-- Goes to the next token. -/
def toToken (s : Lexer) : Lexer :=
  let (keyAllowed, cursor) := findToken s.inFlow false s.keyAllowed s.cursor.mark s.cursor.rest
  { s with keyAllowed, cursor }

/-- The end of the text, which ends its last line as well. -/
def lexEnd? (s : Lexer) : Option Lexer :=
  ((s.closeBlocks (-1)).dropCandidate?).map fun s =>
    let m := s.cursor.mark
    let m := if m.column = 0 then m else m.below
    ((s.allowKey false).goto ⟨m, []⟩).push .streamEnd

/-- A directive. -/
def lexDirective? (s : Lexer) : Option Lexer := do
  let s ← (s.closeBlocks (-1)).dropCandidate?
  let (t, p) ← readDirective? (s.cursor.skip 1)
  return ((s.allowKey false).goto p).push t

/-- The mark of the start or the end of a document. -/
def lexDocumentMark? (s : Lexer) (t : Token) : Option Lexer :=
  ((s.closeBlocks (-1)).dropCandidate?).map fun s =>
    ((s.allowKey false).goto (s.cursor.skip 3)).push t

/-- The start of a flow collection, which can itself be a key. -/
def lexFlowStart? (s : Lexer) (t : Token) : Option Lexer :=
  s.saveCandidate?.map fun s =>
    let s := { s with candidate := none, outer := s.candidate :: s.outer }
    ((s.allowKey true).goto (s.cursor.skip 1)).push t

/-- The end of a flow collection. -/
def lexFlowEnd? (s : Lexer) (t : Token) : Option Lexer :=
  s.dropCandidate?.map fun s =>
    let s := match s.outer with
      | [] => s
      | k :: outer => { s with candidate := k, outer }
    ((s.allowKey false).goto (s.cursor.skip 1)).push t

/-- The comma between the entries of a flow collection. -/
def lexFlowEntry? (s : Lexer) : Option Lexer :=
  s.dropCandidate?.map fun s =>
    ((s.allowKey true).goto (s.cursor.skip 1)).push .flowEntry

/-- The hyphen before an entry of a block sequence. -/
def lexBlockEntry? (s : Lexer) : Option Lexer :=
  if !s.inFlow && !s.keyAllowed then none
  else
    (s.openBlock s.cursor.column none .blockSequenceStart).dropCandidate?.map fun s =>
      ((s.allowKey true).goto (s.cursor.skip 1)).push .blockEntry

/-- The question mark before a key. -/
def lexKey? (s : Lexer) : Option Lexer :=
  if !s.inFlow && !s.keyAllowed then none
  else
    (s.openBlock s.cursor.column none .blockMappingStart).dropCandidate?.map fun s =>
      ((s.allowKey (!s.inFlow)).goto (s.cursor.skip 1)).push .key

/-- The colon before a value. It makes a key of the candidate, if there is one. -/
def lexValue? (s : Lexer) : Option Lexer :=
  let step (s : Lexer) : Lexer := (s.goto (s.cursor.skip 1)).push .value
  match s.candidate with
  | some k =>
    -- The start of a mapping, if this is its first key, goes in front of the mark of the key.
    let s := (s.insert k.number .key).openBlock k.mark.column (some k.number) .blockMappingStart
    some (step ({ s with candidate := none }.allowKey false))
  | none =>
    if !s.inFlow && !s.keyAllowed then none
    else some (step ((s.openBlock s.cursor.column none .blockMappingStart).allowKey (!s.inFlow)))

/-- A property of a node, or a scalar on one or several lines: what a reader makes of the text. -/
def lexNode? (s : Lexer) (read : Cursor → Option (Token × Cursor)) : Option Lexer := do
  let s ← s.saveCandidate?
  let (t, p) ← read s.cursor
  return ((s.allowKey false).goto p).push t

/-- Plain text. Behind a break a key may start. -/
def lexPlain? (s : Lexer) : Option Lexer := do
  let s ← s.saveCandidate?
  let (text, broken, p) ← readPlain? s.inFlow (s.indent + 1) .none s.cursor.mark s.cursor.rest
  return ((s.allowKey broken).goto p).push (.scalar .plain text)

/-- A block scalar. -/
def lexBlock? (s : Lexer) (folded : Bool) : Option Lexer := do
  let s ← s.dropCandidate?
  let (text, p) ← readBlock? folded s.indent (s.cursor.skip 1)
  return ((s.allowKey true).goto p).push (.scalar (if folded then .folded else .literal) text)

/-- The reader of the text between quotes. -/
def readQuoted? (double : Bool) (p : Cursor) : Option (Token × Cursor) :=
  let p := p.skip 1
  if double then
    (readDoubleQuoted? 0 .none p.mark p.rest).map fun (text, p) => (.scalar .doubleQuoted text, p)
  else
    (readSingleQuoted? 0 .none p.mark p.rest).map fun (text, p) => (.scalar .singleQuoted text, p)

/-- Whether plain text can start with a character that is followed by `rest`. -/
def startsPlain (inFlow : Bool) (c : Char) (rest : List Char) : Bool :=
  !(isSpace c || c ∈ "-?:,[]\x7b\x7d#&*!|>'\"%@`".toList)
    || (c = '-' && !rest.head?.any isBlank)
    || (!inFlow && (c = '?' || c = ':') && !atSpace rest)

/-- The token that starts with a character that is followed by `rest`. -/
def lexToken? (s : Lexer) (c : Char) (rest : List Char) : Option Lexer :=
  let lineStart := s.cursor.column = 0
  if lineStart && c = '%' then s.lexDirective?
  else if lineStart && c = '-' && atDocumentMark (c :: rest) then s.lexDocumentMark? .documentStart
  else if lineStart && c = '.' && atDocumentMark (c :: rest) then s.lexDocumentMark? .documentEnd
  else if c = '[' then s.lexFlowStart? .flowSequenceStart
  else if c = '\x7b' then s.lexFlowStart? .flowMappingStart
  else if c = ']' then s.lexFlowEnd? .flowSequenceEnd
  else if c = '\x7d' then s.lexFlowEnd? .flowMappingEnd
  else if c = ',' then s.lexFlowEntry?
  else if c = '-' && atSpace rest then s.lexBlockEntry?
  else if c = '?' && (s.inFlow || atSpace rest) then s.lexKey?
  else if c = ':' && (s.inFlow || atSpace rest) then s.lexValue?
  else if c = '*' then
    s.lexNode? fun p => (readName? (p.skip 1)).map fun (name, p) => (.alias name, p)
  else if c = '&' then
    s.lexNode? fun p => (readName? (p.skip 1)).map fun (name, p) => (.anchor name, p)
  else if c = '!' then s.lexNode? (readTag? s.inFlow)
  else if c = '|' && !s.inFlow then s.lexBlock? false
  else if c = '>' && !s.inFlow then s.lexBlock? true
  else if c = '\'' then s.lexNode? (readQuoted? false)
  else if c = '"' then s.lexNode? (readQuoted? true)
  else if startsPlain s.inFlow c rest then s.lexPlain?
  else none

/-- Whether a spoiled piece starts within the next `count` characters. -/
def isSpoiledWithin (s : Lexer) (count : Nat) : Bool :=
  !s.whole && (s.cursor.rest.drop (count - 1)).isEmpty

/-- The step over the next token. A token is told by up to four characters, and where it ends by the
one behind it. -/
def next? (s : Lexer) : Option Lexer := do
  let s ← s.toToken.dropStale?
  let s := s.closeBlocks s.cursor.column
  if s.isSpoiledWithin 4 then none
  else
    let s ← match s.cursor.rest with
      | [] => s.lexEnd?
      | c :: rest => s.lexToken? c rest
    if s.isSpoiledWithin 1 then none else return s

/-- Whether something can still be put in front of the first token of the queue. -/
def headIsCandidate (s : Lexer) : Bool :=
  (s.candidate :: s.outer).any (·.any (·.number = s.given))

/-- The tokens from a state on; `fuel` exceeds the number of steps. -/
def run : (fuel : Nat) → Lexer → List Token
  | 0, _ => []
  | fuel + 1, s =>
    let more (s : Lexer) : List Token :=
      match s.next? with
      | none => []
      | some s => run fuel s
    match s.queue with
    | [] => more s
    | _ :: _ =>
      match s.dropStale? with
      | none => []
      | some s =>
        match s.queue with
        | [] => more s
        | t :: queue =>
          -- A colon further on can still put the start of a mapping in front of this token.
          if s.headIsCandidate then more s
          else if t = .streamEnd then [t]
          else t :: run fuel { s with queue, given := s.given + 1 }

end Lexer

/-- The number of bytes that a piece of a text has at most. -/
def pieceSize : Nat := 16384

/-- The pieces of a text in front of the first one with a character that is not printable, and
whether they are all of the text. `done` are the characters of whole pieces and `piece` those of the
present one, `size` bytes so far, the last one first. -/
def readableFrom (done piece : List Char) (size : Nat) : List Char → List Char × Bool
  | [] => ((piece ++ done).reverse, true)
  | c :: rest =>
    let full := pieceSize < size + c.utf8Size
    let done := if full then piece ++ done else done
    if !isPrintable c then (done.reverse, false)
    else if full then readableFrom done [c] c.utf8Size rest
    else readableFrom done (c :: piece) (size + c.utf8Size) rest

/-- The characters of a text that can be read, and whether they are all of it. -/
def readable (text : String) : List Char × Bool :=
  readableFrom [] [] 0 text.toList

/-- The tokens of a text. The last one is the end of the text, unless the text is malformed. -/
def tokens (text : String) : List Token :=
  let (cs, whole) := readable text
  Lexer.run (8 * (cs.length + 4)) (.start whole (unifyBreaks cs))

end AliasReport.Yaml
