import AliasReport.Json.Text
import AliasReport.Json.Numeral
import AliasReport.Document.Buffered

/-! # The structure of JSON texts

Readers of the parts that every value is made of, and of values whose shape does not matter.

* **`readHead`** — a scalar, or the bracket that opens a list or an object.
* **`readItems`, `readMembers`** — lists and objects, given a reader of their items or members.
* **`skipValue`** — the text behind a value. Nesting is not limited, and neither the pairing of
  surrogates nor the range of numbers is looked at.
* **`readBuffered`** — a value of any shape.

Lists and objects nest to a limited depth where their contents are read. A reader's `depth` is the
number of brackets that may still be opened.
-/

namespace AliasReport.Json

open AliasReport.Document

/-- The number of brackets that may be open at once. -/
def depthLimit : Nat := 127

/-- Blanks between the parts of a text. -/
def isBlank (c : Char) : Bool :=
  c = ' ' || c = '\n' || c = '\t' || c = '\r'

/-- The text behind any blanks. -/
def skipBlanks (cs : List Char) : List Char :=
  cs.dropWhile isBlank

@[simp] theorem skipBlanks_nil : skipBlanks [] = [] := rfl

/-! ## Scalars and brackets -/

/-- The text behind a keyword. -/
def readKeyword : (keyword : List Char) → List Char → Except Fault (List Char)
  | [], cs => .ok cs
  | _ :: _, [] => unfinished .value
  | k :: keyword, c :: cs => if c = k then readKeyword keyword cs else malformed .expectedKeyword

/-- A scalar, or the bracket that opens a list or an object; the rest starts behind it. -/
def readHead (cs : List Char) : Except Fault (Found × List Char) :=
  match skipBlanks cs with
  | [] => unfinished .value
  | c :: rest =>
    if c = 'n' then (readKeyword "ull".toList rest).map (.nothing, ·)
    else if c = 't' then (readKeyword "rue".toList rest).map (.truth true, ·)
    else if c = 'f' then (readKeyword "alse".toList rest).map (.truth false, ·)
    else if c = '"' then (readText rest).map fun (s, rest) => (.text (String.ofList s), rest)
    else if c = '[' then .ok (.sequence, rest)
    else if c = '\x7b' then .ok (.mapping, rest)
    else
      let number :=
        if c = '-' then readNumeral true rest
        else if c.isDigit then readNumeral false (c :: rest)
        else malformed .expectedValue
      number.bind fun (n, rest) => n.value.map (·, rest)

/-- The text behind the colon between a key and its value. -/
def readColon (cs : List Char) : Except Fault (List Char) :=
  match skipBlanks cs with
  | [] => unfinished .object
  | c :: rest => if c = ':' then .ok rest else malformed .expectedColon

/-- The text behind the end of a document: nothing but blanks may follow it. -/
def readEnd (cs : List Char) : Except Fault Unit :=
  match skipBlanks cs with
  | [] => .ok ()
  | _ :: _ => malformed .trailingCharacters

/-! ## Lists -/

/-- The text where the next item of a list starts, or the text behind the list in `inl`. -/
def nextItem (first : Bool) (cs : List Char) : Except Fault (List Char ⊕ List Char) :=
  match skipBlanks cs with
  | [] => unfinished .list
  | c :: rest =>
    if c = ']' then .ok (.inl rest)
    else if first then .ok (.inr (c :: rest))
    else if c = ',' then
      match skipBlanks rest with
      | [] => unfinished .value
      | d :: rest => if d = ']' then malformed .trailingComma else .ok (.inr (d :: rest))
    else malformed .expectedListEnd

/-- The text behind a list that must end here. -/
def readListEnd (cs : List Char) : Except Fault (List Char) :=
  match skipBlanks cs with
  | [] => unfinished .list
  | c :: rest =>
    if c = ']' then .ok rest
    else if c = ',' ∧ (skipBlanks rest).head? = some ']' then malformed .trailingComma
    else malformed .trailingCharacters

/-- The items of a list; `fuel` exceeds their number. -/
def readItemsFrom {α : Type} (item : List Char → Except Fault (α × List Char)) :
    (fuel : Nat) → (first : Bool) → List Char → Except Fault (List α × List Char)
  | 0, _, _ => unfinished .list
  | fuel + 1, first, cs => do
    match ← nextItem first cs with
    | .inl rest => return ([], rest)
    | .inr cs =>
      let (v, cs) ← item cs
      let (vs, cs) ← readItemsFrom item fuel false cs
      return (v :: vs, cs)

/-- The items of a list, from behind its bracket or, if `first` is false, from behind an item. -/
def readItems {α : Type} (item : List Char → Except Fault (α × List Char)) (first : Bool)
    (cs : List Char) : Except Fault (List α × List Char) :=
  readItemsFrom item (cs.length + 1) first cs

/-! ## Objects -/

/-- The key of the next member of an object, or the text behind the object in `inl`. -/
def nextKey (first : Bool) (cs : List Char) :
    Except Fault (List Char ⊕ String × List Char) :=
  match skipBlanks cs with
  | [] => unfinished .object
  | c :: rest =>
    let key (cs : List Char) : Except Fault (List Char ⊕ String × List Char) :=
      (readText cs).map fun (s, rest) => .inr (String.ofList s, rest)
    if c = '\x7d' then .ok (.inl rest)
    else if first then
      if c = '"' then key rest else malformed .keyNotText
    else if c = ',' then
      match skipBlanks rest with
      | [] => unfinished .value
      | d :: rest =>
        if d = '"' then key rest
        else if d = '\x7d' then malformed .trailingComma
        else malformed .keyNotText
    else malformed .expectedObjectEnd

/-- The members of an object; `fuel` exceeds their number. -/
def readMembersFrom {σ : Type} (member : String → σ → List Char → Except Fault (σ × List Char)) :
    (fuel : Nat) → (first : Bool) → σ → List Char → Except Fault (σ × List Char)
  | 0, _, _, _ => unfinished .object
  | fuel + 1, first, s, cs => do
    match ← nextKey first cs with
    | .inl rest => return (s, rest)
    | .inr (key, cs) =>
      let (s, cs) ← member key s cs
      readMembersFrom member fuel false s cs

/-- The members of an object from behind its bracket. `member` reads the colon and the value that
follow a key and adds them to the state. -/
def readMembers {σ : Type} (member : String → σ → List Char → Except Fault (σ × List Char))
    (s : σ) (cs : List Char) : Except Fault (σ × List Char) :=
  readMembersFrom member (cs.length + 1) true s cs

/-! ## Values that do not matter -/

/-- A bracket that is open. -/
inductive Bracket
  | list
  | object
deriving DecidableEq, Repr

/-- What may come next in a text whose values do not matter. -/
inductive Stage
  | value
  /-- Behind an opening bracket. -/
  | opened
  | key
  /-- Behind a value. -/
  | after
deriving DecidableEq, Repr

/-- The text behind the next part, with the stage that follows; no stage when a value is complete
and no bracket is open. -/
def skipPart (stage : Stage) (opened : List Bracket) (cs : List Char) :
    Except Fault (Option (Stage × List Bracket) × List Char) :=
  match stage, opened, skipBlanks cs with
  | .after, [], _ => .ok (none, cs)
  | .after, _ :: _, c :: rest => do
    let listOpen := opened.head? = some .list
    if c = ',' then return (some (if listOpen then .value else .key, opened), rest)
    else if c = (if listOpen then ']' else '\x7d') then return (some (.after, opened.tail), rest)
    else malformed (if listOpen then .expectedListEnd else .expectedObjectEnd)
  | .opened, _, c :: rest =>
    let listOpen := opened.head? = some .list
    if c = (if listOpen then ']' else '\x7d') then .ok (some (.after, opened.tail), rest)
    else .ok (some (if listOpen then .value else .key, opened), c :: rest)
  | .key, _, c :: rest => do
    if c ≠ '"' then malformed .keyNotText
    else return (some (.value, opened), ← readColon (← skipText rest))
  | .value, _, c :: rest => do
    let scalar (rest : List Char) : Option (Stage × List Bracket) × List Char :=
      (some (.after, opened), rest)
    if c = 'n' then return scalar (← readKeyword "ull".toList rest)
    else if c = 't' then return scalar (← readKeyword "rue".toList rest)
    else if c = 'f' then return scalar (← readKeyword "alse".toList rest)
    else if c = '"' then return scalar (← skipText rest)
    else if c = '[' then return (some (.opened, .list :: opened), rest)
    else if c = '\x7b' then return (some (.opened, .object :: opened), rest)
    else if c = '-' then return scalar (← skipNumeral rest)
    else if c.isDigit then return scalar (← skipNumeral (c :: rest))
    else malformed .expectedValue
  | .value, _, [] => unfinished .value
  | .key, _, [] => unfinished .object
  | _, .list :: _, [] => unfinished .list
  | _, _, [] => unfinished .object

/-- The text behind the values that are still open; `fuel` exceeds the number of parts. -/
def skipFrom : (fuel : Nat) → Stage → List Bracket → List Char → Except Fault (List Char)
  | 0, _, _, _ => unfinished .value
  | fuel + 1, stage, opened, cs => do
    match ← skipPart stage opened cs with
    | (none, rest) => return rest
    | (some (stage, opened), rest) => skipFrom fuel stage opened rest

/-- The text behind a value. -/
def skipValue (cs : List Char) : Except Fault (List Char) :=
  skipFrom (2 * cs.length + 2) .value [] cs

/-! ## Values of any shape -/

/-- A scalar as a buffered value. -/
def ofScalar : Found → Buffered
  | .truth b => .truth b
  | .unsigned n => .unsigned n
  | .signed n => .signed n
  | .real x => .real x
  | .text s => .text s
  | _ => .nothing

/-- A value of any shape. -/
def readBuffered : (depth : Nat) → List Char → Except Fault (Buffered × List Char)
  | depth, cs => do
    match ← readHead cs with
    | (.sequence, rest) =>
      match depth with
      | 0 => malformed .tooDeep
      | depth + 1 =>
        let (items, rest) ← readItems (readBuffered depth) true rest
        return (.sequence items, rest)
    | (.mapping, rest) =>
      match depth with
      | 0 => malformed .tooDeep
      | depth + 1 =>
        let member (key : String) (entries : List (Buffered × Buffered)) (cs : List Char) :
            Except Fault ((List (Buffered × Buffered)) × List Char) := do
          let (v, cs) ← readBuffered depth (← readColon cs)
          return ((.text key, v) :: entries, cs)
        let (entries, rest) ← readMembers member [] rest
        return (.mapping entries.reverse, rest)
    | (scalar, rest) => return (ofScalar scalar, rest)

end AliasReport.Json
