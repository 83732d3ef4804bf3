import AliasReport.Number.Digits

/-! # JSON values and their two printed forms

* **`Json`** — a value as it is printed: members keep their order, numbers are natural numbers.
* **`Json.compact`** — no blanks at all.
* **`Json.pretty`** — one item or member a line, two blanks deeper than what holds it; an empty
  list or object stays on its line.
* **`escape`** — text inside quotes: quotes, backslashes and control characters are escaped, the
  latter by their short names where they have one; all else stands for itself.
-/

namespace AliasReport

/-- A JSON value as it is printed. -/
inductive Json
  | null
  | bool (b : Bool)
  | number (n : Nat)
  | text (s : String)
  | array (items : List Json)
  | object (members : List (String × Json))

namespace Json

open AliasReport.Number

/-! ## Text -/

/-- A control character without a short name, as `\u` and four hexadecimal digits. -/
def controlEscape (c : Char) : List Char :=
  let digits := Nat.toDigits 16 c.toNat
  '\\' :: 'u' :: List.replicate (4 - digits.length) '0' ++ digits

/-- One character inside quotes. -/
def escapeChar (c : Char) : List Char :=
  if c = '"' ∨ c = '\\' then ['\\', c]
  else if c = '\x08' then ['\\', 'b']
  else if c = '\t' then ['\\', 't']
  else if c = '\n' then ['\\', 'n']
  else if c = '\x0c' then ['\\', 'f']
  else if c = '\r' then ['\\', 'r']
  else if c.toNat < 0x20 then controlEscape c
  else [c]

/-- Text inside quotes. -/
def escape (cs : List Char) : List Char :=
  cs.flatMap escapeChar

@[simp] theorem escape_nil : escape [] = [] := rfl

@[simp] theorem escape_cons (c : Char) (cs : List Char) :
    escape (c :: cs) = escapeChar c ++ escape cs := rfl

/-- Text between quotes. -/
def quoted (s : String) : List Char :=
  '"' :: escape s.toList ++ ['"']

/-- The printed form of a value that holds no other values. -/
def truthText (b : Bool) : List Char :=
  (if b then "true" else "false").toList

/-! ## Compact form -/

mutual

/-- The compact form of a value. -/
def compactChars : Json → List Char
  | .null => "null".toList
  | .bool b => truthText b
  | .number n => decimal n
  | .text s => quoted s
  | .array items => '[' :: compactItems items ++ [']']
  | .object members => '\x7b' :: compactMembers members ++ ['\x7d']

/-- Items with commas between them. -/
def compactItems : List Json → List Char
  | [] => []
  | [j] => compactChars j
  | j :: k :: items => compactChars j ++ ',' :: compactItems (k :: items)

/-- Members with commas between them. -/
def compactMembers : List (String × Json) → List Char
  | [] => []
  | [(name, j)] => quoted name ++ ':' :: compactChars j
  | (name, j) :: m :: members =>
    quoted name ++ ':' :: compactChars j ++ ',' :: compactMembers (m :: members)

end

/-- The compact form of a value. -/
def compact (j : Json) : String :=
  String.ofList j.compactChars

/-! ## Pretty form -/

/-- A line break and the blanks of a depth. -/
def newline (depth : Nat) : List Char :=
  '\n' :: List.replicate (2 * depth) ' '

mutual

/-- The pretty form of a value whose own line is at a depth. -/
def prettyChars (depth : Nat) : Json → List Char
  | .null => "null".toList
  | .bool b => truthText b
  | .number n => decimal n
  | .text s => quoted s
  | .array [] => ['[', ']']
  | .array (j :: items) =>
    '[' :: prettyItems (depth + 1) (j :: items) ++ newline depth ++ [']']
  | .object [] => ['\x7b', '\x7d']
  | .object (m :: members) =>
    '\x7b' :: prettyMembers (depth + 1) (m :: members) ++ newline depth ++ ['\x7d']

/-- Items, each on a line of its own. -/
def prettyItems (depth : Nat) : List Json → List Char
  | [] => []
  | [j] => newline depth ++ prettyChars depth j
  | j :: k :: items =>
    newline depth ++ prettyChars depth j ++ ',' :: prettyItems depth (k :: items)

/-- Members, each on a line of its own. -/
def prettyMembers (depth : Nat) : List (String × Json) → List Char
  | [] => []
  | [(name, j)] => newline depth ++ quoted name ++ ':' :: ' ' :: prettyChars depth j
  | (name, j) :: m :: members =>
    newline depth ++ quoted name ++ ':' :: ' ' :: prettyChars depth j
      ++ ',' :: prettyMembers depth (m :: members)

end

/-- The pretty form of a value. -/
def pretty (j : Json) : String :=
  String.ofList (prettyChars 0 j)

end Json

end AliasReport
