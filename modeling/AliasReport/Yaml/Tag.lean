import AliasReport.Number.Digits
import AliasReport.Yaml.Character

/-! # Tags of YAML nodes

A tag names the kind of a node. It is a run of bytes: its text may spell out bytes that belong to no
character, and a null byte ends it.

* **`Tag`**, **`Tag.ofBytes`** — a tag, and the one that some bytes spell.
* **`Tag.isMarked`**, **`Tag.isLocal`** — the tags that documents make up for themselves.
* **`readUri?`** — the bytes that the text of a tag spells.
-/

namespace AliasReport.Yaml

open AliasReport.Number

/-- A tag, as its bytes. -/
structure Tag where
  bytes : List UInt8
deriving DecidableEq, Repr

namespace Tag

/-- The tag that some bytes spell: a null byte ends it. -/
def ofBytes (bytes : List UInt8) : Tag :=
  ⟨bytes.takeWhile (· ≠ 0)⟩

/-- The tag that a text spells. -/
def ofText (s : String) : Tag :=
  ofBytes (s.toList.flatMap String.utf8EncodeChar)

/-- One tag followed by another one. -/
def append (t u : Tag) : Tag :=
  ⟨t.bytes ++ u.bytes⟩

/-- Whether a tag has no bytes. -/
def isEmpty (t : Tag) : Bool :=
  t.bytes.isEmpty

/-- The lone exclamation mark. -/
def exclamation : Tag := ofText "!"

/-- What the tags of common kinds begin with. -/
def common : Tag := ofText "tag:yaml.org,2002:"

/-- The tag of truth values. -/
def truth : Tag := common.append (ofText "bool")

/-- The tag of integers. -/
def integer : Tag := common.append (ofText "int")

/-- The tag of floating-point numbers. -/
def real : Tag := common.append (ofText "float")

/-- The tag of null. -/
def nothing : Tag := common.append (ofText "null")

/-- Whether a tag begins with an exclamation mark. -/
def isMarked (t : Tag) : Bool :=
  exclamation.bytes.isPrefixOf t.bytes

/-- Whether a tag is one that a document makes up for itself: text behind an exclamation mark, where
bytes that are no text do not count. -/
def isLocal (t : Tag) : Bool :=
  t.isMarked && (String.fromUTF8? ⟨t.bytes.toArray⟩).isSome

end Tag

/-! ## The text of tags -/

/-- The number of bytes of a character that starts with a given one. -/
def byteCount? (first : Nat) : Option Nat :=
  if first < 0x80 then some 1
  else if first / 0x20 = 0x6 then some 2
  else if first / 0x10 = 0xe then some 3
  else if first / 0x08 = 0x1e then some 4
  else none

/-- A byte written as a percent sign with two hexadecimal digits, and the text behind it. -/
def readByte? : List Char → Option (Nat × List Char)
  | '%' :: a :: b :: rest => (ofDigits? 16 [a, b]).map (·, rest)
  | _ => none

/-- The bytes that go on with a character, each of them written out. -/
def readTrailingBytes? : (count : Nat) → List Char → Option (List UInt8)
  | 0, _ => some []
  | count + 1, cs => do
    let (byte, rest) ← readByte? cs
    if byte / 0x40 = 0x2 then
      return UInt8.ofNat byte :: (← readTrailingBytes? count rest)
    else none

/-- The bytes of a character that is written by its bytes. Only the form of each byte counts. -/
def readByteEscape? (cs : List Char) : Option (List UInt8) := do
  let (first, rest) ← readByte? cs
  let count ← byteCount? first
  return UInt8.ofNat first :: (← readTrailingBytes? (count - 1) rest)

/-- The bytes that the text of a tag spells, and how many characters are taken. `skip` characters
have been dealt with. -/
def readUri? (bracketed : Bool) : (skip : Nat) → List Char → Option (List UInt8 × Nat)
  | _, [] => some ([], 0)
  | skip + 1, _ :: rest => (readUri? bracketed skip rest).map fun (bytes, n) => (bytes, n + 1)
  | 0, c :: rest =>
    if c = '%' then do
      let spelled ← readByteEscape? (c :: rest)
      let (bytes, n) ← readUri? bracketed (3 * spelled.length - 1) rest
      return (spelled ++ bytes, n + 1)
    else if isUriChar bracketed c then
      (readUri? bracketed 0 rest).map fun (bytes, n) => (String.utf8EncodeChar c ++ bytes, n + 1)
    else some ([], 0)

end AliasReport.Yaml
