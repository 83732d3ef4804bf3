import AliasReport.Number.Shortest
import AliasReport.Text.Quoted

/-! # Mismatches between a document and the shape it should have

A document is well formed on its own terms and still not what a reader wants. The causes are the
same for every document format; only two words differ between them.

* **`Found`**, **`Wanted`** — what stands in the document, and what was to stand there.
* **`Mismatch`** — the causes.
* **`Wording`**, **`Mismatch.message`** — the text of a cause, given a format's own words.
-/

namespace AliasReport.Document

open AliasReport.Number AliasReport.Text

/-- Unsigned words by their width; `size` counts things and is as wide as `u64`. -/
inductive Width
  | u32
  | u64
  | size
deriving DecidableEq, Repr

namespace Width

/-- One more than the largest word of a width. -/
def bound : Width → Nat
  | u32 => UInt32.size
  | u64 => UInt64.size
  | size => UInt64.size

/-- The name of a width in messages. -/
def name : Width → String
  | u32 => "u32"
  | u64 => "u64"
  | size => "usize"

end Width

/-- A value that stands in a document. -/
inductive Found
  /-- The null value. -/
  | nothing
  | truth (b : Bool)
  /-- A natural number of at most 64 bits. -/
  | unsigned (n : Nat)
  /-- An integer of at most 64 bits that is written with a sign. -/
  | signed (n : Int)
  /-- An integer that needs more than 64 bits. -/
  | wide (n : Int)
  | real (x : Binary64)
  | text (s : String)
  | sequence
  | mapping
  /-- A value that carries a tag of its own. -/
  | alternative
deriving DecidableEq, Repr

/-- A kind of value that a reader asks for. -/
inductive Wanted
  | word (w : Width)
  | truth
  | text
  | sequence
  | nothing
  | record (name : String)
  /-- A record written as the sequence of its members. -/
  | recordItems (name : String) (count : Nat)
  | union (name : String)
  /-- One case of a union written as the sequence of its members. -/
  | caseItems (name : String) (label : String) (count : Nat)
  /-- No more items than these. -/
  | itemsTaken (count : Nat)
  | memberName
  | caseName
  | caseIndex (count : Nat)
  | nameOrMapping
  | loneMember
  | anything
  | tagOrAnything (tag : String)
  /-- The kinds that an explicit tag on a scalar demands. -/
  | taggedNull
  | taggedTruth
  | taggedInteger
  | taggedReal
deriving DecidableEq, Repr

/-- Why a document does not have a shape. -/
inductive Mismatch
  | invalidType (found : Found) (wanted : Wanted)
  | invalidValue (found : Found) (wanted : Wanted)
  | invalidLength (count : Nat) (wanted : Wanted)
  | unknownName (name : String) (known : List String)
  | missingMember (name : String)
  | repeatedMember (name : String)
deriving DecidableEq, Repr

/-- **The words in which document formats differ.** -/
structure Wording where
  /-- What the null value is called. -/
  nothing : String
  /-- How floating-point numbers are written. -/
  real : Binary64.Style

/-- Text between backquotes. -/
def ticked (s : String) : String :=
  "`" ++ s ++ "`"

/-- A count of elements, in the singular for one. -/
def elements (count : Nat) : String :=
  toString count ++ (if count = 1 then " element" else " elements")

/-- A value as messages name it. -/
def Found.describe (words : Wording) : Found → String
  | .nothing => words.nothing
  | .truth b => "boolean " ++ ticked (if b then "true" else "false")
  | .unsigned n => "integer " ++ ticked (toString n)
  | .signed n => "integer " ++ ticked (toString n)
  | .wide n => "integer " ++ ticked (toString n) ++ (if n < 0 then " as i128" else " as u128")
  | .real x => "floating point " ++ ticked (x.render words.real)
  | .text s => "string " ++ quote s
  | .sequence => "sequence"
  | .mapping => "map"
  | .alternative => "enum"

/-- A kind of value as messages name it. -/
def Wanted.describe : Wanted → String
  | .word w => w.name
  | .truth => "a boolean"
  | .text => "a string"
  | .sequence => "a sequence"
  | .nothing => "unit"
  | .record name => "struct " ++ name
  | .recordItems name count => "struct " ++ name ++ " with " ++ elements count
  | .union name => "internally tagged enum " ++ name
  | .caseItems name label count =>
    "struct variant " ++ name ++ "::" ++ label ++ " with " ++ elements count
  | .itemsTaken count => elements count ++ " in sequence"
  | .memberName => "field identifier"
  | .caseName => "variant identifier"
  | .caseIndex count => "variant index 0 <= i < " ++ toString count
  | .nameOrMapping => "string or map"
  | .loneMember => "map with a single key"
  | .anything => "any value"
  | .tagOrAnything tag => "a type tag " ++ ticked tag ++ " or any other value"
  | .taggedNull => "null"
  | .taggedTruth => "a boolean"
  | .taggedInteger => "an integer"
  | .taggedReal => "a float"

/-- The names to choose from, as messages list them. -/
def listNames : List String → String
  | [] => "there are no variants"
  | [a] => "expected " ++ ticked a
  | [a, b] => "expected " ++ ticked a ++ " or " ++ ticked b
  | names => "expected one of " ++ ", ".intercalate (names.map ticked)

/-- The text of a mismatch. -/
def Mismatch.message (words : Wording) : Mismatch → String
  | .invalidType found wanted =>
    "invalid type: " ++ found.describe words ++ ", expected " ++ wanted.describe
  | .invalidValue found wanted =>
    "invalid value: " ++ found.describe words ++ ", expected " ++ wanted.describe
  | .invalidLength count wanted =>
    "invalid length " ++ toString count ++ ", expected " ++ wanted.describe
  | .unknownName name known => "unknown variant " ++ ticked name ++ ", " ++ listNames known
  | .missingMember name => "missing field " ++ ticked name
  | .repeatedMember name => "duplicate field " ++ ticked name

end AliasReport.Document
