import AliasReport.Json.Structure

/-! # Reading JSON by shape

* **`Shape.readJson`** — a value of a shape at the start of a text, and the text behind it.
* **`Json.decode`** — the value of a described type that a whole text stands for.

A text is read from left to right and the first fault ends the reading, so a mismatch early in a
text hides a broken rule further on. Members of an object may come in any order and unknown ones
are skipped; a record may also be the list of its members.
-/

namespace AliasReport.Json

open AliasReport.Document

/-! ## Names and tags -/

/-- A text that stands for a name. -/
def readName (wanted : Wanted) (cs : List Char) : Except Fault (String × List Char) := do
  match ← readHead cs with
  | (.text s, rest) => return (s, rest)
  | (found, _) => .error (.mismatch (.invalidType found wanted))

/-- The only key of an object, from behind its brace. -/
def readLoneKey (cs : List Char) : Except Fault (String × List Char) :=
  match skipBlanks cs with
  | [] => unfinished .object
  | c :: rest =>
    if c = '"' then readName .caseName (c :: rest)
    else malformed (if c = '\x7d' then .expectedValue else .keyNotText)

/-- A choice carries nothing: it is a bare name, or the only key of an object, with null behind
it. Nothing else is looked at closely. -/
def readJsonChoice (first : String) (others : List String) (depth : Nat) (cs : List Char) :
    Except Fault ((Shape.choice first others).Val × List Char) :=
  match skipBlanks cs with
  | [] => unfinished .value
  | c :: rest => do
    if c = '"' then
      let (name, rest) ← readName .caseName (c :: rest)
      return (← matching (choose first others name), rest)
    else if c ≠ '\x7b' then malformed .expectedValue
    else if depth = 0 then malformed .tooDeep
    else
      let (name, rest) ← readLoneKey rest
      let chosen ← matching (choose first others name)
      match ← readHead (← readColon rest) with
      | (.nothing, rest) =>
        match skipBlanks rest with
        | [] => unfinished .object
        | c :: rest => if c = '\x7d' then return (chosen, rest) else malformed .expectedValue
      | (found, _) => .error (.mismatch (.invalidType found .nothing))

/-- The name of the case that the tag of a union holds, which must be one of the known names. -/
def readTag (known : List String) (cs : List Char) : Except Fault (String × List Char) := do
  let (name, rest) ← readName .caseName cs
  if name ∈ known then return (name, rest)
  else .error (.mismatch (.unknownName name known))

/-- One member of a union: the tag, which must come once, or a member kept for later. -/
def readTaggedMember (tag : String) (known : List String) (depth : Nat) (key : String)
    (s : Option String × List (Buffered × Buffered)) (cs : List Char) :
    Except Fault ((Option String × List (Buffered × Buffered)) × List Char) := do
  if key = tag then
    if s.1.isSome then .error (.mismatch (.repeatedMember tag))
    else
      let (name, cs) ← readTag known (← readColon cs)
      return ((some name, s.2), cs)
  else
    let (v, cs) ← readBuffered depth (← readColon cs)
    return ((s.1, (.text key, v) :: s.2), cs)

/-- The tag of a union and its other members, from behind an opening bracket. -/
def readTagged (tag : String) (known : List String) (depth : Nat) (isObject : Bool)
    (cs : List Char) : Except Fault ((String × Buffered) × List Char) := do
  if isObject then
    let ((name?, entries), cs) ← readMembers (readTaggedMember tag known depth) (none, []) cs
    match name? with
    | none => .error (.mismatch (.missingMember tag))
    | some name => return ((name, .mapping entries.reverse), cs)
  else
    match ← nextItem true cs with
    | .inl _ => .error (.mismatch (.missingMember tag))
    | .inr cs =>
      let (name, cs) ← readTag known cs
      let (items, cs) ← readItems (readBuffered depth) false cs
      return ((name, .sequence items), cs)

end AliasReport.Json

namespace AliasReport.Document

open AliasReport.Json

/-! ## Shapes -/

mutual

/-- A value of a shape, and the text behind it. -/
def Shape.readJson : (s : Shape) → (depth : Nat) → List Char → Except Fault (s.Val × List Char)
  | .word w, _, cs => do
    let (found, rest) ← readHead cs
    return (← matching (w.ofFound found), rest)
  | .truth _, _, cs => do
    match ← readHead cs with
    | (.truth b, rest) => return (b, rest)
    | (found, _) => .error (.mismatch (.invalidType found .truth))
  | .text, _, cs => readName .text cs
  | .choice first others, depth, cs => readJsonChoice first others depth cs
  | .list item, depth, cs => do
    match ← readHead cs with
    | (.sequence, rest) =>
      match depth with
      | 0 => malformed .tooDeep
      | depth + 1 => readItems (item.readJson depth) true rest
    | (found, _) => .error (.mismatch (.invalidType found .sequence))
  | .optional item, depth, cs =>
    match skipBlanks cs with
    | [] => (item.readJson depth cs).map fun (v, rest) => (some v, rest)
    | c :: rest =>
      if c = 'n' then (readKeyword "ull".toList rest).map fun rest => (none, rest)
      else (item.readJson depth cs).map fun (v, rest) => (some v, rest)
  | .record name members, depth, cs => do
    match ← readHead cs with
    | (.sequence, rest) =>
      match depth with
      | 0 => malformed .tooDeep
      | depth + 1 => members.readJsonItems (.recordItems name members.count) depth 0 rest
    | (.mapping, rest) =>
      match depth with
      | 0 => malformed .tooDeep
      | depth + 1 =>
        let (slots, rest) ← readMembers (members.readJsonMember depth) members.empty rest
        return (← matching (members.finish slots), rest)
    | (found, _) => .error (.mismatch (.invalidType found (.record name)))
  | .union name tag cases, depth, cs => do
    let isObject ← match ← readHead cs with
      | (.sequence, rest) => pure (false, rest)
      | (.mapping, rest) => pure (true, rest)
      | (found, _) => .error (.mismatch (.invalidType found (.union name)))
    match depth with
    | 0 => malformed .tooDeep
    | depth + 1 =>
      let ((chosen, body), rest) ← readTagged tag cases.names depth isObject.1 isObject.2
      return (← matching (cases.ofBuffered name cases.names chosen body), rest)

/-- The value behind a key, added to the members read so far. A member must not come twice; what
stands behind an unknown key is skipped. -/
def Members.readJsonMember :
    (m : Members) → (depth : Nat) → (key : String) → m.Slots → List Char →
      Except Fault (m.Slots × List Char)
  | .nil, _, _, _, cs => do
    return ((), ← skipValue (← readColon cs))
  | .cons name _ shape rest, depth, key, (slot, slots), cs =>
    if key = name then
      match slot with
      | some _ => .error (.mismatch (.repeatedMember name))
      | none => do
        let (v, cs) ← shape.readJson depth (← readColon cs)
        return ((some v, slots), cs)
    else (rest.readJsonMember depth key slots cs).map fun (slots, cs) => ((slot, slots), cs)

/-- The members of a record from the items of a list, in the order of declaration; `taken` of them
have been read. -/
def Members.readJsonItems (wanted : Wanted) :
    (m : Members) → (depth taken : Nat) → List Char → Except Fault (m.Vals × List Char)
  | .nil, _, _, cs => do
    return ((), ← readListEnd cs)
  | .cons name required shape rest, depth, taken, cs => do
    match ← nextItem (taken = 0) cs with
    | .inl cs =>
      return (← matching ((Members.cons name required shape rest).absent wanted taken), cs)
    | .inr cs =>
      let (v, cs) ← shape.readJson depth cs
      let (vs, cs) ← rest.readJsonItems wanted depth (taken + 1) cs
      return ((v, vs), cs)

end

end AliasReport.Document

namespace AliasReport.Json

open AliasReport.Document

/-- The value of a described type that a whole text stands for. -/
def decode (α : Type) [Described α] (text : String) : Except Fault α := do
  let (v, rest) ← (Described.shape α).readJson depthLimit text.toList
  readEnd rest
  return Described.ofVal v

end AliasReport.Json
