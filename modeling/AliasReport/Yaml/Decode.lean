import AliasReport.Document.Buffered
import AliasReport.Yaml.Graph
import AliasReport.Yaml.Resolution

/-! # Reading YAML by shape

* **`Path`** — where in a document a mismatch is.
* **`Fault`** — the text is malformed, or a value does not have its shape.
* **`Shape.readYaml`** — a value of a shape at a place of a document.
* **`Yaml.decode`** — the value of a described type that a text stands for.

A document is read from its start on and the first fault ends the reading, so a mismatch hides
malformed text further on. Members of a mapping may come in any order and unknown ones are skipped.
A node that is left out stands for an empty list or mapping.
-/

namespace AliasReport.Yaml

open AliasReport.Document AliasReport.Number

/-! ## Faults -/

/-- **The words of YAML messages.** All numbers are written positionally; a tie goes to the greater
magnitude. -/
def wording : Wording where
  nothing := "unit value"
  real := ⟨none, .away⟩

/-- One step from a collection to what it holds. -/
inductive Step
  | member (key : String)
  | item (index : Nat)
  /-- A member whose key is not a scalar. -/
  | unknown
deriving DecidableEq, Repr

/-- A place in a document: the steps to it, the last one first. -/
abbrev Path := List Step

/-- The text of a place. -/
def Path.text : Path → String
  | [] => ""
  | [.member key] => key
  | [.unknown] => "?"
  | .member key :: outer => Path.text outer ++ "." ++ key
  | .unknown :: outer => Path.text outer ++ ".?"
  | .item index :: outer => Path.text outer ++ "[" ++ toString index ++ "]"

/-- Why a text cannot be read. -/
inductive Fault
  | malformed
  /-- A value does not have its shape. The place is missing until a collection that holds the value
  supplies it. -/
  | mismatch (place : Option Path) (cause : Mismatch)
deriving DecidableEq, Repr

/-- The text of a mismatch at a place. -/
def mismatchMessage (place : Option Path) (cause : Mismatch) : String :=
  match place with
  | none => cause.message wording
  | some [] => cause.message wording
  | some path => path.text ++ ": " ++ cause.message wording

/-- A mismatch whose place is still missing. -/
def mismatch {α : Type} (cause : Mismatch) : Except Fault α :=
  .error (.mismatch none cause)

/-- A reading of a shape that can only mismatch. -/
def matching {α : Type} : Except Mismatch α → Except Fault α
  | .ok v => .ok v
  | .error cause => mismatch cause

/-- Supplies the place of a mismatch that has none. -/
def placed {α : Type} (path : Path) : Except Fault α → Except Fault α
  | .error (.mismatch none cause) => .error (.mismatch (some path) cause)
  | outcome => outcome

/-! ## Nodes -/

/-- How far a document has been read. -/
structure Progress where
  /-- How many aliases have been followed. -/
  jumps : Nat
  rest : List Entry
deriving DecidableEq, Repr

/-- The number of collections that may be open at once. -/
def depthLimit : Nat := 128

/-- The number of aliases that may be followed for each entry of a document. -/
def jumpLimit : Nat := 100

/-- Reads at a node with `read`. An alias is followed to its node, and the reading goes on behind
the alias. -/
def atNode {α : Type} (g : Graph) (p : Progress) (read : Progress → Except Fault (α × Progress)) :
    Except Fault (α × Progress) :=
  match p.rest with
  | .alias number :: rest =>
    if g.entries.length * jumpLimit ≤ p.jumps then .error .malformed
    else
      match g.target? number with
      | none => .error .malformed
      | some target => (read ⟨p.jumps + 1, target⟩).map fun (v, p) => (v, ⟨p.jumps, rest⟩)
  | _ => read p

/-- Reads a node with `read`, which is given the first entry of the node. -/
def readNode {α : Type} (g : Graph) (p : Progress)
    (read : Entry → Progress → Except Fault (α × Progress)) : Except Fault (α × Progress) :=
  atNode g p fun p =>
    match p.rest with
    | [] => .error .malformed
    | e :: rest => read e ⟨p.jumps, rest⟩

/-- What a node is, as mismatches name it. -/
def Entry.found : Entry → Except Mismatch Found
  | .scalar tag style text => resolve tag style text
  | .sequenceStart _ => .ok .sequence
  | _ => .ok .mapping

/-- The mismatch of a node with anything but its own kind. -/
def Entry.unlike {α : Type} (e : Entry) (wanted : Wanted) : Except Fault α :=
  match e.found with
  | .ok found => mismatch (.invalidType found wanted)
  | .error cause => mismatch cause

/-- Whether a node is a scalar that is left out. -/
def Entry.isEmpty : Entry → Bool
  | .scalar _ .plain text => text.isEmpty
  | _ => false

/-- Whether the text of a scalar can be something else than text: if it is plain, or if it is set
apart as a block with a tag that says so. -/
def isMeaningful (wantedTag : Tag) (tag : Option Tag) (style : Style) : Bool :=
  style = .plain || (style = .literal && tag = some wantedTag)

/-- The text behind a node that does not matter; `opened` collections are open. -/
def skipNode : (opened : Nat) → List Entry → Except Fault (List Entry)
  | _, [] => .error .malformed
  | opened, e :: rest =>
    match e with
    | .sequenceStart _ | .mappingStart _ => skipNode (opened + 1) rest
    | .sequenceEnd | .mappingEnd => if opened ≤ 1 then .ok rest else skipNode (opened - 1) rest
    | .scalar _ _ _ | .alias _ => if opened = 0 then .ok rest else skipNode opened rest

/-! ## Collections -/

/-- The items of a sequence from number `index` on; `fuel` exceeds their number. -/
def readItemsFrom {α : Type} (item : Nat → Progress → Except Fault (α × Progress)) :
    (fuel : Nat) → (index : Nat) → Progress → Except Fault (List α × Progress)
  | 0, _, _ => .error .malformed
  | fuel + 1, index, p =>
    match p.rest with
    | [] => .error .malformed
    | .sequenceEnd :: rest => .ok ([], ⟨p.jumps, rest⟩)
    | _ => do
      let (v, p) ← item index p
      let (vs, p) ← readItemsFrom item fuel (index + 1) p
      return (v :: vs, p)

/-- The items of a sequence from number `index` on. -/
def readItems {α : Type} (item : Nat → Progress → Except Fault (α × Progress)) (index : Nat)
    (p : Progress) : Except Fault (List α × Progress) :=
  readItemsFrom item (p.rest.length + 1) index p

/-- The step to the value behind a key. -/
def Entry.step : Entry → Step
  | .scalar _ _ text => .member text
  | _ => .unknown

/-- The members of a mapping; `fuel` exceeds their number. -/
def readMembersFrom {σ : Type} (member : Step → σ → Progress → Except Fault (σ × Progress)) :
    (fuel : Nat) → σ → Progress → Except Fault (σ × Progress)
  | 0, _, _ => .error .malformed
  | fuel + 1, s, p =>
    match p.rest with
    | [] => .error .malformed
    | .mappingEnd :: rest => .ok (s, ⟨p.jumps, rest⟩)
    | e :: _ => do
      let (s, p) ← member e.step s p
      readMembersFrom member fuel s p

/-- The members of a mapping. `member` reads a key and its value and adds them to the state; it is
given the step from the mapping to the value. -/
def readMembers {σ : Type} (member : Step → σ → Progress → Except Fault (σ × Progress)) (s : σ)
    (p : Progress) : Except Fault (σ × Progress) :=
  readMembersFrom member (p.rest.length + 1) s p

/-- The text of a scalar that stands for a name or any text. -/
def readName (g : Graph) (path : Path) (wanted : Wanted) (p : Progress) :
    Except Fault (String × Progress) :=
  placed path <| readNode g p fun e p =>
    match e with
    | .scalar _ _ text => .ok (text, p)
    | e => e.unlike wanted

/-! ## Values of any shape -/

/-- A scalar as a buffered value. Numbers beyond 64 bits have none. -/
def ofScalar (wanted : Wanted) (tag : Option Tag) (style : Style) (text : String) :
    Except Fault Buffered :=
  if tag.any Tag.isLocal then .error .malformed
  else
    match resolve tag style text with
    | .error cause => mismatch cause
    | .ok .nothing => .ok .nothing
    | .ok (.truth b) => .ok (.truth b)
    | .ok (.unsigned n) => .ok (.unsigned n)
    | .ok (.signed n) => .ok (.signed n)
    | .ok (.real x) => .ok (.real x)
    | .ok (.text s) => .ok (.text s)
    | .ok found => mismatch (.invalidType found wanted)

/-- A value of any shape; `wanted` is what a scalar is to be. -/
def readBuffered (g : Graph) : (depth : Nat) → Path → Wanted → Progress →
    Except Fault (Buffered × Progress)
  | depth, path, wanted, p =>
    placed path <| readNode g p fun e p =>
      match e with
      | .scalar tag style text => (ofScalar wanted tag style text).map (·, p)
      | .sequenceStart tag =>
        if tag.any Tag.isLocal then .error .malformed
        else
          match depth with
          | 0 => .error .malformed
          | depth + 1 => do
            let item (index : Nat) (p : Progress) : Except Fault (Buffered × Progress) :=
              readBuffered g depth (.item index :: path) .anything p
            let (items, p) ← readItems item 0 p
            return (.sequence items, p)
      | .mappingStart tag =>
        if tag.any Tag.isLocal then .error .malformed
        else
          match depth with
          | 0 => .error .malformed
          | depth + 1 => do
            let member (step : Step) (entries : List (Buffered × Buffered)) (p : Progress) :
                Except Fault ((List (Buffered × Buffered)) × Progress) := do
              let (key, p) ← readBuffered g depth path .anything p
              let (v, p) ← readBuffered g depth (step :: path) .anything p
              return ((key, v) :: entries, p)
            let (entries, p) ← readMembers member [] p
            return (.mapping entries.reverse, p)
      | _ => .error .malformed

/-! ## Unions -/

/-- The name of the case that the tag member of a union holds, which must be one of the known
names. -/
def readCaseName (g : Graph) (path : Path) (known : List String) (p : Progress) :
    Except Fault (String × Progress) :=
  placed path do
    let (name, p) ← readName g path .caseName p
    if name ∈ known then return (name, p) else mismatch (.unknownName name known)

/-- One member of a union: the tag, which must come once, or a member kept for later. -/
def readTaggedMember (g : Graph) (tag : String) (known : List String) (depth : Nat) (path : Path)
    (step : Step) (s : Option String × List (Buffered × Buffered)) (p : Progress) :
    Except Fault ((Option String × List (Buffered × Buffered)) × Progress) := do
  let (key, p) ← readBuffered g depth path (.tagOrAnything tag) p
  if key.found = .text tag then
    if s.1.isSome then mismatch (.repeatedMember tag)
    else
      let (name, p) ← readCaseName g (step :: path) known p
      return ((some name, s.2), p)
  else
    let (v, p) ← readBuffered g depth (step :: path) .anything p
    return ((s.1, (key, v) :: s.2), p)

/-- The tag of a union and its other members, from behind the start of a mapping. -/
def readTaggedMapping (g : Graph) (tag : String) (known : List String) (depth : Nat) (path : Path)
    (p : Progress) : Except Fault ((String × Buffered) × Progress) := do
  let ((name?, entries), p) ← readMembers (readTaggedMember g tag known depth path) (none, []) p
  match name? with
  | none => mismatch (.missingMember tag)
  | some name => return ((name, .mapping entries.reverse), p)

/-- The tag of a union and its other members, from behind the start of a sequence. -/
def readTaggedSequence (g : Graph) (tag : String) (known : List String) (depth : Nat) (path : Path)
    (p : Progress) : Except Fault ((String × Buffered) × Progress) :=
  match p.rest with
  | .sequenceEnd :: _ => mismatch (.missingMember tag)
  | _ => do
    let (name, p) ← readCaseName g (.item 0 :: path) known p
    let item (index : Nat) (p : Progress) : Except Fault (Buffered × Progress) :=
      readBuffered g depth (.item index :: path) .anything p
    let (items, p) ← readItems item 1 p
    return ((name, .sequence items), p)

/-- The tag of a union and its other members. -/
def readTagged (g : Graph) (name tag : String) (known : List String) (depth : Nat) (path : Path)
    (p : Progress) : Except Fault ((String × Buffered) × Progress) :=
  placed path <| readNode g p fun e p =>
    let alternative : Except Fault ((String × Buffered) × Progress) :=
      mismatch (.invalidType .alternative (.union name))
    match e with
    | .scalar own _ _ => if own.any Tag.isLocal then alternative else e.unlike (.union name)
    | .sequenceStart own =>
      if own.any Tag.isLocal then alternative
      else
        match depth with
        | 0 => .error .malformed
        | depth + 1 => readTaggedSequence g tag known depth path p
    | .mappingStart own =>
      if own.any Tag.isLocal then alternative
      else
        match depth with
        | 0 => .error .malformed
        | depth + 1 => readTaggedMapping g tag known depth path p
    | _ => .error .malformed

/-- Whether a node stands for no value. A tag that asks for null must find it. -/
def Entry.isNothing : Entry → Except Mismatch Bool
  | .scalar tag .plain text =>
    if tag = some .nothing then
      if spellsNothing text.toList then .ok true
      else .error (.invalidValue (.text text) .taggedNull)
    else .ok (tag.isNone && (text.isEmpty || spellsNothing text.toList))
  | _ => .ok false

end AliasReport.Yaml

namespace AliasReport.Document

open AliasReport.Yaml

/-! ## Shapes -/

mutual

/-- A value of a shape at a place of a document. -/
def Shape.readYaml (g : Graph) : (s : Shape) → (depth : Nat) → Path → Progress →
    Except Fault (s.Val × Progress)
  | .word w, _, path, p =>
    placed path <| readNode g p fun e p =>
      match e with
      | .scalar tag style text =>
        match asUnsigned? text.toList with
        | some n =>
          if isMeaningful .integer tag style && n < UInt64.size then
            (matching (w.ofFound (.unsigned n))).map (·, p)
          else e.unlike (.word w)
        | none => e.unlike (.word w)
      | e => e.unlike (.word w)
  | .truth _, _, path, p =>
    placed path <| readNode g p fun e p =>
      match e with
      | .scalar tag style text =>
        match asTruth? text.toList with
        | some b => if isMeaningful .truth tag style then .ok (b, p) else e.unlike .truth
        | none => e.unlike .truth
      | e => e.unlike .truth
  | .text, _, path, p => readName g path .text p
  | .choice first others, _, path, p => placed path do
    let (name, p) ← readName g path .caseName p
    return (← matching (choose first others name), p)
  | .list item, depth, path, p =>
    placed path <| readNode g p fun e p =>
      match e with
      | .sequenceStart _ =>
        match depth with
        | 0 => .error .malformed
        | depth + 1 => readItems (fun index => item.readYaml g depth (.item index :: path)) 0 p
      | e => if e.isEmpty then .ok ([], p) else e.unlike .sequence
  | .optional item, depth, path, p =>
    atNode g p fun p =>
      match p.rest with
      | [] => .error .malformed
      | e :: rest =>
        match e.isNothing with
        | .error cause => mismatch cause
        | .ok true => .ok (none, ⟨p.jumps, rest⟩)
        | .ok false => (item.readYaml g depth path p).map fun (v, p) => (some v, p)
  | .record name members, depth, path, p =>
    placed path <| readNode g p fun e p =>
      match e with
      | .mappingStart _ =>
        match depth with
        | 0 => .error .malformed
        | depth + 1 => do
          let member (step : Step) (slots : members.Slots) (p : Progress) :
              Except Fault (members.Slots × Progress) := do
            let (key, p) ← readName g path .memberName p
            members.readYamlMember g depth (step :: path) key slots p
          let (slots, p) ← readMembers member members.empty p
          return (← matching (members.finish slots), p)
      | e =>
        if e.isEmpty then (matching (members.finish members.empty)).map (·, p)
        else e.unlike (.record name)
  | .union name tag cases, depth, path, p => do
    let ((chosen, body), p) ← readTagged g name tag cases.names depth path p
    return (← matching (cases.ofBuffered name cases.names chosen body), p)

/-- The value behind a key, added to the members read so far. A member must not come twice; what
stands behind an unknown key is skipped. -/
def Members.readYamlMember (g : Graph) :
    (m : Members) → (depth : Nat) → Path → (key : String) → m.Slots → Progress →
      Except Fault (m.Slots × Progress)
  | .nil, _, _, _, _, p => (skipNode 0 p.rest).map fun rest => ((), ⟨p.jumps, rest⟩)
  | .cons name _ shape rest, depth, path, key, (slot, slots), p =>
    if key = name then
      match slot with
      | some _ => mismatch (.repeatedMember name)
      | none => (shape.readYaml g depth path p).map fun (v, p) => ((some v, slots), p)
    else
      (rest.readYamlMember g depth path key slots p).map fun (slots, p) => ((slot, slots), p)

end

end AliasReport.Document

namespace AliasReport.Yaml

open AliasReport.Document

/-- The value of a described type that a document stands for. -/
def Graph.decode (α : Type) [Described α] (g : Graph) : Except Fault α := do
  let (v, _) ← (Described.shape α).readYaml g depthLimit [] ⟨0, g.entries⟩
  if g.whole then return Described.ofVal v else .error .malformed

/-- The value of a described type that a text stands for. -/
def decode (α : Type) [Described α] (text : String) : Except Fault α :=
  (Graph.ofStream (.ofText text)).decode α

end AliasReport.Yaml
