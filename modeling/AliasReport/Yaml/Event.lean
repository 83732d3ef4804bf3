import AliasReport.Yaml.Token.Lexer

/-! # Events of YAML text

What a text says once its indentation, brackets and indicators have been dealt with: scalars,
aliases, and the starts and ends of sequences and mappings.

* **`Event`** — a scalar, an alias, or a bracket.
* **`Goal`** — what the text may go on with, at one level of nesting.
* **`step?`** — the next event of the innermost goal.
* **`Stream`**, **`Stream.ofText`** — the events of a text, and whether they are all of a single
  document. If not, the text is malformed behind the last of them.
-/

namespace AliasReport.Yaml

/-- What a text says. -/
inductive Event
  | scalar (anchor : Option String) (tag : Option Tag) (style : Style) (text : String)
  | alias (name : String)
  | sequenceStart (anchor : Option String) (tag : Option Tag)
  | sequenceEnd
  | mappingStart (anchor : Option String) (tag : Option Tag)
  | mappingEnd
deriving DecidableEq, Repr

/-- The event of a node that is left out. -/
def Event.empty : Event := .scalar none none .plain ""

/-- What the text may go on with, at one level of nesting. -/
inductive Goal
  /-- The node of a document. -/
  | node
  /-- The node of an explicit document, which can be left out. -/
  | content
  | blockSequence
  /-- A sequence below a key of a block mapping that is not indented. -/
  | hangingSequence
  | blockMapping
  | blockMappingValue
  | flowSequence (first : Bool)
  /-- The single pair of a mapping without brackets in a flow sequence. -/
  | pairKey
  | pairValue
  | pairEnd
  | flowMapping (first : Bool)
  | flowMappingValue
  /-- The value that is missing behind a key without a colon. -/
  | flowMappingNoValue
deriving DecidableEq, Repr

/-- The shorthands of tags that a document declares, with what they stand for. -/
abbrev Shorthands := List (List Char × Tag)

/-- An event, the goals left behind it, and the tokens left. -/
abbrev Outcome := Option (Event × List Goal × List Token)

/-! ## Nodes -/

/-- The properties of a node. -/
structure Properties where
  anchor : Option (List Char)
  tag : Option (List Char × Tag)
deriving DecidableEq, Repr

/-- The properties in front of a node: an anchor and a tag, in either order. -/
def readProperties : List Token → Properties × List Token
  | .anchor a :: .tag h s :: ts => (⟨some a, some (h, s)⟩, ts)
  | .anchor a :: ts => (⟨some a, none⟩, ts)
  | .tag h s :: .anchor a :: ts => (⟨some a, some (h, s)⟩, ts)
  | .tag h s :: ts => (⟨none, some (h, s)⟩, ts)
  | ts => (⟨none, none⟩, ts)

/-- A tag with its shorthand replaced. -/
def expandTag? (shorthands : Shorthands) (handle : List Char) (suffix : Tag) : Option Tag :=
  if handle.isEmpty then some suffix else (shorthands.lookup handle).map (·.append suffix)

/-- The tag of a node: `none` inside if there is none, and outside if its shorthand is unknown. -/
def Properties.tag? (shorthands : Shorthands) (p : Properties) : Option (Option Tag) :=
  match p.tag with
  | none => some none
  | some (handle, suffix) => (expandTag? shorthands handle suffix).map some

/-- A node and the goals behind it. In a block it can be a block collection; if it `mayHang`, it can
also be a block sequence that is not indented. -/
def readNode? (shorthands : Shorthands) (inBlock mayHang : Bool) (goals : List Goal)
    (ts : List Token) : Outcome :=
  match ts with
  | .alias name :: ts => some (.alias (String.ofList name), goals, ts)
  | _ => do
    let (properties, ts) := readProperties ts
    let tag ← properties.tag? shorthands
    let anchor := properties.anchor.map String.ofList
    match ts with
    | [] => none
    | .blockEntry :: _ =>
      if mayHang then return (.sequenceStart anchor tag, .hangingSequence :: goals, ts)
      else if anchor.isSome || tag.isSome then return (.scalar anchor tag .plain "", goals, ts)
      else none
    | .scalar style text :: ts =>
      return (.scalar anchor tag style (String.ofList text), goals, ts)
    | .flowSequenceStart :: ts =>
      return (.sequenceStart anchor tag, .flowSequence true :: goals, ts)
    | .flowMappingStart :: ts =>
      return (.mappingStart anchor tag, .flowMapping true :: goals, ts)
    | t :: ts =>
      if inBlock && t = .blockSequenceStart then
        return (.sequenceStart anchor tag, .blockSequence :: goals, ts)
      else if inBlock && t = .blockMappingStart then
        return (.mappingStart anchor tag, .blockMapping :: goals, ts)
      else if anchor.isSome || tag.isSome then
        return (.scalar anchor tag .plain "", goals, t :: ts)
      else none

/-! ## Goals -/

/-- A node that is left out if one of the tokens that end it comes next. -/
def readNodeUnless? (shorthands : Shorthands) (ends : List Token) (inBlock mayHang : Bool)
    (goals : List Goal) : List Token → Outcome
  | [] => none
  | t :: ts =>
    if t ∈ ends then some (.empty, goals, t :: ts)
    else readNode? shorthands inBlock mayHang goals (t :: ts)

/-- Whether a token can only come outside the node of a document. -/
def Token.isOutsideNodes : Token → Bool
  | .streamEnd | .documentStart | .documentEnd | .versionDirective _ _ | .tagDirective _ _ => true
  | _ => false

/-- The tokens of the next entry of a flow collection that is closed by `close`, or of its end. All
entries but the first come behind a comma. -/
def atEntry? (close : Token) (first : Bool) : List Token → Option (List Token)
  | [] => none
  | t :: ts =>
    if first || t = close then some (t :: ts) else if t = .flowEntry then some ts else none

/-- The next event of the innermost goal. -/
def step? (shorthands : Shorthands) : Goal → List Goal → List Token → Outcome
  | _, _, [] => none
  | .node, goals, ts => readNode? shorthands true false goals ts
  | .content, goals, t :: ts =>
    if t.isOutsideNodes then some (.empty, goals, t :: ts)
    else readNode? shorthands true false goals (t :: ts)
  | .blockSequence, goals, t :: ts =>
    if t = .blockEntry then
      readNodeUnless? shorthands [.blockEntry, .blockEnd] true false
        (.blockSequence :: goals) ts
    else if t = .blockEnd then some (.sequenceEnd, goals, ts)
    else none
  | .hangingSequence, goals, t :: ts =>
    if t = .blockEntry then
      readNodeUnless? shorthands [.blockEntry, .key, .value, .blockEnd] true false
        (.hangingSequence :: goals) ts
    else some (.sequenceEnd, goals, t :: ts)
  | .blockMapping, goals, t :: ts =>
    if t = .key then
      readNodeUnless? shorthands [.key, .value, .blockEnd] true true
        (.blockMappingValue :: goals) ts
    else if t = .blockEnd then some (.mappingEnd, goals, ts)
    else none
  | .blockMappingValue, goals, t :: ts =>
    if t = .value then
      readNodeUnless? shorthands [.key, .value, .blockEnd] true true
        (.blockMapping :: goals) ts
    else some (.empty, .blockMapping :: goals, t :: ts)
  | .flowSequence first, goals, ts =>
    match atEntry? .flowSequenceEnd first ts with
    | none => none
    | some [] => none
    | some (t :: ts) =>
      if t = .key then some (.mappingStart none none, .pairKey :: .flowSequence false :: goals, ts)
      else if t = .flowSequenceEnd then some (.sequenceEnd, goals, ts)
      else readNode? shorthands false false (.flowSequence false :: goals) (t :: ts)
  | .pairKey, goals, t :: ts =>
    if t ∈ [Token.value, .flowEntry, .flowSequenceEnd] then
      some (.empty, .pairValue :: goals, ts)
    else readNode? shorthands false false (.pairValue :: goals) (t :: ts)
  | .pairValue, goals, t :: ts =>
    if t = .value then
      readNodeUnless? shorthands [.flowEntry, .flowSequenceEnd] false false (.pairEnd :: goals) ts
    else some (.empty, .pairEnd :: goals, t :: ts)
  | .pairEnd, goals, ts => some (.mappingEnd, goals, ts)
  | .flowMapping first, goals, ts =>
    match atEntry? .flowMappingEnd first ts with
    | none => none
    | some [] => none
    | some (t :: ts) =>
      if t = .key then
        readNodeUnless? shorthands [.value, .flowEntry, .flowMappingEnd] false false
          (.flowMappingValue :: goals) ts
      else if t = .flowMappingEnd then some (.mappingEnd, goals, ts)
      else readNode? shorthands false false (.flowMappingNoValue :: goals) (t :: ts)
  | .flowMappingValue, goals, t :: ts =>
    if t = .value then
      readNodeUnless? shorthands [.flowEntry, .flowMappingEnd] false false
        (.flowMapping false :: goals) ts
    else some (.empty, .flowMapping false :: goals, t :: ts)
  | .flowMappingNoValue, goals, ts => some (.empty, .flowMapping false :: goals, ts)

/-! ## Documents -/

/-- The events of a text, and whether they are all of a single document. If not, the text is
malformed behind the last of them. -/
structure Stream where
  events : List Event
  whole : Bool
deriving DecidableEq, Repr

/-- The shorthands that need no declaration. -/
def commonShorthands : Shorthands :=
  [(['!'], .exclamation), (['!', '!'], .common)]

/-- The directives of a document. The version is given at most once, and so is each shorthand. -/
def readDirectives? : (versionGiven : Bool) → Shorthands → List Token →
    Option (Shorthands × List Token)
  | given, shorthands, .versionDirective major minor :: ts =>
    if given || major ≠ 1 || (minor ≠ 1 && minor ≠ 2) then none
    else readDirectives? true shorthands ts
  | given, shorthands, .tagDirective handle expansion :: ts =>
    if (shorthands.lookup handle).isSome then none
    else readDirectives? given (shorthands ++ [(handle, expansion)]) ts
  | _, shorthands, ts => some (shorthands ++ commonShorthands, ts)

/-- The start of a document: its shorthands, the goal that its node is, and the tokens of the
node. -/
def readDocumentStart? : List Token → Option (Shorthands × Goal × List Token)
  | [] => none
  | t :: ts =>
    if t.isOutsideNodes && t ≠ .documentEnd then do
      match ← readDirectives? false [] (t :: ts) with
      | (shorthands, .documentStart :: ts) => return (shorthands, .content, ts)
      | _ => none
    else some (commonShorthands, .node, t :: ts)

/-- Whether the tokens behind the node of a document end the text: nothing may follow but marks of
the end. -/
def endsText : List Token → Bool
  | .documentEnd :: ts => endsText ts
  | .streamEnd :: _ => true
  | _ => false

/-- The events of goals; `fuel` exceeds their number. -/
def runGoals (shorthands : Shorthands) : (fuel : Nat) → List Goal → List Token → Stream
  | _, [], ts => ⟨[], endsText ts⟩
  | 0, _ :: _, _ => ⟨[], false⟩
  | fuel + 1, goal :: goals, ts =>
    match step? shorthands goal goals ts with
    | none => ⟨[], false⟩
    | some (e, goals, ts) =>
      let rest := runGoals shorthands fuel goals ts
      ⟨e :: rest.events, rest.whole⟩

namespace Stream

/-- The events of a list of tokens. A text without any document stands for one whose node is left
out. -/
def ofTokens (ts : List Token) : Stream :=
  match ts with
  | .streamEnd :: _ => ⟨[.empty], true⟩
  | _ =>
    match readDocumentStart? ts with
    | none => ⟨[], false⟩
    | some (shorthands, goal, ts) => runGoals shorthands (4 * (ts.length + 2)) [goal] ts

/-- The events of a text. -/
def ofText (text : String) : Stream :=
  ofTokens (tokens text)

end Stream

end AliasReport.Yaml
