import AliasReport.Yaml.Event

/-! # Documents with their aliases resolved

* **`Entry`** — an event whose alias is the number of a node instead of a name.
* **`Anchors`** — the nodes that aliases can stand for.
* **`Graph`**, **`Graph.ofStream`** — the entries of a document with the places of the nodes that
  have numbers.

The number of a node is the number of different names given before it. Where a name is given again
a number can come twice, and it then stands for the later node, also for aliases in front of it.
-/

namespace AliasReport.Yaml

/-- An event whose alias is the number of a node. -/
inductive Entry
  | scalar (tag : Option Tag) (style : Style) (text : String)
  | alias (number : Nat)
  | sequenceStart (tag : Option Tag)
  | sequenceEnd
  | mappingStart (tag : Option Tag)
  | mappingEnd
deriving DecidableEq, Repr

/-- The nodes that aliases can stand for. -/
structure Anchors where
  /-- Every name with the number of the node that has it. -/
  numbers : List (String × Nat)
  /-- Every number with the place of its node, the latest first. -/
  places : List (Nat × Nat)
deriving DecidableEq, Repr

namespace Anchors

/-- No names yet. -/
def empty : Anchors := ⟨[], []⟩

/-- Gives a name to the node at a place. -/
def add (a : Anchors) (name : String) (place : Nat) : Anchors :=
  let number := a.numbers.length
  ⟨(name, number) :: a.numbers.filter (·.1 ≠ name), (number, place) :: a.places⟩

/-- Gives a name, if there is one, to the node at a place. -/
def addAny (a : Anchors) (name : Option String) (place : Nat) : Anchors :=
  match name with
  | none => a
  | some name => a.add name place

end Anchors

/-- A document with its aliases resolved. -/
structure Graph where
  entries : List Entry
  places : List (Nat × Nat)
  /-- Whether these are all entries. If not, the text is malformed behind the last of them. -/
  whole : Bool
deriving DecidableEq, Repr

namespace Graph

/-- The entries of events from a place on. An alias with an unknown name ends them early. -/
def resolveFrom (whole : Bool) : (place : Nat) → Anchors → List Event → Graph
  | _, a, [] => ⟨[], a.places, whole⟩
  | place, a, e :: es =>
    let go (a : Anchors) (entry : Entry) : Graph :=
      let rest := resolveFrom whole (place + 1) a es
      { rest with entries := entry :: rest.entries }
    match e with
    | .scalar anchor tag style text => go (a.addAny anchor place) (.scalar tag style text)
    | .alias name =>
      match a.numbers.lookup name with
      | some number => go a (.alias number)
      | none => ⟨[], a.places, false⟩
    | .sequenceStart anchor tag => go (a.addAny anchor place) (.sequenceStart tag)
    | .sequenceEnd => go a .sequenceEnd
    | .mappingStart anchor tag => go (a.addAny anchor place) (.mappingStart tag)
    | .mappingEnd => go a .mappingEnd

/-- The graph of a stream of events. -/
def ofStream (s : Stream) : Graph :=
  resolveFrom s.whole 0 .empty s.events

/-- The entries from the node with a number on. -/
def target? (g : Graph) (number : Nat) : Option (List Entry) :=
  (g.places.lookup number).map (g.entries.drop ·)

end Graph

end AliasReport.Yaml
