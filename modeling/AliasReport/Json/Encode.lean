import AliasReport.Json.Tree
import AliasReport.Document.Shape

/-! # Writing JSON by shape

* **`Shape.toJson`** — the JSON value of a value of a shape.
* **`Json.encode`** — the JSON value of a value of a described type.

Members are written in the order of declaration. A member that is optional and holds nothing is
left out. A union is an object whose first member is the tag.
-/

namespace AliasReport.Document

/-- Puts a member in front of others, unless it is optional and holds nothing. -/
def addMember (name : String) : (s : Shape) → s.Val → Json → List (String × Json) →
    List (String × Json)
  | .optional _, none, _, members => members
  | _, _, j, members => (name, j) :: members

mutual

/-- The JSON value of a value of a shape. -/
def Shape.toJson : (s : Shape) → s.Val → Json
  | .word w, n => .number (w.unpack n)
  | .truth _, (b : Bool) => .bool b
  | .text, (s : String) => .text s
  | .choice first others, i => .text (chosen first others i)
  | .list item, vs => .array (vs.map item.toJson)
  | .optional item, v =>
    match v with
    | none => .null
    | some v => item.toJson v
  | .record _ members, vs => .object (members.toJson vs)
  | .union _ tag cases, v => .object (cases.toJson tag v)

/-- The members of a record as JSON. -/
def Members.toJson : (m : Members) → m.Vals → List (String × Json)
  | .nil, _ => []
  | .cons name _ shape rest, (v, vs) => addMember name shape v (shape.toJson v) (rest.toJson vs)

/-- The members of a union as JSON, the tag first. -/
def Cases.toJson (tag : String) : (c : Cases) → c.Val → List (String × Json)
  | .nil, v => nomatch v
  | .cons name _ members _, .inl vs => (tag, .text name) :: members.toJson vs
  | .cons _ _ _ rest, .inr v => rest.toJson tag v

end

end AliasReport.Document

namespace AliasReport.Json

open AliasReport.Document

/-- The JSON value of a value of a described type. -/
def encode {α : Type} [Described α] (a : α) : Json :=
  (Described.shape α).toJson (Described.toVal a)

end AliasReport.Json
