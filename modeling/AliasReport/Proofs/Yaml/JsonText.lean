import AliasReport.Proofs.Yaml.Decoding

/-! # Snapshots as JSON text are YAML

The compact JSON of a value whose texts are ASCII is read by both formats as this value: names that
a shape gives are fit for keys, and texts that a value holds stand between quotes.

* **`Shape.portable`** — shapes whose names are fit for keys.
* **`Shape.texts`** — the texts that a value of a shape holds.
* **`Shape.portable_toJson`** — the JSON value of such a value is portable.
* **`Yaml.decode_encode`** — the compact form of a described value is decoded to the value.
* **`Breakdown.texts`**, **`formats_agree`** — the two formats of snapshots agree. -/

namespace AliasReport.Json

instance (s : String) : Decidable (IsAscii s) :=
  List.decidableBAll _ s.toList

instance (s : String) : Decidable (IsKey s) :=
  decidable_of_iff (IsAscii s ∧ (quoted s).length ≤ 1024)
    ⟨fun ⟨hascii, hshort⟩ => ⟨hascii, hshort⟩, fun ⟨hascii, hshort⟩ => ⟨hascii, hshort⟩⟩

end AliasReport.Json

namespace AliasReport.Document

open AliasReport.Json

/-! ## Shapes -/

mutual

/-- **A portable shape** names members and tags so that they are fit for keys, and all else in
ASCII. -/
def Shape.portable : Shape → Bool
  | .word _ => true
  | .truth _ => true
  | .text => true
  | .choice first others => decide (∀ name ∈ first :: others, IsAscii name)
  | .list item => item.portable
  | .optional item => item.portable
  | .record _ members => members.portable
  | .union _ tag cases => decide (IsKey tag) && cases.portable

/-- Members of portable shapes whose names are fit for keys. -/
def Members.portable : Members → Bool
  | .nil => true
  | .cons name _ shape rest => decide (IsKey name) && shape.portable && rest.portable

/-- Cases with names in ASCII and portable members. -/
def Cases.portable : Cases → Bool
  | .nil => true
  | .cons name _ members rest => decide (IsAscii name) && members.portable && rest.portable

end

mutual

/-- The texts that a value of a shape holds. Names that the shape gives are none of them. -/
def Shape.texts : (s : Shape) → s.Val → List String
  | .word _, _ => []
  | .truth _, _ => []
  | .text, (s : String) => [s]
  | .choice _ _, _ => []
  | .list item, vs => List.flatMap item.texts vs
  | .optional item, v =>
    match v with
    | none => []
    | some v => item.texts v
  | .record _ members, vs => members.texts vs
  | .union _ _ cases, v => cases.texts v

/-- The texts that the members of a record hold. -/
def Members.texts : (m : Members) → m.Vals → List String
  | .nil, _ => []
  | .cons _ _ shape rest, (v, vs) => shape.texts v ++ rest.texts vs

/-- The texts that the members of a union hold. -/
def Cases.texts : (c : Cases) → c.Val → List String
  | .nil, _ => []
  | .cons _ _ members _, .inl vs => members.texts vs
  | .cons _ _ _ rest, .inr v => rest.texts v

end

/-- The name of a choice is one of the names to choose from. -/
theorem chosen_mem (first : String) (others : List String) (i : (Shape.choice first others).Val) :
    chosen first others i ∈ first :: others :=
  List.get_mem _ _

mutual

/-- **The JSON value of a value of a portable shape** is portable if the texts of the value are
ASCII. -/
theorem Shape.portable_toJson : (s : Shape) → s.portable = true → ∀ v,
    (∀ t ∈ s.texts v, IsAscii t) → (s.toJson v).Portable
  | .word _, _, _, _ => .number
  | .truth _, _, _, _ => .bool
  | .text, _, v, hv => .text (hv v List.mem_cons_self)
  | .choice first others, hs, i, _ => .text (of_decide_eq_true hs _ (chosen_mem first others i))
  | .list item, hs, vs, hvs => .array fun j hj => by
    obtain ⟨v, hv, rfl⟩ := List.mem_map.mp hj
    exact item.portable_toJson hs v fun t ht => hvs t (List.mem_flatMap.mpr ⟨v, hv, ht⟩)
  | .optional item, hs, v, hv => by
    cases v with
    | none => exact .null
    | some v => exact item.portable_toJson hs v hv
  | .record _ members, hs, vs, hvs =>
    have h := members.portable_toJson hs vs hvs
    .object (fun m hm => (h m hm).1) fun m hm => (h m hm).2
  | .union _ tag cases, hs, v, hv =>
    have h := cases.portable_toJson tag hs v hv
    .object (fun m hm => (h m hm).1) fun m hm => (h m hm).2

/-- The members of a record as JSON are portable. -/
theorem Members.portable_toJson : (m : Members) → m.portable = true → ∀ vs,
    (∀ t ∈ m.texts vs, IsAscii t) → ∀ e ∈ m.toJson vs, IsKey e.1 ∧ e.2.Portable
  | .nil, _, _, _, _, he => nomatch he
  | .cons name _ shape rest, hm, (v, vs), hvs, e, he => by
    simp only [Members.portable, Bool.and_eq_true, decide_eq_true_eq] at hm
    obtain ⟨hv, hvs⟩ := List.forall_mem_append.mp hvs
    obtain rfl | he := mem_addMember he
    · exact ⟨hm.1.1, shape.portable_toJson hm.1.2 v hv⟩
    · exact rest.portable_toJson hm.2 vs hvs e he

/-- The members of a union as JSON are portable. -/
theorem Cases.portable_toJson (tag : String) : (c : Cases) →
    (decide (IsKey tag) && c.portable) = true → ∀ v,
    (∀ t ∈ c.texts v, IsAscii t) → ∀ e ∈ c.toJson tag v, IsKey e.1 ∧ e.2.Portable
  | .nil, _, v, _, _, _ => nomatch v
  | .cons name _ members _, hc, .inl vs, hvs, e, he => by
    simp only [Cases.portable, Bool.and_eq_true, decide_eq_true_eq] at hc
    obtain rfl | he := List.mem_cons.mp he
    · exact ⟨hc.1, .text hc.2.1.1⟩
    · exact members.portable_toJson hc.2.1.2 vs hvs e he
  | .cons _ _ _ rest, hc, .inr v, hv, e, he => by
    simp only [Cases.portable, Bool.and_eq_true] at hc
    exact rest.portable_toJson tag (Bool.and_eq_true_iff.mpr ⟨hc.1, hc.2.2⟩) v hv e he

end

/-- A collection, as the shape says. -/
def Shape.isCollection : Shape → Bool
  | .list _ => true
  | .record _ _ => true
  | .union _ _ _ => true
  | _ => false

/-- The document of a value of a collection is a list or an object. -/
theorem Shape.isCollection_toJson {s : Shape} (hs : s.isCollection = true) (v : s.Val) :
    (s.toJson v).IsCollection := by
  cases s with
  | list | record | union => trivial
  | _ => cases hs

end AliasReport.Document

namespace AliasReport.Yaml

open AliasReport.Document AliasReport.Json

/-- **The compact form of a described value is decoded** to this value if its texts are ASCII. -/
theorem decode_encode {α : Type} [Described α] (hsound : (Described.shape α).sound = true)
    (hportable : (Described.shape α).portable = true)
    (hcollection : (Described.shape α).isCollection = true)
    (hheight : (Described.shape α).height ≤ depthLimit) {a : α}
    (ha : ∀ t ∈ (Described.shape α).texts (Described.toVal a), IsAscii t) :
    decode α (encode a).compact = .ok a :=
  decode_compact hsound ((Described.shape α).portable_toJson hportable _ ha)
    (Shape.isCollection_toJson hcollection _)
    (((Described.shape α).fits_toJson _).mono hheight)
    ((Described.shape α).represents_toJson hsound _)

end AliasReport.Yaml

namespace AliasReport

open AliasReport.Document AliasReport.Json

/-! ## Snapshots -/

/-- Every text that a breakdown holds. -/
def Breakdown.texts (b : Breakdown) : List String :=
  b.api.toList ++ b.allocationFlags.map (·.name) ++
    b.allocations.flatMap fun a => a.name :: a.bindings.map (·.name)

/-- The texts of a list are those of its items. -/
theorem texts_list {α : Type} [Described α] (as : List α) :
    (Described.shape (List α)).texts (Described.toVal as) =
      as.flatMap fun a => (Described.shape α).texts (Described.toVal a) :=
  List.flatMap_map _ _ as

/-- A kind holds no text. -/
theorem ResourceKind.texts_toVal (k : ResourceKind) :
    (Described.shape ResourceKind).texts (Described.toVal k) = [] := by
  have haspects (aspects : List Aspect) :
      (Described.shape (List Aspect)).texts (Described.toVal aspects) ++ [] = [] := by
    rw [texts_list, List.append_nil]
    exact List.flatMap_eq_nil_iff.mpr fun _ _ => rfl
  cases k with
  | sparseImageBlock x y width height level layer aspects => exact haspects aspects
  | sparseImageMipTail layer offset aspects => exact haspects aspects
  | _ => rfl

/-- A resource holds its name. -/
theorem Resource.texts_toVal (r : Resource) :
    (Described.shape Resource).texts (Described.toVal r) = [r.name] := by
  change r.name :: ((Described.shape ResourceKind).texts (Described.toVal r.kind) ++ []) = _
  rw [r.kind.texts_toVal, List.append_nil]

/-- An allocation holds its name and those of its resources. -/
theorem Allocation.texts_toVal (a : Allocation) :
    (Described.shape Allocation).texts (Described.toVal a) = a.name :: a.bindings.map (·.name) := by
  have hmapping :
      (Described.shape (Option HostMapping)).texts (Described.toVal a.mapping) = [] := by
    cases a.mapping <;> rfl
  change a.name :: ((Described.shape (Option HostMapping)).texts (Described.toVal a.mapping) ++
    ((Described.shape (List Resource)).texts (Described.toVal a.bindings) ++ [])) = _
  rw [hmapping, texts_list]
  simp [Resource.texts_toVal, ← List.map_eq_flatMap]

/-- The texts of a breakdown are those that its document holds. -/
theorem Breakdown.texts_toVal (b : Breakdown) :
    (Described.shape Breakdown).texts (Described.toVal b) = b.texts := by
  have hapi : (Described.shape (Option String)).texts (Described.toVal b.api) = b.api.toList := by
    cases b.api <;> rfl
  have hflags : (Described.shape (List FlagConstant)).texts (Described.toVal b.allocationFlags) =
      b.allocationFlags.map (·.name) := by
    rw [texts_list, List.map_eq_flatMap]
    rfl
  change (Described.shape (Option String)).texts (Described.toVal b.api) ++
    ((Described.shape (List FlagConstant)).texts (Described.toVal b.allocationFlags) ++
      ((Described.shape (List Allocation)).texts (Described.toVal b.allocations) ++ [])) = _
  rw [hapi, hflags, texts_list]
  simp [Breakdown.texts, Allocation.texts_toVal]

/-- **The two formats agree** on the compact JSON of a breakdown whose texts are ASCII: both parse
it as this breakdown. -/
theorem formats_agree {b : Breakdown} (hb : ∀ t ∈ b.texts, IsAscii t) :
    Format.yaml.parse (encode b).compact = .ok b ∧
      Format.json.parse (encode b).compact = .ok b := by
  have hyaml : Yaml.decode Breakdown (encode b).compact = .ok b :=
    Yaml.decode_encode (by decide) (by decide +kernel) (by decide) (by decide)
      (b.texts_toVal ▸ hb)
  refine ⟨?_, (parse_encode b).1⟩
  rw [Format.parse, hyaml]
  rfl

/-- Names that would be something else without quotes, and words at the ends of their ranges. -/
theorem formats_agree_on_quoted_names :
    let b : Breakdown := ⟨some "null", [⟨"~", 18446744073709551615⟩, ⟨"0x10", 0⟩],
      [⟨1, "- a: \x7b\"b\\n\"\x7d #  \n\t\x00", 0, 4294967295, 64, 0, some ⟨9, 0, 64⟩,
        [⟨2, "true", 0, 8, .buffer⟩,
          ⟨3, "", 4, 8, .sparseImageMipTail 7 9223372036854775808 [.depth]⟩]⟩]⟩
    (∀ t ∈ b.texts, IsAscii t) ∧
      Format.yaml.parse (encode b).compact = .ok b ∧
      Format.json.parse (encode b).compact = .ok b := by
  intro b
  have hb : ∀ t ∈ b.texts, IsAscii t := by decide
  exact ⟨hb, formats_agree hb⟩

end AliasReport
