import Mathlib.Logic.Relation
import AliasReport.Proofs.Json.RoundTrip

/-! # Edits that do not change what is read

A document that was written for a value can be edited by hand: members are put in another order,
members that are not known are put in, and members that hold their default are left out or spelled
out. Which members an object can have is told by the shape of the document at that place, and for a
union by the case that its tag names.

* **`Shape.Edit`**, **`Members.Edit`** — one edit, anywhere in a document.
* **`Shape.represents_of_edit`** — an edit keeps the value that is represented.
* **`Shape.represents_of_edits`** — so does any sequence of edits.
* **`Json.parse_of_edits`** — an edited breakdown is parsed as the breakdown that was written. -/

namespace AliasReport.Document

/-! ## Edits -/

/-- A record has a member of this name and shape, which must be there if `required` holds. -/
def Members.Declares : Members → String → Bool → Shape → Prop
  | .nil, _, _, _ => False
  | .cons n r s rest, name, required, shape =>
    (n = name ∧ r = required ∧ s = shape) ∨ rest.Declares name required shape

/-- A union has a case of this name with these members. -/
def Cases.Declares : Cases → String → Members → Prop
  | .nil, _, _ => False
  | .cons n _ ms rest, name, members => (n = name ∧ ms = members) ∨ rest.Declares name members

mutual

/-- **One edit** of a document of a shape: in the value of an item, of an option or of a member, or
in the members of an object. The members of an object of a union are the tag and those of the case
that the tag names. -/
inductive Shape.Edit : Shape → Buffered → Buffered → Prop
  | item {item : Shape} {before after : List Buffered} {b b' : Buffered}
      (h : Shape.Edit item b b') :
      Shape.Edit (.list item) (.sequence (before ++ b :: after)) (.sequence (before ++ b' :: after))
  | optional {item : Shape} {b b' : Buffered} (h : Shape.Edit item b b') :
      Shape.Edit (.optional item) b b'
  | record {name : String} {members : Members} {es es' : List (String × Buffered)}
      (h : Members.Edit members es es') :
      Shape.Edit (.record name members) (.mapping (keyed es)) (.mapping (keyed es'))
  | union {name tag caseName : String} {cases : Cases} {members : Members}
      {es es' : List (String × Buffered)} (hcase : cases.Declares caseName members)
      (htag : (tag, .text caseName) ∈ es) (h : Members.Edit (.cons tag true .text members) es es') :
      Shape.Edit (.union name tag cases) (.mapping (keyed es)) (.mapping (keyed es'))

/-- **One edit of the members of an object.** What a member that is not known holds can be anything;
what stands for a default is the document of the default. -/
inductive Members.Edit : Members → List (String × Buffered) → List (String × Buffered) → Prop
  | reorder {m : Members} {es es' : List (String × Buffered)} (h : es.Perm es') :
      Members.Edit m es es'
  | insert {m : Members} {before after : List (String × Buffered)} {name : String} {b : Buffered}
      (hname : name ∉ m.names) : Members.Edit m (before ++ after) (before ++ (name, b) :: after)
  | replace {m : Members} {before after : List (String × Buffered)} {name : String}
      {b b' : Buffered} (hname : name ∉ m.names) :
      Members.Edit m (before ++ (name, b) :: after) (before ++ (name, b') :: after)
  | spellOut {m : Members} {before after : List (String × Buffered)} {name : String}
      {required : Bool} {shape : Shape} {v : shape.Val} (hmember : m.Declares name required shape)
      (hdefault : shape.default? required = some v)
      (hmissing : name ∉ (before ++ after).map Prod.fst) :
      Members.Edit m (before ++ after) (before ++ (name, (shape.toJson v).toBuffered) :: after)
  | leaveOut {m : Members} {before after : List (String × Buffered)} {name : String}
      {required : Bool} {shape : Shape} {v : shape.Val} (hmember : m.Declares name required shape)
      (hdefault : shape.default? required = some v) :
      Members.Edit m (before ++ (name, (shape.toJson v).toBuffered) :: after) (before ++ after)
  | within {m : Members} {before after : List (String × Buffered)} {name : String}
      {required : Bool} {shape : Shape} {b b' : Buffered}
      (hmember : m.Declares name required shape) (h : Shape.Edit shape b b') :
      Members.Edit m (before ++ (name, b) :: after) (before ++ (name, b') :: after)

end

/-! ## Entries -/

section

variable {before after : List (String × Buffered)} {name : String} {b b' : Buffered}

/-- An entry does not stand among those under another name. -/
theorem filter_insert_of_ne {other : String} (h : other ≠ name) :
    (before ++ (name, b) :: after).filter (·.1 = other) =
      (before ++ after).filter (·.1 = other) := by
  rw [List.filter_append, List.filter_append, List.filter_cons_of_neg (by simpa using h.symm)]

/-- An entry whose name stands nowhere else is the only one under its name. -/
theorem filter_insert_self (h : (before ++ after).filter (·.1 = name) = []) :
    (before ++ (name, b) :: after).filter (·.1 = name) = [(name, b)] := by
  rw [List.filter_append] at h ⊢
  obtain ⟨hbefore, hafter⟩ := List.append_eq_nil_iff.mp h
  rw [hbefore, List.filter_cons_of_pos (by simp), hafter, List.nil_append]

/-- The only entry under a name is the one that stands there. -/
theorem filter_eq_nil_of_singleton
    (h : (before ++ (name, b) :: after).filter (·.1 = name) = [(name, b')]) :
    b' = b ∧ (before ++ after).filter (·.1 = name) = [] := by
  rw [List.filter_append, List.filter_cons_of_pos (by simp)] at h
  obtain ⟨hbefore, hsingle⟩ | ⟨-, hnil⟩ := List.append_eq_singleton_iff.mp h
  · obtain ⟨hb, hafter⟩ := List.cons.inj hsingle
    exact ⟨(Prod.mk.inj hb).2.symm, by rw [List.filter_append, hbefore, hafter, List.nil_append]⟩
  · exact absurd hnil (List.cons_ne_nil _ _)

end

/-! ## Members -/

/-- A member that is declared has one of the names. -/
theorem Members.name_mem_of_declares {name : String} {required : Bool} {shape : Shape} :
    (m : Members) → m.Declares name required shape → name ∈ m.names
  | .cons _ _ _ _, .inl ⟨hname, _, _⟩ => hname ▸ List.mem_cons_self
  | .cons _ _ _ rest, .inr h => List.mem_cons_of_mem _ (rest.name_mem_of_declares h)

/-- The shape of a member of sound members is sound. -/
theorem Members.sound_of_declares {name : String} {required : Bool} {shape : Shape} :
    (m : Members) → m.sound = true → m.Declares name required shape → shape.sound = true
  | .cons _ _ s rest, hsound, h => by
    simp only [Members.sound, Bool.and_eq_true] at hsound
    obtain ⟨-, -, rfl⟩ | h := h
    · exact hsound.1.2
    · exact rest.sound_of_declares hsound.2 h

/-- The entries of an object represent one member: it stands there once, or not at all if it holds
its default. -/
def RepresentsMember (name : String) (required : Bool) (shape : Shape)
    (es : List (String × Buffered)) (v : shape.Val) : Prop :=
  (∃ b, es.filter (·.1 = name) = [(name, b)] ∧ shape.Represents b v) ∨
    es.filter (·.1 = name) = [] ∧ shape.default? required = some v

/-- **Changing the entries of one member** keeps what is represented if it does for this member. -/
theorem Members.Represents.of_member {name : String} {required : Bool} {shape : Shape}
    {es es' : List (String × Buffered)}
    (hothers : ∀ other ≠ name, es'.filter (·.1 = other) = es.filter (·.1 = other))
    (hmember : ∀ v, RepresentsMember name required shape es v →
      RepresentsMember name required shape es' v) :
    (m : Members) → m.names.Nodup → m.Declares name required shape → ∀ {vs}, m.Represents es vs →
      m.Represents es' vs
  | .cons n r s rest, hnodup, hdecl, (v, vs), ⟨hv, hvs⟩ => by
    obtain ⟨hfresh, hnodup⟩ := List.nodup_cons.mp hnodup
    obtain ⟨rfl, rfl, rfl⟩ | hdecl := hdecl
    · -- The names are distinct, so that the other members find what they did before.
      refine ⟨hmember v hv, Members.Represents.congr rest hvs fun other hother => ?_⟩
      exact hothers other (ne_of_mem_of_not_mem hother hfresh)
    · refine ⟨?_, Members.Represents.of_member hothers hmember rest hnodup hdecl hvs⟩
      have hne : n ≠ name :=
        (ne_of_mem_of_not_mem (rest.name_mem_of_declares hdecl) hfresh).symm
      rwa [hothers n hne]

/-- Each member of a record stands among its entries once or not at all. -/
theorem Members.Represents.filter_cases {es : List (String × Buffered)} {name : String} :
    (m : Members) → ∀ {vs}, m.Represents es vs → name ∈ m.names →
      (∃ b, es.filter (·.1 = name) = [(name, b)]) ∨ es.filter (·.1 = name) = []
  | .cons n _ _ rest, (_, _), ⟨hv, hvs⟩, hname => by
    obtain rfl | hname := List.mem_cons.mp hname
    · exact hv.imp (fun ⟨b, hb, _⟩ => ⟨b, hb⟩) And.left
    · exact Members.Represents.filter_cases rest hvs hname

/-- The order of the members does not matter. -/
theorem Members.Represents.perm {m : Members} {es es' : List (String × Buffered)} {vs : m.Vals}
    (h : m.Represents es vs) (hperm : es.Perm es') : m.Represents es' vs := by
  refine Members.Represents.congr m h fun name hname => ?_
  have hfilter := hperm.filter (·.1 = name)
  obtain ⟨b, hb⟩ | hb := Members.Represents.filter_cases m h hname
  · rw [hb] at hfilter ⊢
    exact List.perm_singleton.mp hfilter.symm
  · rw [hb] at hfilter ⊢
    exact List.perm_nil.mp hfilter.symm

/-- What stands under names that are not known does not matter. -/
theorem Members.represents_insert_iff {m : Members} {before after : List (String × Buffered)}
    {name : String} {b : Buffered} {vs : m.Vals} (hname : name ∉ m.names) :
    m.Represents (before ++ (name, b) :: after) vs ↔ m.Represents (before ++ after) vs := by
  have hfilter : ∀ other ∈ m.names, (before ++ (name, b) :: after).filter (·.1 = other) =
      (before ++ after).filter (·.1 = other) :=
    fun other hother => filter_insert_of_ne (ne_of_mem_of_not_mem hother hname)
  exact ⟨fun h => Members.Represents.congr m h fun other hother => (hfilter other hother).symm,
    fun h => Members.Represents.congr m h hfilter⟩

section

variable {m : Members} {before after : List (String × Buffered)} {name : String} {required : Bool}
  {shape : Shape} {v : shape.Val} {vs : m.Vals}

/-- A member that is missing can be spelled out by its default. -/
theorem Members.Represents.spellOut (hnodup : m.names.Nodup) (hsound : m.sound = true)
    (hmember : m.Declares name required shape) (hdefault : shape.default? required = some v)
    (hmissing : name ∉ (before ++ after).map Prod.fst) (h : m.Represents (before ++ after) vs) :
    m.Represents (before ++ (name, (shape.toJson v).toBuffered) :: after) vs := by
  refine Members.Represents.of_member (fun other hother => filter_insert_of_ne hother) ?_ m hnodup
    hmember h
  have hnone := mem_map_fst_iff.not_left.mp hmissing
  rintro v' (⟨b, hb, -⟩ | ⟨-, hv'⟩)
  · rw [hnone] at hb
    exact absurd hb.symm (List.cons_ne_nil _ _)
  · obtain rfl := Option.some.inj (hdefault.symm.trans hv')
    exact .inl ⟨_, filter_insert_self hnone,
      shape.represents_toJson (m.sound_of_declares hsound hmember) v⟩

/-- A member that is spelled out by its default can be left out. -/
theorem Members.Represents.leaveOut (hnodup : m.names.Nodup) (hsound : m.sound = true)
    (hmember : m.Declares name required shape) (hdefault : shape.default? required = some v)
    (h : m.Represents (before ++ (name, (shape.toJson v).toBuffered) :: after) vs) :
    m.Represents (before ++ after) vs := by
  refine Members.Represents.of_member (fun other hother => (filter_insert_of_ne hother).symm) ?_ m
    hnodup hmember h
  have hshape := m.sound_of_declares hsound hmember
  rintro v' (⟨b, hb, hv'⟩ | ⟨hnone, -⟩)
  · obtain ⟨rfl, hnone⟩ := filter_eq_nil_of_singleton hb
    -- The document of the default is read as the default only.
    have hread := shape.ofBuffered_of_represents hshape (shape.represents_toJson hshape v)
    obtain rfl := Except.ok.inj (hread.symm.trans (shape.ofBuffered_of_represents hshape hv'))
    exact .inr ⟨hnone, hdefault⟩
  · simp at hnone

/-- The value of a member can be edited. -/
theorem Members.Represents.within {b b' : Buffered} (hnodup : m.names.Nodup)
    (hmember : m.Declares name required shape)
    (hedit : ∀ v, shape.Represents b v → shape.Represents b' v)
    (h : m.Represents (before ++ (name, b) :: after) vs) :
    m.Represents (before ++ (name, b') :: after) vs := by
  refine Members.Represents.of_member (fun other hother => ?_) ?_ m hnodup hmember h
  · rw [filter_insert_of_ne hother, filter_insert_of_ne hother]
  rintro v' (⟨b₀, hb, hv'⟩ | ⟨hnone, -⟩)
  · obtain ⟨rfl, hnone⟩ := filter_eq_nil_of_singleton hb
    exact .inl ⟨b', filter_insert_self hnone, hedit v' hv'⟩
  · simp at hnone

end

/-! ## Cases -/

/-- A case of a sound union has distinct names of members, none of which is the tag. -/
theorem Cases.sound_of_declares {tag caseName : String} {members : Members} :
    (c : Cases) → c.sound tag = true → c.Declares caseName members →
      (tag :: members.names).Nodup ∧ members.sound = true
  | .cons _ _ _ rest, hsound, h => by
    simp only [Cases.sound, Bool.and_eq_true, decide_eq_true_eq] at hsound
    obtain ⟨-, rfl⟩ | h := h
    · exact hsound.1
    · exact rest.sound_of_declares hsound.2 h

/-- A case that is declared has one of the names. -/
theorem Cases.name_mem_of_declares {caseName : String} {members : Members} :
    (c : Cases) → c.Declares caseName members → caseName ∈ c.names
  | .cons _ _ _ _, .inl ⟨hname, _⟩ => hname ▸ List.mem_cons_self
  | .cons _ _ _ rest, .inr h => List.mem_cons_of_mem _ (rest.name_mem_of_declares h)

/-- The tag is a member like any other. -/
theorem Members.represents_cons_tag {tag caseName : String} {members : Members}
    (htag : tag ∉ members.names) {es : List (String × Buffered)} {vs : members.Vals} :
    (Members.cons tag true .text members).Represents es (caseName, vs) ↔
      es.filter (·.1 = tag) = [(tag, .text caseName)] ∧
        members.Represents (es.filter (·.1 ≠ tag)) vs := by
  have hothers : ∀ name ∈ members.names,
      (es.filter (·.1 ≠ tag)).filter (·.1 = name) = es.filter (·.1 = name) := by
    intro name hname
    rw [List.filter_filter]
    refine List.filter_congr fun e _ => ?_
    simpa using fun heq : e.1 = name => heq ▸ ne_of_mem_of_not_mem hname htag
  have hmembers : members.Represents es vs ↔ members.Represents (es.filter (·.1 ≠ tag)) vs :=
    ⟨fun h => Members.Represents.congr members h hothers,
      fun h => Members.Represents.congr members h fun name hname => (hothers name hname).symm⟩
  constructor
  · rintro ⟨⟨b, hb, rfl⟩ | ⟨-, hdefault⟩, h⟩
    · exact ⟨hb, hmembers.mp h⟩
    · exact nomatch hdefault
  · rintro ⟨hb, h⟩
    exact ⟨.inl ⟨_, hb, rfl⟩, hmembers.mpr h⟩

/-- The tag names the case that is represented. -/
theorem Cases.Represents.exists_tag {tag : String} {es : List (String × Buffered)} :
    (c : Cases) → ∀ {v}, c.Represents tag es v →
      ∃ caseName ∈ c.names, es.filter (·.1 = tag) = [(tag, .text caseName)]
  | .nil, v, _ => Empty.elim v
  | .cons name _ _ _, .inl _, ⟨htag, _⟩ => ⟨name, List.mem_cons_self, htag⟩
  | .cons _ _ _ rest, .inr _, h => by
    obtain ⟨caseName, hmem, htag⟩ := Cases.Represents.exists_tag rest h
    exact ⟨caseName, List.mem_cons_of_mem _ hmem, htag⟩

/-- An object has the tag that it is found under. -/
theorem eq_of_tagged {tag caseName name : String} {es : List (String × Buffered)}
    (htag : (tag, .text caseName) ∈ es) (hname : es.filter (·.1 = tag) = [(tag, .text name)]) :
    caseName = name := by
  have hmem : (tag, Buffered.text caseName) ∈ es.filter (·.1 = tag) :=
    List.mem_filter.mpr ⟨htag, by simp⟩
  rw [hname, List.mem_singleton] at hmem
  exact Buffered.text.inj (Prod.mk.inj hmem).2

/-- **Changing the entries of a case** keeps what is represented if it does for the tag and the
members of the case. -/
theorem Cases.Represents.of_case {tag caseName : String} {members : Members}
    {es es' : List (String × Buffered)} (htag : (tag, .text caseName) ∈ es)
    (hmembers : ∀ vs : members.Vals, (Members.cons tag true .text members).Represents es
      (caseName, vs) → (Members.cons tag true .text members).Represents es' (caseName, vs)) :
    (c : Cases) → c.names.Nodup → c.sound tag = true → c.Declares caseName members →
      ∀ {v}, c.Represents tag es v → c.Represents tag es' v
  | .cons name _ ms rest, hnodup, hsound, hdecl, .inl vs, ⟨hname, hvs⟩ => by
    obtain rfl := eq_of_tagged htag hname
    obtain ⟨-, rfl⟩ | hdecl := hdecl
    · have hfresh := (List.nodup_cons.mp (Cases.sound_of_declares (.cons caseName _ ms rest) hsound
        (.inl ⟨rfl, rfl⟩)).1).1
      have htagged := (Members.represents_cons_tag hfresh).mpr ⟨hname, hvs⟩
      exact (Members.represents_cons_tag hfresh).mp (hmembers vs htagged)
    · exact absurd (rest.name_mem_of_declares hdecl) (List.nodup_cons.mp hnodup).1
  | .cons name _ ms rest, hnodup, hsound, hdecl, .inr v, h => by
    obtain ⟨hfresh, hnodup⟩ := List.nodup_cons.mp hnodup
    obtain ⟨rfl, -⟩ | hdecl := hdecl
    · -- The tag names a case behind this one.
      obtain ⟨other, hother, hname⟩ := Cases.Represents.exists_tag rest h
      obtain rfl := eq_of_tagged htag hname
      exact absurd hother hfresh
    · exact Cases.Represents.of_case htag hmembers rest hnodup
        (Bool.and_eq_true_iff.mp hsound).2 hdecl h

/-! ## Every edit -/

/-- Replacing one item by one that is related to the same values. -/
theorem forall₂_replace {α β : Type} {R : α → β → Prop} {b b' : α} (h : ∀ v, R b v → R b' v)
    {before after : List α} {vs : List β} (hitems : List.Forall₂ R (before ++ b :: after) vs) :
    List.Forall₂ R (before ++ b' :: after) vs := by
  induction before generalizing vs with
  | nil =>
    cases hitems with
    | cons hb hafter => exact .cons (h _ hb) hafter
  | cons item before ih =>
    cases hitems with
    | cons hitem hitems => exact .cons hitem (ih hitems)

/-- No edit makes nothing of anything or anything of nothing. -/
theorem Shape.Edit.ne_nothing {s : Shape} {b b' : Buffered} :
    Shape.Edit s b b' → b ≠ .nothing ∧ b' ≠ .nothing
  | .item _ => ⟨nofun, nofun⟩
  | .optional h => h.ne_nothing
  | .record _ => ⟨nofun, nofun⟩
  | .union _ _ _ => ⟨nofun, nofun⟩

mutual

/-- **An edit keeps the value** that a document represents. -/
theorem Shape.represents_of_edit {b b' : Buffered} :
    {s : Shape} → s.sound = true → Shape.Edit s b b' → ∀ v, s.Represents b v → s.Represents b' v
  | .list item, hsound, .item h, vs, hb => by
    obtain ⟨bs, hbs, hitems⟩ := hb
    obtain rfl := Buffered.sequence.inj hbs
    have hsound : item.sound = true := hsound
    exact ⟨_, rfl, forall₂_replace (Shape.represents_of_edit hsound h) hitems⟩
  | _, hsound, .optional h, v, hb => by
    obtain ⟨hne, hne'⟩ := h.ne_nothing
    cases v with
    | none => exact absurd hb hne
    | some v =>
      exact ⟨hne', Shape.represents_of_edit (Bool.and_eq_true_iff.mp hsound).2 h v hb.2⟩
  | _, hsound, .record h, vs, hb => by
    obtain ⟨es, hes, hb⟩ := hb
    obtain rfl := keyed_injective (Buffered.mapping.inj hes)
    obtain ⟨hnodup, hsound⟩ := Bool.and_eq_true_iff.mp hsound
    exact ⟨_, rfl, Members.represents_of_edit (of_decide_eq_true hnodup) hsound h vs hb⟩
  | .union _ tag cases, hsound, @Shape.Edit.union _ _ _ _ members _ _ hcase htag h, v, hb => by
    obtain ⟨es, hes, hb⟩ := hb
    obtain rfl := keyed_injective (Buffered.mapping.inj hes)
    obtain ⟨hnodup, hsound⟩ := Bool.and_eq_true_iff.mp hsound
    obtain ⟨hnames, hmembers⟩ := cases.sound_of_declares hsound hcase
    -- With the tag in front, the members of a case are those of a record.
    have hnames : (Members.cons tag true .text members).names.Nodup := hnames
    have htagged : (Members.cons tag true .text members).sound = true := by
      simpa [Members.sound, Shape.isOptional, Shape.sound] using hmembers
    exact ⟨_, rfl, Cases.Represents.of_case htag
      (fun vs => Members.represents_of_edit hnames htagged h (_, vs)) cases
      (of_decide_eq_true hnodup) hsound hcase hb⟩

/-- An edit of the members of an object keeps their values. -/
theorem Members.represents_of_edit {es es' : List (String × Buffered)} :
    {m : Members} → m.names.Nodup → m.sound = true → Members.Edit m es es' →
      ∀ vs, m.Represents es vs → m.Represents es' vs
  | _, _, _, .reorder h, _, hes => hes.perm h
  | _, _, _, .insert hname, _, hes => (Members.represents_insert_iff hname).mpr hes
  | _, _, _, .replace hname, _, hes =>
    (Members.represents_insert_iff hname).mpr ((Members.represents_insert_iff hname).mp hes)
  | _, hnodup, hsound, .spellOut hmember hdefault hmissing, _, hes =>
    hes.spellOut hnodup hsound hmember hdefault hmissing
  | _, hnodup, hsound, .leaveOut hmember hdefault, _, hes =>
    hes.leaveOut hnodup hsound hmember hdefault
  | m, hnodup, hsound, .within hmember h, _, hes =>
    hes.within hnodup hmember fun v =>
      Shape.represents_of_edit (m.sound_of_declares hsound hmember) h v

end

/-- **Any sequence of edits keeps the value** that a document represents. -/
theorem Shape.represents_of_edits {s : Shape} (hsound : s.sound = true) {b b' : Buffered}
    (h : Relation.ReflTransGen s.Edit b b') {v : s.Val} (hb : s.Represents b v) :
    s.Represents b' v := by
  induction h with
  | refl => exact hb
  | tail _ hstep ih => exact Shape.represents_of_edit hsound hstep v ih

end AliasReport.Document

namespace AliasReport.Json

open AliasReport.Document

/-- **An edited breakdown is parsed as the one that was written.** Every text of a document that
comes from what is written for a breakdown by edits is parsed, and as this breakdown: the members of
any object can stand in another order, members that are not known can stand among them, and those
that hold their default can be left out or spelled out. -/
theorem parse_of_edits (b : Breakdown) {d : Buffered}
    (hedits : Relation.ReflTransGen (Described.shape Breakdown).Edit (encode b).toBuffered d)
    {text : String} (htext : Document depthLimit text d) : Format.json.parse text = .ok b := by
  have hsound : (Described.shape Breakdown).sound = true := by decide
  have hwritten := (Described.shape Breakdown).represents_toJson hsound (Described.toVal b)
  have hedited := Shape.represents_of_edits hsound hedits hwritten
  unfold Format.parse
  rw [decode_of_document hsound htext hedited]
  rfl

/-- A breakdown whose document has a member that is not known, a kind that ends with its tag, and no
list of flags because it is empty. -/
theorem parse_of_edits_by_hand :
    let b : Breakdown := ⟨none, [], [⟨7, "", 1, 2, 64, 0, none,
      [⟨5, "v", 0, 8, .sparseBufferBlock 3⟩]⟩]⟩
    let tag : String × Json := ("type", .text "sparse_buffer_block")
    let offset : String × Json := ("offset", .number 3)
    let resource (kind : List (String × Json)) : Json := .object
      [("handle", .number 5), ("name", .text "v"), ("offset", .number 0), ("size", .number 8),
        ("kind", .object kind)]
    let allocation (kind : List (String × Json)) : Json := .object
      [("handle", .number 7), ("name", .text ""), ("device", .number 1), ("memory_type", .number 2),
        ("size", .number 64), ("flags", .number 0), ("bindings", .array [resource kind])]
    let note : String × Json := ("note", .array [.null])
    encode b = .object [("allocation_flags", .array []),
        ("allocations", .array [allocation [tag, offset]])] ∧
      Format.json.parse (Json.object [note,
        ("allocations", .array [allocation [offset, tag]])]).compact = .ok b := by
  intro b tag offset resource allocation note
  refine ⟨rfl, ?_⟩
  -- The edits are made one after the other, the one of the kind last.
  have hflags : (Described.shape Breakdown).Edit (encode b).toBuffered
      (Json.object [("allocations", .array [allocation [tag, offset]])]).toBuffered :=
    .record (@Members.Edit.leaveOut _ [] [_] "allocation_flags" false
      (Described.shape (List FlagConstant)) [] (Or.inr (Or.inl ⟨rfl, rfl, rfl⟩)) rfl)
  have hnote : (Described.shape Breakdown).Edit
      (Json.object [("allocations", .array [allocation [tag, offset]])]).toBuffered
      (Json.object [note, ("allocations", .array [allocation [tag, offset]])]).toBuffered :=
    .record (@Members.Edit.insert _ [] [_] "note" _ (by decide))
  have hkind : (Described.shape ResourceKind).Edit (Json.object [tag, offset]).toBuffered
      (Json.object [offset, tag]).toBuffered :=
    .union (.inr (.inr (.inr (.inr (.inr (.inr (.inl ⟨rfl, rfl⟩))))))) List.mem_cons_self
      (.reorder (.swap _ _ []))
  have hresource : (Described.shape Resource).Edit (resource [tag, offset]).toBuffered
      (resource [offset, tag]).toBuffered :=
    .record (@Members.Edit.within _ [_, _, _, _] [] "kind" true _ _ _
      (.inr (.inr (.inr (.inr (.inl ⟨rfl, rfl, rfl⟩))))) hkind)
  have hallocation : (Described.shape Allocation).Edit (allocation [tag, offset]).toBuffered
      (allocation [offset, tag]).toBuffered :=
    .record (@Members.Edit.within _ [_, _, _, _, _, _] [] "bindings" false _ _ _
      (.inr (.inr (.inr (.inr (.inr (.inr (.inr (.inl ⟨rfl, rfl, rfl⟩))))))))
      (@Shape.Edit.item _ [] [] _ _ hresource))
  have hallocations : (Described.shape Breakdown).Edit
      (Json.object [note, ("allocations", .array [allocation [tag, offset]])]).toBuffered
      (Json.object [note, ("allocations", .array [allocation [offset, tag]])]).toBuffered :=
    .record (@Members.Edit.within _ [_] [] "allocations" false _ _ _
      (.inr (.inr (.inl ⟨rfl, rfl, rfl⟩))) (@Shape.Edit.item _ [] [] _ _ hallocation))
  have hfits : (Json.object [note, ("allocations", .array [allocation [offset, tag]])]).Fits
      depthLimit := by
    decide
  exact parse_of_edits b (((Relation.ReflTransGen.single hflags).tail hnote).tail hallocations)
    (document_compact hfits)

end AliasReport.Json
