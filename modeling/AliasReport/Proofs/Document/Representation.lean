import AliasReport.Document.Buffered
import AliasReport.Proofs.Sequencing

/-! # What represents a value

A value has many documents: members come in any order, members that hold their default may be left
out, and members that are not known may be put in. This says which buffered values represent a
value of a shape, and that each of them is read as this value.

* **`Shape.Represents`** — the buffered values that represent a value.
* **`Shape.sound`** — shapes whose names are distinct and whose missing values are told apart.
* **`Members.reached`** — the members of a record of which only some have been read;
  `Members.reached_append_self` and `Members.reached_append_of_ne` read one more.
* **`Shape.ofBuffered_of_represents`** — what represents a value is read as this value. -/

namespace AliasReport.Document

/-- Members with their names as buffered keys. -/
def keyed (es : List (String × Buffered)) : List (Buffered × Buffered) :=
  es.map fun e => (.text e.1, e.2)

@[simp] theorem keyed_nil : keyed [] = [] := rfl

@[simp] theorem keyed_cons (e : String × Buffered) (es : List (String × Buffered)) :
    keyed (e :: es) = (.text e.1, e.2) :: keyed es := rfl

/-- Members with buffered names tell the members. -/
theorem keyed_injective : Function.Injective keyed := by
  refine List.map_injective_iff.mpr fun e e' h => ?_
  obtain ⟨hname, hvalue⟩ := Prod.mk.inj h
  exact Prod.ext (Buffered.text.inj hname) hvalue

mutual

/-- **A buffered value represents** a value of a shape. Choices are bare names, and records and
unions are objects. -/
def Shape.Represents : (s : Shape) → Buffered → s.Val → Prop
  | .word w, b, n => b = .unsigned (w.unpack n)
  | .truth _, b, (v : Bool) => b = .truth v
  | .text, b, (v : String) => b = .text v
  | .choice first others, b, i => b = .text (chosen first others i)
  | .list item, b, vs => ∃ bs, b = .sequence bs ∧ List.Forall₂ item.Represents bs vs
  | .optional item, b, v =>
    match v with
    | none => b = .nothing
    | some v => b ≠ .nothing ∧ item.Represents b v
  | .record _ members, b, vs => ∃ es, b = .mapping (keyed es) ∧ members.Represents es vs
  | .union _ tag cases, b, v => ∃ es, b = .mapping (keyed es) ∧ cases.Represents tag es v

/-- The entries of an object represent the members of a record: each member stands there once, or
not at all if it holds its default. Other entries do not matter. -/
def Members.Represents : (m : Members) → List (String × Buffered) → m.Vals → Prop
  | .nil, _, _ => True
  | .cons name required shape rest, es, (v, vs) =>
    ((∃ b, es.filter (·.1 = name) = [(name, b)] ∧ shape.Represents b v) ∨
        es.filter (·.1 = name) = [] ∧ shape.default? required = some v) ∧
      rest.Represents es vs

/-- The entries of an object represent a case of a union: the tag stands there once and names the
case, and the other entries represent its members. -/
def Cases.Represents (tag : String) : (c : Cases) → List (String × Buffered) → c.Val → Prop
  | .nil, _, v => nomatch v
  | .cons name _ members _, es, .inl vs =>
    es.filter (·.1 = tag) = [(tag, .text name)] ∧ members.Represents (es.filter (·.1 ≠ tag)) vs
  | .cons _ _ _ rest, es, .inr v => rest.Represents tag es v

end

/-- Only the entries under the names of its members matter to a record. -/
theorem Members.Represents.congr {es es' : List (String × Buffered)} :
    (m : Members) → ∀ {vs}, m.Represents es vs →
      (∀ name ∈ m.names, es'.filter (·.1 = name) = es.filter (·.1 = name)) → m.Represents es' vs
  | .nil, _, _, _ => trivial
  | .cons name _ _ rest, (_, _), ⟨hname, hrest⟩, heq => by
    refine ⟨?_, Members.Represents.congr rest hrest fun n hn => heq n (List.mem_cons_of_mem _ hn)⟩
    rwa [heq name List.mem_cons_self]

/-- Entries under other names can be put in front. -/
theorem Members.Represents.append_left {m : Members} {es : List (String × Buffered)} {vs : m.Vals}
    (h : m.Represents es vs) {others : List (String × Buffered)}
    (hothers : ∀ e ∈ others, e.1 ∉ m.names) : m.Represents (others ++ es) vs := by
  refine Members.Represents.congr m h fun name hname => ?_
  rw [List.filter_append, List.filter_eq_nil_iff.mpr, List.nil_append]
  intro e he heq
  exact hothers e he (of_decide_eq_true heq ▸ hname)

/-! ## Sound shapes -/

/-- Whether a shape is that of an optional value. -/
def Shape.isOptional : Shape → Bool
  | .optional _ => true
  | _ => false

mutual

/-- **A sound shape** gives distinct names to choices, members and cases, and tells nothing from a
missing member or from a value inside an option. -/
def Shape.sound : Shape → Bool
  | .word _ => true
  | .truth _ => true
  | .text => true
  | .choice first others => decide (first :: others).Nodup
  | .list item => item.sound
  | .optional item => !item.isOptional && item.sound
  | .record _ members => decide members.names.Nodup && members.sound
  | .union _ tag cases => decide cases.names.Nodup && cases.sound tag

/-- Members of sound shapes, of which only those that may be missing are optional. -/
def Members.sound : Members → Bool
  | .nil => true
  | .cons _ required shape rest =>
    !(required && shape.isOptional) && shape.sound && rest.sound

/-- Cases with distinct names of members, none of which is the tag. -/
def Cases.sound (tag : String) : Cases → Bool
  | .nil => true
  | .cons _ _ members rest =>
    decide (tag :: members.names).Nodup && members.sound && rest.sound tag

end

/-! ## Records under construction -/

/-- The members of a record of which those with the given names have been read. -/
def Members.reached (names : List String) : (m : Members) → m.Vals → m.Slots
  | .nil, _ => ()
  | .cons name _ _ rest, (v, vs) => (if name ∈ names then some v else none, rest.reached names vs)

@[simp] theorem Members.reached_nil : (m : Members) → (vs : m.Vals) → m.reached [] vs = m.empty
  | .nil, _ => rfl
  | .cons _ _ _ rest, (_, vs) => by
    rw [reached, empty, rest.reached_nil vs]
    rfl

/-- A record without members has nothing to read. -/
theorem Members.reached_of_count_eq_zero {names : List String} :
    (m : Members) → m.count = 0 → ∀ vs, m.reached names vs = m.empty
  | .nil, _, _ => rfl
  | .cons _ _ _ rest, h, _ => absurd h (Nat.succ_ne_zero rest.count)

/-- Reading what is no member changes nothing. -/
theorem Members.reached_append_of_notMem {names : List String} {key : String} :
    (m : Members) → (vs : m.Vals) → key ∉ m.names →
      m.reached (names ++ [key]) vs = m.reached names vs
  | .nil, _, _ => rfl
  | .cons name _ _ rest, (_, vs), hkey => by
    obtain ⟨hne, hrest⟩ := not_or.mp (List.mem_cons.not.mp hkey)
    rw [reached, reached, rest.reached_append_of_notMem vs hrest]
    simp [Ne.symm hne]
    rfl

/-- A name stands among entries if some entry has it. -/
theorem mem_map_fst_iff {es : List (String × Buffered)} {name : String} :
    name ∈ es.map Prod.fst ↔ es.filter (·.1 = name) ≠ [] := by
  simp [List.filter_eq_nil_iff]

/-- An entry that stands alone under its name has no other one before it. -/
theorem notMem_of_filter_eq_singleton {before after : List (String × Buffered)} {name : String}
    {b b' : Buffered}
    (h : (before ++ (name, b) :: after).filter (·.1 = name) = [(name, b')]) :
    name ∉ before.map Prod.fst ∧ b' = b := by
  rw [List.filter_append, List.filter_cons_of_pos (by simp)] at h
  obtain ⟨hnil, hsingle⟩ | ⟨_, -, hnil⟩ := List.append_eq_singleton_iff.mp h
  · obtain ⟨hb, -⟩ := List.cons.inj hsingle
    exact ⟨mem_map_fst_iff.not_left.mpr hnil, (Prod.mk.inj hb).2.symm⟩

section

variable {name key : String} {required : Bool} {shape : Shape} {rest : Members} {v : shape.Val}
  {vs : rest.Vals}

/-- The entry of the first member has not been read before, and reading it fills its slot. -/
theorem Members.reached_append_self (hfresh : name ∉ rest.names)
    {before after : List (String × Buffered)} {b : Buffered}
    (h : (Members.cons name required shape rest).Represents (before ++ (name, b) :: after)
      (v, vs)) :
    shape.Represents b v ∧
      (Members.cons name required shape rest).reached (before.map Prod.fst) (v, vs) =
        (none, rest.reached (before.map Prod.fst) vs) ∧
      (Members.cons name required shape rest).reached (before.map Prod.fst ++ [name]) (v, vs) =
        (some v, rest.reached (before.map Prod.fst) vs) := by
  obtain ⟨⟨b', hfilter, hv⟩ | ⟨hfilter, -⟩, -⟩ := h
  · obtain ⟨hbefore, rfl⟩ := notMem_of_filter_eq_singleton hfilter
    rw [reached, reached, rest.reached_append_of_notMem vs hfresh, if_neg hbefore,
      if_pos (by simp)]
    exact ⟨hv, rfl, rfl⟩
  · simp at hfilter

/-- The entry of another member leaves the first slot as it is. -/
theorem Members.reached_append_of_ne (hkey : key ≠ name) (names : List String) :
    ∃ slot : Option shape.Val,
      (Members.cons name required shape rest).reached names (v, vs) =
        (slot, rest.reached names vs) ∧
      (Members.cons name required shape rest).reached (names ++ [key]) (v, vs) =
        (slot, rest.reached (names ++ [key]) vs) := by
  refine ⟨if name ∈ names then some v else none, rfl, ?_⟩
  rw [reached]
  simp only [List.mem_append, List.mem_singleton, Ne.symm hkey, or_false]
  rfl

end

/-- **A record is finished** when all entries that represent it have been read. -/
theorem Members.finish_reached {es : List (String × Buffered)} :
    (m : Members) → (vs : m.Vals) → m.Represents es vs →
      m.finish (m.reached (es.map Prod.fst) vs) = .ok vs
  | .nil, _, _ => rfl
  | .cons name required shape rest, (v, vs), ⟨hname, hrest⟩ => by
    have hvs := rest.finish_reached vs hrest
    rw [reached]
    obtain ⟨b, hfilter, -⟩ | ⟨hfilter, hdefault⟩ := hname
    · have hmem : name ∈ es.map Prod.fst := by
        simp [mem_map_fst_iff, hfilter]
      simp only [if_pos hmem, finish, hvs]
      rfl
    · have hmem : name ∉ es.map Prod.fst := by
        simp [mem_map_fst_iff, hfilter]
      simp only [if_neg hmem, finish, hdefault, hvs]
      rfl

/-! ## Reading -/

/-- A name without a position is none of the names. -/
theorem notMem_of_indexOf?_eq_none {name : String} {names : List String}
    (h : indexOf? name names = none) : name ∉ names := by
  induction names with
  | nil => exact List.not_mem_nil
  | cons n names ih =>
    unfold indexOf? at h
    split_ifs at h with hn
    exact List.not_mem_cons_of_ne_of_not_mem hn (ih (Option.map_eq_none_iff.mp h))

namespace Buffered

/-- Entries are read one after the other: `state` is what has been read of them so far. -/
theorem fillEntries_keyed {σ : Type} {names : List String}
    {fill : Nat → σ → Buffered → Except Mismatch σ} (state : List (String × Buffered) → σ)
    (done : List (String × Buffered)) {es : List (String × Buffered)}
    (hstep : ∀ before key b after, done ++ es = before ++ (key, b) :: after →
      (indexOf? key names = none → state (before ++ [(key, b)]) = state before) ∧
      ∀ i, indexOf? key names = some i →
        fill i (state before) b = .ok (state (before ++ [(key, b)]))) :
    fillEntries names fill (state done) (keyed es) = .ok (state (done ++ es)) := by
  induction es generalizing done with
  | nil => simp [fillEntries]
  | cons e es ih =>
    obtain ⟨key, b⟩ := e
    obtain ⟨hunknown, hknown⟩ := hstep done key b es rfl
    have htail := ih (done ++ [(key, b)]) (by simpa using hstep)
    rw [List.append_assoc] at htail
    rw [keyed_cons, fillEntries]
    simp only [memberPosition?, bind, ok_bind]
    cases hposition : indexOf? key names with
    | none =>
      rw [← hunknown hposition]
      exact htail
    | some i =>
      simp only [Option.map_some, hknown i hposition, ok_bind]
      exact htail

end Buffered

/-- Entries are told apart by their names when they are buffered. -/
theorem partition_keyed (tag : String) (es : List (String × Buffered)) :
    (keyed es).partition (fun entry => entry.1.found = .text tag) =
      (keyed (es.filter (·.1 = tag)), keyed (es.filter (·.1 ≠ tag))) := by
  simp [List.partition_eq_filter_filter, keyed, List.filter_map, Function.comp_def,
    Buffered.found]

/-- The entries of a record are read if each member is read from its entry. -/
theorem Members.fillEntries_keyed (m : Members) {es : List (String × Buffered)} {vs : m.Vals}
    (hfill : ∀ before key b after, es = before ++ (key, b) :: after →
      ∀ i, indexOf? key m.names = some i →
        m.fillAt i (m.reached (before.map Prod.fst) vs) b =
          .ok (m.reached (before.map Prod.fst ++ [key]) vs)) :
    Buffered.fillEntries m.names m.fillAt m.empty (keyed es) =
      .ok (m.reached (es.map Prod.fst) vs) := by
  rw [← m.reached_nil vs]
  refine Buffered.fillEntries_keyed (fun done => m.reached (done.map Prod.fst) vs) []
    fun before key b after hes => ⟨fun hkey => ?_, fun i hi => ?_⟩
  · rw [List.map_append]
    exact m.reached_append_of_notMem vs (notMem_of_indexOf?_eq_none hkey)
  · rw [List.map_append]
    exact hfill before key b after hes i hi

/-- A word is read from its value. -/
theorem Width.ofFound_unpack (w : Width) (v : (Shape.word w).Val) :
    w.ofFound (.unsigned (w.unpack v)) = .ok v := by
  simp [ofFound, ofInt, w.unpack_lt v]

mutual

/-- **What represents a value is read as this value.** -/
theorem Shape.ofBuffered_of_represents :
    (s : Shape) → s.sound = true → ∀ {b v}, s.Represents b v → s.ofBuffered b = .ok v
  | .word w, _, b, v, h => by
    cases h
    exact w.ofFound_unpack v
  | .truth _, _, b, v, h => by
    cases h
    rfl
  | .text, _, b, v, h => by
    cases h
    rfl
  | .choice first others, hsound, b, v, h => by
    cases h
    exact choose_chosen (of_decide_eq_true hsound) v
  | .list item, hsound, b, v, h => by
    obtain ⟨bs, rfl, hbs⟩ := h
    exact mapM_eq_ok_iff.mpr (hbs.imp fun _ _ => item.ofBuffered_of_represents hsound)
  | .optional item, hsound, b, v, h => by
    cases v with
    | none =>
      cases h
      rfl
    | some v =>
      obtain ⟨hb, h⟩ := h
      have hitem := item.ofBuffered_of_represents (Bool.and_eq_true_iff.mp hsound).2 h
      unfold Shape.ofBuffered
      rw [hitem]
      -- What is nothing would be read as no value.
      cases b with
      | nothing => exact absurd rfl hb
      | _ => rfl
  | .record name members, hsound, b, vs, h => by
    obtain ⟨es, rfl, hes⟩ := h
    obtain ⟨hnodup, hsound⟩ := Bool.and_eq_true_iff.mp hsound
    have hfill := members.fillEntries_keyed fun before key b after heq =>
      members.fillAt_reached heq (of_decide_eq_true hnodup) hsound hes
    unfold Shape.ofBuffered
    simp only [bind, hfill, ok_bind]
    exact members.finish_reached vs hes
  | .union name tag cases, hsound, b, v, h => by
    obtain ⟨es, rfl, hes⟩ := h
    obtain ⟨hnodup, hsound⟩ := Bool.and_eq_true_iff.mp hsound
    obtain ⟨chosen, -, htag, hcase⟩ :=
      cases.ofBuffered_of_represents name cases.names (of_decide_eq_true hnodup) hsound hes
    unfold Shape.ofBuffered
    simp only [partition_keyed, htag]
    exact hcase

/-- A member is read from its entry when those before it have been read. -/
theorem Members.fillAt_reached {es before after : List (String × Buffered)} {key : String}
    {b : Buffered} (hes : es = before ++ (key, b) :: after) :
    (m : Members) → m.names.Nodup → m.sound = true → ∀ {vs}, m.Represents es vs →
      ∀ i, indexOf? key m.names = some i →
        m.fillAt i (m.reached (before.map Prod.fst) vs) b =
          .ok (m.reached (before.map Prod.fst ++ [key]) vs)
  | .nil, _, _, _, _, i, _ => i.elim0
  | .cons name required shape rest, hnodup, hsound, (v, vs), h, i, hi => by
    obtain ⟨hfresh, hnodup⟩ := List.nodup_cons.mp hnodup
    simp only [Members.sound, Bool.and_eq_true] at hsound
    simp only [Members.names, indexOf?] at hi
    split_ifs at hi with hkey
    · subst hkey hes
      obtain rfl := Option.some.inj hi
      obtain ⟨hv, hbefore, hafter⟩ := Members.reached_append_self hfresh h
      rw [hbefore, hafter, Members.fillAt, shape.ofBuffered_of_represents hsound.1.2 hv]
      rfl
    · obtain ⟨j, hj, rfl⟩ := Option.map_eq_some_iff.mp hi
      obtain ⟨slot, hbefore, hafter⟩ := Members.reached_append_of_ne hkey (before.map Prod.fst)
      have hrest := rest.fillAt_reached hes hnodup hsound.2 h.2 j hj
      rw [hbefore, hafter]
      simp only [Members.fillAt, Fin.val_succ, hrest]
      rfl

/-- The case that a tag names is read from the other entries. -/
theorem Cases.ofBuffered_of_represents (name : String) (known : List String) {tag : String}
    {es : List (String × Buffered)} :
    (c : Cases) → c.names.Nodup → c.sound tag = true → ∀ {v}, c.Represents tag es v →
      ∃ chosen ∈ c.names, es.filter (·.1 = tag) = [(tag, .text chosen)] ∧
        c.ofBuffered name known chosen (.mapping (keyed (es.filter (·.1 ≠ tag)))) = .ok v
  | .nil, _, _, v, _ => nomatch v
  | .cons caseName label members rest, hnodup, hsound, .inl vs, ⟨htag, hmembers⟩ => by
    simp only [Cases.sound, Bool.and_eq_true, decide_eq_true_eq] at hsound
    obtain ⟨⟨hnames, hsound⟩, -⟩ := hsound
    have hfill := members.fillEntries_keyed fun before key b after heq =>
      members.fillAt_reached heq (List.nodup_cons.mp hnames).2 hsound hmembers
    have hfinish := members.finish_reached vs hmembers
    refine ⟨caseName, List.mem_cons_self, htag, ?_⟩
    unfold Cases.ofBuffered
    rw [if_pos rfl]
    -- A case without members does not look at the entries.
    by_cases hcount : members.count = 0
    · rw [members.reached_of_count_eq_zero hcount] at hfinish
      exact (if_pos hcount).trans (congrArg (Except.map Sum.inl) hfinish)
    · refine (if_neg hcount).trans ?_
      simp only [bind, hfill, ok_bind, hfinish]
      rfl
  | .cons caseName label members rest, hnodup, hsound, .inr v, h => by
    obtain ⟨hfresh, hnodup⟩ := List.nodup_cons.mp hnodup
    have hsound := (Bool.and_eq_true_iff.mp hsound).2
    obtain ⟨chosen, hchosen, htag, hcase⟩ :=
      rest.ofBuffered_of_represents name known hnodup hsound h
    refine ⟨chosen, List.mem_cons_of_mem _ hchosen, htag, ?_⟩
    unfold Cases.ofBuffered
    rw [if_neg (ne_of_mem_of_not_mem hchosen hfresh), hcase]
    rfl

end

end AliasReport.Document
