import AliasReport.Proofs.Document.Entries
import AliasReport.Proofs.Document.Places

/-! # Words in buffered values

A buffered value with a hole is read as far as to the hole, and from there on, whatever stands in
it. Where a word is asked for, another scalar in the hole means another word at the end of the path,
or a mismatch.

* **`Hole`** — buffered values around a place.
* **`Width.wordOf?`** — the word that a scalar stands for.
* **`Shape.ofBuffered_hole`** — a value of a shape with another scalar in it. -/

namespace AliasReport.Document

/-- **A buffered value around a place**, as a function of what stands there. -/
inductive Hole : List Selector → (Buffered → Buffered) → Prop
  | here : Hole [] id
  | item {path : List Selector} {f : Buffered → Buffered} (before after : List Buffered)
      (h : Hole path f) :
      Hole (.item before.length :: path) fun x => .sequence (before ++ f x :: after)
  | member {path : List Selector} {f : Buffered → Buffered}
      (before after : List (Buffered × Buffered)) (key : String) (h : Hole path f) :
      Hole (.member key :: path) fun x => .mapping (before ++ (.text key, f x) :: after)

/-- What is around something is something. -/
theorem Hole.ne_nothing {path : List Selector} {f : Buffered → Buffered} (h : Hole path f)
    {x : Buffered} (hx : x ≠ .nothing) : f x ≠ .nothing := by
  cases h with
  | here => exact hx
  | item => nofun
  | member => nofun

/-- The word that a scalar stands for, if it has the right width. -/
def Width.wordOf? (w : Width) (found : Found) : Option Nat :=
  (w.ofFound found).toOption.map w.unpack

/-- Something is read as an option where it is read at all. -/
theorem Shape.ofBuffered_optional {item : Shape} {b : Buffered} (hb : b ≠ .nothing) :
    (Shape.optional item).ofBuffered b = (item.ofBuffered b).map some := by
  cases b with
  | nothing => exact absurd rfl hb
  | _ => rfl

section

variable {w : Width} {k : Nat} {path : List Selector} {f : Buffered → Buffered} {x x₀ : Buffered}

/-! ## Records -/

/-- A member that has been read is filled. -/
theorem Members.filled?_of_fillAt {b : Buffered} (path : List Selector) :
    (m : Members) → ∀ {i slots slots'}, i < m.names.length → m.fillAt i slots b = .ok slots' →
      ∃ o, m.filled? i path slots' = some o
  | .nil, i, slots, slots', hi, h => absurd hi (Nat.not_lt_zero i)
  | .cons name required shape rest, 0, (slot, slots), slots', hi, h => by
    cases slot with
    | some v => cases h
    | none =>
      obtain ⟨v, -, rfl⟩ := map_eq_ok_iff.mp h
      exact ⟨_, rfl⟩
  | .cons name required shape rest, i + 1, (slot, slots), slots', hi, h => by
    obtain ⟨_, hrest, rfl⟩ := map_eq_ok_iff.mp h
    exact rest.filled?_of_fillAt path (Nat.lt_of_succ_lt_succ hi) hrest

/-- Entries behind that of a member do not look at the words in it. -/
theorem Members.fillEntries_setSlot {m : Members} {i n : Nat} {o : Option (Width × Nat)}
    {entries : List (Buffered × Buffered)} {slots slots' : m.Slots}
    (h : m.filled? i path slots = some o)
    (hfill : Buffered.fillEntries m.names m.fillAt slots entries = .ok slots') :
    m.filled? i path slots' = some o ∧
      Buffered.fillEntries m.names m.fillAt (m.setSlot i path n slots) entries =
        .ok (m.setSlot i path n slots') := by
  -- The slots change from entry to entry, but the slot of the member stays filled.
  induction entries generalizing slots with
  | nil =>
    obtain rfl := Except.ok.inj hfill
    exact ⟨h, rfl⟩
  | cons entry entries ih =>
    obtain ⟨key, b⟩ := entry
    rw [Buffered.fillEntries] at hfill ⊢
    cases hkey : key.memberPosition? m.names with
    | error err =>
      rw [hkey] at hfill
      cases hfill
    | ok position =>
      simp only [hkey, bind, ok_bind] at hfill ⊢
      cases position with
      | none => exact ih h hfill
      | some j =>
        obtain ⟨mid, hmid, hfill⟩ := bind_eq_ok_iff.mp hfill
        obtain ⟨hfilled, hset⟩ := m.fillAt_setSlot h hmid
        obtain ⟨hfilled, hrest⟩ := ih hfilled hfill
        exact ⟨hfilled, bind_eq_ok_iff.mpr ⟨_, hset, hrest⟩⟩

/-- The case of a union that is an object is read from what is beside the tag. -/
theorem Cases.ofBuffered_mapping {name label caseName : String} {known : List String}
    {members : Members} (hcount : members.count ≠ 0) {rest : Cases}
    {entries : List (Buffered × Buffered)} :
    (Cases.cons caseName label members rest).ofBuffered name known caseName (.mapping entries) =
      ((Buffered.fillEntries members.names members.fillAt members.empty entries).bind
        members.finish).map .inl := by
  refine (if_pos rfl).trans ((if_neg hcount).trans ?_)
  cases Buffered.fillEntries members.names members.fillAt members.empty entries with
  | error err => rfl
  | ok slots => exact bind_ok_eq_map (members.finish slots) _

/-- A path into a record goes on from the member that its first step leads to. -/
theorem Members.setWord_at (m : Members) {step : Selector} {i n : Nat}
    (hi : step.position? m.names = some i) (vs : m.Vals) :
    ((step.position? m.names).elim vs fun i => m.setWord i path n vs) = m.setWord i path n vs := by
  rw [hi]
  rfl

/-- **An object of a record** with another scalar in one of its members. -/
theorem Members.ofMapping_hole {m : Members}
    (hfill : ∀ {i slots slots'}, m.fillAt i slots (f x₀) = .ok slots' →
      m.filled? i path slots' = some (some (w, k)) →
        (m.fillAt i slots (f x)).toOption =
          (w.wordOf? x.found).map fun n => m.setSlot i path n slots')
    {key : String} {i : Nat} (hi : (Selector.member key).position? m.names = some i)
    {before after : List (Buffered × Buffered)} {vs : m.Vals}
    (h : (Buffered.fillEntries m.names m.fillAt m.empty
      (before ++ (.text key, f x₀) :: after)).bind m.finish = .ok vs)
    (hw : m.wordAt? i path vs = some (w, k)) :
    ((Buffered.fillEntries m.names m.fillAt m.empty
      (before ++ (.text key, f x) :: after)).bind m.finish).toOption =
        (w.wordOf? x.found).map fun n => m.setWord i path n vs := by
  have hlt : i < m.names.length := by
    obtain ⟨j, -, rfl⟩ := Option.map_eq_some_iff.mp hi
    exact j.isLt
  rw [Buffered.fillEntries_append] at h ⊢
  obtain ⟨slots', h, hfinish⟩ := bind_eq_ok_iff.mp h
  obtain ⟨slots, hbefore, h⟩ := bind_eq_ok_iff.mp h
  rw [Buffered.fillEntries_cons hi] at h
  obtain ⟨mid, hmid, hafter⟩ := bind_eq_ok_iff.mp h
  obtain ⟨o, ho⟩ := m.filled?_of_fillAt path hlt hmid
  -- What is read behind the member carries another word through to the end.
  have hset := fun n => (m.fillEntries_setSlot (n := n) ho hafter)
  have hend := fun n => (m.finish_setSlot (n := n) (hset 0).1 hfinish)
  obtain rfl : o = some (w, k) := (hend 0).1.symm.trans hw
  rw [hbefore, ok_bind, Buffered.fillEntries_cons hi]
  exact toOption_bind_of_forall (toOption_bind_of_forall (hfill hmid ho) fun n => (hset n).2)
    fun n => (hend n).2

/-! ## Lists and unions -/

/-- **A list** with another scalar in one of its items. -/
theorem Shape.ofBuffered_list_hole {item : Shape}
    (hitem : ∀ {v}, item.ofBuffered (f x₀) = .ok v → item.wordAt? path v = some (w, k) →
      (item.ofBuffered (f x)).toOption =
        (w.wordOf? x.found).map fun n => item.setWord path n v)
    {before after : List Buffered} {vs : List item.Val}
    (h : (Shape.list item).ofBuffered (.sequence (before ++ f x₀ :: after)) = .ok vs)
    (hw : (Shape.list item).wordAt? (.item before.length :: path) vs = some (w, k)) :
    ((Shape.list item).ofBuffered (.sequence (before ++ f x :: after))).toOption =
      (w.wordOf? x.found).map fun n =>
        (Shape.list item).setWord (.item before.length :: path) n vs := by
  change (List.mapM item.ofBuffered _) = _ at h
  rw [mapM_append_cons] at h
  obtain ⟨us, hbefore, h⟩ := bind_eq_ok_iff.mp h
  obtain ⟨v, hv, h⟩ := bind_eq_ok_iff.mp h
  obtain ⟨vs, hafter, rfl⟩ := map_eq_ok_iff.mp h
  -- The items in front are as many as the values read from them, so the path leads to the hole.
  have hlen : before.length = us.length := (mapM_eq_ok_iff.mp hbefore).length_eq
  rw [hlen, Shape.wordAt?_list] at hw
  change (List.mapM item.ofBuffered _).toOption = _
  rw [mapM_append_cons, hbefore, ok_bind, hlen]
  refine toOption_bind_of_forall (hitem hv hw) fun n => ?_
  rw [hafter, Shape.setWord_list]
  rfl

/-- **A union that is an object** with another scalar beside its tag. -/
theorem Shape.ofBuffered_union_hole {name tag key : String} {cases : Cases}
    (hcases : ∀ {chosen before after v},
      cases.ofBuffered name cases.names chosen (.mapping (before ++ (.text key, f x₀) :: after)) =
        .ok v → cases.wordAt? (.member key) path v = some (w, k) →
      (cases.ofBuffered name cases.names chosen
        (.mapping (before ++ (.text key, f x) :: after))).toOption =
          (w.wordOf? x.found).map fun n => cases.setWord (.member key) path n v)
    {before after : List (Buffered × Buffered)} {v : cases.Val}
    (h : (Shape.union name tag cases).ofBuffered
      (.mapping (before ++ (.text key, f x₀) :: after)) = .ok v)
    (hw : (Shape.union name tag cases).wordAt? (.member key :: path) v = some (w, k)) :
    ((Shape.union name tag cases).ofBuffered
      (.mapping (before ++ (.text key, f x) :: after))).toOption =
        (w.wordOf? x.found).map fun n =>
          (Shape.union name tag cases).setWord (.member key :: path) n v := by
  obtain ⟨step, hstep, hw⟩ := Option.bind_eq_some_iff.mp hw
  have hkey : key ≠ tag := by
    -- The tag is no word.
    rintro rfl
    rw [Selector.past, if_pos rfl] at hstep
    cases hstep
  have hpast : (Selector.member key).past tag = some (.member key) := if_neg hkey
  have hset : ∀ n, (Shape.union name tag cases).setWord (.member key :: path) n v =
      cases.setWord (.member key) path n v := fun n => by
    change ((Selector.member key).past tag).elim v (fun step => cases.setWord step path n v) = _
    rw [hpast]
    rfl
  obtain rfl := Option.some.inj (hpast.symm.trans hstep)
  obtain ⟨chosen, hunder, hv⟩ := Shape.ofBuffered_union_mapping_eq_ok_iff.mp h
  rw [entriesBeside_append_cons_of_ne hkey] at hv
  rw [entriesUnder_append_cons_of_ne hkey] at hunder
  simp only [hset]
  refine (toOption_congr fun v => ?_).trans (hcases hv hw)
  refine Shape.ofBuffered_union_mapping_eq_ok_iff.trans ?_
  rw [entriesUnder_append_cons_of_ne hkey, entriesBeside_append_cons_of_ne hkey]
  refine ⟨?_, fun hv => ⟨chosen, hunder, hv⟩⟩
  rintro ⟨_, hchosen, hv⟩
  cases hunder.symm.trans hchosen
  exact hv

end

/-! ## Values -/

mutual

/-- **Another scalar in a hole** is another word at the end of the path, or a mismatch. -/
theorem Shape.ofBuffered_hole {w : Width} {k : Nat} {x x₀ : Buffered} (hx : x ≠ .nothing) :
    (s : Shape) → ∀ {path f v}, Hole path f → s.ofBuffered (f x₀) = .ok v →
      s.wordAt? path v = some (w, k) →
        (s.ofBuffered (f x)).toOption =
          (w.wordOf? x.found).map fun n => s.setWord path n v
  | .word w', path, f, v, hole, h, hw => by
    cases hole with
    | here =>
      obtain ⟨rfl, -⟩ := Prod.mk.inj (Option.some.inj hw)
      change (w'.ofFound x.found).toOption = (w'.wordOf? x.found).map w'.pack
      cases hword : w'.ofFound x.found <;> simp [Width.wordOf?, hword, Except.toOption]
    | item => cases hw
    | member => cases hw
  | .truth _, path, f, v, hole, h, hw => by cases path <;> cases hw
  | .text, path, f, v, hole, h, hw => by cases path <;> cases hw
  | .choice _ _, path, f, v, hole, h, hw => by cases path <;> cases hw
  | .list item, path, f, vs, hole, h, hw => by
    cases hole with
    | here => cases hw
    | item before after hole =>
      exact Shape.ofBuffered_list_hole (item.ofBuffered_hole hx hole) h hw
    | member => cases hw
  | .optional item, path, f, v, hole, h, hw => by
    -- An option around the hole is not nothing, since it has a word.
    cases hnothing : f x₀ with
    | nothing =>
      rw [hnothing] at h
      cases h
      cases hw
    | _ =>
      have hsome : f x₀ ≠ .nothing := hnothing ▸ nofun
      rw [Shape.ofBuffered_optional hsome] at h
      obtain ⟨v, hv, rfl⟩ := map_eq_ok_iff.mp h
      rw [Shape.ofBuffered_optional (hole.ne_nothing hx)]
      exact toOption_map_of (item.ofBuffered_hole hx hole hv hw) some
  | .record name members, path, f, vs, hole, h, hw => by
    cases hole with
    | here => cases hw
    | item before after hole => exact members.ofItems_hole hx hole h hw
    | member before after key hole =>
      obtain ⟨i, hi, hw⟩ := Option.bind_eq_some_iff.mp hw
      have hset := Members.ofMapping_hole (members.fillAt_hole hx hole) hi h hw
      exact hset.trans (congrArg (Option.map · _) (funext fun n => (members.setWord_at hi vs).symm))
  | .union name tag cases, path, f, v, hole, h, hw => by
    cases hole with
    | here => cases hw
    | item before after hole =>
      -- The tag comes first and is no word.
      cases before with
      | nil => cases hw
      | cons b before =>
        obtain ⟨chosen, _, heq, hv⟩ := Shape.ofBuffered_union_sequence_eq_ok_iff.mp h
        obtain ⟨rfl, rfl⟩ := List.cons.inj heq
        refine (toOption_congr fun v => ?_).trans
          (cases.ofBuffered_hole hx (.item before after hole) hv hw)
        exact Iff.rfl
    | member before after key hole =>
      exact Shape.ofBuffered_union_hole
        (fun hv hw => cases.ofBuffered_hole hx (.member _ _ key hole) hv hw) h hw

/-- The word in a member that is read from around a place is the one at the place. -/
theorem Members.fillAt_hole {w : Width} {k : Nat} {x x₀ : Buffered} (hx : x ≠ .nothing) {path f}
    (hole : Hole path f) :
    (m : Members) → ∀ {i slots slots'}, m.fillAt i slots (f x₀) = .ok slots' →
      m.filled? i path slots' = some (some (w, k)) →
        (m.fillAt i slots (f x)).toOption =
          (w.wordOf? x.found).map fun n => m.setSlot i path n slots'
  | .nil, i, slots, slots', h, hw => by cases hw
  | .cons name required shape rest, 0, (slot, slots), slots', h, hw => by
    cases slot with
    | some v => cases h
    | none =>
      obtain ⟨v, hv, rfl⟩ := map_eq_ok_iff.mp h
      have hw : shape.wordAt? path v = some (w, k) := Option.some.inj hw
      exact toOption_map_of (shape.ofBuffered_hole hx hole hv hw) fun v => (some v, slots)
  | .cons name required shape rest, i + 1, (slot, slots), slots', h, hw => by
    obtain ⟨slots', hrest, rfl⟩ := map_eq_ok_iff.mp h
    exact toOption_map_of (rest.fillAt_hole hx hole hrest hw) (slot, ·)

/-- The same if the members are read from a list, in their order. -/
theorem Members.ofItems_hole {w : Width} {k : Nat} {x x₀ : Buffered} (hx : x ≠ .nothing) {path f}
    (hole : Hole path f) {wanted : Wanted} {after : List Buffered} :
    (m : Members) → ∀ {taken before vs}, m.ofItems wanted taken (before ++ f x₀ :: after) = .ok vs →
      m.wordAt? before.length path vs = some (w, k) →
        (m.ofItems wanted taken (before ++ f x :: after)).toOption =
          (w.wordOf? x.found).map fun n => m.setWord before.length path n vs
  | .nil, taken, before, vs, h, hw => by cases hw
  | .cons name required shape rest, taken, [], vs, h, hw => by
    obtain ⟨v, hv, h⟩ := bind_eq_ok_iff.mp h
    obtain ⟨vs, hvs, heq⟩ := bind_eq_ok_iff.mp h
    cases heq
    refine toOption_bind_of_forall (shape.ofBuffered_hole hx hole hv hw) fun n => ?_
    exact bind_eq_ok_iff.mpr ⟨vs, hvs, rfl⟩
  | .cons name required shape rest, taken, b :: before, vs, h, hw => by
    obtain ⟨v, hv, h⟩ := bind_eq_ok_iff.mp h
    obtain ⟨vs, hvs, heq⟩ := bind_eq_ok_iff.mp h
    cases heq
    have hrest := toOption_map_of (rest.ofItems_hole hx hole hvs hw) fun vs => (v, vs)
    rw [← bind_ok_eq_map] at hrest
    refine Eq.trans ?_ hrest
    change ((shape.ofBuffered b).bind _).toOption = _
    rw [hv]
    rfl

/-- The same if they are read as those of a case. -/
theorem Cases.ofBuffered_hole {w : Width} {k : Nat} {x x₀ : Buffered} (hx : x ≠ .nothing)
    {name chosen : String} {known : List String} :
    (c : Cases) → ∀ {step path f v}, Hole (step :: path) f →
      c.ofBuffered name known chosen (f x₀) = .ok v → c.wordAt? step path v = some (w, k) →
        (c.ofBuffered name known chosen (f x)).toOption =
          (w.wordOf? x.found).map fun n => c.setWord step path n v
  | .nil, step, path, f, v, hole, h, hw => v.elim
  | .cons caseName label members rest, step, path, f, v, hole, h, hw => by
    by_cases hchosen : chosen = caseName
    · subst hchosen
      cases hole with
      | item before after hole =>
        obtain ⟨vs, hvs, rfl⟩ := map_eq_ok_iff.mp ((if_pos rfl).symm.trans h)
        refine Eq.trans (congrArg Except.toOption (if_pos rfl)) ?_
        exact toOption_map_of (members.ofItems_hole hx hole hvs hw) Sum.inl
      | member before after key hole =>
        by_cases hcount : members.count = 0
        · -- A case without members has no word.
          have hcase : (members.finish members.empty).map Sum.inl = .ok v :=
            (if_pos hcount).symm.trans ((if_pos rfl).symm.trans h)
          obtain ⟨vs, -, rfl⟩ := map_eq_ok_iff.mp hcase
          cases members with
          | nil => cases hw
          | cons => cases hcount
        · rw [Cases.ofBuffered_mapping hcount] at h ⊢
          obtain ⟨vs, hvs, rfl⟩ := map_eq_ok_iff.mp h
          obtain ⟨i, hi, hw⟩ := Option.bind_eq_some_iff.mp hw
          have hset := Members.ofMapping_hole (members.fillAt_hole hx hole) hi hvs hw
          refine (toOption_map_of hset Sum.inl).trans
            (congrArg (Option.map · _) (funext fun n => ?_))
          exact congrArg Sum.inl (members.setWord_at hi vs).symm
    · obtain ⟨v, hv, rfl⟩ := map_eq_ok_iff.mp ((if_neg hchosen).symm.trans h)
      refine Eq.trans (congrArg Except.toOption (if_neg hchosen)) ?_
      exact toOption_map_of (rest.ofBuffered_hole hx hole hv hw) Sum.inr

end

end AliasReport.Document
