import AliasReport.Proofs.Yaml.Lexing
import AliasReport.Yaml.Graph

/-! # The entries of JSON text

The tokens of a value make up its entries: a scalar is one entry, and a collection is what it holds
between the entries of its brackets.

* **`Json.entries`** — the entries of a value.
* **`Event.entry?`** — the entry of an event without a name.
* **`Yields`** — what some goals make of tokens, as entries.
* **`Node`**, **`node_value`** — tokens that make up one node wherever it may stand.
* **`graph_compact`** — the graph of a whole text. -/

namespace AliasReport

open AliasReport.Number AliasReport.Yaml

namespace Json

mutual

/-- The entries of a value. -/
def entries : Json → List Entry
  | .null => [.scalar none .plain "null"]
  | .bool b => [.scalar none .plain (String.ofList (truthText b))]
  | .number n => [.scalar none .plain (String.ofList (decimal n))]
  | .text s => [.scalar none .doubleQuoted s]
  | .array items => .sequenceStart none :: itemEntries items ++ [.sequenceEnd]
  | .object members => .mappingStart none :: memberEntries members ++ [.mappingEnd]

/-- The entries of items. -/
def itemEntries : List Json → List Entry
  | [] => []
  | j :: items => entries j ++ itemEntries items

/-- The entries of members. -/
def memberEntries : List (String × Json) → List Entry
  | [] => []
  | (name, j) :: members => .scalar none .doubleQuoted name :: entries j ++ memberEntries members

end

end Json

namespace Yaml

/-- The entry of an event without a name. -/
def Event.entry? : Event → Option Entry
  | .scalar none tag style text => some (.scalar tag style text)
  | .sequenceStart none tag => some (.sequenceStart tag)
  | .sequenceEnd => some .sequenceEnd
  | .mappingStart none tag => some (.mappingStart tag)
  | .mappingEnd => some .mappingEnd
  | _ => none

/-! ## Goals -/

/-- **What some goals make of tokens**: entries, with other goals and other tokens left behind
them. -/
def Yields (shorthands : Shorthands) (goals : List Goal) (ts : List Token) (ns : List Entry)
    (goals' : List Goal) (ts' : List Token) : Prop :=
  ∃ es : List Event, es.map Event.entry? = ns.map some ∧
    ∀ fuel, runGoals shorthands (fuel + ns.length) goals ts =
      let rest := runGoals shorthands fuel goals' ts'
      ⟨es ++ rest.events, rest.whole⟩

section

variable {shorthands : Shorthands} {goals goals₁ goals' : List Goal} {goal : Goal}
  {ts ts₁ ts' : List Token} {ns ms : List Entry} {n : Entry} {e : Event}

/-- No entries are made of no tokens. -/
theorem Yields.nil : Yields shorthands goals ts [] goals ts :=
  ⟨[], rfl, fun _ => rfl⟩

/-- One step gives one entry. -/
theorem Yields.cons (hstep : step? shorthands goal goals ts = some (e, goals₁, ts₁))
    (he : e.entry? = some n) (h : Yields shorthands goals₁ ts₁ ms goals' ts') :
    Yields shorthands (goal :: goals) ts (n :: ms) goals' ts' := by
  obtain ⟨es, hes, hrun⟩ := h
  refine ⟨e :: es, by simp [he, hes], fun fuel => ?_⟩
  rw [List.length_cons, ← Nat.add_assoc, runGoals, hstep]
  simp [hrun]

/-- What goals make of tokens is put together from its parts. -/
theorem Yields.append (h : Yields shorthands goals ts ns goals₁ ts₁)
    (h' : Yields shorthands goals₁ ts₁ ms goals' ts') :
    Yields shorthands goals ts (ns ++ ms) goals' ts' := by
  obtain ⟨es, hes, hrun⟩ := h
  obtain ⟨es', hes', hrun'⟩ := h'
  refine ⟨es ++ es', by simp [hes, hes'], fun fuel => ?_⟩
  rw [List.length_append, Nat.add_comm ns.length, ← Nat.add_assoc, hrun, hrun']
  simp

end

/-! ## Nodes -/

/-- Tokens that begin a node of JSON text. -/
def Token.Opens : Token → Prop
  | .scalar _ _ => True
  | .flowSequenceStart => True
  | .flowMappingStart => True
  | _ => False

/-- **Tokens that make up a node**, wherever it may stand. They are no fewer than its entries. -/
structure Node (ts : List Token) (ns : List Entry) : Prop where
  count : ns.length ≤ ts.length
  opens : ∃ t us, ts = t :: us ∧ t.Opens
  read : ∀ (shorthands : Shorthands) (goals : List Goal) (rest : List Token),
    ∃ e n ms goals₁ us, ns = n :: ms ∧ e.entry? = some n ∧
      (∀ inBlock mayHang, readNode? shorthands inBlock mayHang goals (ts ++ rest) =
        some (e, goals₁, us)) ∧
      Yields shorthands goals₁ us ms goals rest

/-- A goal that asks for a node yields it. -/
theorem Node.yields {ts us : List Token} {ns : List Entry} (h : Node ts ns)
    {shorthands : Shorthands} {goal : Goal} {goals goals' : List Goal} {rest : List Token}
    (inBlock mayHang : Bool)
    (hstep : step? shorthands goal goals us =
      readNode? shorthands inBlock mayHang goals' (ts ++ rest)) :
    Yields shorthands (goal :: goals) us ns goals' rest := by
  obtain ⟨e, n, ms, goals₁, us, rfl, he, hread, hrest⟩ := h.read shorthands goals' rest
  exact .cons (hstep.trans (hread inBlock mayHang)) he hrest

/-- A scalar is a node. -/
theorem node_scalar (style : Style) (text : List Char) :
    Node [.scalar style text] [.scalar none style (String.ofList text)] where
  count := Nat.le_refl 1
  opens := ⟨_, _, rfl, trivial⟩
  read _ goals rest := ⟨.scalar none none style (String.ofList text), _, _, goals, rest, rfl, rfl,
    fun _ _ => rfl, .nil⟩

section

variable {shorthands : Shorthands} {goals : List Goal}

/-- The first item of a list is the node that its tokens make up. -/
theorem step?_firstItem {t : Token} (ht : t.Opens) (ts : List Token) :
    step? shorthands (.flowSequence true) goals (t :: ts) =
      readNode? shorthands false false (.flowSequence false :: goals) (t :: ts) := by
  cases t <;> first | exact ht.elim | rfl

/-- A further item of a list is the node behind a comma. -/
theorem step?_nextItem {t : Token} (ht : t.Opens) (ts : List Token) :
    step? shorthands (.flowSequence false) goals (.flowEntry :: t :: ts) =
      readNode? shorthands false false (.flowSequence false :: goals) (t :: ts) := by
  cases t <;> first | exact ht.elim | rfl

/-- The value of a member is the node behind a colon. -/
theorem step?_value {t : Token} (ht : t.Opens) (ts : List Token) :
    step? shorthands .flowMappingValue goals (.value :: t :: ts) =
      readNode? shorthands false false (.flowMapping false :: goals) (t :: ts) := by
  cases t <;> first | exact ht.elim | rfl

/-! ## Collections -/

variable {α : Type} {f : α → List Token} {g : α → List Entry}

/-- The tokens of several texts, each behind a comma. -/
def behindCommas (f : α → List Token) (as : List α) : List Token :=
  as.flatMap fun a => .flowEntry :: f a

/-- The tokens of several texts are those of the first and the others behind commas. -/
theorem separatedTokens_cons (a : α) (as : List α) :
    Json.separatedTokens f (a :: as) = f a ++ behindCommas f as := by
  induction as generalizing a with
  | nil => exact (List.append_nil _).symm
  | cons b as ih =>
    rw [Json.separatedTokens, ih b]
    rfl

/-- There are no more entries than tokens. -/
theorem length_flatMap_le (as : List α) (h : ∀ a ∈ as, (g a).length ≤ (f a).length) :
    (as.flatMap g).length ≤ (Json.separatedTokens f as).length := by
  have hnext (as : List α) (h : ∀ a ∈ as, (g a).length ≤ (f a).length) :
      (as.flatMap g).length ≤ (behindCommas f as).length := by
    induction as with
    | nil => exact Nat.le_refl 0
    | cons a as ih =>
      obtain ⟨ha, has⟩ := List.forall_mem_cons.mp h
      have hcounts := ih has
      simp only [behindCommas, List.flatMap_cons, List.length_append, List.length_cons] at hcounts ⊢
      omega
  cases as with
  | nil => exact Nat.le_refl 0
  | cons a as =>
    obtain ⟨ha, has⟩ := List.forall_mem_cons.mp h
    rw [separatedTokens_cons, List.flatMap_cons, List.length_append, List.length_append]
    exact Nat.add_le_add ha (hnext as has)

/-- Items behind commas, up to the end of a list. -/
theorem yields_nextItems (as : List α) (h : ∀ a ∈ as, Node (f a) (g a)) (rest : List Token) :
    Yields shorthands (.flowSequence false :: goals) (behindCommas f as ++ .flowSequenceEnd :: rest)
      (as.flatMap g ++ [.sequenceEnd]) goals rest := by
  induction as with
  | nil => exact .cons rfl rfl .nil
  | cons a as ih =>
    obtain ⟨ha, has⟩ := List.forall_mem_cons.mp h
    obtain ⟨t, us, hts, ht⟩ := ha.opens
    rw [behindCommas, List.flatMap_cons, List.flatMap_cons, List.append_assoc, List.append_assoc]
    refine Yields.append (ha.yields false false ?_) (ih has)
    rw [hts]
    exact step?_nextItem ht _

/-- Items with commas between them, up to the end of a list. -/
theorem yields_items (as : List α) (h : ∀ a ∈ as, Node (f a) (g a)) (rest : List Token) :
    Yields shorthands (.flowSequence true :: goals)
      (Json.separatedTokens f as ++ .flowSequenceEnd :: rest) (as.flatMap g ++ [.sequenceEnd])
      goals rest := by
  cases as with
  | nil => exact .cons rfl rfl .nil
  | cons a as =>
    obtain ⟨ha, has⟩ := List.forall_mem_cons.mp h
    obtain ⟨t, us, hts, ht⟩ := ha.opens
    rw [separatedTokens_cons, List.flatMap_cons, List.append_assoc, List.append_assoc]
    refine Yields.append (ha.yields false false ?_)
      (yields_nextItems as has rest)
    rw [hts]
    exact step?_firstItem ht _

/-- **A list** in brackets is a node. -/
theorem node_list (as : List α) (h : ∀ a ∈ as, Node (f a) (g a)) :
    Node (.flowSequenceStart :: Json.separatedTokens f as ++ [.flowSequenceEnd])
      (.sequenceStart none :: as.flatMap g ++ [.sequenceEnd]) where
  count := by
    have hcount := length_flatMap_le as fun a ha => (h a ha).count
    simp only [List.length_append, List.length_cons]
    omega
  opens := ⟨_, _, rfl, trivial⟩
  read shorthands goals rest := by
    rw [List.append_assoc]
    exact ⟨_, _, _, _, _, rfl, rfl, fun _ _ => rfl, yields_items as h rest⟩

/-! ## Objects -/

variable {members : List (String × Json)}

/-- The entries of a member. -/
def memberEntry (m : String × Json) : List Entry :=
  .scalar none .doubleQuoted m.1 :: m.2.entries

/-- The key of the first member is a scalar; its value comes next. -/
theorem step?_firstKey (name : String) (ts : List Token) :
    step? shorthands (.flowMapping true) goals (Json.keyTokens name ++ ts) =
      some (.scalar none none .doubleQuoted name, .flowMappingValue :: goals, .value :: ts) := by
  have hstep : step? shorthands (.flowMapping true) goals (Json.keyTokens name ++ ts) =
      some (.scalar none none .doubleQuoted (String.ofList name.toList), .flowMappingValue :: goals,
        .value :: ts) := rfl
  rw [hstep, String.ofList_toList]

/-- The key of a further member is a scalar behind a comma; its value comes next. -/
theorem step?_nextKey (name : String) (ts : List Token) :
    step? shorthands (.flowMapping false) goals (.flowEntry :: Json.keyTokens name ++ ts) =
      some (.scalar none none .doubleQuoted name, .flowMappingValue :: goals, .value :: ts) :=
  step?_firstKey name ts

/-- A member: its key and its value. -/
theorem yields_member {m : String × Json} (h : Node m.2.tokens m.2.entries) {goal : Goal}
    {ts : List Token} {rest : List Token}
    (hstep : step? shorthands goal goals ts = some (.scalar none none .doubleQuoted m.1,
      .flowMappingValue :: goals, .value :: (m.2.tokens ++ rest))) :
    Yields shorthands (goal :: goals) ts (memberEntry m) (.flowMapping false :: goals) rest := by
  obtain ⟨t, us, hts, ht⟩ := h.opens
  refine .cons hstep rfl (h.yields false false ?_)
  rw [hts]
  exact step?_value ht _

/-- Members behind commas, up to the end of an object. -/
theorem yields_nextMembers (members : List (String × Json))
    (h : ∀ m ∈ members, Node m.2.tokens m.2.entries) (rest : List Token) :
    Yields shorthands (.flowMapping false :: goals)
      (behindCommas Json.memberToken members ++ .flowMappingEnd :: rest)
      (members.flatMap memberEntry ++ [.mappingEnd]) goals rest := by
  induction members with
  | nil => exact .cons rfl rfl .nil
  | cons m members ih =>
    obtain ⟨hm, hmembers⟩ := List.forall_mem_cons.mp h
    rw [behindCommas, List.flatMap_cons, List.flatMap_cons, List.append_assoc, List.append_assoc]
    exact Yields.append (yields_member hm (step?_nextKey m.1 _)) (ih hmembers)

/-- Members with commas between them, up to the end of an object. -/
theorem yields_members (members : List (String × Json))
    (h : ∀ m ∈ members, Node m.2.tokens m.2.entries) (rest : List Token) :
    Yields shorthands (.flowMapping true :: goals)
      (Json.separatedTokens Json.memberToken members ++ .flowMappingEnd :: rest)
      (members.flatMap memberEntry ++ [.mappingEnd]) goals rest := by
  cases members with
  | nil => exact .cons rfl rfl .nil
  | cons m members =>
    obtain ⟨hm, hmembers⟩ := List.forall_mem_cons.mp h
    rw [separatedTokens_cons, List.flatMap_cons, List.append_assoc, List.append_assoc]
    exact Yields.append (yields_member hm (step?_firstKey m.1 _))
      (yields_nextMembers members hmembers rest)

/-- **An object** in brackets is a node. -/
theorem node_object (members : List (String × Json))
    (h : ∀ m ∈ members, Node m.2.tokens m.2.entries) :
    Node (.flowMappingStart :: Json.separatedTokens Json.memberToken members ++ [.flowMappingEnd])
      (.mappingStart none :: members.flatMap memberEntry ++ [.mappingEnd]) where
  count := by
    have hcount := length_flatMap_le (f := Json.memberToken) (g := memberEntry) members fun m hm =>
      Nat.succ_le_succ (Nat.le_add_right_of_le (Nat.le_add_right_of_le (h m hm).count))
    simp only [List.length_append, List.length_cons]
    omega
  opens := ⟨_, _, rfl, trivial⟩
  read shorthands goals rest := by
    rw [List.append_assoc]
    exact ⟨_, _, _, _, _, rfl, rfl, fun _ _ => rfl, yields_members members h rest⟩

end

/-! ## Values -/

/-- The entries of items are those of one item after the other. -/
theorem itemEntries_eq_flatMap (items : List Json) :
    Json.itemEntries items = items.flatMap Json.entries := by
  induction items with
  | nil => rfl
  | cons j items ih => rw [Json.itemEntries, ih, List.flatMap_cons]

/-- The entries of members are those of one member after the other. -/
theorem memberEntries_eq_flatMap (members : List (String × Json)) :
    Json.memberEntries members = members.flatMap memberEntry := by
  induction members with
  | nil => rfl
  | cons m members ih => rw [Json.memberEntries, ih, List.flatMap_cons]; rfl

/-- **The tokens of a value** make up a node. -/
theorem node_value {j : Json} (h : j.Portable) : Node j.tokens j.entries := by
  induction h with
  | null => exact node_scalar .plain "null".toList
  | @bool b => exact node_scalar .plain (Json.truthText b)
  | @number n => exact node_scalar .plain (decimal n)
  | @text s _ =>
    have hnode := node_scalar .doubleQuoted s.toList
    rwa [String.ofList_toList] at hnode
  | @array items _ ih =>
    rw [Json.tokens, Json.entries, Json.itemTokens_eq_separated, itemEntries_eq_flatMap]
    exact node_list items ih
  | @object members _ _ ih =>
    rw [Json.tokens, Json.entries, Json.memberTokens_eq_separated, memberEntries_eq_flatMap]
    exact node_object members ih

/-! ## Whole texts -/

/-- An event without a name is an entry. -/
theorem resolveFrom_cons {e : Event} {n : Entry} (he : e.entry? = some n) (whole : Bool) (place : ℕ)
    (a : Anchors) (es : List Event) :
    Graph.resolveFrom whole place a (e :: es) =
      let rest := Graph.resolveFrom whole (place + 1) a es
      { rest with entries := n :: rest.entries } := by
  rcases e with ⟨_ | _, _, _, _⟩ | _ | ⟨_ | _, _⟩ | _ | ⟨_ | _, _⟩ | _ <;> cases he <;> rfl

/-- Events without names are resolved to their own entries, one by one. -/
theorem resolveFrom_of_entries {es : List Event} {ns : List Entry}
    (h : es.map Event.entry? = ns.map some) (whole : Bool) (place : ℕ) (a : Anchors) :
    Graph.resolveFrom whole place a es = ⟨ns, a.places, whole⟩ := by
  induction es generalizing ns place with
  | nil =>
    obtain rfl := List.map_eq_nil_iff.mp h.symm
    rfl
  | cons e es ih =>
    cases ns with
    | nil => cases h
    | cons n ns =>
      obtain ⟨he, hes⟩ := List.cons.inj h
      rw [resolveFrom_cons he, ih hes]

/-- Text that begins with a node is a document without directives. -/
theorem ofTokens_of_opens {t : Token} (ht : t.Opens) (us : List Token) :
    Stream.ofTokens (t :: us) =
      runGoals commonShorthands (4 * ((t :: us).length + 2)) [.node] (t :: us) := by
  cases t <;> first | exact ht.elim | rfl

/-- **The graph of a value** in compact form: its entries, and no names. -/
theorem graph_compact {j : Json} (h : j.Portable) (hj : j.IsCollection) :
    Graph.ofStream (.ofText j.compact) = ⟨j.entries, [], true⟩ := by
  have hnode := node_value h
  have hcount : j.entries.length ≤ j.tokens.length := hnode.count
  obtain ⟨t, us, hts, ht⟩ := hnode.opens
  have hstep : step? commonShorthands .node [] (j.tokens ++ [.streamEnd]) =
      readNode? commonShorthands true false [] (j.tokens ++ [.streamEnd]) := by
    rw [hts]
    rfl
  obtain ⟨es, hes, hrun⟩ := hnode.yields true false hstep
  obtain ⟨fuel, hfuel⟩ : ∃ fuel, 4 * ((j.tokens ++ [Token.streamEnd]).length + 2) =
      fuel + j.entries.length := by
    refine Nat.exists_eq_add_of_le' (hcount.trans ?_)
    rw [List.length_append]
    omega
  have hstream : Stream.ofText j.compact = ⟨es, true⟩ := by
    have hopens := ofTokens_of_opens ht (us ++ [.streamEnd])
    rw [← List.cons_append, ← hts, hfuel, hrun] at hopens
    unfold Stream.ofText
    rw [tokens_compact h hj, hopens]
    simp [runGoals, endsText]
  rw [hstream]
  exact resolveFrom_of_entries hes true 0 .empty

end Yaml

end AliasReport
