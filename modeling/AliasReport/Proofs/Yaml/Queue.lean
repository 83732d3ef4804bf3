import Mathlib.Data.Option.Basic
import Mathlib.Data.List.Basic
import AliasReport.Yaml.Token.Lexer

/-! # Tokens that wait

Tokens wait in a queue as long as a colon further on can put something in front of them. When they
leave it makes no difference to what is read behind them: the tokens of a text are those that are in
the queue at its end if nothing ever leaves it.

* **`Lexer.Pending`** — nothing can be put in front of tokens that have left the queue.
* **`Lexer.giveBack`** — a state with a token that has left the queue back in it.
* **`Lexer.Steady`** — steps that make no difference between the two.
* **`Lexer.next?_steady`** — the step over the next token is one of them.
* **`Lexer.Scan`**, **`Lexer.run_of_scan`** — steps from token to token, where there is no blank
  between them, and the tokens of a text that is read by such steps up to its end. -/

namespace AliasReport.Yaml

namespace Lexer

/-- A later colon may make a key of a candidate. -/
def Awaits (s : Lexer) (k : KeyCandidate) : Prop := some k ∈ s.candidate :: s.outer

/-- The candidates are the one of the innermost collection and those of the outer ones. -/
theorem awaits_iff {s : Lexer} {k : KeyCandidate} :
    s.Awaits k ↔ s.candidate = some k ∨ some k ∈ s.outer := by
  simp [Awaits, eq_comm]

/-- What some candidate satisfies is satisfied by one that is awaited. -/
theorem any_candidate_iff {s : Lexer} {p : KeyCandidate → Bool} :
    (s.candidate :: s.outer).any (·.any p) = true ↔ ∃ k, s.Awaits k ∧ p k = true := by
  simp only [List.any_eq_true, Option.any_eq_true, Awaits]
  constructor
  · rintro ⟨o, ho, k, rfl, hp⟩
    exact ⟨k, ho, hp⟩
  · rintro ⟨k, hk, hp⟩
    exact ⟨some k, hk, k, rfl, hp⟩

/-- Every candidate is still in the queue, or is about to enter it. -/
def Pending (s : Lexer) : Prop := ∀ k, s.Awaits k → s.given ≤ k.number

/-- A state with the last token that has been given out back in front of the queue. -/
def giveBack (t : Token) (s : Lexer) : Lexer :=
  { s with queue := t :: s.queue, given := s.given - 1 }

/-- **A steady step** keeps candidates in the queue, and makes no difference between tokens that
have been given out and those that have not. -/
structure Steady (f : Lexer → Option Lexer) : Prop where
  pending : ∀ {s s'}, s.Pending → f s = some s' → s'.Pending ∧ s'.given = s.given
  giveBack : ∀ {s} (t), s.Pending → 0 < s.given → f (s.giveBack t) = (f s).map (giveBack t)

/-! ## Putting steps together -/

section

variable {f g : Lexer → Option Lexer}

/-- Doing nothing is steady. -/
theorem Steady.some : Steady Option.some where
  pending h hs := Option.some.inj hs ▸ ⟨h, rfl⟩
  giveBack _ _ _ := rfl

/-- A step that always fails is steady. -/
theorem Steady.none : Steady fun _ => Option.none where
  pending _ hs := by cases hs
  giveBack _ _ _ := rfl

/-- One steady step after the other is steady. -/
theorem Steady.bind (hf : Steady f) (hg : Steady g) : Steady fun s => (f s).bind g where
  pending h hs := by
    obtain ⟨s₁, hs₁, hs⟩ := Option.bind_eq_some_iff.mp hs
    obtain ⟨h₁, hgiven₁⟩ := hf.pending h hs₁
    obtain ⟨h', hgiven⟩ := hg.pending h₁ hs
    exact ⟨h', hgiven.trans hgiven₁⟩
  giveBack t h hpos := by
    rw [hf.giveBack t h hpos]
    cases hs : f _ with
    | none => rfl
    | some s₁ =>
      obtain ⟨h₁, hgiven⟩ := hf.pending h hs
      exact hg.giveBack t h₁ (hgiven ▸ hpos)

/-- A choice between steady steps is steady if it does not look at the queue. -/
theorem Steady.ite {P : Lexer → Prop} [DecidablePred P] (hP : ∀ t s, P (s.giveBack t) ↔ P s)
    (hf : Steady f) (hg : Steady g) : Steady fun s => if P s then f s else g s where
  pending h hs := by
    split_ifs at hs
    · exact hf.pending h hs
    · exact hg.pending h hs
  giveBack t h hpos := by
    simp only [hP]
    split_ifs
    · exact hf.giveBack t h hpos
    · exact hg.giveBack t h hpos

/-- A step is steady if it is one of several steady steps, chosen by what does not depend on the
queue. -/
theorem Steady.choose {α : Type} {a : Lexer → α} (ha : ∀ t s, a (s.giveBack t) = a s)
    (h : ∀ x, ∃ g, Steady g ∧ ∀ s, a s = x → f s = g s) : Steady f where
  pending {s _} hs heq := by
    obtain ⟨g, hg, hfg⟩ := h (a s)
    exact hg.pending hs (hfg s rfl ▸ heq)
  giveBack {s} t hs hpos := by
    obtain ⟨g, hg, hfg⟩ := h (a s)
    rw [hfg s rfl, hfg (s.giveBack t) (ha t s)]
    -- The same step is chosen whether or not the token has been given out.
    exact hg.giveBack t hs hpos

/-- What is read of the text does not depend on the queue. -/
theorem Steady.read {α : Type} {r : Lexer → Option α} (hr : ∀ t s, r (s.giveBack t) = r s)
    {k : α → Lexer → Option Lexer} (hk : ∀ a, Steady (k a)) :
    Steady fun s => (r s).bind fun a => k a s where
  pending h hs := by
    obtain ⟨a, -, hs⟩ := Option.bind_eq_some_iff.mp hs
    exact (hk a).pending h hs
  giveBack t h hpos := by
    rw [hr]
    cases r _ with
    | none => rfl
    | some a => exact (hk a).giveBack t h hpos

end

/-- A step that cannot fail. -/
abbrev Always (h : Lexer → Lexer) : Prop := Steady fun s => Option.some (h s)

/-- A step that cannot fail is steady if it keeps candidates in the queue and the count as it is,
and can be done before or after a token is given back. -/
theorem always_of {h : Lexer → Lexer} (hpending : ∀ {s}, s.Pending → (h s).Pending)
    (hgiven : ∀ s, (h s).given = s.given)
    (hback : ∀ {s} (t), s.Pending → 0 < s.given → h (s.giveBack t) = (h s).giveBack t) :
    Always h where
  pending hs heq := by
    obtain rfl := Option.some.inj heq
    exact ⟨hpending hs, hgiven _⟩
  giveBack t hs hpos := congrArg Option.some (hback t hs hpos)

/-- A steady step behind one that cannot fail is steady. -/
theorem Steady.comp {f : Lexer → Option Lexer} {h : Lexer → Lexer} (hf : Steady f) (hh : Always h) :
    Steady fun s => f (h s) :=
  hh.bind hf

/-- Two steady steps that cannot fail make another one. -/
theorem Always.comp {g h : Lexer → Lexer} (hg : Always g) (hh : Always h) :
    Always fun s => g (h s) :=
  Steady.comp (f := fun s => Option.some (g s)) hg hh

/-- A steady step in front of one that cannot fail is steady. -/
theorem Steady.map {f : Lexer → Option Lexer} {h : Lexer → Lexer} (hf : Steady f) (hh : Always h) :
    Steady fun s => (f s).map h := by
  simp only [Option.map_eq_bind]
  exact hf.bind hh

/-! ## Updates -/

/-- What leaves the queue, the candidates and the count alone can be done before or after. -/
theorem always_of_view {h : Lexer → Lexer}
    (hview : ∀ s, (h s).candidate = s.candidate ∧ (h s).outer = s.outer ∧ (h s).given = s.given)
    (hback : ∀ t s, h (s.giveBack t) = (h s).giveBack t) : Always h := by
  refine always_of (fun {s} hs k hk => ?_) (fun s => (hview s).2.2) fun t _ _ => hback t _
  obtain ⟨hcandidate, houter, hgiven⟩ := hview s
  unfold Awaits at hk
  rw [hcandidate, houter] at hk
  exact hgiven ▸ hs k hk

/-- Putting a token behind the others is steady. -/
theorem push_always (t : Token) : Always (push · t) :=
  always_of_view (fun _ => ⟨rfl, rfl, rfl⟩) fun _ _ => rfl

/-- Moving on in the text is steady. -/
theorem goto_always (p : Cursor → Cursor) : Always fun s => s.goto (p s.cursor) :=
  always_of_view (fun _ => ⟨rfl, rfl, rfl⟩) fun _ _ => rfl

/-- Allowing a key or not is steady if the queue does not decide it. -/
theorem allowKey_always (allowed : Lexer → Bool)
    (hallowed : ∀ t s, allowed (s.giveBack t) = allowed s) :
    Always fun s => s.allowKey (allowed s) :=
  always_of_view (fun _ => ⟨rfl, rfl, rfl⟩) fun t s => by
    simp only [allowKey, hallowed]
    rfl

/-- Skipping up to the next token is steady. -/
theorem toToken_always : Always toToken :=
  always_of_view (fun _ => ⟨rfl, rfl, rfl⟩) fun _ _ => rfl

/-- Closing blocks up to a column is steady if the queue does not tell the column. -/
theorem closeBlocks_always (column : Lexer → Int)
    (hcolumn : ∀ t s, column (s.giveBack t) = column s) :
    Always fun s => s.closeBlocks (column s) := by
  refine always_of_view (fun s => ?_) fun t s => ?_
  · unfold closeBlocks
    split_ifs <;> exact ⟨rfl, rfl, rfl⟩
  · have hflow : (s.giveBack t).inFlow = s.inFlow := rfl
    simp only [hcolumn, closeBlocks, hflow]
    split_ifs <;> rfl

/-- What is put behind the token that was given back stays behind it. -/
theorem insert_giveBack {s : Lexer} {number : ℕ} (hnumber : s.given ≤ number) (hpos : 0 < s.given)
    (t u : Token) : (s.giveBack t).insert number u = (s.insert number u).giveBack t := by
  -- The place is counted from the front of the queue, where one token more stands.
  have hplace : number - (s.given - 1) = number - s.given + 1 := by omega
  simp only [insert, giveBack, hplace, List.take_succ_cons, List.drop_succ_cons, List.cons_append]

/-- The token of a block is put at the same place, whether or not one before it is given back. -/
theorem openBlock_giveBack {s : Lexer} {number : Option ℕ} (hnumber : ∀ n ∈ number, s.given ≤ n)
    (hpos : 0 < s.given) (column : ℕ) (t u : Token) :
    (s.giveBack t).openBlock column number u = (s.openBlock column number u).giveBack t := by
  have hflow : (s.giveBack t).inFlow = s.inFlow := rfl
  have hindent : (s.giveBack t).indent = s.indent := rfl
  unfold openBlock
  rw [hflow, hindent]
  split_ifs
  · rfl
  · cases number with
    | none => rfl
    | some n =>
      exact insert_giveBack (s := { s with indent := column, indents := s.indent :: s.indents })
        (hnumber n rfl) hpos t u

/-- Opening a block leaves the candidates and the count alone. -/
theorem openBlock_view (s : Lexer) (column : ℕ) (number : Option ℕ) (u : Token) :
    (s.openBlock column number u).candidate = s.candidate ∧
      (s.openBlock column number u).outer = s.outer ∧
      (s.openBlock column number u).given = s.given := by
  unfold openBlock
  split_ifs
  · exact ⟨rfl, rfl, rfl⟩
  · cases number <;> exact ⟨rfl, rfl, rfl⟩

/-- Opening a block with its token at the end of the queue is steady. -/
theorem openBlock_always (column : Cursor → ℕ) (u : Token) :
    Always fun s => s.openBlock (column s.cursor) none u where
  pending {s} _ h heq := by
    obtain rfl := Option.some.inj heq
    obtain ⟨hcandidate, houter, hgiven⟩ := openBlock_view s (column s.cursor) none u
    refine ⟨fun k hk => ?_, hgiven⟩
    unfold Awaits at hk
    rw [hcandidate, houter] at hk
    exact hgiven ▸ h k hk
  giveBack t _ hpos := congrArg Option.some (openBlock_giveBack (by simp) hpos _ t u)

/-! ## Candidates -/

/-- Whether a colon comes too late for a candidate that has to be a key. -/
def missed (s : Lexer) : Bool :=
  (s.candidate :: s.outer).any (·.any fun k => isStale s.cursor.mark k && k.required)

/-- A candidate unless a colon comes too late for it. -/
def keep (m : Mark) (k : Option KeyCandidate) : Option KeyCandidate :=
  k.filter (!isStale m ·)

/-- A state without the candidates that a colon comes too late for. -/
def fresh (s : Lexer) : Lexer :=
  { s with candidate := keep s.cursor.mark s.candidate, outer := s.outer.map (keep s.cursor.mark) }

/-- Candidates that are too old are dropped, unless one of them has to be a key. -/
theorem dropStale?_eq (s : Lexer) : s.dropStale? = if s.missed then none else some s.fresh := rfl

/-- A candidate that is kept was there before. -/
theorem eq_of_keep_eq_some {m : Mark} {k : Option KeyCandidate} {c : KeyCandidate}
    (h : keep m k = some c) : k = some c :=
  Option.eq_some_of_filter_eq_some h

/-- The candidates that are kept were awaited before. -/
theorem Awaits.of_fresh {s : Lexer} {k : KeyCandidate} (h : s.fresh.Awaits k) : s.Awaits k := by
  obtain h | h := List.mem_cons.mp h
  · exact List.mem_cons.mpr (.inl (eq_of_keep_eq_some h.symm).symm)
  · obtain ⟨o, ho, hk⟩ := List.mem_map.mp h
    exact List.mem_cons_of_mem _ (eq_of_keep_eq_some hk ▸ ho)

/-- Giving up candidates for which a colon comes too late is steady. -/
theorem fresh_always : Always fresh :=
  always_of (fun h k hk => h k hk.of_fresh) (fun _ => rfl) fun _ _ _ => rfl

/-- Dropping stale candidates is steady. -/
theorem dropStale?_steady : Steady dropStale? :=
  Steady.none.ite (P := fun s => s.missed) (fun _ _ => Iff.rfl) fresh_always

/-- Giving up the candidate is steady. -/
theorem noCandidate_always : Always fun s => { s with candidate := none } :=
  always_of (fun h k hk => h k (awaits_iff.mpr (.inr (by simpa [awaits_iff] using hk))))
    (fun _ => rfl) fun _ _ _ => rfl

/-- Dropping the candidate is steady; it fails if the candidate has to be a key. -/
theorem dropCandidate?_steady : Steady dropCandidate? :=
  Steady.none.ite (P := fun s => s.candidate.any KeyCandidate.required) (fun _ _ => Iff.rfl)
    noCandidate_always

/-- The next token to enter the queue can be a candidate. -/
theorem nextCandidate_always (required : Lexer → Bool)
    (hrequired : ∀ t s, required (s.giveBack t) = required s) :
    Always fun s => { s with
      candidate := some ⟨s.given + s.queue.length, s.cursor.mark, required s⟩ } := by
  refine always_of (fun {s} h k hk => ?_) (fun _ => rfl) fun {s} t _ hpos => ?_
  · obtain hk | hk := awaits_iff.mp hk
    · exact Option.some.inj hk ▸ Nat.le_add_right s.given s.queue.length
    · exact h k (awaits_iff.mpr (.inr hk))
  · -- One token less given out is one more in the queue, so the number is the same.
    have hnumber : s.given - 1 + (s.queue.length + 1) = s.given + s.queue.length := by omega
    simp only [hrequired]
    simp only [Lexer.giveBack, List.length_cons, hnumber]

/-- Saving the next token as a candidate is steady: it has yet to enter the queue. -/
theorem saveCandidate?_steady : Steady saveCandidate? :=
  Steady.ite (P := fun s : Lexer => s.keyAllowed) (fun _ _ => Iff.rfl)
    (dropCandidate?_steady.bind
      (nextCandidate_always (fun s => !s.inFlow && s.indent = s.cursor.column) fun _ _ => rfl))
    Steady.some

/-- A state inside one more flow collection. -/
def opened (s : Lexer) : Lexer :=
  { s with candidate := none, outer := s.candidate :: s.outer }

/-- A state inside one less flow collection, if there is any. -/
def closed (s : Lexer) : Lexer :=
  match s.outer with
  | [] => s
  | k :: outer => { s with candidate := k, outer }

/-- Entering a flow collection is steady. -/
theorem opened_always : Always opened :=
  always_of (fun h k hk => h k (by simpa [opened, Awaits] using hk)) (fun _ => rfl) fun _ _ _ => rfl

/-- Leaving a flow collection is steady. -/
theorem closed_always : Always closed := by
  have hview (s : Lexer) : (s.closed).given = s.given ∧ ∀ k, s.closed.Awaits k → s.Awaits k := by
    unfold closed
    cases houter : s.outer with
    | nil => exact ⟨rfl, fun _ h => h⟩
    | cons o outer =>
      refine ⟨rfl, fun k hk => awaits_iff.mpr (.inr ?_)⟩
      rw [houter]
      exact hk
  refine always_of (fun {s} h k hk => ?_) (fun s => (hview s).1) fun {s} t _ _ => ?_
  · rw [(hview s).1]
    exact h k ((hview s).2 k hk)
  · unfold closed
    have houter : (s.giveBack t).outer = s.outer := rfl
    rw [houter]
    cases s.outer <;> rfl

/-! ## Steps -/

/-- A token that ends at another position, where a key may start or not. -/
theorem token_always (allowed : Lexer → Bool) (hallowed : ∀ t s, allowed (s.giveBack t) = allowed s)
    (p : Cursor → Cursor) (t : Token) :
    Always fun s => ((s.allowKey (allowed s)).goto (p s.cursor)).push t :=
  (push_always t).comp ((goto_always p).comp (allowKey_always allowed hallowed))

/-- The end of the text is steady. -/
theorem lexEnd?_steady : Steady lexEnd? := by
  refine (dropCandidate?_steady.comp (closeBlocks_always (fun _ => -1) fun _ _ => rfl)).map ?_
  exact token_always (fun _ => false) (fun _ _ => rfl)
    (fun c => ⟨if c.mark.column = 0 then c.mark else c.mark.below, []⟩) .streamEnd

/-- A directive is steady. -/
theorem lexDirective?_steady : Steady lexDirective? := by
  refine (dropCandidate?_steady.comp (closeBlocks_always (fun _ => -1) fun _ _ => rfl)).bind ?_
  refine Steady.read (r := fun s => readDirective? (s.cursor.skip 1)) (fun _ _ => rfl) ?_
  rintro ⟨t, p⟩
  exact token_always (fun _ => false) (fun _ _ => rfl) (fun _ => p) t

/-- The mark between documents is steady. -/
theorem lexDocumentMark?_steady (t : Token) : Steady (lexDocumentMark? · t) :=
  (dropCandidate?_steady.comp (closeBlocks_always (fun _ => -1) fun _ _ => rfl)).map
    (token_always (fun _ => false) (fun _ _ => rfl) (Cursor.skip · 3) t)

/-- The start of a flow collection is steady. -/
theorem lexFlowStart?_steady (t : Token) : Steady (lexFlowStart? · t) := by
  have htoken := token_always (fun _ => true) (fun _ _ => rfl) (Cursor.skip · 1) t
  exact saveCandidate?_steady.map (Always.comp htoken opened_always)

/-- The end of a flow collection is steady. -/
theorem lexFlowEnd?_steady (t : Token) : Steady (lexFlowEnd? · t) := by
  have htoken := token_always (fun _ => false) (fun _ _ => rfl) (Cursor.skip · 1) t
  exact dropCandidate?_steady.map (Always.comp htoken closed_always)

/-- A comma in a flow collection is steady. -/
theorem lexFlowEntry?_steady : Steady lexFlowEntry? :=
  dropCandidate?_steady.map
    (token_always (fun _ => true) (fun _ _ => rfl) (Cursor.skip · 1) .flowEntry)

/-- A dash in front of an entry is steady. -/
theorem lexBlockEntry?_steady : Steady lexBlockEntry? := by
  refine Steady.none.ite (P := fun s => !s.inFlow && !s.keyAllowed) (fun _ _ => Iff.rfl) ?_
  exact (dropCandidate?_steady.comp (openBlock_always Cursor.column _)).map
    (token_always (fun _ => true) (fun _ _ => rfl) (Cursor.skip · 1) .blockEntry)

/-- A question mark in front of a key is steady. -/
theorem lexKey?_steady : Steady lexKey? := by
  refine Steady.none.ite (P := fun s => !s.inFlow && !s.keyAllowed) (fun _ _ => Iff.rfl) ?_
  exact (dropCandidate?_steady.comp (openBlock_always Cursor.column _)).map
    (token_always (fun s => !s.inFlow) (fun _ _ => rfl) (Cursor.skip · 1) .key)

/-- An anchor, an alias, a tag or a text in quotes is steady. -/
theorem lexNode?_steady (read : Cursor → Option (Token × Cursor)) : Steady (lexNode? · read) := by
  refine saveCandidate?_steady.bind ?_
  refine Steady.read (r := fun s => read s.cursor) (fun _ _ => rfl) ?_
  rintro ⟨t, p⟩
  exact token_always (fun _ => false) (fun _ _ => rfl) (fun _ => p) t

/-- A plain scalar is steady. -/
theorem lexPlain?_steady : Steady lexPlain? := by
  refine saveCandidate?_steady.bind ?_
  refine Steady.read
    (r := fun s => readPlain? s.inFlow (s.indent + 1) .none s.cursor.mark s.cursor.rest)
    (fun _ _ => rfl) ?_
  rintro ⟨text, broken, p⟩
  exact token_always (fun _ => broken) (fun _ _ => rfl) (fun _ => p) _

/-- A scalar on lines of its own is steady. -/
theorem lexBlock?_steady (folded : Bool) : Steady (lexBlock? · folded) := by
  refine dropCandidate?_steady.bind ?_
  refine Steady.read (r := fun s => readBlock? folded s.indent (s.cursor.skip 1))
    (fun _ _ => rfl) ?_
  rintro ⟨text, p⟩
  exact token_always (fun _ => true) (fun _ _ => rfl) (fun _ => p) _

/-- A state behind a colon. -/
def colon (s : Lexer) : Lexer :=
  (s.goto (s.cursor.skip 1)).push .value

/-- Moving behind a colon is steady. -/
theorem colon_always : Always colon :=
  (push_always .value).comp (goto_always (·.skip 1))

/-- The state in which a colon has made a key of a candidate. -/
def keyed (k : KeyCandidate) (s : Lexer) : Lexer :=
  { (s.insert k.number .key).openBlock k.mark.column (some k.number) .blockMappingStart
    with candidate := none }

/-- A colon behind a candidate makes a key of it. -/
theorem lexValue?_of_some {s : Lexer} {k : KeyCandidate} (h : s.candidate = some k) :
    s.lexValue? = some ((s.keyed k).allowKey false).colon := by
  unfold lexValue?
  rw [h]
  rfl

/-- A colon without a candidate stands where a key may start, or in a flow collection. -/
theorem lexValue?_of_none {s : Lexer} (h : s.candidate = none) :
    s.lexValue? =
      if !s.inFlow && !s.keyAllowed then none
      else
        some
          ((s.openBlock s.cursor.column none .blockMappingStart).allowKey (!s.inFlow)).colon := by
  unfold lexValue?
  rw [h]
  rfl

/-- Making a key of a candidate gives it up, and leaves the outer ones and the count alone. -/
theorem keyed_view (k : KeyCandidate) (s : Lexer) :
    (s.keyed k).candidate = none ∧ (s.keyed k).outer = s.outer ∧ (s.keyed k).given = s.given := by
  obtain ⟨-, houter, hgiven⟩ :=
    openBlock_view (s.insert k.number .key) k.mark.column (some k.number) .blockMappingStart
  exact ⟨rfl, houter, hgiven⟩

/-- A key is put into the queue at the same place, whether or not a token before it is given back.
-/
theorem keyed_giveBack {s : Lexer} {k : KeyCandidate} (hk : s.given ≤ k.number) (hpos : 0 < s.given)
    (t : Token) : (s.giveBack t).keyed k = (s.keyed k).giveBack t := by
  have hinsert := insert_giveBack hk hpos t .key
  have hnumber : ∀ n ∈ some k.number, (s.insert k.number .key).given ≤ n :=
    fun n hn => Option.some.inj hn ▸ hk
  have hopen := openBlock_giveBack hnumber hpos k.mark.column t .blockMappingStart
  unfold keyed
  rw [hinsert, hopen]
  rfl

/-- A key that is made of the candidate is in the queue. -/
theorem keyed_steady (k : KeyCandidate) :
    Steady fun s => if s.candidate = some k then some (s.keyed k) else none where
  pending {s _} h heq := by
    split_ifs at heq with hk
    obtain rfl := Option.some.inj heq
    obtain ⟨hcandidate, houter, hgiven⟩ := keyed_view k s
    refine ⟨fun k' hk' => ?_, hgiven⟩
    rw [awaits_iff, hcandidate, houter] at hk'
    exact hgiven ▸ h k' (awaits_iff.mpr (.inr (hk'.resolve_left nofun)))
  giveBack {s} t h hpos := by
    have hcandidate : (s.giveBack t).candidate = s.candidate := rfl
    rw [hcandidate]
    split_ifs with hk
    · exact congrArg some (keyed_giveBack (h k (awaits_iff.mpr (.inl hk))) hpos t)
    · rfl

/-- A colon is steady. -/
theorem lexValue?_steady : Steady lexValue? := by
  refine Steady.choose (a := Lexer.candidate) (fun _ _ => rfl) fun o => ?_
  cases o with
  | none =>
    have hopen : Always fun s => (s.openBlock s.cursor.column none .blockMappingStart).allowKey
        (!(s.openBlock s.cursor.column none .blockMappingStart).inFlow) :=
      Always.comp (allowKey_always (fun s => !s.inFlow) fun _ _ => rfl)
        (openBlock_always Cursor.column .blockMappingStart)
    have hflow (s : Lexer) :
        (s.openBlock s.cursor.column none .blockMappingStart).inFlow = s.inFlow := by
      unfold inFlow
      rw [(openBlock_view s _ none _).2.1]
    simp only [hflow] at hopen
    exact ⟨_, Steady.none.ite (fun _ _ => Iff.rfl) (colon_always.comp hopen),
      fun s => lexValue?_of_none⟩
  | some k =>
    have hallow := allowKey_always (fun _ => false) fun _ _ => rfl
    refine ⟨_, (keyed_steady k).map (colon_always.comp hallow), fun s h => ?_⟩
    rw [lexValue?_of_some h, if_pos h]
    rfl

/-- The token that a character starts is steady. -/
theorem lexToken?_steady (c : Char) (rest : List Char) : Steady (lexToken? · c rest) := by
  unfold lexToken?
  refine lexDirective?_steady.ite (fun _ _ => Iff.rfl) ?_
  refine (lexDocumentMark?_steady _).ite (fun _ _ => Iff.rfl) ?_
  refine (lexDocumentMark?_steady _).ite (fun _ _ => Iff.rfl) ?_
  refine (lexFlowStart?_steady _).ite (fun _ _ => Iff.rfl) ?_
  refine (lexFlowStart?_steady _).ite (fun _ _ => Iff.rfl) ?_
  refine (lexFlowEnd?_steady _).ite (fun _ _ => Iff.rfl) ?_
  refine (lexFlowEnd?_steady _).ite (fun _ _ => Iff.rfl) ?_
  refine lexFlowEntry?_steady.ite (fun _ _ => Iff.rfl) ?_
  refine lexBlockEntry?_steady.ite (fun _ _ => Iff.rfl) ?_
  refine lexKey?_steady.ite (fun _ _ => Iff.rfl) ?_
  refine lexValue?_steady.ite (fun _ _ => Iff.rfl) ?_
  refine (lexNode?_steady _).ite (fun _ _ => Iff.rfl) ?_
  refine (lexNode?_steady _).ite (fun _ _ => Iff.rfl) ?_
  have htag : Steady fun s => s.lexNode? (readTag? s.inFlow) :=
    Steady.choose (a := inFlow) (fun _ _ => rfl) fun b =>
      ⟨_, lexNode?_steady (readTag? b), fun _ h => h ▸ rfl⟩
  refine htag.ite (fun _ _ => Iff.rfl) ?_
  refine (lexBlock?_steady false).ite (fun _ _ => Iff.rfl) ?_
  refine (lexBlock?_steady true).ite (fun _ _ => Iff.rfl) ?_
  refine (lexNode?_steady _).ite (fun _ _ => Iff.rfl) ?_
  refine (lexNode?_steady _).ite (fun _ _ => Iff.rfl) ?_
  exact lexPlain?_steady.ite (fun _ _ => Iff.rfl) Steady.none

/-- What the text at a position makes of a state: its end, or the next token. -/
def lexRest? (s : Lexer) : Option Lexer :=
  match s.cursor.rest with
  | [] => s.lexEnd?
  | c :: rest => s.lexToken? c rest

/-- The step over the next token skips blanks, drops candidates, closes blocks and reads on, unless
what stands there is spoiled. -/
theorem next?_eq (s : Lexer) :
    s.next? = s.toToken.dropStale?.bind fun s =>
      let s := s.closeBlocks s.cursor.column
      if s.isSpoiledWithin 4 then none
      else s.lexRest?.bind fun s => if s.isSpoiledWithin 1 then none else some s := by
  unfold next? lexRest?
  congr 1
  funext s
  dsimp only
  congr 1
  cases (s.closeBlocks s.cursor.column).cursor.rest <;> rfl

/-- What is read at a position is steady. -/
theorem lexRest?_steady : Steady lexRest? := by
  refine Steady.choose (a := fun s => s.cursor.rest) (fun _ _ => rfl) fun cs => ?_
  unfold lexRest?
  cases cs with
  | nil => exact ⟨_, lexEnd?_steady, fun s h => by rw [h]⟩
  | cons c rest => exact ⟨_, lexToken?_steady c rest, fun s h => by rw [h]⟩

/-- **The step over the next token is steady.** -/
theorem next?_steady : Steady next? := by
  have hrest : Steady fun s =>
      s.lexRest?.bind fun s => if s.isSpoiledWithin 1 then none else some s :=
    lexRest?_steady.bind (Steady.none.ite (fun _ _ => Iff.rfl) Steady.some)
  have hcolumn := closeBlocks_always (fun s => s.cursor.column) fun _ _ => rfl
  have hhere :=
    (Steady.none.ite (P := fun s => s.isSpoiledWithin 4) (fun _ _ => Iff.rfl) hrest).comp hcolumn
  rw [funext next?_eq]
  exact (dropStale?_steady.comp toToken_always).bind hhere

/-! ## From token to token -/

/-- Nothing is skipped in front of the next token. -/
def AtToken (s : Lexer) : Prop :=
  findToken s.inFlow false s.keyAllowed s.cursor.mark s.cursor.rest = (s.keyAllowed, s.cursor)

/-- Where nothing is to be skipped, the way to the next token changes nothing. -/
theorem AtToken.toToken_eq {s : Lexer} (h : s.AtToken) : s.toToken = s := by
  unfold toToken
  rw [h]

/-- Giving up candidates does not leave a flow collection. -/
theorem inFlow_fresh (s : Lexer) : s.fresh.inFlow = s.inFlow := by
  simp [inFlow, fresh]

/-- Giving up candidates does not move the position. -/
theorem AtToken.fresh {s : Lexer} (h : s.AtToken) : s.fresh.AtToken := by
  unfold AtToken
  rw [inFlow_fresh]
  exact h

/-- **Steps from token to token**, so many of them, with nothing to skip in between. -/
inductive Scan : ℕ → Lexer → Lexer → Prop
  | done {s : Lexer} : Scan 0 s s
  | step {n : ℕ} {s s₁ s' : Lexer} (hat : s.AtToken) (hnext : s.next? = some s₁)
      (h : Scan n s₁ s') : Scan (n + 1) s s'

/-- Steps from token to token can follow one another. -/
theorem Scan.trans {n m : ℕ} {s s₁ s' : Lexer} (h : Scan n s s₁) (h' : Scan m s₁ s') :
    Scan (n + m) s s' := by
  induction h with
  | done => exact (Nat.zero_add m).symm ▸ h'
  | @step n _ _ _ hat hnext _ ih =>
    rw [Nat.add_right_comm]
    exact .step hat hnext (ih h')

/-- The first of some steps. -/
theorem Scan.first {n : ℕ} {s s' : Lexer} (h : Scan n s s') :
    n = 0 ∧ s = s' ∨ ∃ m s₁, n = m + 1 ∧ s.AtToken ∧ s.next? = some s₁ ∧ Scan m s₁ s' := by
  cases h with
  | done => exact .inl ⟨rfl, rfl⟩
  | step hat hnext h => exact .inr ⟨_, _, rfl, hat, hnext, h⟩

/-- Steps are the same without a token that has been given out. -/
theorem Scan.giveBack {n : ℕ} {t : Token} {s s' : Lexer} (h : Scan n (s.giveBack t) s')
    (hs : s.Pending) (hpos : 0 < s.given) : ∃ s₁, Scan n s s₁ ∧ s' = s₁.giveBack t := by
  generalize hback : s.giveBack t = b at h
  induction h generalizing s with
  | done => exact ⟨s, .done, hback.symm⟩
  | step hat hnext _ ih =>
    subst hback
    rw [next?_steady.giveBack t hs hpos] at hnext
    obtain ⟨s₁, hnext₁, rfl⟩ := Option.map_eq_some_iff.mp hnext
    obtain ⟨hpending, hgiven⟩ := next?_steady.pending hs hnext₁
    obtain ⟨s₂, hscan, rfl⟩ := ih hpending (hgiven ▸ hpos) rfl
    exact ⟨s₂, .step hat hnext₁ hscan, rfl⟩

/-! ## Candidates on the way -/

/-- A colon does not come too late for a candidate that has been kept. -/
theorem not_isStale_of_keep {m : Mark} {o : Option KeyCandidate} {k : KeyCandidate}
    (h : keep m o = some k) : isStale m k = false := by
  have hkeep := Option.filter_eq_some_iff.mp h
  simpa using hkeep.2

/-- A candidate is kept or not once and for all. -/
theorem keep_keep (m : Mark) (o : Option KeyCandidate) : keep m (keep m o) = keep m o := by
  unfold keep
  rw [Option.filter_filter]
  congr 1
  funext k
  exact Bool.and_self _

/-- Candidates are given up once and for all. -/
theorem fresh_fresh (s : Lexer) : s.fresh.fresh = s.fresh := by
  simp [fresh, keep_keep]

/-- No colon comes too late for the candidates that are kept. -/
theorem missed_fresh (s : Lexer) : s.fresh.missed = false := by
  refine Bool.eq_false_iff.mpr fun hmissed => ?_
  obtain ⟨k, hk, hlate⟩ := any_candidate_iff.mp hmissed
  have hkept : isStale s.cursor.mark k = false := by
    obtain hk | hk := awaits_iff.mp hk
    · exact not_isStale_of_keep hk
    · obtain ⟨o, -, ho⟩ := List.mem_map.mp hk
      exact not_isStale_of_keep ho
  have hstale := (Bool.and_eq_true_iff.mp hlate).1
  exact absurd hstale (Bool.eq_false_iff.mp hkept)

/-- The step over the next token gives up candidates of its own accord. -/
theorem next?_fresh {s : Lexer} (hat : s.AtToken) (hmissed : s.missed = false) :
    s.fresh.next? = s.next? := by
  rw [next?_eq, next?_eq, hat.toToken_eq, hat.fresh.toToken_eq, dropStale?_eq, dropStale?_eq,
    missed_fresh, hmissed, fresh_fresh]

/-- A candidate that is missed stops the reading. -/
theorem missed_of_next? {s s₁ : Lexer} (hat : s.AtToken) (h : s.next? = some s₁) :
    s.missed = false := by
  rw [next?_eq, hat.toToken_eq, dropStale?_eq] at h
  cases hmissed : s.missed with
  | false => rfl
  | true =>
    rw [if_pos hmissed] at h
    cases h

/-- No candidate is left, in no flow collection. -/
structure Settled (s : Lexer) : Prop where
  candidate : s.candidate = none
  outer : s.outer = []

/-- Where no candidate is left there is none to give up. -/
theorem Settled.fresh_eq {s : Lexer} (h : s.Settled) : s.fresh = s := by
  obtain ⟨hcandidate, houter⟩ := h
  cases s
  cases hcandidate
  cases houter
  rfl

/-- Candidates for which a colon comes too late can be given up at once. -/
theorem Scan.fresh {n : ℕ} {s s' : Lexer} (h : Scan n s s') (hlast : s'.Settled) :
    s.missed = false ∧ Scan n s.fresh s' := by
  obtain ⟨rfl, rfl⟩ | ⟨n, s₁, rfl, hat, hnext, hrest⟩ := h.first
  · -- At the end nothing is left to give up.
    have hfresh := hlast.fresh_eq
    exact ⟨hfresh ▸ missed_fresh s, hfresh.symm ▸ .done⟩
  · have hmissed := missed_of_next? hat hnext
    exact ⟨hmissed, .step hat.fresh ((next?_fresh hat hmissed).trans hnext) hrest⟩

/-! ## Tokens of a text -/

section

variable {fuel : ℕ} {s s₁ : Lexer} {t : Token} {queue : List Token}

/-- If the queue is empty, the next token is read. -/
theorem run_of_empty (hqueue : s.queue = []) (hnext : s.next? = some s₁) :
    run (fuel + 1) s = run fuel s₁ := by
  rw [run]
  simp only [hqueue, hnext]

/-- If the first token in the queue may become a key, the next one is read. -/
theorem run_of_waiting (hqueue : s.queue = t :: queue) (hmissed : s.missed = false)
    (hhead : s.fresh.headIsCandidate = true) (hnext : s.fresh.next? = some s₁) :
    run (fuel + 1) s = run fuel s₁ := by
  have hfresh : s.fresh.queue = t :: queue := hqueue
  rw [run]
  simp [hqueue, hmissed, dropStale?_eq, hfresh, hhead, hnext]

/-- The tokens end when the end of the text leaves the queue. -/
theorem run_of_end (hqueue : s.queue = .streamEnd :: queue) (hmissed : s.missed = false)
    (hhead : s.fresh.headIsCandidate = false) : run (fuel + 1) s = [.streamEnd] := by
  have hfresh : s.fresh.queue = .streamEnd :: queue := hqueue
  rw [run]
  simp [hqueue, hmissed, dropStale?_eq, hfresh, hhead]

/-- A token that cannot become a key leaves the queue. -/
theorem run_of_given (hqueue : s.queue = t :: queue) (hmissed : s.missed = false)
    (hhead : s.fresh.headIsCandidate = false) (ht : t ≠ .streamEnd) :
    run (fuel + 1) s = t :: run fuel { s.fresh with queue, given := s.given + 1 } := by
  have hfresh : s.fresh.queue = t :: queue := hqueue
  have hgiven : s.fresh.given = s.given := rfl
  rw [run]
  simp [hqueue, hmissed, dropStale?_eq, hfresh, hhead, ht, hgiven]

end

/-- Nothing is put in front of what stands behind the first token if that is no candidate. -/
theorem Pending.of_head {queue : List Token} {s : Lexer} (h : s.Pending)
    (hhead : s.headIsCandidate = false) :
    Pending { s with queue, given := s.given + 1 } := by
  intro k hk
  refine Nat.lt_of_le_of_ne (h k hk) fun heq => ?_
  have hhead' : s.headIsCandidate = true :=
    any_candidate_iff.mpr ⟨k, hk, decide_eq_true heq.symm⟩
  exact Bool.false_ne_true (hhead.symm.trans hhead')

/-- **The token at the front leaves the queue** if it is no candidate: the steps behind it are the
same without it. -/
theorem Scan.behind_front {n : ℕ} {s s' : Lexer} {t : Token} {queue : List Token}
    (h : Scan n s s') (hpending : s.Pending) (hfront : s.queue = t :: queue)
    (hhead : s.headIsCandidate = false) :
    let given : Lexer := { s with queue, given := s.given + 1 }
    given.Pending ∧ ∃ s₁, Scan n given s₁ ∧ s' = s₁.giveBack t := by
  intro given
  have hback : s = given.giveBack t := by
    unfold Lexer.giveBack
    rw [← hfront]
    rfl
  have hgiven : given.Pending := hpending.of_head hhead
  rw [hback] at h
  exact ⟨hgiven, h.giveBack hgiven (Nat.succ_pos _)⟩

/-- **The tokens of a text** are those in the queue behind steps that lead up to its end. -/
theorem run_of_scan {fuel n : ℕ} {s s' : Lexer} {ts : List Token} (hscan : Scan n s s')
    (hpending : s.Pending) (hlast : s'.Settled) (hqueue : s'.queue = ts ++ [.streamEnd])
    (hend : .streamEnd ∉ ts) (hfuel : n + s'.queue.length < fuel) : run fuel s = s'.queue := by
  -- Each round makes a step or gives a token away, so the induction is on the rounds left.
  induction fuel generalizing n s s' ts with
  | zero => omega
  | succ fuel ih =>
    obtain ⟨hmissed, hfresh⟩ := hscan.fresh hlast
    cases hfront : s.queue with
    | nil =>
      obtain ⟨rfl, rfl⟩ | ⟨n, s₁, rfl, hat, hnext, hrest⟩ := hscan.first
      · simp [hfront] at hqueue
      · rw [run_of_empty hfront hnext]
        exact ih hrest (next?_steady.pending hpending hnext).1 hlast hqueue hend (by omega)
    | cons t queue =>
      have hpending' : s.fresh.Pending := fun k hk => hpending k hk.of_fresh
      cases hhead : s.fresh.headIsCandidate with
      | true =>
        obtain ⟨rfl, rfl⟩ | ⟨n, s₁, rfl, hat, hnext, hrest⟩ := hfresh.first
        · simp [headIsCandidate, hlast.candidate, hlast.outer] at hhead
        · rw [run_of_waiting hfront hmissed hhead hnext]
          exact ih hrest (next?_steady.pending hpending' hnext).1 hlast hqueue hend (by omega)
      | false =>
        obtain ⟨hp, p', hscan', rfl⟩ := hfresh.behind_front hpending' hfront hhead
        have hqueue' : t :: p'.queue = ts ++ [.streamEnd] := hqueue
        have hlength : (p'.giveBack t).queue.length = p'.queue.length + 1 := rfl
        cases ts with
        | nil =>
          obtain ⟨rfl, hnil⟩ := List.cons.inj hqueue'
          rw [run_of_end hfront hmissed hhead]
          exact hqueue.symm
        | cons u ts =>
          obtain ⟨rfl, hrest⟩ := List.cons.inj hqueue'
          rw [run_of_given hfront hmissed hhead (Ne.symm (List.ne_of_not_mem_cons hend))]
          exact congrArg (t :: ·) (ih hscan' hp ⟨hlast.candidate, hlast.outer⟩ hrest
            (List.not_mem_of_not_mem_cons hend) (by omega))

end Lexer

end AliasReport.Yaml
