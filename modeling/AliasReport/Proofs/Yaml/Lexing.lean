import AliasReport.Proofs.Json.Printing
import AliasReport.Proofs.Yaml.OneLine
import AliasReport.Proofs.Yaml.Queue

/-! # The tokens of JSON text

JSON without blanks is read as a flow collection. A name in quotes is a candidate for a key up to
the colon behind it, which puts the mark of a key in front of it.

* **`Json.Portable`** — values whose texts are ASCII, and whose names are short enough for keys.
* **`Json.tokens`** — the tokens of the compact form of a value.
* **`Lexer.Inside`** — the state inside open brackets, in front of some text.
* **`Reads`**, **`reads_value`** — from the text of a value to its tokens, by steps.
* **`tokens_compact`** — the tokens of a whole text. -/

namespace AliasReport

open AliasReport.Number AliasReport.Yaml

namespace Json

/-- Text whose characters are all ASCII, and none of them the last one. -/
def IsAscii (s : String) : Prop := ∀ c ∈ s.toList, c.toNat < 0x7f

/-- A text that can be a key on one line. -/
structure IsKey (s : String) : Prop where
  ascii : IsAscii s
  short : (quoted s).length ≤ 1024

/-- **A portable value** has ASCII texts, and short names. -/
inductive Portable : Json → Prop
  | null : Portable .null
  | bool {b : Bool} : Portable (.bool b)
  | number {n : ℕ} : Portable (.number n)
  | text {s : String} (hs : IsAscii s) : Portable (.text s)
  | array {items : List Json} (hitems : ∀ j ∈ items, Portable j) : Portable (.array items)
  | object {members : List (String × Json)} (hnames : ∀ m ∈ members, IsKey m.1)
      (hmembers : ∀ m ∈ members, Portable m.2) : Portable (.object members)

/-- A list or an object. -/
def IsCollection : Json → Prop
  | .array _ => True
  | .object _ => True
  | _ => False

mutual

/-- The tokens of the compact form of a value. -/
def tokens : Json → List Token
  | .null => [.scalar .plain "null".toList]
  | .bool b => [.scalar .plain (truthText b)]
  | .number n => [.scalar .plain (decimal n)]
  | .text s => [.scalar .doubleQuoted s.toList]
  | .array items => .flowSequenceStart :: itemTokens items ++ [.flowSequenceEnd]
  | .object members => .flowMappingStart :: memberTokens members ++ [.flowMappingEnd]

/-- The tokens of items with commas between them. -/
def itemTokens : List Json → List Token
  | [] => []
  | [j] => tokens j
  | j :: k :: items => tokens j ++ .flowEntry :: itemTokens (k :: items)

/-- The tokens of members with commas between them. -/
def memberTokens : List (String × Json) → List Token
  | [] => []
  | [(name, j)] => [.key, .scalar .doubleQuoted name.toList, .value] ++ tokens j
  | (name, j) :: m :: members =>
    [.key, .scalar .doubleQuoted name.toList, .value] ++ tokens j
      ++ .flowEntry :: memberTokens (m :: members)

end

/-- The tokens in front of the value of a member. -/
def keyTokens (name : String) : List Token :=
  [.key, .scalar .doubleQuoted name.toList, .value]

/-- The tokens of a member. -/
def memberToken (m : String × Json) : List Token :=
  keyTokens m.1 ++ m.2.tokens

/-- The tokens of several texts with commas between them. -/
def separatedTokens {α : Type} (f : α → List Token) : List α → List Token
  | [] => []
  | [a] => f a
  | a :: b :: as => f a ++ .flowEntry :: separatedTokens f (b :: as)

/-- The tokens of items are separated by commas. -/
theorem itemTokens_eq_separated : (items : List Json) →
    itemTokens items = separatedTokens tokens items
  | [] => rfl
  | [_] => rfl
  | j :: k :: items => by
    rw [itemTokens, separatedTokens, itemTokens_eq_separated (k :: items)]

/-- The tokens of members are separated by commas. -/
theorem memberTokens_eq_separated : (members : List (String × Json)) →
    memberTokens members = separatedTokens memberToken members
  | [] => rfl
  | [_] => rfl
  | (name, j) :: m :: members => by
    rw [memberTokens, separatedTokens, memberTokens_eq_separated (m :: members)]
    rfl

end Json

namespace Yaml

open AliasReport.Json (escape quoted IsAscii IsKey keyTokens)

namespace Lexer

/-! ## Inside brackets -/

/-- **The state inside `depth` brackets** of a text on one line, behind its start and in front of
some characters. -/
structure Inside (s : Lexer) (depth : ℕ) (m : Mark) (cs : List Char) : Prop where
  whole : s.whole = true
  levels : s.outer.length = depth
  calm : ∀ k, s.Awaits k → k.required = false
  indents : s.indents = []
  cursor : s.cursor = ⟨m, cs⟩
  column : m.column ≠ 0

section

variable {s : Lexer} {depth : ℕ} {m : Mark} {cs : List Char}

/-- One stays inside a text on one line when candidates are given up. -/
theorem Inside.fresh (h : s.Inside depth m cs) : s.fresh.Inside depth m cs where
  whole := h.whole
  levels := (List.length_map _).trans h.levels
  calm k hk := h.calm k hk.of_fresh
  indents := h.indents
  cursor := h.cursor
  column := h.column

/-- Inside a text on one line no candidate is missed, for none of them has to be a key. -/
theorem Inside.missed_eq (h : s.Inside depth m cs) : s.missed = false := by
  refine Bool.eq_false_iff.mpr fun hmissed => ?_
  obtain ⟨k, hk, hlate⟩ := any_candidate_iff.mp hmissed
  have hrequired := (Bool.and_eq_true_iff.mp hlate).2
  exact Bool.false_ne_true ((h.calm k hk).symm.trans hrequired)

/-- Inside brackets there is a flow collection. -/
theorem Inside.inFlow_eq (h : s.Inside (depth + 1) m cs) : s.inFlow = true := by
  have houter : s.outer ≠ [] := List.ne_nil_of_length_eq_add_one h.levels
  simp [inFlow, houter]

/-- The end of the text, or a character that is neither blank nor the start of a comment. -/
def StartsToken (cs : List Char) : Prop :=
  ∀ c ∈ cs.head?, isVisible c = true ∧ c ≠ ' ' ∧ c ≠ '#'

/-- In front of the start of a token there is nothing to skip. -/
theorem Inside.atToken (h : s.Inside depth m cs) (hcs : StartsToken cs) : s.AtToken := by
  unfold AtToken
  rw [h.cursor]
  cases cs with
  | nil => rfl
  | cons c cs =>
    obtain ⟨hc, hblank, hcomment⟩ := hcs c rfl
    have htab : c ≠ '\t' := ne_of_isVisible hc
    have hmark : c ≠ '\ufeff' := ne_of_isVisible hc
    simp [findToken, isBreak_of_isVisible hc, hblank, hcomment, htab, hmark]

/-- Inside a text on one line there are no blocks to close. -/
theorem Inside.closeBlocks_eq (h : s.Inside depth m cs) (column : Int) :
    s.closeBlocks column = s := by
  have hends : endsBelow column s.indent s.indents = ([], s.indent, s.indents) := by
    rw [h.indents]
    rfl
  unfold closeBlocks
  split_ifs
  · rfl
  · rw [hends]
    simp

/-- The step over the next token inside brackets. -/
theorem Inside.next?_eq (h : s.Inside depth m cs) (hcs : StartsToken cs) {s₁ : Lexer}
    (hrest : s.fresh.lexRest? = some s₁) (hwhole : s₁.whole = true) : s.next? = some s₁ := by
  have hspoiled (s : Lexer) (hs : s.whole = true) (n : ℕ) : s.isSpoiledWithin n = false := by
    simp [isSpoiledWithin, hs]
  rw [Lexer.next?_eq, (h.atToken hcs).toToken_eq, dropStale?_eq, h.missed_eq]
  simp [h.fresh.closeBlocks_eq, hspoiled _ h.fresh.whole, hrest, hspoiled _ hwhole]

/-- Inside a text on one line the candidate can always be dropped. -/
theorem Inside.dropCandidate?_eq (h : s.Inside depth m cs) :
    s.dropCandidate? = some { s with candidate := none } := by
  have hcalm : s.candidate.any KeyCandidate.required = false := by
    cases hk : s.candidate with
    | none => rfl
    | some k => exact h.calm k (awaits_iff.mpr (.inl hk))
  exact if_neg (Bool.not_eq_true _ ▸ hcalm)

/-- The candidate when a token is saved as one where a key may start. -/
def saved (s : Lexer) (m : Mark) : Option KeyCandidate :=
  if s.keyAllowed then some ⟨s.given + s.queue.length, m, false⟩ else s.candidate

/-- Inside brackets a token can always be saved as a candidate. -/
theorem Inside.saveCandidate?_eq (h : s.Inside (depth + 1) m cs) :
    s.saveCandidate? = some { s with candidate := s.saved m } := by
  have hflow : ({ s with candidate := none } : Lexer).inFlow = true := h.inFlow_eq
  have hmark : s.cursor.mark = m := by rw [h.cursor]
  unfold saveCandidate? saved
  split_ifs
  · rw [h.dropCandidate?_eq]
    simp [bind, hflow, hmark]
  · rfl

/-- A token that is saved inside a text on one line does not have to be a key. -/
theorem Inside.not_required_saved (h : s.Inside depth m cs) {k : KeyCandidate}
    (hk : s.saved m = some k) : k.required = false := by
  unfold saved at hk
  split_ifs at hk
  · obtain rfl := Option.some.inj hk
    rfl
  · exact h.calm k (awaits_iff.mpr (.inl hk))

/-! ## Which token it is -/

/-- A bracket starts a list. -/
theorem lexToken?_openList : s.lexToken? '[' cs = s.lexFlowStart? .flowSequenceStart := by
  simp [lexToken?]

/-- A brace starts an object. -/
theorem lexToken?_openObject : s.lexToken? '\x7b' cs = s.lexFlowStart? .flowMappingStart := by
  simp [lexToken?]

/-- A closing bracket ends a list. -/
theorem lexToken?_closeList : s.lexToken? ']' cs = s.lexFlowEnd? .flowSequenceEnd := by
  simp [lexToken?]

/-- A closing brace ends an object. -/
theorem lexToken?_closeObject : s.lexToken? '\x7d' cs = s.lexFlowEnd? .flowMappingEnd := by
  simp [lexToken?]

/-- A comma stands between entries. -/
theorem lexToken?_comma : s.lexToken? ',' cs = s.lexFlowEntry? := by
  simp [lexToken?]

/-- A colon in a flow collection stands in front of a value. -/
theorem lexToken?_colon (hflow : s.inFlow = true) : s.lexToken? ':' cs = s.lexValue? := by
  simp [lexToken?, hflow]

/-- A quote starts a text in quotes. -/
theorem lexToken?_quote : s.lexToken? '"' cs = s.lexNode? (readQuoted? true) := by
  simp [lexToken?]

/-- No indicator is a letter or a digit. -/
theorem lexToken?_word {c : Char} (hc : c.isAlphanum = true) : s.lexToken? c cs = s.lexPlain? := by
  have hstart : startsPlain s.inFlow c cs = true := by
    have hnone : c ∉ "-?:,[]\x7b\x7d#&*!|>'\"%@`".toList := notMem_of_isAlphanum hc (by decide)
    simp only [startsPlain, isSpace_of_isAlphanum hc, hnone, decide_false, Bool.or_self,
      Bool.not_false, Bool.true_or]
  have hnone : c ∉ "%-.[\x7b]\x7d,?:*&!|>'\"".toList := notMem_of_isAlphanum hc (by decide)
  simp at hnone
  simp [lexToken?, hnone, hstart]

/-! ## Steps -/

/-- **Steps that bring tokens into the queue**, at most one for each of them. -/
structure Crosses (ts : List Token) (s s' : Lexer) : Prop where
  scan : ∃ n ≤ ts.length, Scan n s s'
  queue : s'.queue = s.queue ++ ts
  given : s'.given = s.given

/-- No tokens are read where the state stays. -/
theorem Crosses.none (s : Lexer) : Crosses [] s s :=
  ⟨⟨0, Nat.le_refl 0, .done⟩, (List.append_nil _).symm, rfl⟩

/-- Steps that bring in tokens can follow one another. -/
theorem Crosses.trans {s s₁ s' : Lexer} {ts us : List Token} (h : Crosses ts s s₁)
    (h' : Crosses us s₁ s') : Crosses (ts ++ us) s s' := by
  obtain ⟨n, hn, hscan⟩ := h.scan
  obtain ⟨k, hk, hscan'⟩ := h'.scan
  refine ⟨⟨n + k, ?_, hscan.trans hscan'⟩, ?_, h'.given.trans h.given⟩
  · rw [List.length_append]
    omega
  · rw [h'.queue, h.queue, List.append_assoc]

/-- A token inside brackets. -/
theorem Inside.crosses {s s₁ : Lexer} {depth depth' : ℕ} {m m' : Mark} {cs cs' : List Char}
    {t : Token} (h : s.Inside depth m cs) (hcs : StartsToken cs)
    (hrest : s.fresh.lexRest? = some s₁) (h₁ : s₁.Inside depth' m' cs')
    (hqueue : s₁.queue = s.queue ++ [t]) (hgiven : s₁.given = s.given) : Crosses [t] s s₁ where
  scan := ⟨1, Nat.le_refl 1, .step (h.atToken hcs) (h.next?_eq hcs hrest h₁.whole) .done⟩
  queue := hqueue
  given := hgiven

/-- The next token is read by its first character. -/
theorem Inside.lexRest?_cons {s : Lexer} {depth : ℕ} {m : Mark} {c : Char} {cs : List Char}
    (h : s.Inside depth m (c :: cs)) : s.lexRest? = s.lexToken? c cs := by
  unfold lexRest?
  rw [h.cursor]

/-- A visible character that starts no comment starts a token. -/
theorem startsToken_cons {c : Char} {cs : List Char}
    (hc : isVisible c = true ∧ c ≠ ' ' ∧ c ≠ '#') : StartsToken (c :: cs) :=
  fun _ hd => Option.some.inj hd ▸ hc

/-- At the end of the text there is nothing to skip either. -/
theorem startsToken_nil : StartsToken [] := nofun

section

variable {s : Lexer} {depth : ℕ} {m : Mark} {c : Char} {cs : List Char} {t : Token}

/-- An opening bracket. -/
theorem Inside.crosses_open (h : s.Inside (depth + 1) m (c :: cs))
    (hc : isVisible c = true ∧ c ≠ ' ' ∧ c ≠ '#')
    (hlex : ∀ s : Lexer, s.lexToken? c cs = s.lexFlowStart? t) :
    ∃ s', Crosses [t] s s' ∧ s'.Inside (depth + 2) (m.along c) cs ∧ s'.keyAllowed = true := by
  have hp := h.fresh
  let inner : Lexer :=
    { s.fresh with candidate := none, outer := s.fresh.saved m :: s.fresh.outer }
  let s' : Lexer := ((inner.allowKey true).goto ⟨m.along c, cs⟩).push t
  have hcalm (k : KeyCandidate) (hk : s'.Awaits k) : k.required = false := by
    obtain hk | hk := List.mem_cons.mp ((awaits_iff.mp hk).resolve_left nofun)
    · exact hp.not_required_saved hk.symm
    · exact hp.calm k (awaits_iff.mpr (.inr hk))
  have hinside : s'.Inside (depth + 2) (m.along c) cs :=
    ⟨hp.whole, congrArg (· + 1) hp.levels, hcalm, hp.indents, rfl, Nat.succ_ne_zero _⟩
  have hrest : s.fresh.lexRest? = some s' := by
    rw [hp.lexRest?_cons, hlex, lexFlowStart?, hp.saveCandidate?_eq, Option.map_some, hp.cursor]
    rfl
  exact ⟨s', h.crosses (startsToken_cons hc) hrest hinside rfl rfl, hinside, rfl⟩

/-- A closing bracket. -/
theorem Inside.crosses_close (h : s.Inside (depth + 1) m (c :: cs))
    (hc : isVisible c = true ∧ c ≠ ' ' ∧ c ≠ '#')
    (hlex : ∀ s : Lexer, s.lexToken? c cs = s.lexFlowEnd? t) :
    ∃ s', Crosses [t] s s' ∧ s'.Inside depth (m.along c) cs := by
  have hp := h.fresh
  obtain ⟨o, outer, houter⟩ := List.exists_cons_of_length_eq_add_one hp.levels
  let outside : Lexer := { s.fresh with candidate := o, outer }
  let s' : Lexer := ((outside.allowKey false).goto ⟨m.along c, cs⟩).push t
  have hlevels := hp.levels
  rw [houter] at hlevels
  have hcalm (k : KeyCandidate) (hk : s'.Awaits k) : k.required = false := by
    refine hp.calm k (awaits_iff.mpr (.inr ?_))
    rw [houter]
    exact hk
  have hinside : s'.Inside depth (m.along c) cs :=
    ⟨hp.whole, Nat.succ.inj hlevels, hcalm, hp.indents, rfl, Nat.succ_ne_zero _⟩
  have hrest : s.fresh.lexRest? = some s' := by
    rw [hp.lexRest?_cons, hlex, lexFlowEnd?, hp.dropCandidate?_eq, Option.map_some, houter,
      hp.cursor]
    rfl
  exact ⟨s', h.crosses (startsToken_cons hc) hrest hinside rfl rfl, hinside⟩

/-- A state in which the candidate is replaced by one that need not be a key. -/
theorem Inside.moved (h : s.Inside depth m cs) {o : Option KeyCandidate}
    (ho : ∀ k ∈ o, k.required = false) (allowed : Bool) {m' : Mark} (hm : m'.column ≠ 0)
    (cs' : List Char) (t : Token) :
    ((({ s with candidate := o } : Lexer).allowKey allowed).goto ⟨m', cs'⟩ |>.push t).Inside depth
      m' cs' := by
  refine ⟨h.whole, h.levels, fun k hk => ?_, h.indents, rfl, hm⟩
  obtain hk | hk := awaits_iff.mp hk
  · exact ho k hk
  · exact h.calm k (awaits_iff.mpr (.inr hk))

/-- A comma. -/
theorem Inside.crosses_comma (h : s.Inside (depth + 1) m (',' :: cs)) :
    ∃ s', Crosses [.flowEntry] s s' ∧ s'.Inside (depth + 1) (m.along ',') cs ∧
      s'.keyAllowed = true := by
  have hp := h.fresh
  have hcolumn : (m.along ',').column ≠ 0 := Nat.succ_ne_zero _
  have hinside := hp.moved (o := none) nofun true hcolumn cs .flowEntry
  refine ⟨_, h.crosses (startsToken_cons (by decide)) ?_ hinside rfl rfl, hinside, rfl⟩
  rw [hp.lexRest?_cons, lexToken?_comma, lexFlowEntry?, hp.dropCandidate?_eq, Option.map_some,
    hp.cursor]
  rfl

/-- Text between quotes. The candidate is saved. -/
theorem Inside.crosses_quoted {name : String} (hname : IsAscii name)
    (h : s.Inside (depth + 1) m (quoted name ++ cs)) :
    ∃ s', Crosses [.scalar .doubleQuoted name.toList] s s' ∧
      s'.Inside (depth + 1) (m.over (quoted name)) cs ∧ s'.candidate = s.fresh.saved m := by
  have htext : quoted name ++ cs = '"' :: (escape name.toList ++ '"' :: cs) := by
    simp [quoted]
  rw [htext] at h
  have hp := h.fresh
  -- The quotes are passed over along with what stands between them.
  have hover : m.over (quoted name) = (m.along '"').over (escape name.toList ++ ['"']) := rfl
  have hcolumn : (m.over (quoted name)).column ≠ 0 := by
    simp [Mark.column_over, h.column]
  have hinside := hp.moved (fun k hk => hp.not_required_saved hk) false hcolumn cs
    (.scalar .doubleQuoted name.toList)
  refine ⟨_, h.crosses (startsToken_cons (by decide)) ?_ hinside rfl rfl, hinside, rfl⟩
  have hbroken : Gap.none.broken = false := rfl
  have hread := readDoubleQuoted?_escape hname hbroken (m := m.along '"') (Nat.succ_ne_zero _) cs
  have hskip : (Cursor.skip ⟨m, '"' :: (escape name.toList ++ '"' :: cs)⟩ 1) =
      ⟨m.along '"', escape name.toList ++ '"' :: cs⟩ := rfl
  rw [hp.lexRest?_cons, lexToken?_quote, lexNode?, hp.saveCandidate?_eq]
  simp [bind, hp.cursor, readQuoted?, hskip, hread, hover]

/-- Words and numbers. -/
theorem Inside.crosses_word {text : List Char} (htext : ∀ c ∈ text, c.isAlphanum = true)
    (hne : text ≠ []) (hcs : EndsPlain cs) (h : s.Inside (depth + 1) m (text ++ cs)) :
    ∃ s', Crosses [.scalar .plain text] s s' ∧ s'.Inside (depth + 1) (m.over text) cs := by
  have hp := h.fresh
  have hcolumn : (m.over text).column ≠ 0 := by
    simp [Mark.column_over, h.column]
  have hinside := hp.moved (fun k hk => hp.not_required_saved hk) false hcolumn cs
    (.scalar .plain text)
  have hread : readPlain? true (s.fresh.indent + 1) .none s.fresh.cursor.mark s.fresh.cursor.rest =
      some (text, false, ⟨m.over text, cs⟩) := by
    rw [hp.cursor]
    exact readPlain?_of_isAlphanum htext hcs _ h.column
  obtain ⟨c, tail, rfl⟩ := List.exists_cons_of_ne_nil hne
  have hc := htext c List.mem_cons_self
  have hstart : StartsToken (c :: tail ++ cs) :=
    startsToken_cons ⟨isVisible_of_isAlphanum hc, ne_of_isAlphanum hc, ne_of_isAlphanum hc⟩
  refine ⟨_, h.crosses hstart ?_ hinside rfl rfl, hinside⟩
  rw [List.cons_append] at hp
  rw [hp.lexRest?_cons, lexToken?_word hc, lexPlain?, hp.saveCandidate?_eq]
  have hflow : ({ s.fresh with candidate := s.fresh.saved m } : Lexer).inFlow = true := hp.inFlow_eq
  simp only [bind, Option.bind_some, hflow, hread]
  rfl

/-- Inside brackets no block is opened. -/
theorem keyed_of_inFlow (h : s.inFlow = true) (k : KeyCandidate) :
    s.keyed k = { s.insert k.number .key with candidate := none } := by
  have hflow : (s.insert k.number .key).inFlow = true := h
  unfold keyed openBlock
  simp [hflow]

/-- An ASCII text in quotes has visible characters only, for the others are escaped. -/
theorem isVisible_quoted {name : String} (hname : IsAscii name) :
    ∀ c ∈ quoted name, isVisible c = true :=
  List.forall_mem_cons.mpr ⟨rfl,
    List.forall_mem_append.mpr ⟨isVisible_escape hname, List.forall_mem_singleton.mpr rfl⟩⟩

/-- A name is a candidate up to the colon behind it. -/
theorem not_isStale_of_isKey {name : String} (hname : IsKey name) (number : ℕ) :
    isStale (m.over (quoted name)) ⟨number, m, false⟩ = false := by
  have hshort := hname.short
  simp only [isStale, Mark.line_over, Mark.offset_over (isVisible_quoted hname.ascii),
    Nat.lt_irrefl, decide_false, Bool.false_or, decide_eq_false_iff_not]
  omega

/-- The colon behind a key puts its mark in front of the token of the key, and its own behind it. -/
theorem queue_colon {k : KeyCandidate} {queue : List Token} (hflow : s.inFlow = true)
    (hqueue : s.queue = queue ++ [t]) (hk : k.number = s.given + queue.length) :
    ((s.keyed k).allowKey false).colon.queue = queue ++ [.key, t, .value] := by
  have hplace : k.number - s.given = queue.length := by
    rw [hk]
    exact Nat.add_sub_cancel_left ..
  simp [keyed_of_inFlow hflow, colon, insert, goto, allowKey, push, hplace, hqueue]

/-- Behind the colon of a key no candidate is left that was made inside the innermost brackets. -/
theorem Inside.behind_colon (h : s.Inside (depth + 1) m (':' :: cs)) (k : KeyCandidate) :
    ((s.keyed k).allowKey false).colon.Inside (depth + 1) (m.along ':') cs := by
  rw [keyed_of_inFlow h.inFlow_eq]
  refine ⟨h.whole, h.levels, fun k hk => ?_, h.indents, ?_, Nat.succ_ne_zero _⟩
  · have houter := (awaits_iff.mp hk).resolve_left (Option.not_mem_none k)
    exact h.calm k (awaits_iff.mpr (.inr houter))
  · simp only [colon, goto, push, allowKey, insert, h.cursor]
    rfl

/-- A name that may be a key is the candidate behind it: a colon does not come too late. -/
theorem fresh_candidate_quoted {name : String} (hname : IsKey name) {number : ℕ} {s₁ : Lexer}
    (hmark : s₁.cursor.mark = m.over (quoted name))
    (hsaved : s₁.candidate = some ⟨number, m, false⟩) :
    s₁.fresh.candidate = some ⟨number, m, false⟩ := by
  have hkeep : s₁.fresh.candidate = keep s₁.cursor.mark s₁.candidate := rfl
  rw [hkeep, hmark, hsaved, keep, Option.filter_some, not_isStale_of_isKey hname]
  rfl

/-- **A name with a colon behind it** is a key. -/
theorem Inside.crosses_key {name : String} (hname : IsKey name) (hallowed : s.keyAllowed = true)
    (h : s.Inside (depth + 1) m (quoted name ++ ':' :: cs)) :
    ∃ s', Crosses (keyTokens name) s s' ∧
      s'.Inside (depth + 1) (m.over (quoted name ++ [':'])) cs := by
  obtain ⟨s₁, hcross, h₁, hcandidate⟩ := h.crosses_quoted hname.ascii
  have hp := h₁.fresh
  -- The name is the candidate, numbered by the tokens in front of it.
  let k : KeyCandidate := ⟨s.given + s.queue.length, m, false⟩
  have hsaved : s₁.candidate = some k := hcandidate.trans (if_pos hallowed)
  have hfresh : s₁.fresh.candidate = some k :=
    fresh_candidate_quoted hname (congrArg Cursor.mark h₁.cursor) hsaved
  have hgiven : s₁.fresh.given = s.given := hcross.given
  let s' : Lexer := ((s₁.fresh.keyed k).allowKey false).colon
  have hinside : s'.Inside (depth + 1) (m.over (quoted name ++ [':'])) cs := by
    rw [Mark.over_append]
    exact hp.behind_colon k
  have hqueue : s'.queue = s.queue ++ keyTokens name :=
    queue_colon hp.inFlow_eq hcross.queue (congrArg (· + s.queue.length) hgiven.symm)
  have hgiven' : s'.given = s.given := (keyed_view k s₁.fresh).2.2.trans hgiven
  have hnext : s₁.next? = some s' := by
    refine h₁.next?_eq (startsToken_cons (by decide)) ?_ hinside.whole
    rw [hp.lexRest?_cons, lexToken?_colon hp.inFlow_eq, lexValue?_of_some hfresh]
  obtain ⟨n, hn, hscan⟩ := hcross.scan
  have hlast : Scan 1 s₁ s' := .step (h₁.atToken (startsToken_cons (by decide))) hnext .done
  have hcount : n + 1 ≤ (keyTokens name).length := Nat.le_succ_of_le (Nat.succ_le_succ hn)
  exact ⟨s', ⟨⟨n + 1, hcount, hscan.trans hlast⟩, hqueue, hgiven'⟩, hinside⟩

end

end

/-! ## Values -/

/-- **A text is read as tokens** inside brackets, in front of an indicator. They are no more than
its characters. If it is `keyed`, a key has to be allowed. -/
structure Reads (keyed : Bool) (cs : List Char) (ts : List Token) : Prop where
  visible : ∀ c ∈ cs, isVisible c = true
  count : ts.length ≤ cs.length
  within : .streamEnd ∉ ts
  crosses : ∀ {s : Lexer} {depth : ℕ} {m : Mark} {rest : List Char},
    (keyed = true → s.keyAllowed = true) → s.Inside (depth + 1) m (cs ++ rest) → EndsPlain rest →
      ∃ s', Crosses ts s s' ∧ s'.Inside (depth + 1) (m.over cs) rest

/-- Where a key is allowed, anything may stand. -/
theorem Reads.keyed {cs : List Char} {ts : List Token} (h : Reads false cs ts) : Reads true cs ts :=
  ⟨h.visible, h.count, h.within, fun _ => h.crosses nofun⟩

section

variable {α : Type} {f : α → List Char} {g : α → List Token}

/-- **Texts with commas between them** are read one after the other. -/
theorem reads_separated (as : List α) (h : ∀ a ∈ as, Reads true (f a) (g a)) :
    Reads true (Json.separated f as) (Json.separatedTokens g as) := by
  induction as with
  | nil => exact ⟨nofun, Nat.le_refl 0, nofun, fun {s _ _ _} _ hs _ => ⟨s, .none s, hs⟩⟩
  | cons a as ih =>
    obtain ⟨ha, has⟩ := List.forall_mem_cons.mp h
    cases as with
    | nil => exact ha
    | cons b as =>
      have hbs := ih has
      refine ⟨?_, ?_, ?_, fun {s depth m rest} hallowed hs hrest => ?_⟩
      · exact List.forall_mem_append.mpr ⟨ha.visible, List.forall_mem_cons.mpr ⟨rfl, hbs.visible⟩⟩
      · have hcount := ha.count
        have hcounts := hbs.count
        simp only [Json.separated, Json.separatedTokens, List.length_append, List.length_cons]
        omega
      · simp [Json.separatedTokens, ha.within, hbs.within]
      · rw [Json.separated, List.append_assoc, List.cons_append] at hs
        obtain ⟨s₁, hcross₁, h₁⟩ := ha.crosses hallowed hs ⟨_, _, rfl, .inl rfl⟩
        obtain ⟨s₂, hcross₂, h₂, hallowed₂⟩ := h₁.crosses_comma
        obtain ⟨s', hcross, h'⟩ := hbs.crosses (fun _ => hallowed₂) h₂ hrest
        refine ⟨s', hcross₁.trans (hcross₂.trans hcross), ?_⟩
        rw [Json.separated, Mark.over_append]
        exact h'

end

/-- A pair of brackets, as characters and as tokens. -/
structure Brackets (c c' : Char) (t t' : Token) : Prop where
  visible : isVisible c = true ∧ c ≠ ' ' ∧ c ≠ '#'
  visible' : isVisible c' = true ∧ c' ≠ ' ' ∧ c' ≠ '#'
  within : t ≠ .streamEnd
  within' : t' ≠ .streamEnd
  lex : ∀ (s : Lexer) (cs : List Char), s.lexToken? c cs = s.lexFlowStart? t
  lex' : ∀ (s : Lexer) (cs : List Char), s.lexToken? c' cs = s.lexFlowEnd? t'
  ends : ∀ rest, EndsPlain (c' :: rest)

/-- The brackets of lists are brackets. -/
theorem brackets_list : Brackets '[' ']' .flowSequenceStart .flowSequenceEnd :=
  ⟨by decide, by decide, nofun, nofun, fun _ _ => lexToken?_openList,
    fun _ _ => lexToken?_closeList, fun _ => ⟨_, _, rfl, .inr (.inl rfl)⟩⟩

/-- The braces of objects are brackets. -/
theorem brackets_object : Brackets '\x7b' '\x7d' .flowMappingStart .flowMappingEnd :=
  ⟨by decide, by decide, nofun, nofun, fun _ _ => lexToken?_openObject,
    fun _ _ => lexToken?_closeObject, fun _ => ⟨_, _, rfl, .inr (.inr rfl)⟩⟩

/-- Text between brackets. -/
theorem Brackets.reads {c c' : Char} {t t' : Token} (hb : Brackets c c' t t') {cs : List Char}
    {ts : List Token} (h : Reads true cs ts) : Reads false (c :: cs ++ [c']) (t :: ts ++ [t']) := by
  refine ⟨?_, ?_, ?_, fun {s depth m rest} _ hs _ => ?_⟩
  · have hlast : ∀ d ∈ [c'], isVisible d = true := List.forall_mem_singleton.mpr hb.visible'.1
    exact List.forall_mem_append.mpr ⟨List.forall_mem_cons.mpr ⟨hb.visible.1, h.visible⟩, hlast⟩
  · simpa using h.count
  · simp [h.within, hb.within.symm, hb.within'.symm]
  · rw [List.append_assoc, List.cons_append] at hs
    obtain ⟨s₁, hcross₁, h₁, hallowed₁⟩ := hs.crosses_open hb.visible fun s => hb.lex s _
    obtain ⟨s₂, hcross₂, h₂⟩ := h.crosses (fun _ => hallowed₁) h₁ (hb.ends rest)
    obtain ⟨s', hcross, h'⟩ := h₂.crosses_close hb.visible' fun s => hb.lex' s _
    refine ⟨s', hcross₁.trans (hcross₂.trans hcross), ?_⟩
    rw [List.cons_append, Mark.over_cons, Mark.over_append]
    exact h'

/-- A word of letters and digits is read as one plain scalar. -/
theorem reads_word {text : List Char} (htext : text.all Char.isAlphanum = true)
    (hne : text ≠ []) : Reads false text [.scalar .plain text] :=
  have htext := List.all_eq_true.mp htext
  ⟨fun c hc => isVisible_of_isAlphanum (htext c hc), List.length_pos_of_ne_nil hne, by simp,
    fun _ hs hrest => hs.crosses_word htext hne hrest⟩

/-- An ASCII text in quotes is read as one scalar in quotes. -/
theorem reads_quoted {name : String} (hname : IsAscii name) :
    Reads false (quoted name) [.scalar .doubleQuoted name.toList] := by
  refine ⟨isVisible_quoted hname, ?_, by simp, fun {s depth m rest} _ hs _ => ?_⟩
  · simp [quoted]
  · obtain ⟨s', hcross, h', -⟩ := hs.crosses_quoted hname
    exact ⟨s', hcross, h'⟩

/-- A member is read as a key and its value. -/
theorem reads_member {name : String} {j : Json} (hname : IsKey name)
    (h : Reads false j.compactChars j.tokens) :
    Reads true (Json.compactMember (name, j)) (Json.memberToken (name, j)) := by
  refine ⟨?_, ?_, ?_, fun {s depth m rest} hallowed hs hrest => ?_⟩
  · exact List.forall_mem_append.mpr
      ⟨isVisible_quoted hname.ascii, List.forall_mem_cons.mpr ⟨rfl, h.visible⟩⟩
  · have hcount := h.count
    simp only [Json.compactMember, Json.memberToken, keyTokens, quoted, List.length_append,
      List.length_cons]
    omega
  · simp [Json.memberToken, keyTokens, h.within]
  · rw [Json.compactMember, List.append_assoc, List.cons_append] at hs
    obtain ⟨s₁, hcross₁, h₁⟩ := hs.crosses_key hname (hallowed rfl)
    obtain ⟨s', hcross, h'⟩ := h.crosses (absurd · Bool.false_ne_true) h₁ hrest
    refine ⟨s', hcross₁.trans hcross, ?_⟩
    rw [Json.compactMember, Mark.over_append]
    rw [Mark.over_append] at h'
    exact h'

/-- The compact form of a value is read as its tokens. -/
theorem reads_value {j : Json} (h : j.Portable) : Reads false j.compactChars j.tokens := by
  induction h with
  | null => exact reads_word (by decide) (by decide)
  | @bool b => exact reads_word (by cases b <;> decide) (by cases b <;> decide)
  | @number n =>
    refine reads_word (List.all_eq_true.mpr fun c hc => ?_) (decimal_ne_nil n)
    simp [Char.isAlphanum, isDigit_of_mem_decimal hc]
  | text hs => exact reads_quoted hs
  | @array items _ ih =>
    rw [Json.compactChars, Json.tokens, Json.compactItems_eq_separated,
      Json.itemTokens_eq_separated]
    exact brackets_list.reads (reads_separated items fun j hj => (ih j hj).keyed)
  | @object members hnames _ ih =>
    rw [Json.compactChars, Json.tokens, Json.compactMembers_eq_separated,
      Json.memberTokens_eq_separated]
    exact brackets_object.reads
      (reads_separated members fun m hm => reads_member (hnames m hm) (ih m hm))

/-! ## Whole texts -/

/-- The first bracket of a text. -/
theorem crosses_first {c c' : Char} {t t' : Token} (hb : Brackets c c' t t') (cs : List Char) :
    ∃ s, Crosses [t] (start true (c :: cs)) s ∧ s.Inside 1 (Mark.start.along c) cs ∧
      s.keyAllowed = true := by
  let s₀ := start true (c :: cs)
  let k : KeyCandidate := ⟨0, Mark.start, false⟩
  let s₁ : Lexer :=
    ⟨⟨Mark.start.along c, cs⟩, true, true, none, [some k], -1, [], [t], 0⟩
  have hinside : s₁.Inside 1 (Mark.start.along c) cs := by
    refine ⟨rfl, rfl, fun k' hk => ?_, rfl, rfl, Nat.succ_ne_zero _⟩
    obtain hk | hk := awaits_iff.mp hk
    · cases hk
    · obtain rfl := Option.some.inj (List.mem_singleton.mp hk)
      rfl
  have hat : s₀.AtToken := by
    obtain ⟨hvisible, hblank, hcomment⟩ := hb.visible
    have htab : c ≠ '\t' := ne_of_isVisible hvisible
    have hmark : c ≠ '\ufeff' := ne_of_isVisible hvisible
    simp [AtToken, s₀, start, findToken, isBreak_of_isVisible hvisible, hblank, hcomment, htab,
      hmark]
  have hnext : s₀.next? = some s₁ := by
    have hdrop : s₀.dropStale? = some s₀ := rfl
    have hclose : s₀.closeBlocks s₀.cursor.column = s₀ := rfl
    have hspoiled : s₀.isSpoiledWithin 4 = false := rfl
    have hspoiled₁ : s₁.isSpoiledWithin 1 = false := rfl
    have hrest : s₀.lexRest? = some s₁ := hb.lex s₀ cs
    rw [next?_eq, hat.toToken_eq, hdrop]
    simp [hclose, hspoiled, hrest, hspoiled₁]
  exact ⟨s₁, ⟨⟨1, Nat.le_refl 1, .step hat hnext .done⟩, rfl, rfl⟩, hinside, rfl⟩

/-- The end of a text behind all brackets. -/
theorem Inside.crosses_end {s : Lexer} {m : Mark} (h : s.Inside 0 m []) :
    ∃ s', Crosses [.streamEnd] s s' ∧ s'.Settled := by
  have hp := h.fresh
  have houter : s.fresh.outer = [] := List.length_eq_zero_iff.mp hp.levels
  let s' : Lexer := ((({ s.fresh with candidate := none } : Lexer).allowKey false).goto
    ⟨m.below, []⟩).push .streamEnd
  have hrest : s.fresh.lexRest? = some s' := by
    have hlex : s.fresh.lexRest? = s.fresh.lexEnd? := by
      unfold lexRest?
      rw [hp.cursor]
    rw [hlex, lexEnd?, hp.closeBlocks_eq, hp.dropCandidate?_eq, Option.map_some, hp.cursor]
    simp only [if_neg h.column]
    rfl
  have hnext : s.next? = some s' := h.next?_eq startsToken_nil hrest hp.whole
  exact ⟨s', ⟨⟨1, Nat.le_refl 1, .step (h.atToken startsToken_nil) hnext .done⟩, rfl, rfl⟩,
    rfl, houter⟩

/-- **The tokens of a text** in brackets. -/
theorem Brackets.tokens_eq {c c' : Char} {t t' : Token} (hb : Brackets c c' t t') {cs : List Char}
    {ts : List Token} (h : Reads true cs ts) :
    Yaml.tokens (String.ofList (c :: cs ++ [c'])) = t :: ts ++ [t'] ++ [.streamEnd] := by
  have hvisible := (hb.reads h).visible
  have hreadable : readable (String.ofList (c :: cs ++ [c'])) = (c :: cs ++ [c'], true) := by
    have hprintable : ∀ d ∈ (String.ofList (c :: cs ++ [c'])).toList, isPrintable d = true := by
      rw [String.toList_ofList]
      exact fun d hd => isPrintable_of_isVisible (hvisible d hd)
    rw [readable_of_isPrintable hprintable, String.toList_ofList]
  obtain ⟨s₁, hcross₁, h₁, hallowed⟩ := crosses_first hb (cs ++ [c'])
  obtain ⟨s₂, hcross₂, h₂⟩ := h.crosses (fun _ => hallowed) h₁ (hb.ends [])
  obtain ⟨s₃, hcross₃, h₃⟩ := h₂.crosses_close hb.visible' fun s => hb.lex' s _
  obtain ⟨s₄, hcross₄, hsettled⟩ := h₃.crosses_end
  have hcross := ((hcross₁.trans hcross₂).trans hcross₃).trans hcross₄
  have hqueue : s₄.queue = t :: ts ++ [t'] ++ [.streamEnd] := hcross.queue
  obtain ⟨n, hn, hscan⟩ := hcross.scan
  have hfuel : n + s₄.queue.length < 8 * ((c :: cs ++ [c']).length + 4) := by
    have hcount := (hb.reads h).count
    rw [hqueue]
    simp only [List.length_append, List.length_cons, List.length_nil] at hn hcount ⊢
    omega
  unfold Yaml.tokens
  rw [hreadable]
  simp only [unifyBreaks_of_isVisible hvisible]
  exact (run_of_scan hscan nofun hsettled hqueue (hb.reads h).within hfuel).trans hqueue

end Lexer

/-- **The tokens of a value** in compact form are its own, and the end of the text. -/
theorem tokens_compact {j : Json} (h : j.Portable) (hj : j.IsCollection) :
    tokens j.compact = j.tokens ++ [.streamEnd] := by
  unfold Json.compact
  cases h with
  | array hitems =>
    rw [Json.compactChars, Json.tokens, Json.compactItems_eq_separated,
      Json.itemTokens_eq_separated]
    exact Lexer.brackets_list.tokens_eq
      (Lexer.reads_separated _ fun j hj => (Lexer.reads_value (hitems j hj)).keyed)
  | object hnames hmembers =>
    rw [Json.compactChars, Json.tokens, Json.compactMembers_eq_separated,
      Json.memberTokens_eq_separated]
    exact Lexer.brackets_object.tokens_eq (Lexer.reads_separated _ fun m hm =>
      Lexer.reads_member (hnames m hm) (Lexer.reads_value (hmembers m hm)))
  | _ => exact hj.elim

end Yaml

end AliasReport
