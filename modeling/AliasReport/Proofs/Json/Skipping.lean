import AliasReport.Proofs.Json.Locality

/-! # Skipping

Values that do not matter are skipped part by part, with the brackets that are open on a stack. A
part looks at the innermost bracket only, so that what is skipped to its end on its own is skipped
alike inside other brackets.

* **`skipPart_next`**, **`partsLeft_lt_of_skipPart`**, **`skipPart_append`** — what one part leads
  to, that it leaves fewer parts, and that brackets further out do not matter.
* **`skips_of_skipValue`** — a skipped value inside other brackets.
* **`skipValue_local`**, **`skipValue_proper`** — which characters a skipped value takes. -/

namespace AliasReport.Json

open AliasReport.Document

/-! ## The head of a value -/

/-- A number that is skipped is told by its characters and the one that it stops at. -/
theorem skipNumeral_local : Local fun cs rest => skipNumeral cs = .ok rest :=
  (Local.exists fun n => readParts_local (.malformed .invalidNumber) false n).congr
    fun cs rest => by simp [skipNumeral, map_eq_ok_iff]

/-- A number that is skipped is not empty. -/
theorem length_lt_of_skipNumeral {cs rest : List Char} (h : skipNumeral cs = .ok rest) :
    rest.length < cs.length := by
  obtain ⟨⟨n, rest⟩, hn, rfl⟩ := map_eq_ok_iff.mp h
  exact length_lt_of_readParts hn

/-- The head of a value is skipped locally. -/
theorem skipHead_local (c : Char) : LocalReader (skipHead c) := by
  unfold skipHead
  refine .ite (fun _ => .taken (readKeyword_local _) _) fun _ => ?_
  refine .ite (fun _ => .taken (readKeyword_local _) _) fun _ => ?_
  refine .ite (fun _ => .taken (readKeyword_local _) _) fun _ => ?_
  refine .ite (fun _ => .taken skipText_local _) fun _ => ?_
  refine .ite (fun _ => .pure _) fun _ => .ite (fun _ => .pure _) fun _ => ?_
  refine .ite (fun _ => .taken skipNumeral_local _) fun _ => ?_
  refine .ite (fun _ => .taken ?_ _) fun _ => .error _
  exact skipNumeral_local.cons (fun _ _ => length_lt_of_skipNumeral) c

/-! ## One part -/

/-- A part is skipped only where the text goes on, unless nothing is open behind a value. -/
theorem exists_cons_of_skipPart {stage : Stage} {opened : List Bracket} {cs : List Char}
    {taken : Option (Stage × List Bracket) × List Char} (h : skipPart stage opened cs = .ok taken)
    (hafter : stage = .after → opened ≠ []) : ∃ c tail, skipBlanks cs = c :: tail := by
  refine List.exists_cons_of_ne_nil fun hnil => ?_
  unfold skipPart at h
  rw [hnil] at h
  cases opened with
  | nil =>
    cases stage with
    | after => exact hafter rfl rfl
    | _ => cases h
  | cons bracket opened => cases bracket <;> cases stage <;> cases h

/-- Blanks in front of a part do not matter. -/
theorem skipPart_skipBlanks {stage : Stage} {opened : List Bracket}
    (hstage : stage = .after → opened ≠ []) (cs : List Char) :
    skipPart stage opened (skipBlanks cs) = skipPart stage opened cs := by
  unfold skipPart
  rw [skipBlanks_skipBlanks]
  cases opened with
  | nil =>
    cases stage with
    | after => exact absurd rfl (hstage rfl)
    | _ => cases skipBlanks cs <;> rfl
  | cons bracket opened => cases bracket <;> cases stage <;> cases skipBlanks cs <;> rfl

/-- A part that is not what follows an opening bracket takes a character, and then goes on
locally. -/
theorem skipPart_cons_local {stage : Stage} {opened : List Bracket} (hopened : stage ≠ .opened)
    (hafter : stage = .after → opened ≠ []) {c : Char} (hc : isBlank c = false) :
    LocalReader fun cs => skipPart stage opened (c :: cs) := by
  cases stage with
  | value =>
    simp only [skipPart_value (skipBlanks_cons hc _)]
    exact (skipHead_local c).map (some <| behindHead opened ·) fun _ _ => rfl
  | opened => exact absurd rfl hopened
  | key =>
    simp only [skipPart_key (skipBlanks_cons hc _)]
    refine .ite (fun _ => .error _) fun _ => .taken ?_ _
    exact (skipText_local.comp readColon_local).congr fun _ _ => bind_eq_ok_iff
  | after =>
    obtain ⟨bracket, opened, rfl⟩ := List.exists_cons_of_ne_nil (hafter rfl)
    simp only [skipPart_after (skipBlanks_cons hc _)]
    exact .ite (fun _ => .pure _) fun _ => .ite (fun _ => .pure _) fun _ => .error _

/-- Skipping from behind an opening bracket is local. -/
theorem skipPart_opened_local (opened : List Bracket) : LocalReader (skipPart .opened opened) := by
  intro next cs rest h
  obtain ⟨c, tail, hskip⟩ := exists_cons_of_skipPart h nofun
  rw [skipPart_opened hskip] at h
  split_ifs at h with hc
  · cases h
    obtain ⟨used, rfl, hused⟩ := Local.mark c cs _ hskip
    exact ⟨used, rfl, fun rest' hhead => (skipPart_opened (hused rest' hhead)).trans (if_pos hc)⟩
  · cases h
    -- Nothing but blanks is taken: the first character decides what stands there and is left to it.
    obtain ⟨used, rfl, hused⟩ := Local.blanks cs _ hskip
    refine ⟨used, rfl, fun rest' hhead => ?_⟩
    obtain ⟨tail', rfl⟩ := List.head?_eq_some_iff.mp hhead
    exact (skipPart_opened (hused _ hhead)).trans (if_neg hc)

/-- **Parts are skipped locally.** -/
theorem skipPart_local (stage : Stage) (opened : List Bracket) :
    LocalReader (skipPart stage opened) := by
  by_cases hopened : stage = .opened
  · subst hopened
    exact skipPart_opened_local opened
  · by_cases hafter : stage = .after ∧ opened = []
    · obtain ⟨rfl, rfl⟩ := hafter
      exact .pure none
    · have hafter : stage = .after → opened ≠ [] := not_and.mp hafter
      refine .head (skipPart_skipBlanks hafter) ?_ fun c hc => skipPart_cons_local hopened hafter hc
      intro taken h
      obtain ⟨c, tail, hskip⟩ := exists_cons_of_skipPart h hafter
      exact List.cons_ne_nil c tail hskip.symm

/-- A part leads to another stage; behind an opening bracket something is open. -/
theorem exists_next_of_skipPart {stage : Stage} {opened : List Bracket} {cs rest : List Char}
    {next : Option (Stage × List Bracket)} (h : skipPart stage opened cs = .ok (next, rest))
    (hafter : stage = .after → opened ≠ []) :
    ∃ stage' opened', next = some (stage', opened') ∧ (stage' = .opened → opened' ≠ []) := by
  obtain ⟨c, tail, hskip⟩ := exists_cons_of_skipPart h hafter
  cases stage with
  | value =>
    rw [skipPart_value hskip] at h
    obtain ⟨⟨_ | bracket, behind⟩, -, heq⟩ := map_eq_ok_iff.mp h
    · cases heq
      exact ⟨_, _, rfl, nofun⟩
    · cases heq
      exact ⟨_, _, rfl, fun _ => List.cons_ne_nil _ _⟩
  | key =>
    rw [skipPart_key hskip] at h
    split_ifs at h
    · cases h
    · obtain ⟨behind, -, heq⟩ := map_eq_ok_iff.mp h
      cases heq
      exact ⟨_, _, rfl, nofun⟩
  | opened =>
    rw [skipPart_opened hskip] at h
    split_ifs at h
    · cases h
      exact ⟨_, _, rfl, nofun⟩
    · cases h
      exact ⟨_, _, rfl, fun hopened => absurd hopened (resuming_ne_opened opened)⟩
  | after =>
    obtain ⟨bracket, opened, rfl⟩ := List.exists_cons_of_ne_nil (hafter rfl)
    rw [skipPart_after hskip] at h
    split at h
    · cases h
      exact ⟨_, _, rfl, fun _ => List.cons_ne_nil _ _⟩
    · split at h
      · cases h
        exact ⟨_, _, rfl, nofun⟩
      · cases h

/-- A part leads to another stage, unless nothing is open behind a value. -/
theorem skipPart_next {stage : Stage} {opened : List Bracket} {cs rest : List Char}
    {next : Option (Stage × List Bracket)} (h : skipPart stage opened cs = .ok (next, rest)) :
    (next = none ∧ stage = .after ∧ opened = [] ∧ rest = cs) ∨
      ∃ stage' opened', next = some (stage', opened') ∧ (stage' = .opened → opened' ≠ []) := by
  by_cases hafter : stage = .after ∧ opened = []
  · obtain ⟨rfl, rfl⟩ := hafter
    cases h
    exact .inl ⟨rfl, rfl, rfl, rfl⟩
  · exact .inr (exists_next_of_skipPart h (not_and.mp hafter))

/-- **Every part leaves fewer parts.** -/
theorem partsLeft_lt_of_skipPart {stage stage' : Stage} {opened opened' : List Bracket}
    {cs rest : List Char} (h : skipPart stage opened cs = .ok (some (stage', opened'), rest)) :
    partsLeft stage' rest < partsLeft stage cs := by
  have hafter : stage = .after → opened ≠ [] := by
    rintro rfl rfl
    cases h
  obtain ⟨c, tail, hskip⟩ := exists_cons_of_skipPart h hafter
  -- Only behind an opening bracket may a part take no character; the stage changes then.
  by_cases hopened : stage = .opened
  · subst hopened
    rw [skipPart_opened hskip] at h
    split_ifs at h
    · cases h
      exact partsLeft_lt (length_lt_of_skipBlanks hskip)
    · cases h
      rw [← hskip]
      exact partsLeft_lt_opened (resuming_ne_opened opened)
  · rw [← skipPart_skipBlanks hafter, hskip] at h
    have hlen := (skipPart_cons_local hopened hafter (isBlank_of_skipBlanks hskip) _).length_le h
    exact partsLeft_lt (hlen.trans_lt (length_lt_of_skipBlanks hskip))

/-- What is open further out is kept. -/
def enclose (outer : List Bracket) (next : Option (Stage × List Bracket) × List Char) :
    Option (Stage × List Bracket) × List Char :=
  (next.1.map fun inner => (inner.1, inner.2 ++ outer), next.2)

/-- **A part is skipped alike** whatever is open further out. -/
theorem skipPart_append {stage : Stage} {opened : List Bracket}
    (h : stage = .opened ∨ stage = .after → opened ≠ []) (outer : List Bracket) (cs : List Char) :
    skipPart stage (opened ++ outer) cs = (skipPart stage opened cs).map (enclose outer) := by
  cases stage with
  | value =>
    cases hskip : skipBlanks cs with
    | nil => simp [skipPart, hskip, unfinished]
    | cons c tail =>
      rw [skipPart_value hskip, skipPart_value hskip]
      cases skipHead c tail with
      | error err => rfl
      | ok head => obtain ⟨_ | bracket, behind⟩ := head <;> rfl
  | key =>
    cases hskip : skipBlanks cs with
    | nil => simp [skipPart, hskip, unfinished]
    | cons c tail =>
      rw [skipPart_key hskip, skipPart_key hskip, apply_ite (Except.map (enclose outer))]
      cases (skipText tail).bind readColon <;> rfl
  | opened =>
    obtain ⟨bracket, opened, rfl⟩ := List.exists_cons_of_ne_nil (h (.inl rfl))
    cases hskip : skipBlanks cs with
    | nil => cases bracket <;> simp [skipPart, hskip, unfinished]
    | cons c tail =>
      rw [skipPart_opened hskip, skipPart_opened hskip, apply_ite (Except.map (enclose outer))]
      rfl
  | after =>
    obtain ⟨bracket, opened, rfl⟩ := List.exists_cons_of_ne_nil (h (.inr rfl))
    cases hskip : skipBlanks cs with
    | nil => cases bracket <;> simp [skipPart, hskip, unfinished]
    | cons c tail =>
      rw [List.cons_append, skipPart_after hskip, skipPart_after hskip,
        apply_ite (Except.map (enclose outer)), apply_ite (Except.map (enclose outer))]
      rfl

/-! ## Values that do not matter -/

/-- **What is skipped to its end is skipped inside other brackets.** -/
theorem skips_of_skipFrom {fuel : Nat} {stage : Stage} {opened : List Bracket}
    {cs rest : List Char} (h : skipFrom fuel stage opened cs = .ok rest)
    (hopened : stage = .opened → opened ≠ []) (outer : List Bracket) :
    Skips stage (opened ++ outer) cs .after outer rest := by
  induction fuel generalizing stage opened cs with
  | zero => cases h
  | succ fuel ih =>
    obtain ⟨⟨next, mid⟩, hpart, h⟩ := bind_eq_ok_iff.mp h
    obtain ⟨rfl, rfl, rfl, rfl⟩ | ⟨stage', opened', rfl, hopened'⟩ := skipPart_next hpart
    · cases h
      exact fun fuel => ⟨fuel, le_rfl, rfl⟩
    · -- What is open further out is not looked at before the value is closed.
      have hne : stage = .opened ∨ stage = .after → opened ≠ [] := by
        rintro (rfl | rfl)
        · exact hopened rfl
        · rintro rfl
          cases hpart
      refine .trans (.part ?_ (partsLeft_lt_of_skipPart hpart)) (ih h hopened')
      rw [skipPart_append hne, hpart]
      rfl

/-- Any fuel that is enough is as good as the fuel that is given. -/
theorem skipValue_of_skipFrom {fuel : Nat} {cs rest : List Char}
    (h : skipFrom fuel .value [] cs = .ok rest) : skipValue cs = .ok rest :=
  skipValue_of_skips (skips_of_skipFrom h nofun [])

/-- A value that is skipped can be skipped inside other brackets. -/
theorem skips_of_skipValue {cs rest : List Char} (h : skipValue cs = .ok rest)
    (outer : List Bracket) : Skips .value outer cs .after outer rest :=
  skips_of_skipFrom h nofun outer

/-- Skipping up to the end of a value is local at every stage. -/
theorem skipFrom_local (fuel : Nat) (stage : Stage) (opened : List Bracket) :
    Local fun cs rest => skipFrom fuel stage opened cs = .ok rest := by
  induction fuel generalizing stage opened with
  | zero => exact fun _ _ h => by cases h
  | succ fuel ih =>
    intro cs rest h
    obtain ⟨⟨next, mid⟩, hpart, h⟩ := bind_eq_ok_iff.mp h
    obtain ⟨used, rfl, hused⟩ := skipPart_local stage opened next cs mid hpart
    cases next with
    | none =>
      cases h
      exact ⟨used, rfl, fun rest' hhead => bind_eq_ok_iff.mpr ⟨_, hused rest' hhead, rfl⟩⟩
    | some next =>
      obtain ⟨more, rfl, hmore⟩ := ih next.1 next.2 mid rest h
      refine ⟨used ++ more, (List.append_assoc ..).symm, fun rest' hhead => ?_⟩
      rw [List.append_assoc]
      exact bind_eq_ok_iff.mpr
        ⟨_, hused _ (head?_append_congr hhead more), hmore rest' hhead⟩

/-- **Values that do not matter are skipped locally.** -/
theorem skipValue_local : Local fun cs rest => skipValue cs = .ok rest := by
  intro cs rest h
  obtain ⟨used, heq, hused⟩ := skipFrom_local _ _ _ cs rest h
  exact ⟨used, heq, fun rest' hhead => skipValue_of_skipFrom (hused rest' hhead)⟩

/-- The first part of a value that is skipped. -/
theorem skipPart_of_skipValue {cs rest : List Char} (h : skipValue cs = .ok rest) :
    ∃ stage opened mid, skipPart .value [] cs = .ok (some (stage, opened), mid) ∧
      skipFrom (2 * cs.length + 1) stage opened mid = .ok rest := by
  obtain ⟨⟨next, mid⟩, hpart, h⟩ := bind_eq_ok_iff.mp h
  obtain ⟨-, hstage, -⟩ | ⟨stage, opened, rfl, -⟩ := skipPart_next hpart
  · cases hstage
  · exact ⟨stage, opened, mid, hpart, h⟩

/-- Skipped values are not empty and close nothing. -/
theorem skipValue_proper : Proper fun cs (_ : Unit) rest => skipValue cs = .ok rest where
  opens {cs _ rest} h := by
    obtain ⟨stage, opened, mid, hpart, -⟩ := skipPart_of_skipValue h
    obtain ⟨c, tail, hskip⟩ := exists_cons_of_skipPart hpart nofun
    refine ⟨c, tail, hskip, ?_⟩
    rintro rfl
    rw [skipPart_value hskip] at hpart
    cases hpart
  shortens {cs _ rest} h := by
    obtain ⟨stage, opened, mid, hpart, h⟩ := skipPart_of_skipValue h
    have hmid := partsLeft_lt_of_skipPart hpart
    have hrest := (skipFrom_local _ _ _).length_le h
    simp only [partsLeft, reduceCtorEq, if_false] at hmid
    omega
  blanks {cs _ rest} := by
    have hstage : Stage.value = .after → ([] : List Bracket) ≠ [] := nofun
    have hpart := skipPart_skipBlanks hstage cs
    constructor
    · intro h
      -- The fuel differs with the blanks, but any fuel that is enough will do.
      refine skipValue_of_skipFrom (?_ : skipFrom (2 * (skipBlanks cs).length + 2) _ _ _ = _)
      rw [skipFrom, ← hpart]
      exact h
    · intro h
      refine skipValue_of_skipFrom (?_ : skipFrom (2 * cs.length + 2) _ _ _ = _)
      rw [skipFrom, hpart]
      exact h

end AliasReport.Json
