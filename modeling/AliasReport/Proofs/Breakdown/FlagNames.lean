import Mathlib.Data.Nat.Bitwise
import Mathlib.Data.List.Basic
import AliasReport.Breakdown.Allocation

/-! # Which flags are named

A constant can stand for several bits. A flag word can have all of them, some of them, or none, and
a word that has only some of them names the constant all the same.

* **`FlagConstant.Touches`**, **`FlagConstant.SetIn`** — a word has a bit of a constant, or all of
  them.
* **`touches_iff`**, **`setIn_iff`** — both as statements about masks.
* **`namesSetIn`** — the names of the constants that are set.
* **`flagNames_touched`** — what is named, and when it is no more than what is set.
* **`flagNames_ne_namesSetIn`** — a constant that is named though it is not set. -/

namespace AliasReport

/-! ## Bits -/

/-- Whether a word has a bit. -/
def hasBit (flags : UInt64) (i : ℕ) : Prop := flags.toNat.testBit i = true

namespace FlagConstant

/-- A word has a bit of a constant. -/
def Touches (c : FlagConstant) (flags : UInt64) : Prop := ∃ i, hasBit c.value i ∧ hasBit flags i

/-- A constant is set in a word: it has a bit, and the word has all its bits. -/
def SetIn (c : FlagConstant) (flags : UInt64) : Prop :=
  (∃ i, hasBit c.value i) ∧ ∀ i, hasBit c.value i → hasBit flags i

end FlagConstant

/-- A word that is not zero has a bit. -/
theorem exists_hasBit_iff {w : UInt64} : (∃ i, hasBit w i) ↔ w ≠ 0 := by
  constructor
  · rintro ⟨i, hi⟩ rfl
    simp [hasBit] at hi
  · intro hw
    by_contra hnone
    refine hw (UInt64.toNat_inj.mp (Nat.zero_of_testBit_eq_false fun i => ?_))
    exact Bool.eq_false_iff.mpr fun hi => hnone ⟨i, hi⟩

/-- The common part of two words has the bits that both have. -/
theorem hasBit_and {v w : UInt64} {i : ℕ} : hasBit (v &&& w) i ↔ hasBit v i ∧ hasBit w i := by
  simp [hasBit]

/-- Words with the same bits are equal. -/
theorem eq_of_hasBit_iff {v w : UInt64} (h : ∀ i, hasBit v i ↔ hasBit w i) : v = w :=
  UInt64.toNat_inj.mp (Nat.eq_of_testBit_eq fun i => Bool.eq_iff_iff.mpr (h i))

namespace FlagConstant

variable {c : FlagConstant} {flags : UInt64}

/-- A word has a bit of a constant if their common part is not zero. -/
theorem touches_iff : c.Touches flags ↔ flags &&& c.value ≠ 0 := by
  rw [← exists_hasBit_iff, Touches]
  exact exists_congr fun i => hasBit_and.trans and_comm |>.symm

/-- A constant is set in a word if it is not zero and is its common part with the word. -/
theorem setIn_iff : c.SetIn flags ↔ c.value ≠ 0 ∧ flags &&& c.value = c.value := by
  rw [SetIn, exists_hasBit_iff]
  refine and_congr_right fun _ => ⟨fun h => ?_, fun h i hi => ?_⟩
  · exact eq_of_hasBit_iff fun i => hasBit_and.trans (and_iff_right_of_imp (h i))
  · rw [← h] at hi
    exact (hasBit_and.mp hi).1

instance : Decidable (c.Touches flags) := decidable_of_iff _ touches_iff.symm

instance : Decidable (c.SetIn flags) := decidable_of_iff _ setIn_iff.symm

/-- A word has a bit of every constant that is set in it. -/
theorem SetIn.touches (h : c.SetIn flags) : c.Touches flags :=
  h.1.imp fun i hi => ⟨hi, h.2 i hi⟩

end FlagConstant

/-! ## Names -/

/-- The names of the constants that are set in a word, in the order of the constants. -/
def namesSetIn (flags : UInt64) (constants : List FlagConstant) : List String :=
  (constants.filter fun c => c.SetIn flags).map (·.name)

/-- **The names of a word** are those of the constants of which it has a bit. -/
theorem flagNames_eq_touched (flags : UInt64) (constants : List FlagConstant) :
    flagNames flags constants = (constants.filter fun c => c.Touches flags).map (·.name) := by
  unfold flagNames
  congr 1
  exact List.filter_congr fun c _ => decide_eq_decide.mpr FlagConstant.touches_iff.symm

/-- The constants that are set come among those of which the word has a bit. -/
theorem filter_setIn_sublist (flags : UInt64) (constants : List FlagConstant) :
    (constants.filter fun c => c.SetIn flags).Sublist
      (constants.filter fun c => c.Touches flags) :=
  List.monotone_filter_right constants fun c h => by
    simp only [decide_eq_true_eq] at h ⊢
    exact h.touches

/-- **What the names of a word say.** They are the names of the constants of which the word has a
bit, in the order of the constants; those of the constants that are set are among them; and there
are no others exactly if every constant of which the word has a bit is set. -/
theorem flagNames_touched (flags : UInt64) (constants : List FlagConstant) :
    flagNames flags constants = (constants.filter fun c => c.Touches flags).map (·.name) ∧
    (namesSetIn flags constants).Sublist (flagNames flags constants) ∧
    (flagNames flags constants = namesSetIn flags constants ↔
      ∀ c ∈ constants, c.Touches flags → c.SetIn flags) := by
  have hnames := flagNames_eq_touched flags constants
  have hsub := filter_setIn_sublist flags constants
  refine ⟨hnames, hnames ▸ hsub.map _, ?_⟩
  rw [hnames, namesSetIn]
  constructor
  · intro heq c hc htouches
    -- Lists of names of one length come from lists of constants of one length.
    have hlen := congrArg List.length heq
    rw [List.length_map, List.length_map] at hlen
    have hsame := hsub.eq_of_length hlen.symm
    have hmem : c ∈ constants.filter fun c => c.Touches flags :=
      List.mem_filter.mpr ⟨hc, decide_eq_true htouches⟩
    rw [← hsame] at hmem
    exact of_decide_eq_true (List.mem_filter.mp hmem).2
  · intro h
    congr 1
    refine List.filter_congr fun c hc => decide_eq_decide.mpr ?_
    exact ⟨h c hc, FlagConstant.SetIn.touches⟩

/-- **A constant is named though it is not set**: it stands for two bits, and the word has only one
of them. -/
theorem flagNames_ne_namesSetIn :
    ¬ ∀ (flags : UInt64) (constants : List FlagConstant),
      flagNames flags constants = namesSetIn flags constants := by
  intro h
  have heq := h 2 [⟨"HOST_ACCESS", 6⟩]
  have hnames : flagNames 2 [⟨"HOST_ACCESS", 6⟩] = ["HOST_ACCESS"] := by decide
  have hset : namesSetIn 2 [⟨"HOST_ACCESS", 6⟩] = [] := by decide
  rw [hnames, hset] at heq
  cases heq

end AliasReport
