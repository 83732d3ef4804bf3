import AliasReport.Proofs.Document.Representation

/-! # Entries of buffered objects

The entries of an object that has been buffered are told apart by their keys: a union is read from
the entry under its tag and from those beside it, a record from one entry after another.

* **`entriesUnder`**, **`entriesBeside`** — the entries under a key and under others.
* **`Shape.ofBuffered_union_mapping_eq_ok_iff`**, **`Shape.ofBuffered_union_sequence_eq_ok_iff`** —
  what a union is read from.
* **`Buffered.fillEntries_append`** — the entries of a record. -/

namespace AliasReport.Document

/-! ## Keys -/

/-- The entries under a key. -/
def entriesUnder (key : String) (entries : List (Buffered × Buffered)) :
    List (Buffered × Buffered) :=
  entries.filter fun entry => entry.1.found = .text key

/-- The entries under other keys. -/
def entriesBeside (key : String) (entries : List (Buffered × Buffered)) :
    List (Buffered × Buffered) :=
  entries.filter fun entry => ¬entry.1.found = .text key

/-- Entries under a key come in the other order if the entries do. -/
theorem entriesUnder_reverse (key : String) (entries : List (Buffered × Buffered)) :
    entriesUnder key entries.reverse = (entriesUnder key entries).reverse :=
  List.filter_reverse ..

/-- So do the entries under other keys. -/
theorem entriesBeside_reverse (key : String) (entries : List (Buffered × Buffered)) :
    entriesBeside key entries.reverse = (entriesBeside key entries).reverse :=
  List.filter_reverse ..

/-- What stands under a key has it. -/
theorem eq_text_of_mem_entriesUnder {key : String} {entries : List (Buffered × Buffered)}
    {entry : Buffered × Buffered} (h : entry ∈ entriesUnder key entries) :
    entry.1 = .text key := by
  obtain ⟨k, b⟩ := entry
  have hfound := of_decide_eq_true (List.mem_filter.mp h).2
  cases k <;> cases hfound
  rfl

section

variable {tag key : String} (hkey : key ≠ tag) (before after : List (Buffered × Buffered))
  (b : Buffered)

include hkey

/-- An entry does not stand under another key. -/
theorem entriesUnder_append_cons_of_ne :
    entriesUnder tag (before ++ (.text key, b) :: after) =
      entriesUnder tag before ++ entriesUnder tag after := by
  simp [entriesUnder, Buffered.found, hkey]

/-- It stands beside the other key, where it was. -/
theorem entriesBeside_append_cons_of_ne :
    entriesBeside tag (before ++ (.text key, b) :: after) =
      entriesBeside tag before ++ (.text key, b) :: entriesBeside tag after := by
  simp [entriesBeside, Buffered.found, hkey]

end

/-! ## Unions -/

/-- Only a case that is named is read. -/
theorem Cases.mem_names_of_ofBuffered {name chosen : String} {known : List String} :
    (c : Cases) → ∀ {b v}, c.ofBuffered name known chosen b = .ok v → chosen ∈ c.names
  | .nil, b, v, _ => v.elim
  | .cons caseName label members rest, b, v, h => by
    by_cases hchosen : chosen = caseName
    · exact hchosen ▸ List.mem_cons_self
    · unfold Cases.ofBuffered at h
      rw [if_neg hchosen] at h
      obtain ⟨v, hv, -⟩ := map_eq_ok_iff.mp h
      exact List.mem_cons_of_mem _ (rest.mem_names_of_ofBuffered hv)

/-- A union that is an object is read from its tag and its other members. -/
theorem Shape.ofBuffered_union_mapping_eq_ok_iff {name tag : String} {cases : Cases}
    {entries : List (Buffered × Buffered)} {v : cases.Val} :
    (Shape.union name tag cases).ofBuffered (.mapping entries) = .ok v ↔
      ∃ chosen, entriesUnder tag entries = [(.text tag, .text chosen)] ∧
        cases.ofBuffered name cases.names chosen
          (.mapping (entriesBeside tag entries)) = .ok v := by
  have hpart : entries.partition (fun entry => entry.1.found = .text tag) =
      (entriesUnder tag entries, entriesBeside tag entries) := by
    simp [List.partition_eq_filter_filter, entriesUnder, entriesBeside, Function.comp_def]
  have hkeys : ∀ entry ∈ entriesUnder tag entries, entry.1 = .text tag :=
    fun entry => eq_text_of_mem_entriesUnder
  unfold Shape.ofBuffered
  simp only [hpart]
  generalize entriesUnder tag entries = under at hkeys
  rcases under with _ | ⟨⟨key, b⟩, _ | ⟨entry, under⟩⟩
  · simp
  · obtain rfl : key = .text tag := hkeys _ List.mem_cons_self
    cases b with
    | text chosen =>
      refine ⟨fun h => ⟨chosen, rfl, h⟩, ?_⟩
      rintro ⟨_, heq, h⟩
      cases heq
      exact h
    | _ => simp [Buffered.unlike]
  · constructor
    · intro h
      cases b <;> cases h
    · rintro ⟨_, heq, -⟩
      cases heq

/-- A union that is a list is read from its first item, which is the tag, and the others. -/
theorem Shape.ofBuffered_union_sequence_eq_ok_iff {name tag : String} {cases : Cases}
    {items : List Buffered} {v : cases.Val} :
    (Shape.union name tag cases).ofBuffered (.sequence items) = .ok v ↔
      ∃ chosen others, items = .text chosen :: others ∧
        cases.ofBuffered name cases.names chosen (.sequence others) = .ok v := by
  unfold Shape.ofBuffered
  cases items with
  | nil => simp
  | cons b others =>
    cases b with
    | text chosen =>
      refine ⟨fun h => ⟨chosen, others, rfl, h⟩, ?_⟩
      rintro ⟨_, _, heq, h⟩
      cases heq
      exact h
    | _ => simp [Buffered.unlike]

/-! ## Records -/

namespace Buffered

variable {σ : Type} {names : List String} {fill : Nat → σ → Buffered → Except Mismatch σ} {s : σ}

/-- The entry of a member is read, and then those behind it. -/
theorem fillEntries_cons {key : String} {i : Nat}
    (hi : (indexOf? key names).map Fin.val = some i) (b : Buffered)
    (after : List (Buffered × Buffered)) :
    fillEntries names fill s ((.text key, b) :: after) =
      (fill i s b).bind fun s => fillEntries names fill s after := by
  rw [fillEntries, memberPosition?, hi]
  rfl

/-- **Entries are read one after the other.** -/
theorem fillEntries_append (before after : List (Buffered × Buffered)) :
    fillEntries names fill s (before ++ after) =
      (fillEntries names fill s before).bind fun s => fillEntries names fill s after := by
  induction before generalizing s with
  | nil => rfl
  | cons entry before ih =>
    obtain ⟨key, b⟩ := entry
    rw [List.cons_append, fillEntries, fillEntries]
    cases key.memberPosition? names with
    | error err => rfl
    | ok position =>
      cases position with
      | none => exact ih
      | some i =>
        simp only [bind, ok_bind]
        cases fill i s b with
        | error err => rfl
        | ok s => exact ih

end Buffered

end AliasReport.Document
