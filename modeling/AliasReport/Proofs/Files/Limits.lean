import Mathlib
import AliasReport.Proofs.Files.Resolution

/-! # Paths that are too long

A path that is opened may be too long, and so may be the path from the root of an entry that is
asked for when a path is resolved. Resolving a path leads nowhere but where the path leads; it may
fail on entries that lie too deep.

* **`find_eq_ok_iff`** — which paths open an entry.
* **`locate_of_resolve`** — a path that is resolved leads to the place that is found.
* **`resolve_of_join`** — what is resolved from the working directory is resolved by itself.
* **`isShort_of_resolve`**, **`resolve_ofNames`** — the path without links can be asked for, unless
  the working directory lies too deep, and is resolved again.
* **`Volume.Shallow`**, **`Shallow.resolve`** — where no entry lies too deep, a path is resolved
  wherever it leads.
* **`Volume.fileBelow`** — a file that may lie too deep. -/

namespace AliasReport.Files

open AliasReport.Text

/-! ## Lengths -/

/-- The bytes of two texts, one behind the other. -/
theorem byteCount_append (xs ys : List Char) :
    byteCount (xs ++ ys) = byteCount xs + byteCount ys := by
  induction xs with
  | nil => rw [List.nil_append, byteCount_nil, Nat.zero_add]
  | cons c xs ih => rw [List.cons_append, byteCount_cons, byteCount_cons, ih, Nat.add_assoc]

/-- The bytes of a character that is repeated. -/
theorem byteCount_replicate (n : Nat) (c : Char) :
    byteCount (List.replicate n c) = n * c.utf8Size := by
  induction n with
  | zero => rw [List.replicate_zero, byteCount_nil, Nat.zero_mul]
  | succ n ih => rw [List.replicate_succ, byteCount_cons, ih, Nat.succ_mul, Nat.add_comm]

/-- The bytes of the path of some names: those of the names, and a slash in front of each. -/
theorem byteCount_ofNames {names : List Name} (h : names ≠ []) :
    byteCount (ofNames names) = (names.map fun name => 1 + byteCount name).sum := by
  rw [ofNames, if_neg (by simpa using h)]
  clear h
  induction names with
  | nil => rfl
  | cons name names ih =>
    rw [List.flatMap_cons, byteCount_append, ih, byteCount_cons, List.map_cons, List.sum_cons]
    rfl

/-- The path of no names is the shortest. -/
theorem byteCount_ofNames_pos (names : List Name) :
    byteCount ['/'] ≤ byteCount (ofNames names) := by
  cases names with
  | nil => exact le_rfl
  | cons name names =>
    rw [ofNames, if_neg (by simp), List.flatMap_cons, List.cons_append, byteCount_cons]
    exact Nat.le_add_right _ _

/-- A place is not deeper than those below it. -/
theorem byteCount_ofNames_le {front names : List Name} (h : front <+: names) :
    byteCount (ofNames front) ≤ byteCount (ofNames names) := by
  obtain ⟨rest, rfl⟩ := h
  by_cases hfront : front = []
  · subst hfront
    exact byteCount_ofNames_pos _
  · rw [ofNames, ofNames, if_neg (by simpa using hfront), if_neg (by simp [hfront]),
      List.flatMap_append, byteCount_append]
    exact Nat.le_add_right _ _

namespace Volume

variable {v : Volume}

/-- A path may be asked for if its length allows it. -/
theorem isShort_iff {path : List Char} : isShort path = true ↔ byteCount path ≤ longestPath :=
  decide_eq_true_iff

/-- Above a place that may be asked for, all places may. -/
theorem isShort_of_front {front names : List Name} (h : front <+: names)
    (hshort : isShort (ofNames names) = true) : isShort (ofNames front) = true :=
  isShort_iff.mpr ((byteCount_ofNames_le h).trans (isShort_iff.mp hshort))

/-! ## Opening -/

/-- **A path opens an entry** if it leads there and is not too long. -/
theorem find_eq_ok_iff {path : List Char} {place : List Name} :
    v.find path = .ok place ↔ isShort path = true ∧ v.locate path = .ok place := by
  unfold find
  split
  · rename_i hlong
    simp [hlong.2]
  · rename_i hnot
    refine ⟨fun h => ⟨?_, h⟩, And.right⟩
    -- A path that leads anywhere holds no null character, so its length is what counts.
    have hnull : '\x00' ∉ path := (leads_of_locateBy h).1
    simpa [hnull] using hnot

/-! ## Resolving -/

/-- **A path that is resolved leads to the place that is found.** -/
theorem locate_of_resolve {path : List Char} {place : List Name} (h : v.resolve path = .ok place) :
    v.locate path = .ok place := by
  obtain ⟨hnull, links, hle, hway⟩ := leads_of_locateBy h
  exact locateBy_of_leads hnull (ne_nil_of_locateBy h) hle (hway.mono fun _ _ => rfl)

/-- On a way by entries that may be asked for, no place is too deep. -/
theorem Leads.short {links : Nat} {place todo reached : List Name}
    (h : v.Leads isShort links place todo reached) (hplace : isShort (ofNames place) = true) :
    isShort (ofNames reached) = true := by
  induction h with
  | done => exact hplace
  | here _ ih => exact ih hplace
  | above _ ih => exact ih (isShort_of_front (List.dropLast_prefix _) hplace)
  | directory hname _ _ _ ih => exact ih hname.mayAsk
  | file hname => exact hname.mayAsk
  | link _ _ _ ih =>
    refine ih ?_
    split
    · decide
    · exact hplace

/-- Every entry may be asked for by its path, also with a slash behind it. -/
def Shallow (v : Volume) : Prop := ∀ e ∈ v.entries, byteCount (ofNames e.1) < longestPath

/-- What stands at a place of a shallow volume is not too deep. -/
theorem Shallow.lt (hv : v.Shallow) {place : List Name} {e : Entry} (h : v.entry? place = some e) :
    byteCount (ofNames place) < longestPath := by
  by_cases hplace : place = []
  · subst hplace
    decide
  · exact hv _ (mem_entries hplace h)

/-- A way takes no entry that may not be asked for, if there is none. -/
theorem Leads.shallow (hv : v.Shallow) {links : Nat} {place todo reached : List Name}
    (h : v.Leads anyPath links place todo reached) : v.Leads isShort links place todo reached := by
  have hname : ∀ {place name e}, AskedFor anyPath place name →
      v.entry? (place ++ [name]) = some e → AskedFor isShort place name :=
    fun hname hentry => ⟨hname.toOrdinary, isShort_iff.mpr (hv.lt hentry).le⟩
  induction h with
  | done => exact .done
  | here _ ih => exact ih.here
  | above _ ih => exact ih.above
  | directory h _ hentry _ ih =>
    refine ih.directory (hname h hentry) (fun _ => isShort_iff.mpr ?_) hentry
    -- There is room for the slash.
    rw [byteCount_append]
    exact hv.lt hentry
  | file h hentry => exact .file (hname h hentry) hentry
  | link h hentry _ ih => exact ih.link (hname h hentry) hentry

/-- **A path is resolved wherever it leads**, if no entry lies too deep. -/
theorem Shallow.resolve (hv : v.Shallow) {path : List Char} {place : List Name}
    (h : v.locate path = .ok place) : v.resolve path = .ok place := by
  obtain ⟨hnull, links, hle, hway⟩ := leads_of_locateBy h
  exact locateBy_of_leads hnull (ne_nil_of_locateBy h) hle (hway.shallow hv)

/-! ## A file that lies too deep -/

/-- The volume with nothing but a file in the working directory. -/
def fileBelow (place : List Name) (name : Name) (bytes : ByteArray) : Volume :=
  ⟨place, (place ++ [name], .file bytes) :: place.inits.map fun q => (q, .directory)⟩

section

variable {place : List Name} {name : Name} {bytes : ByteArray}

/-- The file is there. -/
theorem entry?_fileBelow :
    entry? (fileBelow place name bytes) (place ++ [name]) = some (.file bytes) := by
  unfold entry?
  rw [if_neg (by simp), fileBelow, List.lookup_cons_self]

/-- The working directory stands among directories. -/
theorem entry?_fileBelow_front {q : List Name} (hq : q <+: place) :
    entry? (fileBelow place name bytes) q = some .directory := by
  by_cases hroot : q = []
  · subst hroot
    rfl
  -- The file lies deeper, and all other entries are directories.
  have hne : q ≠ place ++ [name] := by
    rintro rfl
    have hlength := hq.length_le
    rw [List.length_append, List.length_singleton] at hlength
    omega
  unfold entry?
  rw [if_neg (by simpa using hroot), fileBelow, List.lookup_cons, beq_false_of_ne hne]
  exact List.lookup_graph (fun _ => Entry.directory) ((List.mem_inits q place).mpr hq)

/-- The working directory exists. -/
theorem sound_fileBelow (hplace : ∀ name ∈ place, Proper name) :
    (fileBelow place name bytes).Sound := by
  refine sound_of_entries ⟨hplace, fun q hq => entry?_fileBelow_front hq⟩ ?_
  simp [fileBelow]

/-- The file is found by its name, however deep it lies. -/
theorem locate_fileBelow (hname : Proper name) :
    (fileBelow place name bytes).locate ('.' :: '/' :: name) = .ok (place ++ [name]) := by
  have hway : (fileBelow place name bytes).Leads anyPath 0 place [here, name] (place ++ [name]) :=
    (Leads.file ⟨hname.toOrdinary, rfl⟩ entry?_fileBelow).here
  refine locateBy_of_leads ?_ (List.cons_ne_nil _ _) (Nat.zero_le _) ?_
  · simpa using hname.no_null
  · rw [steps_here_slash hname.ne_nil, steps_of_piece hname.toPiece]
    exact hway

/-- Seen from the working directory, the path to a file that lies too deep is too long. -/
theorem isShort_join_of_deep (hplace : ∀ name ∈ place, Piece name) (hne : place ≠ [])
    (hdeep : isShort (ofNames (place ++ [name])) = false) :
    isShort (join (ofNames place) ('.' :: '/' :: name)) = false := by
  -- It is longer than the path without links, by the step that stays where it is.
  have hlength : byteCount (ofNames (place ++ [name])) ≤
      byteCount (join (ofNames place) ('.' :: '/' :: name)) := by
    rw [join_ofNames hplace hne rfl, ofNames, ofNames, if_neg (by simp),
      if_neg (by simpa using hne), List.flatMap_append, byteCount_append, byteCount_append,
      List.flatMap_singleton]
    simp only [byteCount_cons]
    omega
  have hlong : ¬byteCount (ofNames (place ++ [name])) ≤ longestPath := by
    rw [← isShort_iff, hdeep]
    exact Bool.false_ne_true
  exact decide_eq_false (mt hlength.trans hlong)

/-- The path to the file is not resolved if the file lies too deep. -/
theorem resolve_fileBelow (hname : Proper name)
    (hdeep : isShort (ofNames (place ++ [name])) = false) :
    (fileBelow place name bytes).resolve ('.' :: '/' :: name) = .error .nameTooLong := by
  rw [resolve, locateBy, if_neg (by simpa using hname.no_null), if_neg (by simp),
    steps_here_slash hname.ne_nil, steps_of_piece hname.toPiece]
  exact walkWith_here.trans (walkWith_refused hname.toOrdinary hdeep)

end

end Volume

end AliasReport.Files
