import Mathlib.Data.List.Basic
import Mathlib.Data.List.Induction
import AliasReport.Files.Path

/-! # The names on a path

A path is read as the list of its names. The path of a list of names has just these; seen from
a directory, a path has the names of the directory and then its own.

* **`Piece`** — what can stand between two slashes and counts.
* **`piece_of_mem_steps`** — the steps of a path are such pieces, made of its characters.
* **`steps_ofNames`**, **`steps_join`** — the steps of built paths.
* **`EndsWith`** — the name that a path ends with; built paths keep it (`endsWith_ofNames`,
  `EndsWith.join`), and it is the last name of the path. -/

namespace AliasReport.Files

/-- What can stand between two slashes and counts: a text with no slash that is not empty. -/
structure Piece (name : Name) : Prop where
  ne_nil : name ≠ []
  no_slash : '/' ∉ name

/-- The step that stays is a piece of a path. -/
theorem piece_here : Piece here := ⟨by decide, by decide⟩

/-! ## Pieces -/

/-- A character that is no slash goes in front of the first piece. -/
theorem pieces_cons {c : Char} (hc : c ≠ '/') (path : List Char) :
    ∃ name names, pieces path = name :: names ∧ pieces (c :: path) = (c :: name) :: names := by
  obtain ⟨name, names, hnames⟩ := List.exists_cons_of_ne_nil (pieces_ne_nil path)
  exact ⟨name, names, hnames, by rw [pieces, if_neg hc, hnames]⟩

/-- A name without slashes is a single piece. -/
theorem pieces_of_no_slash {name : Name} (h : '/' ∉ name) : pieces name = [name] := by
  induction name with
  | nil => rfl
  | cons c name ih =>
    obtain ⟨hc, hname⟩ := not_or.mp (List.mem_cons.not.mp h)
    rw [pieces, if_neg (Ne.symm hc), ih hname]

/-- What stands in front of the first slash is the first piece. -/
theorem pieces_append {name : Name} (h : '/' ∉ name) (path : List Char) :
    pieces (name ++ '/' :: path) = name :: pieces path := by
  rw [pieces_append_slash, pieces_of_no_slash h]
  rfl

/-- The pieces of a path hold no slash and nothing but its characters. -/
theorem pieces_subset (path : List Char) :
    ∀ piece ∈ pieces path, ∀ c ∈ piece, c ∈ path ∧ c ≠ '/' := by
  induction path with
  | nil => simp
  | cons c path ih =>
    intro piece hpiece d hd
    by_cases hc : c = '/'
    · subst hc
      rw [pieces_slash] at hpiece
      obtain rfl | hpiece := List.mem_cons.mp hpiece
      · exact absurd hd List.not_mem_nil
      · exact (ih piece hpiece d hd).imp_left (List.mem_cons_of_mem _)
    · obtain ⟨name, names, hnames, hcons⟩ := pieces_cons hc path
      rw [hcons] at hpiece
      rw [hnames] at ih
      obtain rfl | hpiece := List.mem_cons.mp hpiece
      · obtain rfl | hd := List.mem_cons.mp hd
        · exact ⟨List.mem_cons_self, hc⟩
        · exact (ih name List.mem_cons_self d hd).imp_left (List.mem_cons_of_mem c)
      · exact (ih piece (List.mem_cons_of_mem _ hpiece) d hd).imp_left (List.mem_cons_of_mem c)

/-- A character of a path that is no slash stands in one of its pieces. -/
theorem exists_piece_of_mem {path : List Char} {c : Char} (hc : c ≠ '/') (h : c ∈ path) :
    ∃ piece ∈ pieces path, c ∈ piece := by
  induction path with
  | nil => exact absurd h List.not_mem_nil
  | cons d path ih =>
    by_cases hd : d = '/'
    · obtain rfl | h := List.mem_cons.mp h
      · exact absurd hd hc
      · obtain ⟨piece, hpiece, hmem⟩ := ih h
        rw [hd, pieces_slash]
        exact ⟨piece, List.mem_cons_of_mem _ hpiece, hmem⟩
    · obtain ⟨name, names, hnames, hcons⟩ := pieces_cons hd path
      rw [hcons]
      rw [hnames] at ih
      obtain rfl | h := List.mem_cons.mp h
      · exact ⟨_, List.mem_cons_self, List.mem_cons_self⟩
      · obtain ⟨piece, hpiece, hmem⟩ := ih h
        obtain rfl | hpiece := List.mem_cons.mp hpiece
        · exact ⟨_, List.mem_cons_self, List.mem_cons_of_mem d hmem⟩
        · exact ⟨piece, List.mem_cons_of_mem _ hpiece, hmem⟩

/-- Names with a slash in front of each are the pieces behind the first slash. -/
theorem pieces_flatMap {names : List Name} (h : ∀ name ∈ names, Piece name) :
    pieces (names.flatMap ('/' :: ·)) = [] :: names := by
  induction names with
  | nil => rfl
  | cons name names ih =>
    obtain ⟨hname, hnames⟩ := List.forall_mem_cons.mp h
    rw [List.flatMap_cons, List.cons_append, pieces_slash]
    cases names with
    | nil => rw [List.flatMap_nil, List.append_nil, pieces_of_no_slash hname.no_slash]
    | cons next rest =>
      -- The pieces of the rest begin with the empty one in front of its first slash.
      have hrest := ih hnames
      rw [List.flatMap_cons, List.cons_append, pieces_slash] at hrest
      rw [List.flatMap_cons, List.cons_append, pieces_append hname.no_slash,
        List.tail_eq_of_cons_eq hrest]

/-- A list of pieces is not shortened where empty pieces are left out. -/
theorem filter_pieces {names : List Name} (h : ∀ name ∈ names, Piece name) :
    names.filter (!·.isEmpty) = names :=
  List.filter_eq_self.mpr fun name hname => by simpa using (h name hname).ne_nil

/-! ## Steps -/

/-- The steps of a path are pieces made of its characters; only the step at a slash that ends it is
not written in it. -/
theorem piece_of_mem_steps {path : List Char} {step : Name} (h : step ∈ steps path) :
    Piece step ∧ (step = here ∨ ∀ c ∈ step, c ∈ path) := by
  obtain h | h := List.mem_append.mp h
  · obtain ⟨hpiece, hne⟩ := List.mem_filter.mp h
    have hsub := pieces_subset path step hpiece
    have hno : '/' ∉ step := fun hslash => (hsub _ hslash).2 rfl
    exact ⟨⟨by simpa using hne, hno⟩, .inr fun c hc => (hsub c hc).1⟩
  · split at h
    · obtain rfl := List.mem_singleton.mp h
      exact ⟨piece_here, .inl rfl⟩
    · exact absurd h List.not_mem_nil

/-- A step of a path without the null character holds none. -/
theorem no_null_of_mem_steps {path : List Char} (hpath : '\x00' ∉ path) {step : Name}
    (h : step ∈ steps path) : '\x00' ∉ step := by
  obtain ⟨-, rfl | hsub⟩ := piece_of_mem_steps h
  · decide
  · exact fun hnull => hpath (hsub _ hnull)

/-- A character of a path that is no slash stands in one of its steps. -/
theorem exists_step_of_mem {path : List Char} {c : Char} (hc : c ≠ '/') (h : c ∈ path) :
    ∃ step ∈ steps path, c ∈ step := by
  obtain ⟨piece, hpiece, hmem⟩ := exists_piece_of_mem hc h
  refine ⟨piece, List.mem_append_left _ (List.mem_filter.mpr ⟨hpiece, ?_⟩), hmem⟩
  simpa using List.ne_nil_of_mem hmem

/-- A path behind a slash adds its steps to the names in front of the slash. -/
theorem steps_append_slash (front : List Char) {path : List Char} (h : path ≠ []) :
    steps (front ++ '/' :: path) = (pieces front).filter (!·.isEmpty) ++ steps path := by
  -- Whether there is a slash at the end depends on the path behind the first one alone.
  have hlast : (front ++ '/' :: path).getLast? = path.getLast? := by
    rw [List.getLast?_append_cons, List.getLast?_cons_of_ne_nil h]
  rw [steps, pieces_append_slash, List.filter_append, hlast, List.append_assoc]
  rfl

/-- A name in front of which the directory itself is named. -/
theorem steps_here_slash {path : List Char} (h : path ≠ []) :
    steps ('.' :: '/' :: path) = here :: steps path :=
  steps_append_slash ['.'] h

/-- Slashes in front of a path are no steps. -/
theorem steps_slashes (n : Nat) (path : List Char) (h : path ≠ []) :
    steps (List.replicate n '/' ++ path) = steps path := by
  induction n with
  | zero => rfl
  | succ n ih =>
    rw [List.replicate_succ, List.cons_append, ← ih]
    exact steps_append_slash [] (List.append_ne_nil_of_right_ne_nil _ h)

/-- A name alone is the only step. -/
theorem steps_of_piece {name : Name} (h : Piece name) : steps name = [name] := by
  have hlast : name.getLast? ≠ some '/' := fun hlast => h.no_slash (List.mem_of_getLast? hlast)
  have hne : name.isEmpty = false := by simpa using h.ne_nil
  rw [steps, pieces_of_no_slash h.no_slash, if_neg hlast]
  simp [hne]

/-- The path of a list of names ends with the last of them. -/
theorem getLast?_ofNames {names : List Name} (h : ∀ name ∈ names, Piece name) (hne : names ≠ []) :
    (ofNames names).getLast? ≠ some '/' := by
  obtain rfl | ⟨front, name, rfl⟩ := List.eq_nil_or_concat' names
  · exact absurd rfl hne
  · have hname : Piece name := h name List.mem_concat_self
    rw [ofNames, if_neg (by simp), List.flatMap_append, List.flatMap_singleton,
      List.getLast?_append_cons, List.getLast?_cons_of_ne_nil hname.ne_nil]
    exact fun hlast => hname.no_slash (List.mem_of_getLast? hlast)

/-- The pieces of the path of a list of names that count are these names. -/
theorem filter_pieces_ofNames {names : List Name} (h : ∀ name ∈ names, Piece name) :
    (pieces (ofNames names)).filter (!·.isEmpty) = names := by
  by_cases hne : names = []
  · subst hne
    rfl
  · rw [ofNames, if_neg (by simpa using hne), pieces_flatMap h]
    exact filter_pieces h

/-- **The path of a list of names has just these steps.** -/
theorem steps_ofNames {names : List Name} (h : ∀ name ∈ names, Piece name) (hne : names ≠ []) :
    steps (ofNames names) = names := by
  rw [steps, if_neg (getLast?_ofNames h hne), List.append_nil, filter_pieces_ofNames h]

/-- Seen from a directory other than the root, a path stands behind a slash. -/
theorem join_ofNames {names : List Name} (h : ∀ name ∈ names, Piece name) (hne : names ≠ [])
    {path : List Char} (hrel : isAbsolute path = false) :
    join (ofNames names) path = ofNames names ++ '/' :: path := by
  rw [join, hrel, if_neg Bool.false_ne_true, if_neg (getLast?_ofNames h hne)]

/-- **A path that is seen from a directory** goes through the names of the directory first. -/
theorem steps_join {names : List Name} (h : ∀ name ∈ names, Piece name) {path : List Char}
    (hpath : path ≠ []) (hrel : isAbsolute path = false) :
    steps (join (ofNames names) path) = names ++ steps path := by
  by_cases hne : names = []
  · subst hne
    rw [join, hrel, if_neg Bool.false_ne_true]
    exact steps_append_slash [] hpath
  · rw [join_ofNames h hne hrel, steps_append_slash _ hpath, filter_pieces_ofNames h]

/-- Seen from a directory, the empty path is the one of the directory with a slash at its end. -/
theorem steps_join_nil {names : List Name} (h : ∀ name ∈ names, Piece name) :
    steps (join (ofNames names) []) = names ++ [here] := by
  by_cases hne : names = []
  · subst hne
    rfl
  · rw [join_ofNames h hne rfl, steps, pieces_append_slash,
      List.getLast?_concat, if_pos rfl, List.filter_append, filter_pieces_ofNames h, pieces_nil]
    simp

/-! ## Paths from the root -/

/-- The path of names starts from the root. -/
theorem isAbsolute_ofNames (names : List Name) : isAbsolute (ofNames names) = true := by
  cases names <;> rfl

/-- Seen from a directory, every path starts from the root. -/
theorem isAbsolute_join (names : List Name) (path : List Char) :
    isAbsolute (join (ofNames names) path) = true := by
  unfold join
  split
  · assumption
  · split <;> cases names <;> rfl

/-! ## The last name -/

/-- The steps to the directory of the last name of a path, and that name, if it is one of an
entry. -/
def lastStep? (path : List Char) : Option (List Name × Name) :=
  match (steps path).reverse.dropWhile (· = here) with
  | name :: before => if name = above then none else some (before.reverse, name)
  | [] => none

/-- A path goes on by a name after some steps, and then stays where it is. -/
structure EndsWith (path : List Char) (before : List Name) (name : Name) : Prop where
  ne_here : name ≠ here
  steps_eq : ∃ rest, (∀ step ∈ rest, step = here) ∧ steps path = before ++ name :: rest

/-- A path stays where it starts or ends with a name. -/
theorem endsWith_or (path : List Char) :
    (∀ step ∈ steps path, step = here) ∨ ∃ before name, EndsWith path before name := by
  suffices h : ∀ todo : List Name, (∀ step ∈ todo, step = here) ∨ ∃ before name rest,
      name ≠ here ∧ (∀ step ∈ rest, step = here) ∧ todo = before ++ name :: rest from
    (h (steps path)).imp_right fun ⟨before, name, rest, hname, hrest, heq⟩ =>
      ⟨before, name, hname, rest, hrest, heq⟩
  -- The last name is found from the end: a further step is the name, or leaves it as it was.
  intro todo
  induction todo using List.reverseRecOn with
  | nil => exact .inl nofun
  | append_singleton todo step ih =>
    by_cases hstep : step = here
    · obtain ih | ⟨before, name, rest, hname, hrest, rfl⟩ := ih
      · exact .inl (List.forall_mem_append.mpr ⟨ih, List.forall_mem_singleton.mpr hstep⟩)
      · exact .inr ⟨before, name, rest ++ [step], hname,
          List.forall_mem_append.mpr ⟨hrest, List.forall_mem_singleton.mpr hstep⟩, by simp⟩
    · exact .inr ⟨todo, step, [], hstep, nofun, rfl⟩

/-- The names that count for the last one are the steps to anywhere else. -/
theorem filter_pieces_eq (path : List Char) :
    ((pieces path).filter fun name => !name.isEmpty && name ≠ here) =
      (steps path).filter (· ≠ here) := by
  have hend : (if path.getLast? = some '/' then [here] else []).filter (· ≠ here) = [] := by
    split <;> rfl
  rw [steps, List.filter_append, hend, List.append_nil, List.filter_filter]
  exact List.filter_congr fun name _ => Bool.and_comm _ _

/-- Paths with the same steps have the same last name. -/
theorem lastName?_congr {path path' : List Char} (h : steps path = steps path') :
    Files.lastName? path = Files.lastName? path' := by
  rw [Files.lastName?, Files.lastName?, filter_pieces_eq, filter_pieces_eq, h]

/-- The name that a path ends with is its last name, unless it is the one of the directory above. -/
theorem EndsWith.lastName? {path : List Char} {before : List Name} {name : Name}
    (h : EndsWith path before name) :
    lastName? path = if name = above then none else some name := by
  obtain ⟨hname, rest, hrest, hsteps⟩ := h
  have hnone : rest.filter (· ≠ here) = [] :=
    List.filter_eq_nil_iff.mpr fun step hstep => by simpa using hrest step hstep
  rw [Files.lastName?, filter_pieces_eq, hsteps, List.filter_append,
    List.filter_cons_of_pos (by simpa using hname), hnone, List.getLast?_concat]

/-- The name at the end of a path is its last step unless that goes up. -/
theorem EndsWith.lastStep? {path : List Char} {before : List Name} {name : Name}
    (h : EndsWith path before name) (habove : name ≠ above) :
    lastStep? path = some (before, name) := by
  obtain ⟨hname, rest, hrest, hsteps⟩ := h
  have hdrop : (steps path).reverse.dropWhile (· = here) = name :: before.reverse := by
    rw [hsteps, List.reverse_append, List.reverse_cons, List.append_assoc,
      List.dropWhile_append_of_pos fun step hstep => by
        simpa using hrest step (List.mem_reverse.mp hstep)]
    exact List.dropWhile_cons_of_neg (by simpa using hname)
  rw [Files.lastStep?, hdrop]
  simp [habove]

/-- A path that stays where it starts has no last name. -/
theorem lastName?_eq_none {path : List Char} (h : ∀ step ∈ steps path, step = here) :
    lastName? path = none := by
  have hnone : (steps path).filter (· ≠ here) = [] :=
    List.filter_eq_nil_iff.mpr fun step hstep => by simpa using h step hstep
  rw [lastName?, filter_pieces_eq, hnone]
  rfl

/-- The path of a list of names ends with the last of them. -/
theorem endsWith_ofNames {names : List Name} {name : Name}
    (h : ∀ piece ∈ names ++ [name], Piece piece) (hname : name ≠ here) :
    EndsWith (ofNames (names ++ [name])) names name :=
  ⟨hname, [], nofun, steps_ofNames h (by simp)⟩

/-- Seen from a directory, a path ends with the same name. -/
theorem EndsWith.join {path : List Char} {before : List Name} {name : Name}
    (h : EndsWith path before name) {names : List Name} (hnames : ∀ name ∈ names, Piece name) :
    ∃ front, EndsWith (join (ofNames names) path) (front ++ before) name := by
  obtain ⟨hname, rest, hrest, hsteps⟩ := h
  cases hrel : isAbsolute path with
  | true => exact ⟨[], hname, rest, hrest, by rw [Files.join, hrel, if_pos rfl]; exact hsteps⟩
  | false =>
    have hpath : path ≠ [] := by
      rintro rfl
      simp at hsteps
    exact ⟨names, hname, rest, hrest, by
      rw [steps_join hnames hpath hrel, hsteps, List.append_assoc]⟩

end AliasReport.Files
