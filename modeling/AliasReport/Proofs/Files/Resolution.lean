import Mathlib.Data.List.Infix
import AliasReport.Files.Volume
import AliasReport.Proofs.Files.Steps

/-! # Where paths lead

The walk along a path follows links by a call of its own, with one link less to spare, and takes
only entries that may be asked for. It is opened here once, as the relation of the ways that it
takes; what holds of the place that a path leads to is proved by induction on the way.

* **`Volume.Leads`**, **`walk_eq_ok_iff`** — the ways through a volume, with the number of links
  that are followed, and that the walk takes them.
* **`Leads.split`** — a way is one after another.
* **`Volume.Sound`**, **`Leads.stands`** — in a volume where the working directory exists, a path
  leads to a file or a directory with nothing but directories above it.
* **`locate_ofNames`** — the path without links leads where it says.
* **`locate_join`** — a path leads to the same place seen from the working directory. -/

namespace AliasReport.Files

open AliasReport.Text

/-- A name that is looked up in a directory. -/
structure Ordinary (name : Name) : Prop where
  ne_here : name ≠ here
  ne_above : name ≠ above
  short : byteCount name ≤ Volume.longestName

/-- A name that may be asked for by the path to it. -/
structure AskedFor (mayAsk : List Char → Bool) (place : List Name) (name : Name) : Prop
    extends Ordinary name where
  mayAsk : mayAsk (ofNames (place ++ [name])) = true

namespace Volume

variable {v : Volume} {mayAsk : List Char → Bool}

/-! ## One step -/

section

variable {follow : List Name → List Name → Except AccessFault (List Name)}
  {place todo : List Name} {name : Name}

/-- No steps lead nowhere else. -/
@[simp] theorem walkWith_nil : v.walkWith mayAsk follow place [] = .ok place := rfl

/-- The name of the directory itself stays there. -/
@[simp] theorem walkWith_here :
    v.walkWith mayAsk follow place (here :: todo) = v.walkWith mayAsk follow place todo := by
  rw [walkWith, if_pos rfl]

/-- The name of the directory above goes there. -/
@[simp] theorem walkWith_above :
    v.walkWith mayAsk follow place (above :: todo) =
      v.walkWith mayAsk follow place.dropLast todo := by
  rw [walkWith, if_neg (by decide), if_pos rfl]

/-- A name that may not be asked for is refused. -/
theorem walkWith_refused (hname : Ordinary name)
    (hask : mayAsk (ofNames (place ++ [name])) = false) :
    v.walkWith mayAsk follow place (name :: todo) = .error .nameTooLong :=
  (if_neg hname.ne_here).trans <| (if_neg hname.ne_above).trans <|
    (if_neg (Nat.not_lt.mpr hname.short)).trans <| if_pos (by simp [hask])

/-- A name that leads anywhere may be asked for. -/
theorem askedFor_of_walkWith (hhere : name ≠ here) (habove : name ≠ above) {reached : List Name}
    (h : v.walkWith mayAsk follow place (name :: todo) = .ok reached) :
    AskedFor mayAsk place name := by
  have hshort : byteCount name ≤ longestName := by
    by_contra hlong
    rw [walkWith, if_neg hhere, if_neg habove, if_pos (Nat.lt_of_not_le hlong)] at h
    cases h
  have hname : Ordinary name := ⟨hhere, habove, hshort⟩
  cases hask : mayAsk (ofNames (place ++ [name])) with
  | true => exact ⟨hname, hask⟩
  | false =>
    rw [walkWith_refused hname hask] at h
    cases h

/-- A name is looked up in the directory that the way has reached, if it may be asked for. -/
theorem walkWith_ordinary (hname : AskedFor mayAsk place name) :
    v.walkWith mayAsk follow place (name :: todo) =
      match v.entry? (place ++ [name]) with
      | none => .error .notFound
      | some .directory =>
        if needsDirectory todo && !mayAsk (ofNames (place ++ [name]) ++ ['/']) then
          .error .nameTooLong
        else v.walkWith mayAsk follow (place ++ [name]) todo
      | some (.file _) => if todo.isEmpty then .ok (place ++ [name]) else .error .notDirectory
      | some (.link target) =>
        follow (if isAbsolute target then [] else place) (steps target ++ todo) := by
  refine (if_neg hname.ne_here).trans <| (if_neg hname.ne_above).trans <|
    (if_neg (Nat.not_lt.mpr hname.short)).trans <| (if_neg (by simp [hname.mayAsk])).trans ?_
  rcases v.entry? (place ++ [name]) with _ | ⟨_⟩ | _ | _ <;> rfl

/-- A directory is entered, if it may be asked for as one where it has to be. -/
theorem walkWith_directory (hname : AskedFor mayAsk place name)
    (hslash : needsDirectory todo = true → mayAsk (ofNames (place ++ [name]) ++ ['/']) = true)
    (hentry : v.entry? (place ++ [name]) = some .directory) :
    v.walkWith mayAsk follow place (name :: todo) =
      v.walkWith mayAsk follow (place ++ [name]) todo := by
  rw [walkWith_ordinary hname, hentry]
  exact if_neg (by simpa using hslash)

end

/-! ## Ways -/

/-- `v.Leads mayAsk links place todo reached`: from a place, the steps that are to do lead to
another place by entries that may be asked for, and `links` links are followed. -/
inductive Leads (v : Volume) (mayAsk : List Char → Bool) :
    Nat → List Name → List Name → List Name → Prop
  | done {place} : Leads v mayAsk 0 place [] place
  | here {links place todo reached} (rest : Leads v mayAsk links place todo reached) :
      Leads v mayAsk links place (here :: todo) reached
  | above {links place todo reached} (rest : Leads v mayAsk links place.dropLast todo reached) :
      Leads v mayAsk links place (above :: todo) reached
  | directory {links place name todo reached} (hname : AskedFor mayAsk place name)
      (hslash : needsDirectory todo = true → mayAsk (ofNames (place ++ [name]) ++ ['/']) = true)
      (hentry : v.entry? (place ++ [name]) = some .directory)
      (rest : Leads v mayAsk links (place ++ [name]) todo reached) :
      Leads v mayAsk links place (name :: todo) reached
  | file {place name bytes} (hname : AskedFor mayAsk place name)
      (hentry : v.entry? (place ++ [name]) = some (.file bytes)) :
      Leads v mayAsk 0 place [name] (place ++ [name])
  | link {links place name target todo reached} (hname : AskedFor mayAsk place name)
      (hentry : v.entry? (place ++ [name]) = some (.link target))
      (rest : Leads v mayAsk links (if isAbsolute target then [] else place)
        (steps target ++ todo) reached) :
      Leads v mayAsk (links + 1) place (name :: todo) reached

/-- The walk takes a way if what follows links does. -/
theorem leads_of_walkWith {follow : List Name → List Name → Except AccessFault (List Name)}
    {bound : Nat}
    (hfollow : ∀ {place todo reached}, follow place todo = .ok reached →
      ∃ links < bound, v.Leads mayAsk links place todo reached)
    {place todo reached : List Name} (h : v.walkWith mayAsk follow place todo = .ok reached) :
    ∃ links ≤ bound, v.Leads mayAsk links place todo reached := by
  -- The steps in front of the first link are done here; `follow` goes on from that link.
  induction todo generalizing place with
  | nil =>
    obtain rfl := Except.ok.inj (walkWith_nil.symm.trans h)
    exact ⟨0, Nat.zero_le _, .done⟩
  | cons name todo ih =>
    by_cases hhere : name = Files.here
    · subst hhere
      obtain ⟨links, hle, hrest⟩ := ih (walkWith_here.symm.trans h)
      exact ⟨links, hle, .here hrest⟩
    by_cases habove : name = Files.above
    · subst habove
      obtain ⟨links, hle, hrest⟩ := ih (walkWith_above.symm.trans h)
      exact ⟨links, hle, .above hrest⟩
    have hname := askedFor_of_walkWith hhere habove h
    rw [walkWith_ordinary hname] at h
    split at h
    · cases h
    · rename_i hentry
      split at h
      · cases h
      · rename_i hslash
        obtain ⟨links, hle, hrest⟩ := ih h
        exact ⟨links, hle, .directory hname (by simpa using hslash) hentry hrest⟩
    · rename_i bytes hentry
      split at h
      · rename_i hempty
        obtain rfl := List.isEmpty_iff.mp hempty
        obtain rfl := Except.ok.inj h
        exact ⟨0, Nat.zero_le _, .file hname hentry⟩
      · cases h
    · rename_i target hentry
      obtain ⟨links, hlt, hrest⟩ := hfollow h
      exact ⟨links + 1, hlt, .link hname hentry hrest⟩

/-- A way with no more links than can be followed is walked. -/
theorem Leads.walk {links bound : Nat} {place todo reached : List Name}
    (h : v.Leads mayAsk links place todo reached) (hle : links ≤ bound) :
    v.walk mayAsk bound place todo = .ok reached := by
  induction h generalizing bound with
  | done => cases bound <;> rfl
  | here _ ih =>
    have := ih hle
    cases bound <;> exact walkWith_here.trans this
  | above _ ih =>
    have := ih hle
    cases bound <;> exact walkWith_above.trans this
  | directory hname hslash hentry _ ih =>
    have := ih hle
    cases bound <;> exact (walkWith_directory hname hslash hentry).trans this
  | file hname hentry =>
    cases bound <;> · rw [Volume.walk, walkWith_ordinary hname, hentry]; rfl
  | link hname hentry _ ih =>
    cases bound with
    | zero => exact absurd hle (Nat.not_succ_le_zero _)
    | succ bound =>
      rw [Volume.walk, walkWith_ordinary hname, hentry]
      exact ih (Nat.le_of_succ_le_succ hle)

/-- **The walk takes the ways through a volume** that follow no more links than it may. -/
theorem walk_eq_ok_iff {bound : Nat} {place todo reached : List Name} :
    v.walk mayAsk bound place todo = .ok reached ↔
      ∃ links ≤ bound, v.Leads mayAsk links place todo reached := by
  refine ⟨fun h => ?_, fun ⟨links, hle, hway⟩ => hway.walk hle⟩
  -- The walk recurs on how many links may still be followed.
  induction bound generalizing place todo reached with
  | zero => exact leads_of_walkWith (fun hnone => absurd hnone (by simp)) h
  | succ bound ih =>
    refine leads_of_walkWith (fun h => ?_) h
    obtain ⟨links, hle, hway⟩ := ih h
    exact ⟨links, Nat.lt_succ_of_le hle, hway⟩

/-- What may be asked for may be among more. -/
theorem Leads.mono {mayAsk' : List Char → Bool}
    (hmono : ∀ path, mayAsk path = true → mayAsk' path = true) {links : Nat}
    {place todo reached : List Name} (h : v.Leads mayAsk links place todo reached) :
    v.Leads mayAsk' links place todo reached := by
  have hname : ∀ {place name}, AskedFor mayAsk place name → AskedFor mayAsk' place name :=
    fun hname => ⟨hname.toOrdinary, hmono _ hname.mayAsk⟩
  induction h with
  | done => exact .done
  | here _ ih => exact ih.here
  | above _ ih => exact ih.above
  | directory h hslash hentry _ ih =>
    exact ih.directory (hname h) (fun hneeds => hmono _ (hslash hneeds)) hentry
  | file h hentry => exact .file (hname h) hentry
  | link h hentry _ ih => exact ih.link (hname h) hentry

/-- A way comes after one with no steps. -/
theorem Leads.split_nil {links : Nat} {place second reached : List Name}
    (h : v.Leads anyPath links place second reached) :
    ∃ middle, (∃ n ≤ links, v.Leads anyPath n place [] middle) ∧
      ∃ n ≤ links, v.Leads anyPath n middle second reached :=
  ⟨place, ⟨0, Nat.zero_le _, .done⟩, links, le_rfl, h⟩

/-- **A way is one after another**, if every entry may be asked for. -/
theorem Leads.split {links : Nat} {place first second reached : List Name}
    (h : v.Leads anyPath links place (first ++ second) reached) :
    ∃ middle, (∃ n ≤ links, v.Leads anyPath n place first middle) ∧
      ∃ n ≤ links, v.Leads anyPath n middle second reached := by
  -- The first way is cut off the steps that are to do, which a link makes longer.
  generalize hall : first ++ second = todo at h
  induction h generalizing first with
  | done =>
    obtain ⟨rfl, rfl⟩ := List.append_eq_nil_iff.mp hall
    exact Leads.done.split_nil
  | here rest ih =>
    obtain ⟨rfl, rfl⟩ | ⟨first, rfl, rfl⟩ := List.append_eq_cons_iff.mp hall
    · exact rest.here.split_nil
    · obtain ⟨middle, ⟨n, hn, hfirst⟩, hsecond⟩ := ih rfl
      exact ⟨middle, ⟨n, hn, hfirst.here⟩, hsecond⟩
  | above rest ih =>
    obtain ⟨rfl, rfl⟩ | ⟨first, rfl, rfl⟩ := List.append_eq_cons_iff.mp hall
    · exact rest.above.split_nil
    · obtain ⟨middle, ⟨n, hn, hfirst⟩, hsecond⟩ := ih rfl
      exact ⟨middle, ⟨n, hn, hfirst.above⟩, hsecond⟩
  | directory hname _ hentry rest ih =>
    have hslash : ∀ {todo place}, needsDirectory todo = true → anyPath place = true := fun _ => rfl
    obtain ⟨rfl, rfl⟩ | ⟨first, rfl, rfl⟩ := List.append_eq_cons_iff.mp hall
    · exact (rest.directory hname hslash hentry).split_nil
    · obtain ⟨middle, ⟨n, hn, hfirst⟩, hsecond⟩ := ih rfl
      exact ⟨middle, ⟨n, hn, hfirst.directory hname hslash hentry⟩, hsecond⟩
  | file hname hentry =>
    obtain ⟨rfl, rfl⟩ | ⟨first, rfl, hrest⟩ := List.append_eq_cons_iff.mp hall
    · exact (Leads.file hname hentry).split_nil
    · obtain ⟨rfl, rfl⟩ := List.append_eq_nil_iff.mp hrest.symm
      exact ⟨_, ⟨0, le_rfl, .file hname hentry⟩, 0, le_rfl, .done⟩
  | link hname hentry rest ih =>
    obtain ⟨rfl, rfl⟩ | ⟨first, rfl, rfl⟩ := List.append_eq_cons_iff.mp hall
    · exact (rest.link hname hentry).split_nil
    · -- What is left of the first way stands behind the steps of the link.
      obtain ⟨middle, ⟨n, hn, hfirst⟩, m, hm, hsecond⟩ := ih (List.append_assoc ..)
      exact ⟨middle, ⟨n + 1, Nat.succ_le_succ hn, hfirst.link hname hentry⟩, m,
        Nat.le_succ_of_le hm, hsecond⟩

/-! ## Where ways end -/

/-- A name of an entry. -/
structure Proper (name : Name) : Prop extends Piece name, Ordinary name where
  no_null : '\x00' ∉ name

instance (name : Name) : Decidable (Proper name) :=
  decidable_of_iff ((name ≠ [] ∧ '/' ∉ name) ∧
      (name ≠ here ∧ name ≠ above ∧ byteCount name ≤ longestName) ∧ '\x00' ∉ name)
    ⟨fun ⟨⟨hnil, hslash⟩, ⟨hhere, habove, hshort⟩, hnull⟩ =>
        ⟨⟨hnil, hslash⟩, ⟨hhere, habove, hshort⟩, hnull⟩,
      fun h => ⟨⟨h.ne_nil, h.no_slash⟩, ⟨h.ne_here, h.ne_above, h.short⟩, h.no_null⟩⟩

/-- A directory whose name is proper, with nothing but such directories above it. -/
structure Grounded (v : Volume) (place : List Name) : Prop where
  proper : ∀ name ∈ place, Proper name
  directories : ∀ q, q <+: place → v.entry? q = some .directory

/-- A file or a directory with nothing but directories above it. -/
inductive Stands (v : Volume) : List Name → Prop
  | directory {place} (h : v.Grounded place) : Stands v place
  | file {place name bytes} (h : v.Grounded place) (hname : Proper name)
      (hentry : v.entry? (place ++ [name]) = some (.file bytes)) : Stands v (place ++ [name])

/-- A volume whose working directory exists, with links that hold no null character. -/
structure Sound (v : Volume) : Prop where
  workDirectory : v.Grounded v.workDirectory
  targets : ∀ place target, v.entry? place = some (.link target) → '\x00' ∉ target

/-- What stands at a place other than the root is among the entries. -/
theorem mem_entries {place : List Name} (hplace : place ≠ []) {e : Entry}
    (h : v.entry? place = some e) : (place, e) ∈ v.entries := by
  unfold entry? at h
  rw [if_neg (by simpa using hplace)] at h
  obtain ⟨before, after, hentries, -⟩ := List.lookup_eq_some_iff.mp h
  simp [hentries]

/-- The links of a volume are among its entries. -/
theorem sound_of_entries (hwork : v.Grounded v.workDirectory)
    (h : ∀ e ∈ v.entries, ∀ target, e.2 = .link target → '\x00' ∉ target) : v.Sound where
  workDirectory := hwork
  targets place target hentry := by
    have hplace : place ≠ [] := by
      rintro rfl
      cases hentry
    exact h _ (mem_entries hplace hentry) target rfl

/-- The root is grounded. -/
theorem grounded_nil : v.Grounded [] where
  proper := nofun
  directories := by
    rintro q hq
    obtain rfl := List.prefix_nil.mp hq
    rfl

/-- What a grounded place lies in is grounded. -/
theorem Grounded.dropLast {place : List Name} (h : v.Grounded place) :
    v.Grounded place.dropLast where
  proper name hname := h.proper name (List.mem_of_mem_dropLast hname)
  directories q hq := h.directories q (hq.trans (List.dropLast_prefix place))

/-- A directory with a proper name in a grounded place is grounded. -/
theorem Grounded.concat {place : List Name} (h : v.Grounded place) {name : Name}
    (hname : Proper name) (hentry : v.entry? (place ++ [name]) = some .directory) :
    v.Grounded (place ++ [name]) where
  proper := List.forall_mem_append.mpr ⟨h.proper, List.forall_mem_singleton.mpr hname⟩
  directories q hq := by
    obtain rfl | hq := List.prefix_concat_iff.mp hq
    · exact hentry
    · exact h.directories q hq

/-- A volume whose working directory is a directory in the root. -/
theorem sound_of_child {name : Name} (hwork : v.workDirectory = [name]) (hname : Proper name)
    (hentry : v.entry? [name] = some .directory)
    (h : ∀ e ∈ v.entries, ∀ target, e.2 = .link target → '\x00' ∉ target) : v.Sound :=
  sound_of_entries (hwork ▸ grounded_nil.concat hname hentry) h

/-- A directory is not read. -/
theorem Grounded.contents {place : List Name} (h : v.Grounded place) :
    v.contents place = .error ⟨true, .isDirectory⟩ := by
  rw [Volume.contents, h.directories place List.prefix_rfl]

/-- **A way from a directory ends at a file or a directory** that stands among directories. -/
theorem Leads.stands (hv : v.Sound) {links : Nat} {place todo reached : List Name}
    (hplace : v.Grounded place) (htodo : ∀ step ∈ todo, Piece step ∧ '\x00' ∉ step)
    (h : v.Leads mayAsk links place todo reached) : v.Stands reached := by
  -- What is kept on the way: the place is a directory, and the steps to do hold no null character.
  induction h with
  | done => exact .directory hplace
  | here _ ih => exact ih hplace (List.forall_mem_cons.mp htodo).2
  | above _ ih => exact ih hplace.dropLast (List.forall_mem_cons.mp htodo).2
  | directory hname _ hentry _ ih =>
    obtain ⟨⟨hpiece, hnull⟩, htodo⟩ := List.forall_mem_cons.mp htodo
    exact ih (hplace.concat ⟨hpiece, hname.toOrdinary, hnull⟩ hentry) htodo
  | file hname hentry =>
    obtain ⟨⟨hpiece, hnull⟩, -⟩ := List.forall_mem_cons.mp htodo
    exact .file hplace ⟨hpiece, hname.toOrdinary, hnull⟩ hentry
  | @link _ place _ target _ _ _ hentry _ ih =>
    have hstart : v.Grounded (if isAbsolute target then [] else place) := by
      split
      · exact grounded_nil
      · exact hplace
    refine ih hstart (List.forall_mem_append.mpr ⟨fun step hstep => ?_, ?_⟩)
    · exact ⟨(piece_of_mem_steps hstep).1, no_null_of_mem_steps (hv.targets _ _ hentry) hstep⟩
    · exact (List.forall_mem_cons.mp htodo).2

/-- A place where something stands has proper names. -/
theorem Stands.proper {place : List Name} (h : v.Stands place) : ∀ name ∈ place, Proper name := by
  cases h with
  | directory h => exact h.proper
  | file h hname => exact List.forall_mem_append.mpr ⟨h.proper, List.forall_mem_singleton.mpr hname⟩

/-- Above a file or a directory is a directory. -/
theorem Stands.dropLast {place : List Name} (h : v.Stands place) : v.Grounded place.dropLast := by
  cases h with
  | directory h => exact h.dropLast
  | file h => rwa [List.dropLast_concat]

/-- The way of a path that leads anywhere. -/
theorem leads_of_locateBy {path : List Char} {place : List Name}
    (h : v.locateBy mayAsk path = .ok place) :
    '\x00' ∉ path ∧
      ∃ links ≤ linkLimit, v.Leads mayAsk links (v.start path) (steps path) place := by
  unfold locateBy at h
  split at h
  · cases h
  rename_i hnull
  split at h
  · cases h
  exact ⟨hnull, walk_eq_ok_iff.mp h⟩

/-- The empty path leads nowhere. -/
theorem ne_nil_of_locateBy {path : List Char} {place : List Name}
    (h : v.locateBy mayAsk path = .ok place) : path ≠ [] := by
  rintro rfl
  cases h

/-- A path whose steps take a way leads where the way does. -/
theorem locateBy_of_leads {path : List Char} {place : List Name} (hnull : '\x00' ∉ path)
    (hpath : path ≠ []) {links : Nat} (hle : links ≤ linkLimit)
    (h : v.Leads mayAsk links (v.start path) (steps path) place) :
    v.locateBy mayAsk path = .ok place := by
  rw [locateBy, if_neg hnull, if_neg (by simpa using hpath)]
  exact h.walk hle

/-- A way starts at a directory. -/
theorem grounded_start (hv : v.Sound) (path : List Char) : v.Grounded (v.start path) := by
  unfold start
  split
  · exact grounded_nil
  · exact hv.workDirectory

/-- **A path leads to a file or a directory** that stands among directories. -/
theorem stands_of_locateBy (hv : v.Sound) {path : List Char} {place : List Name}
    (h : v.locateBy mayAsk path = .ok place) : v.Stands place := by
  obtain ⟨hnull, links, -, hway⟩ := leads_of_locateBy h
  exact hway.stands hv (grounded_start hv path) fun step hstep =>
    ⟨(piece_of_mem_steps hstep).1, no_null_of_mem_steps hnull hstep⟩

/-! ## Paths of places -/

/-- In front of a name that is looked up, any further step will do. -/
theorem needsDirectory_ordinary {name : Name} (hname : Ordinary name) (todo : List Name) :
    needsDirectory (name :: todo) = false := by
  rw [needsDirectory, List.dropWhile_cons_of_neg (by simpa using hname.ne_here)]
  exact decide_eq_false hname.ne_above

/-- Names of directories are followed one by one, if all of them may be asked for. -/
theorem walk_append_names {bound : Nat} (place names todo : List Name)
    (h : v.Grounded (place ++ names))
    (hask : ∀ front, front <+: names → front ≠ [] → mayAsk (ofNames (place ++ front)) = true)
    (hslash : needsDirectory todo = true → mayAsk (ofNames (place ++ names) ++ ['/']) = true) :
    v.walk mayAsk bound place (names ++ todo) = v.walk mayAsk bound (place ++ names) todo := by
  induction names generalizing place with
  | nil => rw [List.append_nil, List.nil_append]
  | cons name names ih =>
    have hproper : Proper name := h.proper name (by simp)
    have hname : AskedFor mayAsk place name :=
      ⟨hproper.toOrdinary, hask [name] ⟨names, rfl⟩ (List.cons_ne_nil _ _)⟩
    have hentry : v.entry? (place ++ [name]) = some .directory :=
      h.directories _ ⟨names, by simp⟩
    have hrest := ih (place ++ [name]) (by simpa using h)
      (fun front hfront _ => by
        simpa using hask (name :: front) (List.cons_prefix_cons.mpr ⟨rfl, hfront⟩)
          (List.cons_ne_nil _ _))
      (by simpa using hslash)
    rw [List.append_assoc] at hrest
    refine Eq.trans ?_ hrest
    -- Behind the name stands another one, or what is to do behind all of them.
    have hlast : needsDirectory (names ++ todo) = true →
        mayAsk (ofNames (place ++ [name]) ++ ['/']) = true := by
      cases names with
      | nil => exact hslash
      | cons next rest =>
        have hnext : Proper next := h.proper next (by simp)
        intro hneeds
        rw [List.cons_append, needsDirectory_ordinary hnext.toOrdinary] at hneeds
        cases hneeds
    cases bound <;> exact walkWith_directory hname hlast hentry

/-- Names of directories are followed one by one, however long the path to them gets. -/
theorem walk_append_names_any {bound : Nat} {names todo : List Name} (h : v.Grounded names) :
    v.walk anyPath bound [] (names ++ todo) = v.walk anyPath bound names todo :=
  walk_append_names [] names todo h (fun _ _ _ => rfl) fun _ => rfl

/-- The path of proper names holds no null character. -/
theorem no_null_ofNames {names : List Name} (h : ∀ name ∈ names, Proper name) :
    '\x00' ∉ ofNames names := by
  unfold ofNames
  split
  · decide
  · intro hnull
    obtain ⟨name, hname, hnull⟩ := List.mem_flatMap.mp hnull
    -- The characters are slashes and those of the names.
    obtain hnull | hnull := List.mem_cons.mp hnull
    · exact absurd hnull (by decide)
    · exact (h name hname).no_null hnull

/-- Seen from a directory with proper names, a path holds the null character if it did before. -/
theorem null_mem_join {names : List Name} (h : ∀ name ∈ names, Proper name) (path : List Char) :
    '\x00' ∈ join (ofNames names) path ↔ '\x00' ∈ path := by
  have hfront := no_null_ofNames h
  unfold join
  split
  · rfl
  · split <;> simp [hfront]

/-- A path from the root is walked from there. -/
theorem locateBy_of_isAbsolute {path : List Char} (hnull : '\x00' ∉ path)
    (habsolute : isAbsolute path = true) :
    v.locateBy mayAsk path = v.walk mayAsk linkLimit [] (steps path) := by
  have hne : path.isEmpty = false := by
    cases path with
    | nil => exact absurd habsolute (by decide)
    | cons c path => rfl
  rw [locateBy, if_neg hnull, hne, if_neg Bool.false_ne_true, start, habsolute, if_pos rfl]

/-- **The path without links leads where it says**, if the entries on it may be asked for. -/
theorem locateBy_ofNames {place : List Name} (h : v.Stands place)
    (hask : ∀ front, front <+: place → front ≠ [] → mayAsk (ofNames front) = true) :
    v.locateBy mayAsk (ofNames place) = .ok place := by
  rw [locateBy_of_isAbsolute (no_null_ofNames h.proper) (isAbsolute_ofNames place)]
  have hsteps : place ≠ [] → steps (ofNames place) = place :=
    steps_ofNames fun name hname => (h.proper name hname).toPiece
  cases h with
  | directory h =>
    by_cases hroot : place = []
    · -- The root has no names: its path is a slash, whose only step stays there.
      subst hroot
      exact walkWith_here
    · have hwalk : v.walk mayAsk linkLimit [] (place ++ []) = _ :=
        walk_append_names [] place [] h hask nofun
      rw [List.append_nil] at hwalk
      rw [hsteps hroot, hwalk]
      rfl
  | @file place name _ h hname hentry =>
    have hfile : v.Leads mayAsk 0 place [name] (place ++ [name]) :=
      .file ⟨hname.toOrdinary, hask _ List.prefix_rfl (by simp)⟩ hentry
    have hwalk : v.walk mayAsk linkLimit [] (place ++ [name]) = _ :=
      walk_append_names [] place [name] h
        (fun front hfront hne => hask front (hfront.trans (List.prefix_append _ _)) hne)
        (by simp [needsDirectory_ordinary hname.toOrdinary])
    rw [hsteps (by simp), hwalk]
    exact hfile.walk (Nat.zero_le _)

/-- However long it is, the path without links leads where it says. -/
theorem locate_ofNames {place : List Name} (h : v.Stands place) :
    v.locate (ofNames place) = .ok place :=
  locateBy_ofNames h fun _ _ _ => rfl

/-- **Seen from the working directory, a path leads to the same place**, or fails to for the same
cause. -/
theorem locate_join (hv : v.Sound) {path : List Char} (hpath : path ≠ []) :
    v.locate (join (ofNames v.workDirectory) path) = v.locate path := by
  have hproper := hv.workDirectory.proper
  cases hrel : isAbsolute path with
  | true => rw [join, hrel, if_pos rfl]
  | false =>
    unfold locate
    by_cases hnull : '\x00' ∈ path
    · rw [locateBy, locateBy, if_pos hnull, if_pos ((null_mem_join hproper path).mpr hnull)]
    · rw [locateBy_of_isAbsolute (mt (null_mem_join hproper path).mp hnull) (isAbsolute_join _ _),
        steps_join (fun name hname => (hproper name hname).toPiece) hpath hrel,
        walk_append_names_any hv.workDirectory, locateBy, if_neg hnull,
        if_neg (by simpa using hpath), start, hrel, if_neg Bool.false_ne_true]

/-- Seen from the working directory, the empty path leads there. -/
theorem locate_join_nil (hv : v.Sound) :
    v.locate (join (ofNames v.workDirectory) []) = .ok v.workDirectory := by
  have hproper := hv.workDirectory.proper
  rw [locate, locateBy_of_isAbsolute (mt (null_mem_join hproper []).mp List.not_mem_nil)
      (isAbsolute_join _ _), steps_join_nil fun name hname => (hproper name hname).toPiece,
    walk_append_names_any hv.workDirectory]
  exact walkWith_here

/-! ## The last name of a path -/

/-- Whether the last name of a path is one of a link. -/
def endsInLink (v : Volume) (path : List Char) : Bool :=
  match lastStep? path with
  | some (before, name) =>
    match v.walk anyPath linkLimit (v.start path) before with
    | .ok place =>
      match v.entry? (place ++ [name]) with
      | some (.link _) => true
      | _ => false
    | .error _ => false
  | none => false

/-- Steps that stay where they are lead nowhere else. -/
theorem walk_of_here {bound : Nat} {place rest : List Name}
    (hrest : ∀ step ∈ rest, step = here) : v.walk mayAsk bound place rest = .ok place := by
  induction rest with
  | nil => cases bound <;> rfl
  | cons step rest ih =>
    obtain ⟨rfl, hthere⟩ := List.forall_mem_cons.mp hrest
    cases bound <;> exact walkWith_here.trans (ih hthere)

/-- A way whose steps stay where they are ends where it starts. -/
theorem Leads.eq_of_here {links : Nat} {place rest reached : List Name}
    (h : v.Leads mayAsk links place rest reached) (hrest : ∀ step ∈ rest, step = Files.here) :
    reached = place :=
  Except.ok.inj ((h.walk le_rfl).symm.trans (walk_of_here hrest))

/-- A way that takes one name more and then stays where it is ends at that name, if it is not one
of a link. -/
theorem Leads.eq_concat {links : Nat} {place rest reached : List Name} {name : Name}
    (h : v.Leads mayAsk links place (name :: rest) reached)
    (hrest : ∀ step ∈ rest, step = Files.here)
    (hhere : name ≠ Files.here) (habove : name ≠ Files.above)
    (hentry : ∀ target, v.entry? (place ++ [name]) ≠ some (.link target)) :
    reached = place ++ [name] := by
  cases h with
  | here => exact absurd rfl hhere
  | above => exact absurd rfl habove
  | directory _ _ _ h => exact h.eq_of_here hrest
  | file => rfl
  | link _ hlink => exact absurd hlink (hentry _)

/-- A path that stays where it starts leads there. -/
theorem locateBy_of_here {path : List Char} (hpath : path ≠ [])
    (hhere : ∀ step ∈ steps path, step = here) :
    v.locateBy mayAsk path = .ok (v.start path) := by
  have hnull : '\x00' ∉ path := by
    intro hnull
    obtain ⟨step, hstep, hmem⟩ := exists_step_of_mem (by decide) hnull
    rw [hhere step hstep] at hmem
    exact absurd hmem (by decide)
  rw [locateBy, if_neg hnull, if_neg (by simpa using hpath)]
  exact walk_of_here hhere

/-- A way that goes up and then stays where it is ends at the directory above. -/
theorem Leads.eq_dropLast {links : Nat} {place rest reached : List Name}
    (h : v.Leads mayAsk links place (Files.above :: rest) reached)
    (hrest : ∀ step ∈ rest, step = Files.here) : reached = place.dropLast := by
  have hwalk : v.walk mayAsk links place (Files.above :: rest) =
      v.walk mayAsk links place.dropLast rest := by
    cases links <;> exact walkWith_above
  rw [walk_of_here hrest] at hwalk
  exact Except.ok.inj ((h.walk le_rfl).symm.trans hwalk)

/-- **A path that does not end in a link leads to an entry of its last name.** -/
theorem eq_concat_of_locate {path : List Char} {place before : List Name} {name : Name}
    (h : v.locate path = .ok place) (hend : EndsWith path before name) (habove : name ≠ above)
    (hlink : v.endsInLink path = false) : ∃ directory, place = directory ++ [name] := by
  obtain ⟨-, links, hle, hway⟩ := leads_of_locateBy h
  obtain ⟨rest, hrest, hsteps⟩ := hend.steps_eq
  rw [hsteps] at hway
  -- The way to the last name comes first, and what follows that name stays there.
  obtain ⟨directory, ⟨n, hn, hfirst⟩, m, -, hsecond⟩ := hway.split
  refine ⟨directory, hsecond.eq_concat hrest hend.ne_here habove fun target hentry => ?_⟩
  rw [endsInLink, hend.lastStep? habove] at hlink
  simp only [hfirst.walk (hn.trans hle), hentry] at hlink
  exact absurd hlink (by decide)

/-- A path without a last name leads to a directory. -/
theorem grounded_of_lastName?_eq_none (hv : v.Sound) {path : List Char} {place : List Name}
    (h : v.locate path = .ok place) (hnone : lastName? path = none) : v.Grounded place := by
  obtain ⟨hnull, links, -, hway⟩ := leads_of_locateBy h
  obtain hhere | ⟨before, name, hend⟩ := endsWith_or path
  · rw [hway.eq_of_here hhere]
    exact grounded_start hv path
  -- The last name is the one of the directory above.
  rw [hend.lastName?, ite_eq_left_iff] at hnone
  obtain rfl : name = Files.above := by simpa using hnone
  obtain ⟨rest, hrest, hsteps⟩ := hend.steps_eq
  have hpieces : ∀ step ∈ before, Piece step ∧ '\x00' ∉ step := fun step hstep =>
    have hmem : step ∈ steps path := hsteps ▸ List.mem_append_left _ hstep
    ⟨(piece_of_mem_steps hmem).1, no_null_of_mem_steps hnull hmem⟩
  rw [hsteps] at hway
  obtain ⟨place', ⟨n, -, hfirst⟩, m, -, hsecond⟩ := hway.split
  have habove : place = place'.dropLast :=
    hsecond.eq_dropLast hrest
  rw [habove]
  exact (hfirst.stands hv (grounded_start hv path) hpieces).dropLast

end Volume

end AliasReport.Files
