/-! # Paths

A path is text in which slashes separate names. The names `.` and `..` stand for the directory that
a path has reached and for the one above it.

* **`pieces`** — what stands between slashes: cutting a path at a slash cuts its pieces in two.
* **`steps`** — the names of a path in order; empty ones do not count, and a slash at the end asks
  for a directory.
* **`isAbsolute`**, **`join`** — paths from the root, and a path seen from a directory.
* **`extension?`** — what follows the last dot in the last name of a path.
-/

namespace AliasReport.Files

/-- A name in a directory. -/
abbrev Name := List Char

/-- The name of the directory that a path has reached. -/
def here : Name := ['.']

/-- The name of the directory above. -/
def above : Name := ['.', '.']

/-- The pieces of a text between slashes. -/
def pieces : List Char → List Name
  | [] => [[]]
  | c :: cs =>
    if c = '/' then [] :: pieces cs
    else
      match pieces cs with
      | [] => [[c]]
      | name :: names => (c :: name) :: names

@[simp] theorem pieces_nil : pieces [] = [[]] := rfl

@[simp] theorem pieces_slash (cs : List Char) : pieces ('/' :: cs) = [] :: pieces cs := rfl

/-- A path has at least one piece. -/
theorem pieces_ne_nil (cs : List Char) : pieces cs ≠ [] := by
  induction cs with
  | nil => simp
  | cons c cs ih =>
    unfold pieces
    split
    · simp
    · split <;> simp

/-- A slash separates the pieces before it from those behind it. -/
theorem pieces_append_slash (xs ys : List Char) :
    pieces (xs ++ '/' :: ys) = pieces xs ++ pieces ys := by
  induction xs with
  | nil => simp
  | cons c xs ih =>
    simp only [List.cons_append, pieces, ih]
    cases h : pieces xs with
    | nil => exact absurd h (pieces_ne_nil xs)
    | cons name names => split <;> rfl

/-- The names of a path in order. A path that ends with a slash goes on to the directory that it has
reached. -/
def steps (path : List Char) : List Name :=
  (pieces path).filter (!·.isEmpty) ++ (if path.getLast? = some '/' then [here] else [])

@[simp] theorem steps_nil : steps [] = [] := rfl

/-- Whether a path starts from the root. -/
def isAbsolute (path : List Char) : Bool :=
  path.head? = some '/'

/-- The path of a list of names from the root. -/
def ofNames (names : List Name) : List Char :=
  if names.isEmpty then ['/'] else names.flatMap ('/' :: ·)

/-- A path that is seen from a directory. -/
def join (directory path : List Char) : List Char :=
  if isAbsolute path then path
  else if directory.getLast? = some '/' then directory ++ path
  else directory ++ '/' :: path

/-- The last name of a path, if it is one of an entry. -/
def lastName? (path : List Char) : Option Name :=
  match ((pieces path).filter fun name => !name.isEmpty && name ≠ here).getLast? with
  | some name => if name = above then none else some name
  | none => none

/-- What follows the last dot of a name; a dot in front of a name does not count. -/
def nameExtension? (name : Name) : Option (List Char) :=
  let tail := name.reverse.takeWhile (· ≠ '.')
  if tail.length + 1 < name.length then some tail.reverse else none

/-- What follows the last dot in the last name of a path. -/
def extension? (path : List Char) : Option (List Char) :=
  (lastName? path).bind nameExtension?

end AliasReport.Files
