/-!
# Paths

Where a file stands in a tree of directories.

## Main definitions

* `Path`: the names that lead to a file or directory.
* `Path.step`: where a name leads to.
* `Path.enclosing`: a path and the directories around it.
* `Path.extension?`: the extension of a file name.
-/

namespace RegexAudit

/-- The names that lead from the outermost directory to a file or directory, the last name first. -/
structure Path where
  names : List String
deriving DecidableEq, Repr

namespace Path

/-- The outermost directory. -/
def root : Path := ⟨[]⟩

/-- Something in a directory. -/
def child (directory : Path) (name : String) : Path := ⟨name :: directory.names⟩

/-- The directory around a path, which the outermost one has none of. -/
def parent? (path : Path) : Option Path :=
  match path.names with
  | [] => none
  | _ :: names => some ⟨names⟩

/-- The place that a name leads to from a directory. A dot and an empty name stand for the directory
itself, and two dots for the one around it. -/
def step (here : Path) (name : String) : Option Path :=
  if name = "" ∨ name = "." then some here
  else if name = ".." then here.parent?
  else some (here.child name)

/-- The directories that the ends of a list of names lead to, the longest first. -/
def enclosingFrom : List String → List Path
  | [] => [root]
  | name :: names => ⟨name :: names⟩ :: enclosingFrom names

/-- A path and the directories around it, from the inside out. -/
def enclosing (path : Path) : List Path := enclosingFrom path.names

/-- The text of a path, with slashes between its names. -/
def text (path : Path) : String := "/".intercalate path.names.reverse

/-- A path is enclosed by those that it extends, and by itself. -/
theorem mem_enclosing {p q : Path} : q ∈ p.enclosing ↔ q.names <:+ p.names := by
  obtain ⟨names⟩ := p
  obtain ⟨outer⟩ := q
  induction names with
  | nil => simp [enclosing, enclosingFrom, root]
  | cons name names ih =>
    simp only [enclosing, enclosingFrom, List.mem_cons, mk.injEq, List.suffix_cons_iff] at ih ⊢
    rw [ih]

/-- What follows the last dot of a file name, unless that dot is its first character. -/
def extension? (name : String) : Option String :=
  let reversed := name.toList.reverse
  match reversed.dropWhile (· != '.') with
  | [] | ['.'] => none
  | _ => some (String.ofList (reversed.takeWhile (· != '.')).reverse)

end Path

end RegexAudit
