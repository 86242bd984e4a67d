import RegexAudit.Settings.Discovery

/-!
# The nearest settings file

Settings are looked for from a place outwards, and in each directory under the usual names in their
order. So a file is found whenever a directory around the place has one. It is the first one of the
nearest such directory: no file farther out is preferred for its name.

## Main definitions

* `Settings.HasFile`: a directory has a settings file.
* `Settings.IsFirst`: a name is the first of the usual names that a directory has a file of.
* `Settings.IsNearest`: a directory is the nearest one that has a settings file.

## Main statements

* `Settings.fileIn?_eq_some_iff`: the search in one directory.
* `Settings.nearestFile?_eq`: one round of the search outwards.
* `Settings.isNearest_of_nearestFile?`: what the search finds.
* `Settings.nearestFile?_exact`: when a settings file is found, and which.
-/

namespace RegexAudit

namespace Path

/-- The directory around a path has one name less. -/
theorem length_parent? {path outer : Path} (h : path.parent? = some outer) :
    outer.names.length < path.names.length := by
  obtain ⟨names⟩ := path
  cases names with
  | nil => cases h
  | cons name names =>
    obtain rfl := Option.some.inj h
    exact Nat.lt_succ_self names.length

end Path

namespace Settings

/-- The directory has a file of one of the usual names. -/
def HasFile (isFile : Path → Bool) (directory : Path) : Prop :=
  ∃ name ∈ fileNames, isFile (directory.child name) = true

/-- The directory has a file of the name, which is a usual one, and none of the usual names in front
of it. -/
structure IsFirst (isFile : Path → Bool) (directory : Path) (name : String) : Prop where
  file : isFile (directory.child name) = true
  first : ∃ before after, fileNames = before ++ name :: after ∧
    ∀ other ∈ before, isFile (directory.child other) = false

/-- The directory has a settings file and is the place itself or around it, and it lies in every
other such directory. -/
structure IsNearest (isFile : Path → Bool) (start directory : Path) : Prop where
  encloses : directory.names <:+ start.names
  hasFile : HasFile isFile directory
  nearest : ∀ d : Path, d.names <:+ start.names → HasFile isFile d →
    d.names <:+ directory.names

variable {isFile : Path → Bool} {start directory : Path} {name : String} {p : Path}

theorem IsFirst.hasFile (h : IsFirst isFile directory name) : HasFile isFile directory := by
  obtain ⟨before, after, hnames, -⟩ := h.first
  exact ⟨name, by simp [hnames], h.file⟩

theorem fileIn?_eq_none_iff : fileIn? isFile directory = none ↔ ¬HasFile isFile directory := by
  simp [fileIn?, HasFile]

theorem fileIn?_eq_some_iff :
    fileIn? isFile directory = some p ↔
      ∃ name, IsFirst isFile directory name ∧ directory.child name = p := by
  rw [fileIn?, List.find?_map, Option.map_eq_some_iff]
  refine exists_congr fun name => and_congr_left fun _ => ?_
  rw [List.find?_eq_some_iff_append]
  constructor
  · rintro ⟨hfile, before, after, hnames, hbefore⟩
    exact ⟨hfile, before, after, hnames, by simpa using hbefore⟩
  · rintro ⟨hfile, before, after, hnames, hbefore⟩
    exact ⟨hfile, before, after, hnames, by simpa using hbefore⟩

/-- A round of the search looks into one directory. If it has no settings file, the search goes on
in the directory around it. -/
theorem nearestFile?_eq (isFile : Path → Bool) (start : Path) :
    nearestFile? isFile start =
      (fileIn? isFile start).or (start.parent?.bind (nearestFile? isFile)) := by
  obtain ⟨names⟩ := start
  cases names with
  | nil =>
    show List.findSome? (fileIn? isFile) [.root] = (fileIn? isFile .root).or none
    rw [List.findSome?_singleton, Option.or_none]
  | cons name names =>
    show List.findSome? (fileIn? isFile) (⟨name :: names⟩ :: Path.enclosingFrom names) = _
    rw [List.findSome?_cons]
    cases fileIn? isFile ⟨name :: names⟩ <;> rfl

theorem nearestFile?_eq_none_iff :
    nearestFile? isFile start = none ↔
      ∀ d : Path, d.names <:+ start.names → ¬HasFile isFile d := by
  rw [nearestFile?, List.findSome?_eq_none_iff]
  simp only [fileIn?_eq_none_iff, Path.mem_enclosing]

/-- A place with a settings file is its own nearest directory. -/
theorem isNearest_self (h : HasFile isFile start) : IsNearest isFile start start :=
  ⟨List.suffix_rfl, h, fun _ hd _ => hd⟩

/-- The nearest directory of a place without a settings file is that of the directory around it. -/
theorem IsNearest.outward {outer : Path} (hnone : ¬HasFile isFile start)
    (hparent : start.parent? = some outer) (h : IsNearest isFile outer directory) :
    IsNearest isFile start directory := by
  obtain ⟨names⟩ := start
  cases names with
  | nil => cases hparent
  | cons name names =>
    obtain rfl := Option.some.inj hparent
    refine ⟨h.encloses.trans (List.suffix_cons name names), h.hasFile, fun d hd hfile => ?_⟩
    rcases List.suffix_cons_iff.1 hd with hself | houter
    · obtain ⟨inner⟩ := d
      obtain rfl := hself
      exact absurd hfile hnone
    · exact h.nearest d houter hfile

theorem IsNearest.unique {d e : Path} (hd : IsNearest isFile start d)
    (he : IsNearest isFile start e) : d = e := by
  have hin := he.nearest d hd.encloses hd.hasFile
  have hout := hd.nearest e he.encloses he.hasFile
  obtain ⟨names⟩ := d
  obtain ⟨names'⟩ := e
  exact congrArg Path.mk (hin.eq_of_length_le hout.length_le)

/-- What the search finds is the first file of the nearest directory. -/
theorem isNearest_of_nearestFile? (h : nearestFile? isFile start = some p) :
    ∃ directory name, IsNearest isFile start directory ∧ IsFirst isFile directory name ∧
      directory.child name = p := by
  obtain ⟨names⟩ := start
  induction names with
  | nil =>
    rw [nearestFile?_eq, Option.or_eq_some_iff] at h
    obtain hhere | ⟨-, houter⟩ := h
    · obtain ⟨name, hfirst, hp⟩ := fileIn?_eq_some_iff.1 hhere
      exact ⟨_, name, isNearest_self hfirst.hasFile, hfirst, hp⟩
    · cases houter
  | cons n ns ih =>
    rw [nearestFile?_eq, Option.or_eq_some_iff] at h
    obtain hhere | ⟨hnone, houter⟩ := h
    · obtain ⟨name, hfirst, hp⟩ := fileIn?_eq_some_iff.1 hhere
      exact ⟨_, name, isNearest_self hfirst.hasFile, hfirst, hp⟩
    · obtain ⟨directory, name, hnearest, hfirst, hp⟩ := ih houter
      exact ⟨directory, name, hnearest.outward (fileIn?_eq_none_iff.1 hnone) rfl, hfirst, hp⟩

/-- The first file of the nearest directory is found. -/
theorem nearestFile?_of_isNearest (hnearest : IsNearest isFile start directory)
    (hfirst : IsFirst isFile directory name) :
    nearestFile? isFile start = some (directory.child name) := by
  cases hfound : nearestFile? isFile start with
  | none =>
    exact absurd hnearest.hasFile (nearestFile?_eq_none_iff.1 hfound _ hnearest.encloses)
  | some p =>
    obtain ⟨d, other, hd, hother, rfl⟩ := isNearest_of_nearestFile? hfound
    obtain rfl := hd.unique hnearest
    have hp := fileIn?_eq_some_iff.2 ⟨other, hother, rfl⟩
    rw [← hp]
    exact fileIn?_eq_some_iff.2 ⟨name, hfirst, rfl⟩

/-- Whatever files there are, the search from a place ends: a round that finds nothing leads to the
directory around, which has fewer names. A settings file is found if the place or a directory around
it has one, and only then. It is the first one of the nearest such directory, and nothing but a file
is ever found. This is what is discovered for a written path that leads to the place; a path that
leads out of the tree, where there are no files, has no settings file. -/
theorem nearestFile?_exact (isFile : Path → Bool) (start : Path) :
    nearestFile? isFile start =
      (fileIn? isFile start).or (start.parent?.bind (nearestFile? isFile)) ∧
    (∀ outer, start.parent? = some outer → outer.names.length < start.names.length) ∧
    ((nearestFile? isFile start).isSome = true ↔
      ∃ d : Path, d.names <:+ start.names ∧ HasFile isFile d) ∧
    (∀ p, nearestFile? isFile start = some p ↔
      ∃ directory name, IsNearest isFile start directory ∧ IsFirst isFile directory name ∧
        directory.child name = p) ∧
    (∀ p, isFile p = false → nearestFile? isFile start ≠ some p) ∧
    ∀ (tree : FileTree) (path : String), tree.isFile = isFile →
      (tree.locate path = .ok (some start) →
        discover tree path = .ok (nearestFile? isFile start)) ∧
      (tree.locate path = .ok none → discover tree path = .ok none) := by
  refine ⟨nearestFile?_eq isFile start, fun _ => Path.length_parent?, ?_, ?_, ?_, ?_⟩
  · rw [Option.isSome_iff_ne_none, Ne, nearestFile?_eq_none_iff]
    simp
  · intro p
    constructor
    · exact isNearest_of_nearestFile?
    · rintro ⟨directory, name, hnearest, hfirst, rfl⟩
      exact nearestFile?_of_isNearest hnearest hfirst
  · intro p hp hfound
    obtain ⟨directory, name, -, hfirst, rfl⟩ := isNearest_of_nearestFile? hfound
    rw [hfirst.file] at hp
    cases hp
  · rintro tree path rfl
    constructor
    · intro hlocate
      rw [discover, hlocate]
      rfl
    · intro hlocate
      rw [discover, hlocate]
      rfl

namespace Crowded

/-- The file `a/b`, in the directory of which a directory bears the first of the usual names and a
file the last. Farther out, a file bears the first. -/
def tree : FileTree :=
  ⟨"crowded", [⟨[".rexref.toml", "a"]⟩],
    [(⟨["b", "a"]⟩, .empty), (⟨["rexref.json", "a"]⟩, .empty), (⟨[".rexref.toml"]⟩, .empty)]⟩

/-- The place of the file. -/
def place : Path := ⟨["b", "a"]⟩

theorem isNearest_around : IsNearest tree.isFile place ⟨["a"]⟩ := by
  have hnone : fileIn? tree.isFile place = none := by decide
  have hfound : fileIn? tree.isFile ⟨["a"]⟩ = some ⟨["rexref.json", "a"]⟩ := by decide
  obtain ⟨name, hfirst, -⟩ := fileIn?_eq_some_iff.1 hfound
  exact (isNearest_self hfirst.hasFile).outward (fileIn?_eq_none_iff.1 hnone) rfl

theorem isFirst_json : IsFirst tree.isFile ⟨["a"]⟩ "rexref.json" :=
  ⟨by decide, [".rexref.toml", "rexref.toml"], [], rfl, by decide⟩

end Crowded

/-- The directory that bears the first name is passed over, and so is the file farther out. -/
theorem nearestFile?_exact_crowded :
    nearestFile? Crowded.tree.isFile Crowded.place = some ⟨["rexref.json", "a"]⟩ ∧
      nearestFile? Crowded.tree.isFile Crowded.place ≠ some ⟨[".rexref.toml", "a"]⟩ ∧
      Crowded.tree.isDirectory ⟨[".rexref.toml", "a"]⟩ = true ∧
      Crowded.tree.isFile ⟨[".rexref.toml"]⟩ = true := by
  obtain ⟨-, -, -, hfound, hfile, -⟩ := nearestFile?_exact Crowded.tree.isFile Crowded.place
  refine ⟨?_, hfile _ (by decide), by decide, by decide⟩
  exact (hfound _).2 ⟨_, _, Crowded.isNearest_around, Crowded.isFirst_json, rfl⟩

end Settings

end RegexAudit
