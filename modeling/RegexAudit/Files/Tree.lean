import RegexAudit.Files.Path

/-!
# Files and directories

A tree of directories as it stands while files are looked up and read.

## Main definitions

* `FileTree`: directories and the contents of files.
* `FileTree.makeDirectory`, `FileTree.writeFile`: add to a tree.
* `FileTree.locate`: what a written path leads to.
* `FileTree.read`: the text of a file.
* `FileFault`: the reasons for which that fails.
-/

namespace RegexAudit

/-- The reasons for which a file cannot be read. -/
inductive FileFault where
  | missing
  /-- A file stands where the path asks for a directory. -/
  | notDirectory
  | isDirectory
  /-- The bytes of the file are no text. -/
  | notText
  | nameTooLong
  /-- The path holds a character that no name can have. -/
  | nulInName
deriving DecidableEq, Repr

/-- The wording of a reason. -/
def FileFault.message : FileFault → String
  | missing => "No such file or directory (os error 2)"
  | notDirectory => "Not a directory (os error 20)"
  | isDirectory => "Is a directory (os error 21)"
  | notText => "stream did not contain valid UTF-8"
  | nameTooLong => "File name too long (os error 36)"
  | nulInName => "file name contained an unexpected NUL byte"

/-- The greatest number of bytes that a name may take. -/
def maxNameSize : Nat := 255

/-- Directories and the contents of files. -/
structure FileTree where
  /-- What is written for the outermost directory. -/
  label : String
  directories : List Path
  /-- The contents of files, the latest first. -/
  files : List (Path × ByteArray)

namespace FileTree

/-- A tree that holds nothing. -/
def empty (label : String) : FileTree := ⟨label, [], []⟩

/-- The tree with a further directory, and those around it. -/
def addDirectory (tree : FileTree) (path : Path) : FileTree :=
  { tree with directories := path :: tree.directories }

/-- The tree with a file, in place of one that was there, and the directories around it. -/
def addFile (tree : FileTree) (path : Path) (bytes : ByteArray) : FileTree :=
  { tree with files := (path, bytes) :: tree.files }

/-- The contents of a file. -/
def contents? (tree : FileTree) (path : Path) : Option ByteArray := tree.files.lookup path

/-- Whether a file has a path. -/
def isFile (tree : FileTree) (path : Path) : Bool := (tree.contents? path).isSome

/-- Whether a directory has a path. The outermost directory is always there. -/
def isDirectory (tree : FileTree) (path : Path) : Bool :=
  path == .root ||
    tree.directories.any (·.enclosing.contains path) ||
    tree.files.any (·.1.enclosing.tail.contains path)

/-- What names lead to from a place on. No place means a directory around the tree, in which nothing
has a known name. -/
def walk (tree : FileTree) : Option Path → List String → Except FileFault (Option Path)
  | here, [] => .ok here
  | none, name :: names =>
    if name = "" ∨ name = "." ∨ name = ".." then tree.walk none names else .error .missing
  | some here, name :: names =>
    if !tree.isDirectory here then .error .notDirectory
    else if maxNameSize < name.utf8ByteSize then .error .nameTooLong
    else
      match here.step name with
      | none => tree.walk none names
      | some next =>
        if tree.isDirectory next || tree.isFile next then tree.walk (some next) names
        else .error .missing

/-- What a written path leads to, if that is in the tree. -/
def locate (tree : FileTree) (path : String) : Except FileFault (Option Path) :=
  if path.toList.contains '\x00' then .error .nulInName
  else tree.walk (some .root) (path.splitOn "/")

/-- The tree with all directories to which names lead from a place on, and the last of them. -/
def makeWay (tree : FileTree) : Option Path → List String → FileTree × Option Path
  | some here, name :: names =>
    match here.step name with
    | none => (tree, none)
    | some next => (tree.addDirectory next).makeWay (some next) names
  | place, _ => (tree, place)

/-- The tree with the directory of a written path, and all others on the way there. -/
def makeDirectory (tree : FileTree) (path : String) : FileTree :=
  (tree.makeWay (some .root) (path.splitOn "/")).1

/-- The tree with the file of a written path, and all directories on the way there. No file takes
the place of a directory. -/
def writeFile (tree : FileTree) (path : String) (bytes : ByteArray) : FileTree :=
  let names := path.splitOn "/"
  let (tree, directory) := tree.makeWay (some .root) names.dropLast
  match directory.bind (·.step (names.getLastD "")) with
  | some file => if tree.isDirectory file then tree else tree.addFile file bytes
  | none => tree

/-- The text of the file that a written path leads to. -/
def read (tree : FileTree) (path : String) : Except FileFault (List Char) := do
  match (← tree.locate path).bind tree.contents? with
  | none => .error .isDirectory
  | some bytes =>
    match String.fromUTF8? bytes with
    | some text => .ok text.toList
    | none => .error .notText

/-- How a written path is shown. -/
def shown (tree : FileTree) (path : String) : String := tree.label ++ "/" ++ path

end FileTree

end RegexAudit
