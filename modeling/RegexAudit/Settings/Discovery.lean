import RegexAudit.Files.Tree
import RegexAudit.Settings.Format

/-!
# Settings files

Settings are read from a file that is named, or from the nearest one that
bears one of the usual names.

## Main definitions

* `Settings.fileNames`: the usual names, in order of precedence.
* `Settings.nearestFile?`: the settings file for a place.
* `Settings.discover`: the same, for a written path.
* `Settings.load`: the settings that are in force for a place.
-/

namespace RegexAudit

namespace Settings

/-- The names of settings files, in order of precedence. -/
def fileNames : List String := [".rexref.toml", "rexref.toml", "rexref.json"]

/-- The settings file of a directory. -/
def fileIn? (isFile : Path → Bool) (directory : Path) : Option Path :=
  (fileNames.map directory.child).find? isFile

/-- The settings file for a place: that of the nearest directory, from the place itself outwards,
that has one. -/
def nearestFile? (isFile : Path → Bool) (start : Path) : Option Path :=
  start.enclosing.findSome? (fileIn? isFile)

/-- The settings file for a written path, which must lead somewhere. There are no settings files
around the tree. -/
def discover (tree : FileTree) (start : String) : Except Error (Option Path) :=
  match tree.locate start with
  | .ok place => .ok (place.bind (nearestFile? tree.isFile))
  | .error fault => .error (.config ("Invalid path: " ++ fault.message))

/-- The settings that a file describes, in the format that its extension tells. -/
def read (tree : FileTree) (path : String) : Except Error Settings :=
  match tree.read path with
  | .error fault => .error (.io (tree.shown path) fault.message)
  | .ok text =>
    match (Path.extension? ((path.splitOn "/").getLastD "")).bind Format.ofName? with
    | some format => ofText format text
    | none =>
      .error (.config ("Unsupported file extension for '" ++ tree.shown path ++
        "' (expected .toml or .json)"))

/-- The settings that a file describes. Other failures than that of the text itself are told
together with the path. -/
def loadFile (tree : FileTree) (path : String) : Except Error Settings :=
  match read tree path with
  | .ok settings => .ok settings
  | .error .malformedConfig => .error .malformedConfig
  | .error e =>
    .error (.config ("Failed to load config from '" ++ tree.shown path ++ "': " ++ e.display))

/-- The settings in force for a place: those of a file that is named, or else those of the nearest
settings file, or else none. -/
def load (tree : FileTree) (named : Option String) (start : String) : Except Error Settings :=
  match named with
  | some path =>
    match tree.locate path with
    | .ok _ => loadFile tree path
    | .error _ => .error (.config ("Config file not found: " ++ tree.shown path))
  | none =>
    match discover tree start with
    | .error e => .error e
    | .ok none => .ok empty
    | .ok (some path) => loadFile tree path.text

end Settings

end RegexAudit
