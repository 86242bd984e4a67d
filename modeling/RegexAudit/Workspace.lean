import RegexAudit.Engine
import RegexAudit.Files.Tree

/-!
# Analysing the files of a tree

## Main definitions

* `Engine.analyzeFile`: the report on one file.
* `Engine.analyzeFiles`: the reports on those of some files that can be analysed.
-/

namespace RegexAudit

namespace Engine

/-- The report on one file. -/
def analyzeFile (engine : Engine) (tree : FileTree) (path : String) : Except Error Report :=
  match tree.read path with
  | .error fault => .error (.io (tree.shown path) fault.message)
  | .ok source => engine.run (tree.shown path) source

/-- The reports on some files, in order. Those that cannot be analysed are left out, but where the
program stops at one of them there are no reports at all. -/
def analyzeFiles (engine : Engine) (tree : FileTree) (paths : List String) :
    Except Error (List Report) :=
  let results := paths.map (engine.analyzeFile tree)
  if results.any fun result => result matches .error .overflow then .error .overflow
  else .ok (results.filterMap (·.toOption))

end Engine

end RegexAudit
