/-!
# Components

The parts of the program as they announce themselves.

## Main definitions

* `Component.core`: the analysis of patterns.
* `Component.rules`: the checks and the calls to which they apply.
-/

namespace RegexAudit

/-- A part of the program with its name and version. -/
structure Component where
  name : String
  version : String
deriving DecidableEq, Repr

namespace Component

/-- The analysis of patterns. -/
def core : Component := ⟨"rexref-core", "0.0.4"⟩

/-- The checks and the calls to which they apply. -/
def rules : Component := ⟨"rexref-rules", "0.0.4"⟩

end Component

end RegexAudit
