import RegexAudit.Check.AnchorPrecedence
import RegexAudit.Check.Complexity
import RegexAudit.Check.DuplicateClassChars
import RegexAudit.Check.EmptyGroup
import RegexAudit.Check.SingleCharAlternation
import RegexAudit.Check.SyntaxError

/-!
# The built-in checks

All checks that are run when nothing else is configured.
-/

namespace RegexAudit

namespace Check

/-- The built-in checks in the order in which they report. The argument is the highest complexity
that is accepted. -/
def builtin (maxComplexity : UInt32) : List Check :=
  [syntaxErrors, emptyGroups, singleCharAlternations, duplicateClassChars, anchorPrecedence,
    complexity maxComplexity]

end Check

end RegexAudit
