import RegexAudit.Check.Basic

/-!
# Syntax errors

Reports the fault for which a pattern is not a regular expression.
-/

namespace RegexAudit

namespace Check

/-- Reports the fault of a pattern that cannot be parsed, with its reason as a note. -/
def syntaxErrors : Check where
  id := "regex/syntax-error"
  description := "Regular expressions should be syntactically valid"
  defaultSeverity := .error
  run subject := match subject.outcome with
    | .ok _ => []
    | .error fault =>
      [{ span := fault.span
         message := "Fix the syntax error inside this regex."
         notes := [⟨fault.span, some fault.cause.message⟩]
         gap := none }]

end Check

end RegexAudit
