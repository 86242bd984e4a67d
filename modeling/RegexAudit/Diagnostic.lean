import RegexAudit.Severity
import RegexAudit.Text.Position

/-!
# Diagnostics

Findings as they are shown to a user: with the places in the source that they
are about.

## Main definitions

* `Location`: a span of a source with its lines and columns.
* `Diagnostic`: a finding with its location and further locations.
* `Diagnostic.display`: the line that is shown.
-/

namespace RegexAudit

/-- A span of a source with the positions of its ends. -/
structure Location where
  file : String
  first : Position
  last : Position
  span : Span
deriving DecidableEq, Repr

/-- A place that belongs to a diagnostic, with what to say about it. -/
structure Secondary where
  location : Location
  message : Option String
deriving DecidableEq, Repr

/-- A finding as it is shown. -/
structure Diagnostic where
  rule : String
  severity : Severity
  message : String
  location : Location
  secondaries : List Secondary
  /-- An estimate of the effort that is needed. -/
  gap : Option Int
deriving DecidableEq, Repr

/-- The location of a span in a file with the given lines. -/
def Location.of (file : String) (lines : LineMap) (span : Span) : Location :=
  ⟨file, lines.position span.start, lines.position span.stop, span⟩

/-- The file, line and column of a location. -/
def Location.display (location : Location) : String :=
  location.file ++ ":" ++ toString location.first.line ++ ":" ++ toString location.first.column

/-- The line that is shown for a diagnostic. -/
def Diagnostic.display (d : Diagnostic) : String :=
  d.location.display ++ ": " ++ d.severity.name ++ " [" ++ d.rule ++ "] " ++ d.message

end RegexAudit
