import RegexAudit.Flags
import RegexAudit.Pattern.Source
import RegexAudit.Regex.Parser
import RegexAudit.Severity

/-!
# Checks on regexes

A check looks at a pattern, its flags and what parsing it came to, and reports
findings at spans of the pattern.

## Main definitions

* `Subject`: what a check may look at.
* `Note`, `Finding`: what a check reports.
* `Check`: a check with its identity and its default severity.
* `ParsedRegex`: a pattern with its origin, as parsed once.

## Design notes

A check does not see where the pattern came from. Two occurrences with the
same pattern, flags and outcome therefore get the same findings, and only the
spans of the findings are translated to each origin.
-/

namespace RegexAudit

/-- What a check may look at. -/
structure Subject where
  pattern : List Char
  flags : Flags
  outcome : Except Regex.Fault Regex.Tree

/-- A place that belongs to a finding, with what to say about it. -/
structure Note where
  span : Span
  message : Option String
deriving DecidableEq, Repr

/-- What a check reports: a place, a message, further places, and an estimate of the effort that is
needed. -/
structure Finding where
  span : Span
  message : String
  notes : List Note
  gap : Option Int
deriving DecidableEq, Repr

namespace Finding

/-- A finding without further places. -/
def plain (span : Span) (message : String) : Finding := ⟨span, message, [], none⟩

/-- The finding with each of its spans translated. -/
def mapSpans (f : Span → Span) (finding : Finding) : Finding :=
  { finding with
    span := f finding.span
    notes := finding.notes.map fun note => { note with span := f note.span } }

end Finding

/-- A check that is run on every regex. -/
structure Check where
  id : String
  description : String
  defaultSeverity : Severity
  run : Subject → List Finding
  /-- Whether a run comes to a sum that does not fit its word. The program stops there. -/
  overflows : Subject → Bool := fun _ => false

/-- A check together with the severity at which it reports. -/
structure EnabledCheck where
  check : Check
  severity : Severity

/-- A pattern with its origin, as parsed once. -/
structure ParsedRegex where
  source : PatternSource
  flags : Flags
  outcome : Except Regex.Fault Regex.Tree

namespace ParsedRegex

/-- Joins and parses some fragments. Space and comments are ignored under the flag for comments. -/
def ofFragments (fragments : List Fragment) (flags : Flags) : ParsedRegex :=
  let source := PatternSource.ofFragments fragments
  ⟨source, flags, Regex.parse (flags.contains .comments) source.pattern⟩

/-- What a check may see of a parsed regex. -/
def subject (regex : ParsedRegex) : Subject := ⟨regex.source.pattern, regex.flags, regex.outcome⟩

/-- The findings of a check, with their spans in the joined text. -/
def findings (regex : ParsedRegex) (check : Check) : List Finding :=
  (check.run regex.subject).map (Finding.mapSpans regex.source.interval)

/-- Whether a check stops on the regex. -/
def overflows (regex : ParsedRegex) (check : Check) : Bool := check.overflows regex.subject

end ParsedRegex

/-- The tree of a subject that could be parsed. -/
def Subject.tree? (subject : Subject) : Option Regex.Tree := subject.outcome.toOption

/-- A check that looks at the tree of a regex. It reports nothing when there is none. -/
def Check.onTree (id description : String) (run : Subject → Regex.Tree → List Finding) : Check where
  id
  description
  defaultSeverity := .warning
  run subject := match subject.tree? with
    | some tree => run subject tree
    | none => []

end RegexAudit
