import RegexAudit.Component
import RegexAudit.Settings.Discovery
import RegexAudit.Settings.Schema
import RegexAudit.Text.Decimal
import RegexAudit.Workspace
import RegexAudit.Proofs.Script.Literal
import RegexAudit.Proofs.Script.Tokens
import RegexAudit.Proofs.Pattern.Decoding
import RegexAudit.Proofs.Pattern.Glyph
import RegexAudit.Proofs.Pattern.Origin
import RegexAudit.Proofs.Script.Expansion
import RegexAudit.Proofs.Script.Execution
import RegexAudit.Proofs.Audit.Sites
import RegexAudit.Proofs.Audit.Cache
import RegexAudit.Proofs.Audit.Overflow
import RegexAudit.Proofs.Script.Layout
import RegexAudit.Proofs.Script.Acceptance
import RegexAudit.Proofs.Flags.Folding
import RegexAudit.Proofs.Audit.Locations
import RegexAudit.Proofs.Audit.Rules
import RegexAudit.Proofs.Audit.SyntaxErrors
import RegexAudit.Proofs.Script.Cuts
import RegexAudit.Proofs.Script.Rejections
import RegexAudit.Proofs.Script.Totality
import RegexAudit.Proofs.Shift.Basic
import RegexAudit.Proofs.Shift.Lexer
import RegexAudit.Proofs.Shift.Parser
import RegexAudit.Proofs.Shift.Lines
import RegexAudit.Proofs.Shift.Sites
import RegexAudit.Proofs.Shift.Diagnostics
import RegexAudit.Proofs.Shift.Analysis
import RegexAudit.Proofs.Pattern.Coverage
import RegexAudit.Proofs.Pattern.Slicing
import RegexAudit.Proofs.Audit.Invocations
import RegexAudit.Proofs.Audit.Abandonment
import RegexAudit.Proofs.Audit.Reporting
import RegexAudit.Proofs.Regex.Ranges
import RegexAudit.Proofs.Regex.Reading
import RegexAudit.Proofs.Regex.Brackets
import RegexAudit.Proofs.Regex.Rounds
import RegexAudit.Proofs.Regex.Separators
import RegexAudit.Proofs.Regex.Classes
import RegexAudit.Proofs.Check.Subject
import RegexAudit.Proofs.Check.Duplicates
import RegexAudit.Proofs.Check.Overlaps
import RegexAudit.Proofs.Check.Anchors
import RegexAudit.Proofs.Check.Scores
import RegexAudit.Proofs.Check.Bars
import RegexAudit.Proofs.Check.Overflow
import RegexAudit.Proofs.Audit.Signatures
import RegexAudit.Proofs.Script.Escapes
import RegexAudit.Proofs.Script.Entries
import RegexAudit.Proofs.Pattern.Boundaries
import RegexAudit.Proofs.Audit.Indices
import RegexAudit.Proofs.Script.Prediction
import RegexAudit.Proofs.Script.Nodes
import RegexAudit.Proofs.Script.Ranges
import RegexAudit.Proofs.Script.Visits
import RegexAudit.Proofs.Text.Order
import RegexAudit.Proofs.Pattern.Lookups
import RegexAudit.Proofs.Settings.Nearest
import RegexAudit.Proofs.Audit.Keyings
