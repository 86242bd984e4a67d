import RegexAudit.Script.Fault
import RegexAudit.Text.Position

/-!
# Errors of an analysis

What can go wrong outside of the regexes themselves.

## Main definitions

* `Error`: the kinds of error with what they tell.
* `Error.display`: the full wording of an error.
* `Error.isRecoverable`: whether other files can still be analysed.
-/

namespace RegexAudit

/-- The kinds of error. -/
inductive Error where
  /-- A source is no script. The offset and the position are those of the fault. -/
  | parse (message : String) (offset : Nat) (position : Position)
  /-- A configuration that cannot be used. -/
  | config (message : String)
  /-- A configuration text that its format or its schema does not admit. -/
  | malformedConfig
  /-- A file that cannot be read. -/
  | io (path cause : String)
  | internal (message : String)
  /-- A sum does not fit its word. The program stops there and has no result. -/
  | overflow
deriving DecidableEq, Repr

namespace Error

/-- A parse error at a byte offset of a source. -/
def parseAt (message : String) (offset : Nat) (source : List Char) : Error :=
  .parse message offset (Text.position source offset)

/-- The error for a fault in a source. A source that is too long is reported without a look at
it. -/
def ofFault (source : List Char) (fault : Script.Fault) : Error :=
  match fault.cause with
  | .oversized _ => parseAt fault.cause.message fault.offset []
  | cause => parseAt cause.message fault.offset source

/-- The full wording of an error. -/
def display : Error → String
  | parse message _ position =>
    "Parse error: " ++ message ++ " at " ++ toString position.line ++ ":" ++
      toString position.column
  | config message => "Configuration error: " ++ message
  | malformedConfig => "Configuration error: malformed configuration"
  | io path cause => "IO error for path '" ++ path ++ "': " ++ cause
  | internal message => "Internal error: " ++ message
  | overflow => "attempt to add with overflow"

/-- Whether other files can still be analysed after an error. -/
def isRecoverable : Error → Bool
  | parse .. | io .. => true
  | config _ | malformedConfig | internal _ | overflow => false

end Error

end RegexAudit
