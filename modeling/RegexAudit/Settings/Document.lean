import RegexAudit.Error
import RegexAudit.Text.Numeral
import RegexAudit.Text.Reader

/-!
# Documents

The values that configuration formats describe, before anything is known about
settings.

## Main definitions

* `Document`: a value with its parts.
* `Document.isReadable`: whether all parts of a value can be looked at.
* `Document.Reader`: a reader of documents, which fails without a message.
* `Document.ofText`: what a reader makes of a whole text.
-/

namespace RegexAudit

/-- A value with its parts. -/
inductive Document where
  | null
  | bool (value : Bool)
  | integer (value : Int)
  /-- A number that is not written as an integer. -/
  | other
  /-- A number without value: it is too large, or not all of its characters are digits. It does no
  harm where it is not looked at. -/
  | unheld
  /-- A date, a time of day, or both. -/
  | moment
  /-- A string. It has no value when its escapes do not spell characters. -/
  | text (value : Option String)
  | list (items : List Document)
  /-- Named values in the order in which they are written. A name, too, may be without value. -/
  | table (entries : List (Option String × Document))
deriving Repr, Inhabited

namespace Document

mutual

/-- Whether a document can be looked at in all its parts. -/
def isReadable : Document → Bool
  | unheld => false
  | list items => areReadable items
  | table entries => entriesReadable entries
  | _ => true

/-- Whether documents can be looked at in all their parts. -/
def areReadable : List Document → Bool
  | [] => true
  | d :: ds => d.isReadable && areReadable ds

/-- Whether the values of entries can be looked at in all their parts. -/
def entriesReadable : List (Option String × Document) → Bool
  | [] => true
  | (_, d) :: entries => d.isReadable && entriesReadable entries

end

/-- A reader of documents. -/
abbrev Reader (α : Type) : Type := RegexAudit.Reader Error α

namespace Reader

open RegexAudit.Reader

variable {α : Type}

/-- Fails. A format does not tell why it refuses a text. -/
def malformed : Reader α := fail .malformedConfig

/-- Moves over a piece of text that has to come next. -/
def required (piece : List Char) : Reader Unit := expect .malformedConfig piece

/-- Reads one character. -/
def char : Reader Char := do
  match ← peek? with
  | some c =>
    advance 1
    return c
  | none => malformed

/-- The value that there is, or a failure. -/
def valueOf (value : Option α) : Reader α := orFail .malformedConfig value

/-- Runs a step on a state until it yields a result. A step that goes on must read something, so
`limit`, the length of the text, bounds their number. -/
def iterate {σ : Type} (limit : Nat) (step : σ → Reader (σ ⊕ α)) (state : σ) : Reader α :=
  repeated .malformedConfig step (limit + 1) state

/-- Reads some hexadecimal digits. -/
def hexDigits : Nat → Reader (List Char)
  | 0 => return []
  | n + 1 => do
    let c ← char
    if Numeral.isHex c then return c :: (← hexDigits n) else malformed

/-- Reads the number that some hexadecimal digits spell. -/
def hexNumber (digits : Nat) : Reader Nat := do
  valueOf (Numeral.ofDigits? 16 (← hexDigits digits))

end Reader

/-- What a reader makes of a whole text. -/
def ofText {α : Type} (reader : Reader α) (text : List Char) : Except Error α :=
  match reader.run (.ofText text) with
  | .error e => .error e
  | .ok (a, there) => if there.rest.isEmpty then .ok a else .error .malformedConfig

end Document

end RegexAudit
