import RegexAudit.Settings.Toml.Quoted
import RegexAudit.Settings.Toml.Scalar
import RegexAudit.Settings.Toml.Table

/-!
# Names and values of TOML

## Main definitions

* `Toml.name`, `Toml.path`: read a name, and names with dots between.
* `Toml.value`: reads a value.
* `Toml.maxNesting`: how deep lists and tables may be nested in a value.
* `Toml.maxPath`: how many names may follow one another with dots between.
-/

namespace RegexAudit

namespace Toml

open RegexAudit.Reader Document.Reader

/-- The depth to which lists and tables may be nested in a value. -/
def maxNesting : Nat := 80

/-- The number of names that may follow one another with dots between. -/
def maxPath : Nat := 80

/-- The characters of names without quotes. -/
def isBare (c : Char) : Bool := c.isAlphanum || c == '_' || c == '-'

/-- Reads a name. Its quotes, if it has any, are not written three times. -/
def name (limit : Nat) : Document.Reader String := do
  let rest := (← place).rest
  if ['"', '"', '"'].isPrefixOf rest || ['\'', '\'', '\''].isPrefixOf rest then malformed
  else
    match ← line? limit with
    | some name => return name
    | none =>
      let bare ← takeWhile isBare
      if bare.isEmpty then malformed else return String.ofList bare

/-- Reads names with dots between: those of a path, and the last one. -/
def path (limit : Nat) : Document.Reader (List String × String) :=
  iterate limit (fun read => do
    space
    let last ← name limit
    space
    if maxPath ≤ read.length then malformed
    else if ← accept ['.'] then return .inl (last :: read) else return .inr (read.reverse, last)) []

/-- Reads the rest of a list. A comma may follow its last item. -/
def items (limit : Nat) (value : Document.Reader Document) : Document.Reader Document :=
  iterate limit (fun read => do
    trivia limit
    if ← accept [']'] then return .inr (.list read.reverse)
    else
      let read := (← value) :: read
      trivia limit
      if ← accept [','] then return .inl read
      else
        required [']']
        return .inr (.list read.reverse)) []

/-- Reads the rest of a table in braces. A comma may follow its last entry. -/
def entries (limit : Nat) (value : Document.Reader Document) : Document.Reader Document :=
  iterate limit (fun (read : Table) => do
    trivia limit
    if ← accept ['\x7d'] then return .inr read.document
    else
      let (path, last) ← path limit
      trivia limit
      required ['=']
      trivia limit
      let read ← valueOf (read.define? path last (← value))
      trivia limit
      if ← accept [','] then return .inl read
      else
        required ['\x7d']
        return .inr read.document) (.empty .own)

/-- Reads a value in which lists and tables are nested no deeper than `depth`. -/
def value (limit : Nat) (depth : Nat) : Document.Reader Document := do
  match ← quoted? limit with
  | some s => return .text s
  | none =>
    match depth with
    | 0 => scalar limit
    | depth + 1 =>
      if ← accept ['['] then items limit (value limit depth)
      else if ← accept ['\x7b'] then entries limit (value limit depth)
      else scalar limit

end Toml

end RegexAudit
