import RegexAudit.Settings.Document

/-!
# JSON

Reads documents in the JSON format.

## Main definitions

* `Json.string`, `Json.number`, `Json.value`: the readers of the productions.
* `Json.ofText`: the document that a whole text spells.

## Design notes

A string may spell half of a surrogate pair. The format admits it, so it is read
as a string without value, and is refused only where a value is asked for.
Nesting is bounded by nothing but the length of the text.
-/

namespace RegexAudit

namespace Json

open RegexAudit.Reader Document.Reader

/-- Space between the parts of a document. -/
def isSpace (c : Char) : Bool := c == ' ' || c == '\t' || c == '\n' || c == '\r'

/-- Moves over space. -/
def skip : Document.Reader Unit := dropWhile isSpace

/-- One element of a string: a character, or half of a surrogate pair. -/
inductive Element where
  | char (c : Char)
  | half (unit : Nat)
deriving DecidableEq, Repr

/-- The element with a number of four hexadecimal digits. -/
def Element.ofUnit (unit : Nat) : Element :=
  match Numeral.charOfScalar? unit with
  | some c => .char c
  | none => .half unit

/-- The character that two halves spell. -/
def paired? (high low : Nat) : Option Char :=
  if 0xD800 ≤ high ∧ high < 0xDC00 ∧ 0xDC00 ≤ low ∧ low < 0xE000 then
    Numeral.charOfScalar? (0x10000 + (high - 0xD800) * 0x400 + (low - 0xDC00))
  else none

/-- The characters that some elements spell. Each half must be one of a pair. -/
def spelled? : List Element → Option (List Char)
  | [] => some []
  | .char c :: rest => (spelled? rest).map (c :: ·)
  | .half high :: .half low :: rest => do
    let c ← paired? high low
    (spelled? rest).map (c :: ·)
  | .half _ :: _ => none

/-- The character that a letter stands for after a backslash. -/
def escaped? : Char → Option Char
  | '"' => some '"'
  | '\\' => some '\\'
  | '/' => some '/'
  | 'b' => some '\x08'
  | 'f' => some '\x0c'
  | 'n' => some '\n'
  | 'r' => some '\r'
  | 't' => some '\t'
  | _ => none

/-- Reads what follows a backslash. -/
def escape : Document.Reader Element := do
  let letter ← char
  if letter = 'u' then return .ofUnit (← hexNumber 4)
  else return .char (← valueOf (escaped? letter))

/-- Reads the rest of a string, whose opening quote has been read. -/
def string (limit : Nat) : Document.Reader (Option String) := do
  let elements ← iterate limit (fun read => do
    let c ← char
    if c = '"' then return .inr read.reverse
    else if c = '\\' then return .inl ((← escape) :: read)
    else if c.toNat < 0x20 then malformed
    else return .inl (.char c :: read)) []
  return (spelled? elements).map String.ofList

/-- Reads at least one digit. -/
def digits : Document.Reader (List Char) := do
  let read ← takeWhile Char.isDigit
  if read.isEmpty then malformed else return read

/-- Reads a number. It is an integer when it has neither fraction nor exponent. A negative zero is
none. -/
def number : Document.Reader Document := do
  let negative ← accept ['-']
  let whole ← digits
  if whole.head? = some '0' ∧ whole ≠ ['0'] then malformed
  let hasFraction ← accept ['.']
  if hasFraction then let _ ← digits
  let hasExponent ← acceptIf fun c => c == 'e' || c == 'E'
  if hasExponent then
    let _ ← acceptIf fun c => c == '+' || c == '-'
    let _ ← digits
  if hasFraction || hasExponent || (negative && whole = ['0']) then return .other
  else
    let magnitude ← valueOf (Numeral.ofDigits? 10 whole)
    return .integer (if negative then -magnitude else magnitude)

/-- Reads items between commas up to a closing character. No comma follows the last. -/
def separated {α : Type} (limit : Nat) (close : Char) (item : Document.Reader α) :
    Document.Reader (List α) := do
  skip
  if ← accept [close] then return []
  else iterate limit (fun read => do
    let read := (← item) :: read
    skip
    if ← accept [','] then
      skip
      return .inl read
    else
      required [close]
      return .inr read.reverse) []

/-- Reads a named value. -/
def entry (limit : Nat) (value : Document.Reader Document) :
    Document.Reader (Option String × Document) := do
  required ['"']
  let name ← string limit
  skip
  required [':']
  skip
  return (name, ← value)

/-- Reads a value that is nested no deeper than a limit. -/
def value (limit : Nat) : (depth : Nat) → Document.Reader Document
  | 0 => malformed
  | depth + 1 => do
    if ← accept ['"'] then return .text (← string limit)
    else if ← accept ['['] then return .list (← separated limit ']' (value limit depth))
    else if ← accept ['\x7b'] then
      return .table (← separated limit '\x7d' (entry limit (value limit depth)))
    else if ← accept "null".toList then return .null
    else if ← accept "true".toList then return .bool true
    else if ← accept "false".toList then return .bool false
    else number

/-- The document that a whole text spells. No value is nested deeper than the text is long. -/
def ofText (text : List Char) : Except Error Document :=
  Document.ofText (do
    skip
    let read ← value text.length (text.length + 1)
    skip
    return read) text

end Json

end RegexAudit
