import RegexAudit.Settings.Toml.Blank

/-!
# Strings of TOML

A string is basic, with escapes, or literal, without. Either may be spread over
several lines when its quotes are written three times.

## Main definitions

* `Toml.line?`: reads a string within one line.
* `Toml.quoted?`: reads a string of any kind, if one comes next.

## Design notes

Newlines in a string are kept as they are written. Up to two quotes may stand
before the three that close a string of several lines.
-/

namespace RegexAudit

namespace Toml

open RegexAudit.Reader Document.Reader

/-- The character that a letter stands for after a backslash. -/
def escaped? : Char → Option Char
  | '"' => some '"'
  | '\\' => some '\\'
  | 'b' => some '\x08'
  | 'e' => some '\x1b'
  | 'f' => some '\x0c'
  | 'n' => some '\n'
  | 'r' => some '\r'
  | 't' => some '\t'
  | _ => none

/-- The number of hexadecimal digits that a letter asks for after a backslash. -/
def hexWidth? : Char → Option Nat
  | 'x' => some 2
  | 'u' => some 4
  | 'U' => some 8
  | _ => none

/-- Reads what follows a backslash. -/
def escape : Document.Reader Char := do
  let letter ← char
  match hexWidth? letter with
  | some width => valueOf (Numeral.charOfScalar? (← hexNumber width))
  | none => valueOf (escaped? letter)

/-- Reads the rest of a basic string within one line. -/
def basicLine (limit : Nat) : Document.Reader (List Char) :=
  iterate limit (fun read => do
    let c ← char
    if c = '"' then return .inr read.reverse
    else if c = '\\' then return .inl ((← escape) :: read)
    else if isPlain c then return .inl (c :: read)
    else malformed) []

/-- Reads the rest of a literal string within one line. -/
def literalLine : Document.Reader (List Char) := do
  let read ← takeWhile fun c => isPlain c && c != '\''
  required ['\'']
  return read

/-- Moves over a backslash at the end of a line, with all space and newlines that follow it. It
tells whether there was one. -/
def lineEnd (limit : Nat) : Document.Reader Bool := do
  let here ← place
  if startsLine (here.dropWhile isSpace).rest then
    iterate limit (fun _ => do
      space
      if ← newline then return .inl () else return .inr ()) ()
    return true
  else return false

/-- Moves over up to two quotes, and yields them. -/
def spareQuotes (quote : Char) : Document.Reader (List Char) := do
  if ← accept [quote, quote] then return [quote, quote]
  else if ← accept [quote] then return [quote]
  else return []

/-- Reads the rest of a string of several lines. -/
def lines (limit : Nat) (quote : Char) (escapes : Bool) : Document.Reader (List Char) := do
  let _ ← newline
  iterate limit (fun read => do
    if ← accept [quote, quote, quote] then
      return .inr (read.reverse ++ (← spareQuotes quote))
    else if ← accept ['\r', '\n'] then return .inl ('\n' :: '\r' :: read)
    else
      let c ← char
      if escapes ∧ c = '\\' then
        if ← lineEnd limit then return .inl read else return .inl ((← escape) :: read)
      else if isPlain c ∨ c = '\n' then return .inl (c :: read)
      else malformed) []

/-- Reads a string within one line, if one comes next. -/
def line? (limit : Nat) : Document.Reader (Option String) := do
  if ← accept ['"'] then return some (String.ofList (← basicLine limit))
  else if ← accept ['\''] then return some (String.ofList (← literalLine))
  else return none

/-- Reads a string of any kind, if one comes next. -/
def quoted? (limit : Nat) : Document.Reader (Option String) := do
  if ← accept ['"', '"', '"'] then return some (String.ofList (← lines limit '"' true))
  else if ← accept ['\'', '\'', '\''] then return some (String.ofList (← lines limit '\'' false))
  else line? limit

end Toml

end RegexAudit
