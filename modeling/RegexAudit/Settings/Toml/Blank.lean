import RegexAudit.Settings.Document

/-!
# What may stand between the parts of a TOML document

Space within a line, newlines and comments.

## Main definitions

* `Toml.isPlain`: the characters of comments and of strings within one line.
* `Toml.space`, `Toml.newline`, `Toml.comment`: the readers of each.
* `Toml.trivia`: moves over all of them.
-/

namespace RegexAudit

namespace Toml

open RegexAudit.Reader Document.Reader

/-- A character that is no control character. A tab counts as plain. -/
def isPlain (c : Char) : Bool := c == '\t' || (0x20 ≤ c.toNat && c.toNat != 0x7f)

/-- Space within a line. -/
def isSpace (c : Char) : Bool := c == ' ' || c == '\t'

/-- Moves over space within a line. -/
def space : Document.Reader Unit := dropWhile isSpace

/-- Whether a text begins with a newline. -/
def startsLine (rest : List Char) : Bool :=
  ['\n'].isPrefixOf rest || ['\r', '\n'].isPrefixOf rest

/-- Moves over a newline if there is one, and tells whether there was. -/
def newline : Document.Reader Bool := do
  if ← accept ['\n'] then return true else accept ['\r', '\n']

/-- Moves over a comment if there is one, and tells whether there was. It reaches to the end of its
line. -/
def comment : Document.Reader Bool := do
  if ← accept ['#'] then
    dropWhile isPlain
    let here ← place
    if here.rest.isEmpty || startsLine here.rest then return true else malformed
  else return false

/-- Moves over space, newlines and comments. -/
def trivia (limit : Nat) : Document.Reader Unit :=
  iterate limit (fun _ => do
    space
    if ← newline then return .inl ()
    else if ← comment then return .inl ()
    else return .inr ()) ()

end Toml

end RegexAudit
