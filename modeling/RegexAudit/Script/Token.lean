import RegexAudit.Text.Basic

/-!
# Tokens of a script

The vocabulary of the scripting language whose calls are examined: names,
integers, string literals, punctuation and newlines.

## Main definitions

* `Entry`: one lexical piece of a string literal, with its spelling and place.
* `StringLiteral`: a literal as the sequence of its entries.
* `Token`: a token kind with the span it covers.
* `Tokens`: the tokens of a whole source, with the offset where it ends.
-/

namespace RegexAudit

namespace Script

/-- What a piece of a string literal stands for. -/
inductive EntryKind where
  /-- A run of characters that stand for themselves. -/
  | literal
  /-- An escape and the character that it stands for. -/
  | escape (value : Char)
  /-- A template, whose text is only known when the script runs. -/
  | interpolation
deriving DecidableEq, Repr

/-- One piece of a string literal: its kind, its spelling and the span of the spelling. -/
structure Entry where
  kind : EntryKind
  text : List Char
  range : Span
deriving DecidableEq, Repr

/-- A string literal. A raw literal has three quotes on each side and no escapes of its own: each
backslash in it is an entry that stands for a backslash. -/
structure StringLiteral where
  raw : Bool
  entries : List Entry
deriving DecidableEq, Repr

/-- The kinds of token. -/
inductive TokenKind where
  | name (text : String)
  | integer (value : Nat)
  | string (literal : StringLiteral)
  | openParen
  | closeParen
  | comma
  | dot
  | equals
  | plus
  | semicolon
  | newline
deriving DecidableEq, Repr

/-- A token and the span of its spelling. -/
structure Token where
  kind : TokenKind
  range : Span
deriving DecidableEq, Repr

/-- The tokens of a source in order, and the offset where the source ends. -/
structure Tokens where
  items : List Token
  stop : Nat
deriving DecidableEq, Repr

end Script

end RegexAudit
