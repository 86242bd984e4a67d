import RegexAudit.Script.Expr

/-!
# Fragments of a pattern

A pattern is assembled from pieces of string literals. A fragment is one such
piece with its place in the source.

## Main definitions

* `Fragment`: a piece of a literal; it may stand for a single backslash.
* `Fragment.normalized`: the spelling that the piece contributes.
* `StringLiteral.fragments?`: the fragments of a literal without templates.

## Design notes

A backslash has many spellings in the source. All of them are normalized to
two backslashes, so the joined text can be decoded again.
-/

namespace RegexAudit

/-- One indivisible piece of a string literal. -/
structure Fragment where
  /-- The spelling in the source. -/
  text : List Char
  /-- The place of the spelling. -/
  range : Span
  /-- The piece stands for a single backslash. -/
  isBackslash : Bool
deriving DecidableEq, Repr

namespace Fragment

/-- The spelling that all backslashes are given. -/
def escapedBackslash : List Char := ['\\', '\\']

/-- The text that a fragment contributes to the joined text. -/
def normalized (f : Fragment) : List Char := if f.isBackslash then escapedBackslash else f.text

/-- The number of bytes that a fragment contributes. -/
def size (f : Fragment) : Nat := Text.width f.normalized

/-- The text of some fragments joined in order. -/
def join (fragments : List Fragment) : List Char := fragments.flatMap normalized

end Fragment

namespace Script

/-- The fragment of an entry; a template has none. -/
def Entry.fragment? (e : Entry) : Option Fragment :=
  match e.kind with
  | .literal => some ⟨e.text, e.range, false⟩
  | .escape value => some ⟨e.text, e.range, value == '\\'⟩
  | .interpolation => none

/-- The fragments of a literal. There are none when one of its entries is a template. -/
def StringLiteral.fragments? (literal : StringLiteral) : Option (List Fragment) :=
  literal.entries.mapM Entry.fragment?

end Script

end RegexAudit
