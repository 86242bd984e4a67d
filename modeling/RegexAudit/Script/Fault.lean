import RegexAudit.Script.Token

/-!
# Faults in a script

Why a source text is not a script, and where.

## Main definitions

* `Cause`: the reasons for which a source is refused.
* `Cause.message`: the wording of each reason.
* `Fault`: a reason with the byte offset it is reported at.
-/

namespace RegexAudit

namespace Script

/-- What the grammar asks for at a place where something else stands. -/
inductive Expectation where
  | expression
  | identifier
  | equals
  | closeParen
  | endOfStatement
deriving DecidableEq, Repr

/-- What stands at a place where the grammar asks for something else. -/
inductive Found where
  | endOfInput
  | newline
  /-- A token with the given spelling. -/
  | spelling (text : List Char)
deriving DecidableEq, Repr

/-- The reasons for which a source is refused. -/
inductive Cause where
  /-- A source of so many bytes has offsets that spans cannot hold. -/
  | oversized (bytes : Nat)
  | unexpectedCharacter (c : Char)
  | unterminatedComment
  | unterminatedString
  | unterminatedRawString
  | unterminatedTemplate
  | illegalEscape (c : Char)
  /-- The text after the letter of a Unicode escape is not four hexadecimal digits of a scalar
  value. It is empty where four bytes cannot be cut off. -/
  | invalidUnicodeEscape (digits : List Char)
  | integerWithoutDigits
  | integerTooLarge
  | expected (what : Expectation) (found : Found)
  | nestedTooDeep
deriving DecidableEq, Repr

/-- A reason with the byte offset that it is reported at. -/
structure Fault where
  cause : Cause
  offset : Nat
deriving DecidableEq, Repr

/-- The largest number of bytes in a source. -/
def maxSourceBytes : Nat := 4294967295

/-- The deepest expression tree, and the deepest nesting of expressions, that a script may have. -/
def maxNesting : Nat := 256

/-- The wording of an expectation. -/
def Expectation.describe : Expectation → String
  | expression => "an expression"
  | identifier => "an identifier"
  | equals => "'='"
  | closeParen => "')'"
  | endOfStatement => "end of statement"

/-- The wording of what was found. -/
def Found.describe : Found → String
  | endOfInput => "end of input"
  | newline => "newline"
  | spelling text => "'" ++ String.ofList text ++ "'"

/-- The wording of a reason. -/
def Cause.message : Cause → String
  | oversized bytes =>
    "Source of " ++ toString bytes ++ " bytes exceeds the " ++ toString maxSourceBytes ++
      " byte limit"
  | unexpectedCharacter c => "Unexpected character '" ++ c.toString ++ "'"
  | unterminatedComment => "Unterminated block comment"
  | unterminatedString => "Unterminated string literal"
  | unterminatedRawString => "Unterminated raw string literal"
  | unterminatedTemplate => "Unterminated template expression"
  | illegalEscape c => "Illegal escape '\\" ++ c.toString ++ "'"
  | invalidUnicodeEscape digits => "Invalid unicode escape '\\u" ++ String.ofList digits ++ "'"
  | integerWithoutDigits =>
    "Invalid integer literal: cannot parse integer from empty string"
  | integerTooLarge =>
    "Invalid integer literal: number too large to fit in target type"
  | expected what found => "Expected " ++ what.describe ++ ", found " ++ found.describe
  | nestedTooDeep => "Expression nesting exceeds " ++ toString maxNesting ++ " levels"

end Script

end RegexAudit
