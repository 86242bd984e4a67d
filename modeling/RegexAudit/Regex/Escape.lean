import RegexAudit.Regex.Reader
import RegexAudit.Regex.Tree
import RegexAudit.Text.Numeral

/-!
# Escapes in patterns

What a backslash begins: a literal, an assertion or a predefined class.

## Main definitions

* `Primitive`: what an escape or a single character stands for.
* `Reader.escape`: reads what follows a backslash.

## Design notes

Each reader is given the offset `start` of the backslash, where the span of
the result begins. Back-references are refused.
-/

namespace RegexAudit

namespace Regex

/-- What an escape or a single character stands for. -/
inductive Primitive where
  | literal (span : Span) (char : Char)
  | assertion (span : Span) (kind : AssertionKind)
  | predefined (span : Span)
deriving DecidableEq, Repr

namespace Primitive

/-- The span of a primitive. -/
def span : Primitive → Span
  | literal span _ | assertion span _ | predefined span => span

/-- The tree of a primitive that stands on its own. -/
def tree : Primitive → Tree
  | literal span c => .literal span c
  | assertion span kind => .assertion span kind
  | predefined span => .predefined span

end Primitive

/-- Characters with a meaning of their own, which an escape takes away. -/
def metaCharacters : List Char :=
  ['\\', '.', '+', '*', '?', '(', ')', '|', '[', ']', '\x7b', '\x7d', '^', '$', '#', '&', '-', '~']

/-- Whether an escaped character just stands for itself: ASCII, but neither a letter nor a digit nor
an angle bracket. -/
def isPlainEscape (c : Char) : Bool :=
  metaCharacters.contains c ||
    (decide (c.toNat < 128) && !c.isAlphanum && c != '<' && c != '>')

/-- The control character that an escape letter stands for. -/
def controlEscape? : Char → Option Char
  | 'a' => some '\x07'
  | 'f' => some '\x0c'
  | 't' => some '\t'
  | 'n' => some '\n'
  | 'r' => some '\r'
  | 'v' => some '\x0b'
  | _ => none

/-- The assertion that an escape letter stands for. -/
def assertionEscape? : Char → Option AssertionKind
  | 'A' => some .startText
  | 'z' => some .endText
  | 'B' => some .notWordBoundary
  | '<' => some .wordStart
  | '>' => some .wordEnd
  | _ => none

/-- Whether a letter is the name of a predefined class. -/
def isClassLetter (c : Char) : Bool := ['d', 's', 'w', 'D', 'S', 'W'].contains c

/-- The number of digits that follow the letter of a hexadecimal escape without braces. -/
def hexWidth? : Char → Option Nat
  | 'x' => some 2
  | 'u' => some 4
  | 'U' => some 8
  | _ => none

/-- A character that may stand in the name of a word boundary. -/
def isBoundaryNamePart (c : Char) : Bool := c.isAlpha || c == '-'

/-- The word boundary with a name. -/
def namedBoundary? (name : List Char) : Option AssertionKind :=
  if name = "start".toList then some .wordStart
  else if name = "end".toList then some .wordEnd
  else if name = "start-half".toList then some .wordStartHalf
  else if name = "end-half".toList then some .wordEndHalf
  else none

/-- The span of a character that starts at an offset. -/
def charSpan (offset : Nat) (c : Char) : Span := ⟨offset, offset + c.utf8Size⟩

namespace Reader

open RegexAudit.Reader

/-- Reads some hexadecimal digits, with what may be skipped after each. -/
def hexDigits (ws : Bool) : Nat → Reader (List Char)
  | 0 => return []
  | n + 1 => do
    let ch ← peekOr .escapeUnexpectedEnd .empty
    if Numeral.isHex ch then
      next ws
      return ch :: (← hexDigits ws n)
    else fail .escapeHexInvalidDigit (charSpan (← offset) ch)

/-- Reads a literal spelled by a fixed number of hexadecimal digits. -/
def hexFixed (ws : Bool) (start digits : Nat) : Reader Primitive := do
  let first ← offset
  let spelled ← hexDigits ws digits
  let stop ← offset
  match Numeral.scalar? spelled with
  | some c => return .literal ⟨start, stop⟩ c
  | none => fail .escapeHexInvalid ⟨first, stop⟩

/-- Reads a literal spelled by hexadecimal digits in braces. The opening brace comes next. -/
def hexBraced (ws : Bool) (start : Nat) : Reader Primitive := do
  let brace ← offset
  next ws
  let spelled ← collect ws Numeral.isHex
  let last ← offset
  let ch ← peekOr .escapeUnexpectedEnd (⟨brace, ·⟩)
  if ch = '\x7d' then
    next ws
    let stop ← offset
    if spelled.isEmpty then fail .escapeHexEmpty ⟨brace, stop⟩
    else
      match Numeral.scalar? spelled with
      | some c => return .literal ⟨start, stop⟩ c
      | none => fail .escapeHexInvalid ⟨brace + 1, last⟩
  else fail .escapeHexInvalidDigit (charSpan last ch)

/-- Reads a hexadecimal escape. Its letter, which has the given width, comes next. -/
def hex (ws : Bool) (start digits : Nat) : Reader Primitive := do
  next ws
  let ch ← peekOr .escapeUnexpectedEnd .empty
  if ch = '\x7b' then hexBraced ws start else hexFixed ws start digits

/-- Reads a Unicode class. Its letter comes next. The name of the class is not examined. -/
def unicodeClass (ws : Bool) (start : Nat) : Reader Primitive := do
  next ws
  let ch ← peekOr .escapeUnexpectedEnd .empty
  if ch = '\x7b' then
    next ws
    let _ ← collect ws (· != '\x7d')
    let _ ← peekOr .escapeUnexpectedEnd .empty
    advance 1
  else if ch = '\\' then fail .unicodeClassInvalid (charSpan (← offset) ch)
  else next ws
  return .predefined ⟨start, ← offset⟩

/-- Reads what follows the letter of a word boundary. A brace may name a special boundary or begin a
counted repetition, and the first character in it decides. -/
def wordBoundary (ws : Bool) (start : Nat) : Reader Primitive := do
  let here ← place
  let plain := Primitive.assertion ⟨start, here.offset⟩ .wordBoundary
  if here.rest.head? = some '\x7b' then
    let inside := (here.advance 1).skipTrivia ws
    match inside.rest with
    | [] => fail .specialWordOrRepetitionUnexpectedEnd ⟨start, inside.offset⟩
    | ch :: _ =>
      if isBoundaryNamePart ch then
        next ws
        let name ← collect ws isBoundaryNamePart
        let last ← offset
        if (← peek?) = some '\x7d' then
          advance 1
          match namedBoundary? name with
          | some kind => return .assertion ⟨start, ← offset⟩ kind
          | none => fail .specialWordBoundaryUnrecognized ⟨inside.offset, last⟩
        else fail .specialWordBoundaryUnclosed ⟨here.offset, last⟩
      else return plain
  else return plain

/-- Reads an escape of a single character, which comes next. -/
def simpleEscape (ws : Bool) (start : Nat) (ch : Char) : Reader Primitive := do
  advance 1
  let span : Span := ⟨start, ← offset⟩
  if isPlainEscape ch then return .literal span ch
  else if isClassLetter ch then return .predefined span
  else if ch = 'b' then wordBoundary ws start
  else
    match controlEscape? ch, assertionEscape? ch with
    | some c, _ => return .literal span c
    | none, some kind => return .assertion span kind
    | none, none => fail .escapeUnrecognized span

/-- Reads what follows a backslash that stands at `start`. -/
def escape (ws : Bool) (start : Nat) : Reader Primitive := do
  let ch ← peekOr .escapeUnexpectedEnd (⟨start, ·⟩)
  if ch.isDigit then fail .unsupportedBackreference ⟨start, start + 2⟩
  else if ch = 'p' ∨ ch = 'P' then unicodeClass ws start
  else
    match hexWidth? ch with
    | some digits => hex ws start digits
    | none => simpleEscape ws start ch

end Reader

end Regex

end RegexAudit
