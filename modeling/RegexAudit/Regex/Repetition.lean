import RegexAudit.Regex.Reader
import RegexAudit.Text.Numeral

/-!
# Repetition operators

Reads the operators `?`, `*`, `+` and counted repetitions in braces, each with
the mark that makes it lazy.

## Main definitions

* `Reader.decimal`: reads one bound of a counted repetition.
* `Reader.counted`: reads a counted repetition.
* `Reader.uncounted`: reads the rest of any other operator.

## Design notes

A faulty first bound is not reported at once: a repetition that is not closed
is reported in its place. So `Reader.decimal` yields its fault as a value.
-/

namespace RegexAudit

namespace Regex

/-- The largest bound of a counted repetition. -/
def maxRepetition : Nat := 4294967295

/-- The bounds of a counted repetition. -/
inductive Bounds where
  | exactly (count : Nat)
  | atLeast (count : Nat)
  | between (least most : Nat)
deriving DecidableEq, Repr

/-- Whether some count is within the bounds. -/
def Bounds.isValid : Bounds → Bool
  | between least most => least ≤ most
  | _ => true

namespace Reader

open RegexAudit.Reader

/-- Moves over space, and then over what may be skipped after it. -/
def skipBlank (ws : Bool) : Reader Unit := do
  if (← peek?).any Text.isBlank then
    dropWhile Text.isBlank
    skip ws

/-- Reads a decimal number with space around it. A fault is yielded and not raised. -/
def decimal (ws : Bool) : Reader (Except Fault Nat) := do
  dropWhile Text.isBlank
  let start ← offset
  let digits ← collect ws Char.isDigit
  let span : Span := ⟨start, ← offset⟩
  skipBlank ws
  match Numeral.ofDigits? 10 digits with
  | none => return .error ⟨.repetitionCountDecimalEmpty, span⟩
  | some n => return if n ≤ maxRepetition then .ok n else .error ⟨.decimalInvalid, span⟩

/-- Reads the bounds of a counted repetition whose brace stood at `start`. -/
def bounds (ws : Bool) (start : Nat) : Reader Bounds := do
  let least ← decimal ws
  let ch ← peekOr .repetitionCountUnclosed (⟨start, ·⟩)
  if ch = ',' then
    next ws
    let ch ← peekOr .repetitionCountUnclosed (⟨start, ·⟩)
    if ch = '\x7d' then return .atLeast (← ofExcept least)
    else
      let least ← ofExcept least
      let most ← ofExcept (← decimal ws)
      return .between least most
  else return .exactly (← ofExcept least)

/-- Moves over the mark that makes an operator lazy. -/
def lazyMark : Reader Unit := do
  if (← peek?) = some '?' then advance 1

/-- Reads the rest of a counted repetition whose brace stood at `start`, and yields its span. -/
def counted (ws : Bool) (start : Nat) : Reader Span := do
  skip ws
  let _ ← peekOr .repetitionCountUnclosed (⟨start, ·⟩)
  let bounds ← bounds ws start
  let ch ← peekOr .repetitionCountUnclosed (⟨start, ·⟩)
  if ch = '\x7d' then
    next ws
    lazyMark
    let span : Span := ⟨start, ← offset⟩
    if bounds.isValid then return span else fail .repetitionCountInvalid span
  else fail .repetitionCountUnclosed ⟨start, ← offset⟩

/-- Reads the rest of an operator of one character that stood at `start`, and yields its span. -/
def uncounted (start : Nat) : Reader Span := do
  lazyMark
  return ⟨start, ← offset⟩

end Reader

end Regex

end RegexAudit
