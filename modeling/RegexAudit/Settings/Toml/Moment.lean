/-!
# Dates and times

Whether a text writes a date, a time of day, or both, with an optional offset.

## Main definitions

* `Moment.date?`, `Moment.time?`, `Moment.offset?`: what is left after each.
* `Moment.isMoment`: whether a whole text writes a date, a time or both.

## Design notes

No setting holds a moment, so nothing but its form is examined.
-/

namespace RegexAudit

namespace Moment

/-- The number that so many digits spell, and what is left. -/
def digits? : Nat → Nat → List Char → Option (Nat × List Char)
  | 0, value, cs => some (value, cs)
  | n + 1, value, c :: cs =>
    if c.isDigit then digits? n (value * 10 + (c.toNat - '0'.toNat)) cs else none
  | _ + 1, _, [] => none

/-- What is left after a number of some digits between two bounds. -/
def bounded? (digits least most : Nat) (cs : List Char) : Option (List Char) := do
  let (n, rest) ← digits? digits 0 cs
  if least ≤ n ∧ n ≤ most then some rest else none

/-- What is left after a given character. -/
def char? (c : Char) : List Char → Option (List Char)
  | d :: cs => if d = c then some cs else none
  | [] => none

/-- The number of days of a month. -/
def daysOf (year month : Nat) : Nat :=
  if month = 2 then
    if year % 4 = 0 ∧ (year % 100 ≠ 0 ∨ year % 400 = 0) then 29 else 28
  else if month = 4 ∨ month = 6 ∨ month = 9 ∨ month = 11 then 30
  else 31

/-- What is left after a date. -/
def date? (cs : List Char) : Option (List Char) := do
  let (year, cs) ← digits? 4 0 cs
  let cs ← char? '-' cs
  let (month, cs) ← digits? 2 0 cs
  if 1 ≤ month ∧ month ≤ 12 then
    bounded? 2 1 (daysOf year month) (← char? '-' cs)
  else none

/-- What is left after a fraction of a second, if there is one. -/
def fraction? : List Char → Option (List Char)
  | '.' :: cs => if (cs.head?.any Char.isDigit) then some (cs.dropWhile Char.isDigit) else none
  | cs => some cs

/-- What is left after a time of day. The seconds may be absent. -/
def time? (cs : List Char) : Option (List Char) := do
  let cs ← bounded? 2 0 23 cs
  let cs ← bounded? 2 0 59 (← char? ':' cs)
  match cs with
  | ':' :: cs => fraction? (← bounded? 2 0 60 cs)
  | _ => some cs

/-- What is left after an offset, if there is one. -/
def offset? (cs : List Char) : Option (List Char) :=
  match cs with
  | 'Z' :: rest | 'z' :: rest => some rest
  | '+' :: rest | '-' :: rest => do
    let rest ← bounded? 2 0 23 rest
    bounded? 2 0 59 (← char? ':' rest)
  | _ => some cs

/-- Whether a text writes a date, a time of day, or a date and a time. -/
def isMoment (cs : List Char) : Bool :=
  match date? cs with
  | none => time? cs == some []
  | some [] => true
  | some (separator :: rest) =>
    (separator == 'T' || separator == 't' || separator == ' ') &&
      (time? rest).bind offset? == some []

end Moment

end RegexAudit
