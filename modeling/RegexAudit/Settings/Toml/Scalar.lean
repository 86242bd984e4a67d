import RegexAudit.Settings.Toml.Blank
import RegexAudit.Settings.Toml.Moment

/-!
# Scalars of TOML

Numbers, truth values, dates and times: the values that are written without
quotes or brackets.

## Main definitions

* `Toml.integer?`, `Toml.float?`: the numbers.
* `Toml.scalar?`: the value that a text writes.
* `Toml.scalar`: reads a scalar.

## Design notes

A scalar is refused for its form. A number of good form that has no value is a
number all the same, `Document.unheld`: one that is too large, a radix mark
without digits, and a decimal number with other characters behind an underscore.
-/

namespace RegexAudit

namespace Toml

open RegexAudit.Reader Document.Reader

/-- Whether each underscore stands between two digits. -/
def isGrouped (isDigit : Char → Bool) : List Char → Bool
  | before :: '_' :: after :: cs =>
    isDigit before && isDigit after && isGrouped isDigit (after :: cs)
  | '_' :: _ | [_, '_'] => false
  | _ :: cs => isGrouped isDigit cs
  | [] => true

/-- A text without its underscores. -/
def ungrouped (cs : List Char) : List Char := cs.filter (· != '_')

/-- The digits of a run that may be grouped by single underscores. -/
def digits? (isDigit : Char → Bool) (cs : List Char) : Option (List Char) :=
  if !cs.isEmpty && isGrouped isDigit cs && (ungrouped cs).all isDigit then some (ungrouped cs)
  else none

/-- A sign in front of a number, and the rest. -/
def signed : List Char → Bool × List Char
  | '-' :: cs => (true, cs)
  | '+' :: cs => (false, cs)
  | cs => (false, cs)

/-- The digits of a number that does not begin with a superfluous zero. -/
def whole? (cs : List Char) : Option (List Char) :=
  (digits? Char.isDigit cs).filter fun digits => digits.length = 1 || digits.head? != some '0'

/-- Whether an integer can be held at all, in 128 bits with or without a sign. -/
def isHeld : Int → Bool
  | .ofNat n => n < Nat.pow 2 128
  | .negSucc n => n < Nat.pow 2 127

/-- The document of a number that may have no value. -/
def held : Option Int → Document
  | some n => if isHeld n then .integer n else .unheld
  | none => .unheld

/-- The number that grouped digits of a radix spell. No digits spell a number without value. -/
def radixed? (radix : Nat) (cs : List Char) : Option Document :=
  if isGrouped (Numeral.isDigit radix) cs && (ungrouped cs).all (Numeral.isDigit radix) then
    some (held ((Numeral.ofDigits? radix (ungrouped cs)).map Int.ofNat))
  else none

/-- Whether what follows the first digits of a decimal number may follow them. From an underscore
on, little is ruled out: space, and what would make the number a fraction or give it an exponent. -/
def isDecimalTail : List Char → Bool
  | [] => true
  | '_' :: cs => cs.all fun c => !([' ', '.', 'e', 'E'].contains c)
  | _ => false

/-- The number that a text writes as a decimal integer. -/
def decimal? (text : List Char) : Option Document :=
  let (negative, body) := signed text
  if body.head?.any Char.isDigit && (body.length == 1 || body.head? != some '0') &&
      isDecimalTail (body.dropWhile Char.isDigit) && isGrouped Numeral.isHex body then
    some (held ((Numeral.ofDigits? 10 (ungrouped body)).map fun magnitude : Nat =>
      if negative then -(magnitude : Int) else magnitude))
  else none

/-- The number that a text writes as an integer. Only a decimal number may have a sign. -/
def integer? : List Char → Option Document
  | '0' :: 'x' :: cs => radixed? 16 cs
  | '0' :: 'o' :: cs => radixed? 8 cs
  | '0' :: 'b' :: cs => radixed? 2 cs
  | text => decimal? text

/-- Whether `mantissa` times the power of ten with the given exponent is nearer to a finite number
of 64 bits than to the next power of two beyond. -/
def isFinite (mantissa : Nat) (exponent : Int) : Bool :=
  let bound := Nat.pow 2 1024 - Nat.pow 2 970
  let size : Int := (Nat.toDigits 10 mantissa).length + exponent
  if mantissa = 0 || size < 300 then true
  else if 310 < size then false
  else if 0 ≤ exponent then mantissa * Nat.pow 10 exponent.toNat < bound
  else mantissa < bound * Nat.pow 10 (-exponent).toNat

/-- The exponent that ends a number, if it does. -/
def exponent? : List Char → Option Int
  | [] => some 0
  | mark :: cs =>
    if mark = 'e' ∨ mark = 'E' then do
      let (negative, digits) := signed cs
      let magnitude ← Numeral.ofDigits? 10 (← digits? Char.isDigit digits)
      some (if negative then -magnitude else magnitude)
    else none

/-- Whether a character belongs to a group of digits. -/
def isGroupPart (c : Char) : Bool := c.isDigit || c == '_'

/-- The number that a text writes with a fraction or an exponent, or by name. -/
def float? (text : List Char) : Option Document := do
  let body := (signed text).2
  if body == "inf".toList || body == "nan".toList then return .other
  let (hasPoint, fraction, rest) : Bool × List Char × List Char :=
    match body.dropWhile isGroupPart with
    | '.' :: cs => (true, cs.takeWhile isGroupPart, cs.dropWhile isGroupPart)
    | cs => (false, [], cs)
  let whole ← whole? (body.takeWhile isGroupPart)
  let fraction ← if hasPoint then digits? Char.isDigit fraction else some []
  let exponent ← exponent? rest
  let mantissa ← Numeral.ofDigits? 10 (whole ++ fraction)
  return if isFinite mantissa (exponent - fraction.length) then .other else .unheld

/-- The value that a text writes. -/
def scalar? (text : List Char) : Option Document :=
  if text = "true".toList then some (.bool true)
  else if text = "false".toList then some (.bool false)
  else if Moment.isMoment text then some .moment
  else (integer? text).or (float? text)

/-- The characters of words. -/
def isWordPart (c : Char) : Bool :=
  !([',', '=', '[', ']', '\x7b', '\x7d', '#', ' ', '\t', '\r', '\n'].contains c)

/-- The characters with which a further word of a scalar may begin. -/
def startsWord (c : Char) : Bool := isWordPart c && !(['.', '"', '\''].contains c)

/-- Reads a scalar: words with space between, such as a date and a time. -/
def scalar (limit : Nat) : Document.Reader Document := do
  let pieces ← iterate limit (fun read => do
    let word ← takeWhile isWordPart
    let rest := (← place).rest
    let blank := rest.takeWhile isSpace
    if !blank.isEmpty && (rest.dropWhile isSpace).head?.any startsWord then
      space
      return .inl (blank :: word :: read)
    else return .inr (word :: read).reverse) []
  valueOf (scalar? pieces.flatten)

end Toml

end RegexAudit
