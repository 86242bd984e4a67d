/-!
# Reading numerals

Digits of a radix up to sixteen and the numbers that they spell.

## Main definitions

* `Numeral.digit?`: the value of one digit.
* `Numeral.ofDigits?`: the number spelled by a non-empty run of digits.
* `Numeral.scalar?`: the character with a hexadecimal scalar value.
-/

namespace RegexAudit

namespace Numeral

/-- The value of a digit, upper or lower case, below the radix. -/
def digit? (radix : Nat) (c : Char) : Option Nat :=
  let value :=
    if '0' ≤ c ∧ c ≤ '9' then some (c.toNat - '0'.toNat)
    else if 'a' ≤ c ∧ c ≤ 'f' then some (c.toNat - 'a'.toNat + 10)
    else if 'A' ≤ c ∧ c ≤ 'F' then some (c.toNat - 'A'.toNat + 10)
    else none
  value.filter (· < radix)

/-- Whether a character is a digit of the radix. -/
def isDigit (radix : Nat) (c : Char) : Bool := (digit? radix c).isSome

/-- Whether a character is a hexadecimal digit. -/
def isHex (c : Char) : Bool := isDigit 16 c

/-- Continues a number with further digits, most significant first. -/
def extend? (radix : Nat) : Nat → List Char → Option Nat
  | value, [] => some value
  | value, c :: cs => do extend? radix (value * radix + (← digit? radix c)) cs

/-- The number that a non-empty run of digits spells. -/
def ofDigits? (radix : Nat) (digits : List Char) : Option Nat :=
  if digits.isEmpty then none else extend? radix 0 digits

/-- The number that digits spell, with one plus sign allowed in front. -/
def ofSigned? (radix : Nat) : List Char → Option Nat
  | '+' :: digits => ofDigits? radix digits
  | digits => ofDigits? radix digits

/-- The character with a scalar value. Surrogates and larger numbers have none. -/
def charOfScalar? (n : Nat) : Option Char :=
  if h : n.isValidChar then some (Char.ofNatAux n h) else none

/-- The character whose scalar value the digits spell in hexadecimal, with one plus sign allowed
in front. -/
def scalar? (digits : List Char) : Option Char :=
  (ofSigned? 16 digits).bind charOfScalar?

end Numeral

end RegexAudit
