/-!
# Numbers with three decimals

Non-negative numbers are printed with exactly three decimals. A value halfway
between two thousandths goes to the even one.

## Main definitions

* `Decimal.roundHalfEven`: the nearest whole number to a quotient.
* `Decimal.ofThousandths`: a number of thousandths in decimal notation.
* `Decimal.ofFloat`: a finite non-negative floating-point number, exactly rounded.
-/

namespace RegexAudit

namespace Decimal

/-- The nearest whole number to a quotient. A half goes to the even neighbour. -/
def roundHalfEven (num den : Nat) : Nat :=
  let low := num / den
  let twice := 2 * (num % den)
  if twice < den then low
  else if den < twice then low + 1
  else low + low % 2

/-- A number of thousandths in decimal notation. -/
def ofThousandths (n : Nat) : String :=
  let fraction := toString (n % 1000)
  toString (n / 1000) ++ "." ++ String.ofList (List.replicate (3 - fraction.length) '0') ++ fraction

/-- A finite non-negative floating-point number as numerator and denominator. -/
def ratio (x : Float) : Nat × Nat :=
  let bits := x.toBits.toNat
  let exponent := bits / Nat.pow 2 52 % 2048
  let unit := Nat.pow 2 52
  let fraction := bits % unit
  if exponent = 0 then (fraction, Nat.pow 2 1074)
  else if 1075 ≤ exponent then ((fraction + unit) * Nat.pow 2 (exponent - 1075), 1)
  else (fraction + unit, Nat.pow 2 (1075 - exponent))

/-- A finite non-negative floating-point number with three decimals, rounded from its exact
value. -/
def ofFloat (x : Float) : String :=
  let (num, den) := ratio x
  ofThousandths (roundHalfEven (num * 1000) den)

/-- A whole number with three decimals. It is held as the nearest floating-point number. -/
def ofInt (n : Int) : String := (if n < 0 then "-" else "") ++ ofFloat n.natAbs.toFloat

end Decimal

end RegexAudit
