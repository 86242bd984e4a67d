import RegexAudit.Text.Unicode.Alphabetic
import RegexAudit.Text.Unicode.Numeric
import RegexAudit.Text.Unicode.Uppercase

/-!
# Character classes

The Unicode properties that decide what is blank, what may stand in a name and
what counts as capitalised.

## Main definitions

* `Text.isBlank`: the property White_Space.
* `Text.isAlphabetic`, `Text.isAlphanumeric`: letters, and letters or numbers.
* `Text.isUppercase`: the property Uppercase.

## Design notes

ASCII characters are decided by the classes of `Char`, all others by a table
of ranges. The lemmas `*_of_ascii` say so.
-/

namespace RegexAudit

namespace Text

/-- Whether one of the inclusive ranges holds a scalar value. -/
def inRanges (ranges : List (Nat × Nat)) (n : Nat) : Bool :=
  ranges.any fun (lo, hi) => lo ≤ n && n ≤ hi

/-- The scalar values of White_Space, as disjoint inclusive ranges in increasing order. -/
def blankRanges : List (Nat × Nat) := [
  (0x9, 0xD), (0x20, 0x20), (0x85, 0x85), (0xA0, 0xA0), (0x1680, 0x1680), (0x2000, 0x200A),
  (0x2028, 0x2029), (0x202F, 0x202F), (0x205F, 0x205F), (0x3000, 0x3000)]

/-- The property White_Space. -/
def isBlank (c : Char) : Bool := inRanges blankRanges c.toNat

/-- The property Alphabetic: letters, letter numbers and marks that act as letters. -/
def isAlphabetic (c : Char) : Bool :=
  if c.toNat < 128 then c.isAlpha else inRanges alphabeticRanges c.toNat

/-- A character of one of the numeric categories. -/
def isNumeric (c : Char) : Bool :=
  if c.toNat < 128 then c.isDigit else inRanges numericRanges c.toNat

/-- An alphabetic or numeric character. -/
def isAlphanumeric (c : Char) : Bool := isAlphabetic c || isNumeric c

/-- The property Uppercase: capital letters and capital-like characters, but not titlecase. -/
def isUppercase (c : Char) : Bool :=
  if c.toNat < 128 then c.isUpper else inRanges uppercaseRanges c.toNat

theorem isAlphabetic_of_ascii {c : Char} (h : c.toNat < 128) : isAlphabetic c = c.isAlpha := by
  simp [isAlphabetic, h]

theorem isNumeric_of_ascii {c : Char} (h : c.toNat < 128) : isNumeric c = c.isDigit := by
  simp [isNumeric, h]

theorem isUppercase_of_ascii {c : Char} (h : c.toNat < 128) : isUppercase c = c.isUpper := by
  simp [isUppercase, h]

end Text

end RegexAudit
