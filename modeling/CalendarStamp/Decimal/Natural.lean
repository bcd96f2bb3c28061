/-!
# Natural numbers in decimal digits

Numbers in the files of a store, and in the names of these files, are written
with decimal digits.
-/

namespace CalendarStamp.Decimal

/-- A text without the plus sign that may stand in front. -/
def withoutPlus : List Char → List Char
  | '+' :: rest => rest
  | text => text

/-- The number below a limit that a text names: decimal digits, in front of
which a plus sign may stand. -/
def natural? (limit : Nat) (text : List Char) : Option Nat :=
  let digits := withoutPlus text
  let value := Nat.ofDigitChars 10 digits 0
  if digits ≠ [] ∧ digits.all Char.isDigit ∧ value < limit then some value else none

end CalendarStamp.Decimal
