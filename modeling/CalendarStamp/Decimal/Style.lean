import CalendarStamp.Decimal.Shortest

/-!
# How numbers are written

Numbers of moderate size are written with a decimal point and at least one
digit after it; very large and very small ones with an exponent.  The bounds
differ between doubles and singles.
-/

namespace CalendarStamp.Decimal

/-- The powers of ten of the first digit for which a number is written without
an exponent. -/
structure Style where
  lowest : Int
  highest : Int

namespace Style

/-- Doubles are positional from a hundred-thousandth up to sixteen digits. -/
def double : Style := ⟨-5, 15⟩

/-- Singles are positional from a millionth up to thirteen digits. -/
def single : Style := ⟨-6, 12⟩

/-- The digits with the point behind the given number of them; zeros fill up. -/
def positional (digits : List Char) (pointAfter : Int) : List Char :=
  if pointAfter ≤ 0 then
    '0' :: '.' :: (List.replicate (-pointAfter).toNat '0' ++ digits)
  else
    let count := pointAfter.toNat
    let whole := digits.take count ++ List.replicate (count - digits.length) '0'
    let fraction := digits.drop count
    whole ++ '.' :: (if fraction = [] then ['0'] else fraction)

/-- The digits with the point behind the first, and the power of ten. -/
def scientific (digits : List Char) (exponent : Int) : List Char :=
  let significand :=
    match digits with
    | first :: second :: rest => first :: '.' :: second :: rest
    | _ => digits
  let sign := if exponent < 0 then '-' else '+'
  significand ++ 'e' :: sign :: Nat.toDigits 10 exponent.natAbs

/-- The text of a positive decimal. -/
def write (style : Style) (numeral : Numeral) : List Char :=
  let digits := Nat.toDigits 10 numeral.digits
  let exponent := numeral.exponent + digits.length - 1
  if style.lowest ≤ exponent ∧ exponent ≤ style.highest then
    positional digits (exponent + 1)
  else
    scientific digits exponent

end Style

/-- The text of a bit pattern, or `none` when it is infinite or no number. -/
def text? (format : BinaryFormat) (style : Style) (bits : Nat) : Option String :=
  let p := format.parts bits
  if p.exponent = format.topExponent then
    none
  else
    let magnitude :=
      if p.exponent = 0 ∧ p.fraction = 0 then
        ['0', '.', '0']
      else
        style.write (shortest (.ofParts format p))
    some (String.ofList (if p.negative then '-' :: magnitude else magnitude))

end CalendarStamp.Decimal
