import CalendarStamp.Binary

/-!
# The shortest decimal of a binary number

A binary number is shown with as few digits as still determine it: every
number nearer to the decimal than to any other binary number reads back as
it.  The real numbers that round to the binary number form an interval.  The
coarsest decimal grid that has a point in the interval gives the fewest digits,
and of its points the one nearest to the number is taken.

The interval is held in whole numbers over a common denominator, so every
comparison is exact.

Main results:

- Theorem `gridPoint?_sound`: a chosen grid point lies in the interval.
-/

namespace CalendarStamp.Decimal

/-- A finite, positive binary number with the interval of reals that round to
it.  The number and the ends are given over one denominator; the ends belong to
the interval when `closed` holds. -/
structure Rounding where
  value : Nat
  low : Nat
  high : Nat
  unit : Nat
  closed : Bool

namespace Rounding

/-- The interval of a significand times a power of two.  Below a power of two
the neighbours are twice as close, so the lower half is half as long. -/
def ofBinary (significand : Nat) (power : Int) (atBoundary : Bool) : Rounding :=
  let shift := 1 <<< (power - 2).toNat
  { value := 4 * significand * shift
    low := (4 * significand - if atBoundary then 1 else 2) * shift
    high := (4 * significand + 2) * shift
    unit := 1 <<< (2 - power).toNat
    closed := significand % 2 = 0 }

/-- The interval of a finite bit pattern other than a zero, signs aside. -/
def ofParts (format : BinaryFormat) (p : BinaryParts) : Rounding :=
  let bias : Int := (1 <<< (format.exponentWidth - 1) : Nat) - 1 + format.fractionWidth
  if p.exponent = 0 then
    ofBinary p.fraction (1 - bias) false
  else
    ofBinary (1 <<< format.fractionWidth + p.fraction) (p.exponent - bias)
      (p.fraction = 0 && 1 < p.exponent)

/-- Whether a number, over the same denominator, rounds to the binary number. -/
def contains (r : Rounding) (x : Nat) : Bool :=
  if r.closed then r.low ≤ x && x ≤ r.high else r.low < x && x < r.high

/-- The interval in units of a power of ten: all parts are scaled so that the
grid of that power becomes the multiples of the second component. -/
def scaled (r : Rounding) (exponent : Int) : Rounding × Nat :=
  let factor := Nat.pow 10 (-exponent).toNat
  ({ r with value := r.value * factor, low := r.low * factor, high := r.high * factor },
    r.unit * Nat.pow 10 exponent.toNat)

/-- The point of the grid of a power of ten that lies in the interval, the
nearer of two, and the even one of two equally near. -/
def gridPoint? (r : Rounding) (exponent : Int) : Option Nat :=
  let (s, step) := r.scaled exponent
  let below := s.value / step
  let above := below + 1
  let belowDistance := s.value - below * step
  let aboveDistance := above * step - s.value
  match s.contains (below * step), s.contains (above * step) with
  | true, true =>
    if belowDistance < aboveDistance then some below
    else if aboveDistance < belowDistance then some above
    else if below % 2 = 0 then some below
    else some above
  | true, false => some below
  | false, true => some above
  | false, false => none

/-- A chosen grid point lies in the interval. -/
theorem gridPoint?_sound {r : Rounding} {exponent : Int} {digits : Nat}
    (h : r.gridPoint? exponent = some digits) :
    (r.scaled exponent).1.contains (digits * (r.scaled exponent).2) = true := by
  unfold gridPoint? at h
  simp only at h
  split at h
  · split at h
    · simp_all
    · split at h
      · simp_all
      · split at h <;> simp_all
  · simp_all
  · simp_all
  · simp at h

/-- The number of decimal digits of a number. -/
def digitCount (n : Nat) : Nat :=
  (Nat.toDigits 10 n).length

/-- The power of ten of the number's first digit. -/
def magnitude (r : Rounding) : Int :=
  if r.unit ≤ r.value then
    digitCount (r.value / r.unit) - 1
  else
    -(digitCount ((r.unit - 1) / r.value) : Int)

end Rounding

/-- A decimal number: digits without leading or trailing zeros, and the power
of ten of the last of them. -/
structure Numeral where
  digits : Nat
  exponent : Int
deriving DecidableEq

/-- The most grids that are tried: no number needs more digits. -/
def maxGrids : Nat := 20

/-- Try grids from a power of ten downward until one has a point. -/
def shortestFrom (r : Rounding) : Nat → Int → Numeral
  | 0, exponent => ⟨0, exponent⟩
  | tries + 1, exponent =>
    match r.gridPoint? exponent with
    | some digits => ⟨digits, exponent⟩
    | none => shortestFrom r tries (exponent - 1)

/-- The shortest decimal that reads back, and the nearest of those. -/
def shortest (r : Rounding) : Numeral :=
  shortestFrom r maxGrids (r.magnitude + 1)

end CalendarStamp.Decimal
