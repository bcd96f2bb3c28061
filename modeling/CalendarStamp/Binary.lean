/-!
# Binary floating-point numbers as bit patterns

A location is stored as IEEE 754 numbers.  The library never computes with
them, so a number is kept as its bit pattern: bits survive storage unchanged,
and the two comparisons that matter, with zero and with another number, are
rules on bits.

Main results:

- Theorem `Binary64.same_self_iff`: a double equals itself unless it is no number.
-/

namespace CalendarStamp

/-- A double-precision number, given by its 64 bits. -/
structure Binary64 where
  bits : UInt64
deriving DecidableEq

/-- A single-precision number, given by its 32 bits. -/
structure Binary32 where
  bits : UInt32
deriving DecidableEq

/-- The parts of a bit pattern: a sign, an exponent field and a fraction. -/
structure BinaryParts where
  negative : Bool
  exponent : Nat
  fraction : Nat
deriving DecidableEq

/-- The widths of the parts of a format. -/
structure BinaryFormat where
  exponentWidth : Nat
  fractionWidth : Nat

namespace BinaryFormat

/-- The format of doubles. -/
def double : BinaryFormat := ⟨11, 52⟩

/-- The format of singles. -/
def single : BinaryFormat := ⟨8, 23⟩

/-- The largest exponent field, which marks infinities and what is no number. -/
def topExponent (format : BinaryFormat) : Nat :=
  1 <<< format.exponentWidth - 1

/-- Take a bit pattern apart. -/
def parts (format : BinaryFormat) (bits : Nat) : BinaryParts :=
  { negative := bits >>> (format.exponentWidth + format.fractionWidth) % 2 = 1
    exponent := bits >>> format.fractionWidth % (1 <<< format.exponentWidth)
    fraction := bits % (1 <<< format.fractionWidth) }

/-- Whether a bit pattern is no number. -/
def isNaN (format : BinaryFormat) (bits : Nat) : Bool :=
  let p := format.parts bits
  p.exponent = format.topExponent && p.fraction ≠ 0

/-- Whether a bit pattern is one of the two zeros. -/
def isZero (format : BinaryFormat) (bits : Nat) : Bool :=
  let p := format.parts bits
  p.exponent = 0 && p.fraction = 0

/-- Equality of numbers: nothing equals what is no number, and the two zeros
are equal. -/
def same (format : BinaryFormat) (a b : Nat) : Bool :=
  !format.isNaN a && !format.isNaN b && (a = b || (format.isZero a && format.isZero b))

/-- A bit pattern equals itself unless it is no number. -/
theorem same_self (format : BinaryFormat) (a : Nat) :
    format.same a a = !format.isNaN a := by
  simp [same]

end BinaryFormat

namespace Binary64

/-- Positive zero. -/
def zero : Binary64 := ⟨0⟩

instance : Inhabited Binary64 := ⟨zero⟩

/-- Whether the number is a zero of either sign. -/
def isZero (x : Binary64) : Bool := BinaryFormat.double.isZero x.bits.toNat

/-- Whether the bits are no number. -/
def isNaN (x : Binary64) : Bool := BinaryFormat.double.isNaN x.bits.toNat

/-- Equality of numbers. -/
def same (x y : Binary64) : Bool := BinaryFormat.double.same x.bits.toNat y.bits.toNat

/-- A double equals itself unless it is no number. -/
theorem same_self_iff (x : Binary64) : x.same x = true ↔ x.isNaN = false := by
  simp [same, isNaN, BinaryFormat.same_self]

end Binary64

namespace Binary32

/-- Positive zero. -/
def zero : Binary32 := ⟨0⟩

instance : Inhabited Binary32 := ⟨zero⟩

/-- Whether the number is a zero of either sign. -/
def isZero (x : Binary32) : Bool := BinaryFormat.single.isZero x.bits.toNat

/-- Whether the bits are no number. -/
def isNaN (x : Binary32) : Bool := BinaryFormat.single.isNaN x.bits.toNat

/-- Equality of numbers. -/
def same (x y : Binary32) : Bool := BinaryFormat.single.same x.bits.toNat y.bits.toNat

/-- A single equals itself unless it is no number. -/
theorem same_self_iff (x : Binary32) : x.same x = true ↔ x.isNaN = false := by
  simp [same, isNaN, BinaryFormat.same_self]

end Binary32

end CalendarStamp
