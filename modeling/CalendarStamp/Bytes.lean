/-!
# Byte strings

Everything that is hashed, sent to a calendar or kept in a store is a finite
list of bytes.  This file names that type and gives fixed-width numbers their
two byte orders, which the hash functions and the record encoding share.

Main results:

- Theorem `length_littleEndian`: a number written with width `w` takes `w` bytes.
- Theorem `ofLittleEndian_littleEndian`: reading gives the number back, up to
  the digits that do not fit the width.
-/

namespace CalendarStamp

/-- A finite string of bytes. -/
abbrev Bytes := List UInt8

namespace Bytes

/-! ## Fixed-width numbers -/

/-- The lowest `width` base-256 digits of a number, least significant first. -/
def littleEndian : Nat → Nat → Bytes
  | 0, _ => []
  | width + 1, n => UInt8.ofNat n :: littleEndian width (n / 256)

/-- The number whose base-256 digits, least significant first, are the given bytes. -/
def ofLittleEndian : Bytes → Nat
  | [] => 0
  | byte :: rest => byte.toNat + 256 * ofLittleEndian rest

/-- The lowest `width` base-256 digits of a number, most significant first. -/
def bigEndian (width n : Nat) : Bytes :=
  (littleEndian width n).reverse

/-- The number whose base-256 digits, most significant first, are the given bytes. -/
def ofBigEndian (bytes : Bytes) : Nat :=
  ofLittleEndian bytes.reverse

@[simp] theorem length_littleEndian (width n : Nat) : (littleEndian width n).length = width := by
  induction width generalizing n with
  | zero => rfl
  | succ width ih => simp [littleEndian, ih]

@[simp] theorem length_bigEndian (width n : Nat) : (bigEndian width n).length = width := by
  simp [bigEndian]

/-- Another byte holds 256 times as many numbers. -/
theorem capacity_succ (width : Nat) : 1 <<< (8 * (width + 1)) = 256 * 1 <<< (8 * width) := by
  simp only [Nat.one_shiftLeft]
  rw [Nat.mul_add, Nat.pow_add, Nat.mul_comm]

/-- Reading a written number back keeps its lowest `width` digits. -/
theorem ofLittleEndian_littleEndian (width n : Nat) :
    ofLittleEndian (littleEndian width n) = n % (1 <<< (8 * width)) := by
  induction width generalizing n with
  | zero => simp [littleEndian, ofLittleEndian, Nat.mod_one]
  | succ width ih =>
    have low : (UInt8.ofNat n).toNat = n % 256 := by simp
    rw [littleEndian, ofLittleEndian, ih, low, capacity_succ, Nat.mod_mul]

end Bytes

end CalendarStamp
