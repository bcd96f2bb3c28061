/-!
# The range of doubles

A decimal stands for the double nearest to it.  From half a unit beyond the
greatest double on, it stands for an infinity instead.

Main results:

- Theorem `isBeyondDoubles_iff`: a decimal stands for an infinity exactly from
  the limit on, whatever its power of ten.
-/

namespace CalendarStamp.Decimal

/-- The least magnitude that stands for an infinity: half a unit of the last
place above the greatest double. -/
def doubleLimit : Nat := 1 <<< 1024 - 1 <<< 970

/-- The greatest power of ten below the limit. -/
def doubleMagnitude : Nat := 308

/-- Whether digits times a power of ten reach the limit.  `width` is the number
of digits.  A power of ten that settles the question is not computed. -/
def isBeyondDoubles (width digits : Nat) (exponent : Int) : Bool :=
  if digits = 0 ∨ exponent + width ≤ doubleMagnitude then
    false
  else if doubleMagnitude < exponent then
    true
  else
    doubleLimit * Nat.pow 10 (-exponent).toNat ≤ digits * Nat.pow 10 exponent.toNat

/-- The limit lies between two powers of ten. -/
theorem doubleLimit_bounds :
    Nat.pow 10 doubleMagnitude < doubleLimit ∧ doubleLimit < Nat.pow 10 (doubleMagnitude + 1) := by
  decide +kernel

/-- A decimal reaches the limit exactly when the exact comparison says so. -/
theorem isBeyondDoubles_iff {width digits : Nat} {exponent : Int} (h : digits < Nat.pow 10 width) :
    isBeyondDoubles width digits exponent = true ↔
      doubleLimit * Nat.pow 10 (-exponent).toNat ≤ digits * Nat.pow 10 exponent.toNat := by
  obtain ⟨hlow, hhigh⟩ := doubleLimit_bounds
  unfold isBeyondDoubles
  split
  · rename_i hsmall
    have hlt : digits * Nat.pow 10 exponent.toNat < doubleLimit * Nat.pow 10 (-exponent).toNat := by
      rcases hsmall with hzero | hwidth
      · rw [hzero, Nat.zero_mul]
        exact Nat.mul_pos (Nat.lt_of_le_of_lt (Nat.zero_le _) hlow) (Nat.pow_pos (by decide))
      · calc digits * Nat.pow 10 exponent.toNat
            < Nat.pow 10 width * Nat.pow 10 exponent.toNat :=
              Nat.mul_lt_mul_of_pos_right h (Nat.pow_pos (by decide))
          _ = Nat.pow 10 (width + exponent.toNat) := (Nat.pow_add ..).symm
          _ ≤ Nat.pow 10 (doubleMagnitude + (-exponent).toNat) :=
              Nat.pow_le_pow_right (by decide) (by omega)
          _ = Nat.pow 10 doubleMagnitude * Nat.pow 10 (-exponent).toNat := by
              simp only [Nat.pow_eq, Nat.pow_add]
          _ ≤ doubleLimit * Nat.pow 10 (-exponent).toNat :=
              Nat.mul_le_mul_right _ (Nat.le_of_lt hlow)
    simpa using hlt
  · split
    · rename_i hsmall hlarge
      have hle : doubleLimit * Nat.pow 10 (-exponent).toNat ≤ digits * Nat.pow 10 exponent.toNat :=
        calc doubleLimit * Nat.pow 10 (-exponent).toNat
            = doubleLimit := by
              rw [show (-exponent).toNat = 0 by omega]
              exact Nat.mul_one doubleLimit
          _ ≤ Nat.pow 10 (doubleMagnitude + 1) := Nat.le_of_lt hhigh
          _ ≤ Nat.pow 10 exponent.toNat := by
              simp only [Nat.pow_eq]
              exact Nat.pow_le_pow_right (by decide) (by omega)
          _ ≤ digits * Nat.pow 10 exponent.toNat := Nat.le_mul_of_pos_left _ (by omega)
      simpa using hle
    · simp

end CalendarStamp.Decimal
