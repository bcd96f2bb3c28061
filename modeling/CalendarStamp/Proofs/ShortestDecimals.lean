import CalendarStamp.Decimal.Style

/-!
# The search for the shortest decimal

The grids of the powers of ten are tried from coarse to fine, and there is a bound
on their number.  For doubles and singles the bound is never reached: the search
starts just above the first digit of the number, and the interval of the reals that
round to the number is so wide that the last grid has a step which fits in its
upper half.

So the search ends at a decimal in the interval.  The interval holds positive
numbers only, hence the digits that are found are not all zeros.

Main results:

- Theorem `exists_gridPoint`: a grid of which the step fits in the upper half of
  the interval has a point in it.
- Theorem `gridPoint?_shortest`: the search ends at a point in the interval.
- Theorem `shortest_digits_pos`: the digits that are found are not zero.
- Theorem `isProper_ofParts`: a double or single that is neither a zero nor
  infinite has such an interval.
-/

namespace CalendarStamp.Decimal

/-! ## Numbers of digits -/

theorem lt_pow_digitCount (n : Nat) : n < Nat.pow 10 (Rounding.digitCount n) :=
  (Nat.length_toDigits_le_iff (by decide) Nat.length_toDigits_pos).mp (Nat.le_refl _)

theorem pow_digitCount_le {n : Nat} (h : 0 < n) : Nat.pow 10 (Rounding.digitCount n - 1) ≤ n := by
  cases hcount : Rounding.digitCount n - 1 with
  | zero => exact h
  | succ k =>
    have hlong : ¬ Rounding.digitCount n ≤ k + 1 := by omega
    rw [Rounding.digitCount, Nat.length_toDigits_le_iff (by decide) (by omega)] at hlong
    exact Nat.le_of_not_lt hlong

namespace Rounding

/-! ## Intervals -/

/-- An interval around a positive number that is wide enough for the bound on the
number of grids. -/
structure IsProper (r : Rounding) : Prop where
  unit_pos : 0 < r.unit
  low_pos : 0 < r.low
  low_lt : r.low < r.value
  wide : r.value < Nat.pow 10 (maxGrids - 2) * (r.high - r.value)

/-- A significand of at most 53 bits is small beside the bound. -/
theorem isProper_ofBinary {significand : Nat} (hpos : 0 < significand)
    (hbound : significand < 1 <<< 53) (power : Int) (atBoundary : Bool) :
    (ofBinary significand power atBoundary).IsProper := by
  have one_shiftLeft_pos : ∀ n, 0 < 1 <<< n := by
    intro n
    rw [Nat.one_shiftLeft]
    exact Nat.two_pow_pos n
  have hshift := one_shiftLeft_pos (power - 2).toNat
  have hstep : (if atBoundary then 1 else 2) ≤ 2 ∧ 0 < (if atBoundary then 1 else 2) := by
    split <;> decide
  refine ⟨one_shiftLeft_pos _, Nat.mul_pos (by omega) hshift, ?_, ?_⟩
  · exact Nat.mul_lt_mul_of_pos_right (by omega) hshift
  · have hhalf : (4 * significand + 2) * (1 <<< (power - 2).toNat) -
        4 * significand * (1 <<< (power - 2).toNat) = 2 * (1 <<< (power - 2).toNat) := by
      rw [← Nat.sub_mul, Nat.add_sub_cancel_left]
    have hlimit : 4 * significand < Nat.pow 10 (maxGrids - 2) * 2 :=
      Nat.lt_trans (Nat.mul_lt_mul_of_pos_left hbound (by decide)) (by decide)
    simp only [ofBinary, hhalf, ← Nat.mul_assoc]
    exact Nat.mul_lt_mul_of_pos_right hlimit hshift

/-- A double or single that is neither a zero nor infinite has a proper interval. -/
theorem isProper_ofParts {format : BinaryFormat} (hwidth : format.fractionWidth ≤ 52)
    {p : BinaryParts} (hfraction : p.fraction < 1 <<< format.fractionWidth)
    (hzero : ¬ (p.exponent = 0 ∧ p.fraction = 0)) : (ofParts format p).IsProper := by
  have hbound : 1 <<< format.fractionWidth ≤ 1 <<< 52 := by
    rw [Nat.one_shiftLeft, Nat.one_shiftLeft]
    exact Nat.pow_le_pow_right (by decide) hwidth
  have hdouble : 1 <<< 53 = 2 * (1 <<< 52) := rfl
  unfold ofParts
  dsimp only
  split
  · rename_i hexponent
    exact isProper_ofBinary (Nat.pos_of_ne_zero fun h => hzero ⟨hexponent, h⟩) (by omega) _ _
  · exact isProper_ofBinary (by omega) (by omega) _ _

/-! ## Grids -/

/-- A grid of which the step fits in the upper half of the interval has a point in it. -/
theorem exists_gridPoint {r : Rounding} {exponent : Int}
    (hlow : (r.scaled exponent).1.low < (r.scaled exponent).1.value)
    (hstep : 0 < (r.scaled exponent).2)
    (hfits : (r.scaled exponent).1.value + (r.scaled exponent).2 < (r.scaled exponent).1.high) :
    ∃ digits, r.gridPoint? exponent = some digits := by
  rcases hscaled : r.scaled exponent with ⟨s, step⟩
  rw [hscaled] at hlow hstep hfits
  dsimp only at hlow hstep hfits
  have hbelow : s.value / step * step ≤ s.value := Nat.div_mul_le_self ..
  have habove : s.value < (s.value / step + 1) * step :=
    Nat.lt_mul_of_div_lt (Nat.lt_succ_self _) hstep
  have hpoint : s.contains ((s.value / step + 1) * step) = true := by
    rw [Nat.succ_mul] at habove ⊢
    unfold contains
    split <;> simp only [Bool.and_eq_true, decide_eq_true_eq] <;> omega
  rw [gridPoint?, hscaled]
  dsimp only
  rw [hpoint]
  split
  · split
    · exact ⟨_, rfl⟩
    · split
      · exact ⟨_, rfl⟩
      · split <;> exact ⟨_, rfl⟩
  · exact ⟨_, rfl⟩
  · exact ⟨_, rfl⟩
  · rename_i hnone
    cases hnone

/-- The number is at least the power of ten of its first digit. -/
theorem pow_magnitude_le {r : Rounding} (h : r.IsProper) :
    r.unit * Nat.pow 10 r.magnitude.toNat ≤ r.value * Nat.pow 10 (-r.magnitude).toNat := by
  have hvalue : 0 < r.value := Nat.lt_trans h.low_pos h.low_lt
  unfold magnitude
  split
  · rename_i hle
    have hquotient : 0 < r.value / r.unit := Nat.div_pos hle h.unit_pos
    have hcount : 0 < digitCount (r.value / r.unit) := Nat.length_toDigits_pos
    have hpower : ((digitCount (r.value / r.unit) : Int) - 1).toNat =
        digitCount (r.value / r.unit) - 1 := by omega
    have hnone : (-((digitCount (r.value / r.unit) : Int) - 1)).toNat = 0 := by omega
    rw [hpower, hnone]
    calc r.unit * Nat.pow 10 (digitCount (r.value / r.unit) - 1)
        ≤ r.unit * (r.value / r.unit) := Nat.mul_le_mul_left _ (pow_digitCount_le hquotient)
      _ ≤ r.value := Nat.mul_div_le ..
      _ = r.value * Nat.pow 10 0 := (Nat.mul_one _).symm
  · rename_i hlt
    have hnone : (-(digitCount ((r.unit - 1) / r.value) : Int)).toNat = 0 := by omega
    rw [hnone, Int.neg_neg, Int.toNat_natCast]
    have hquotient := (Nat.div_lt_iff_lt_mul hvalue).mp (lt_pow_digitCount ((r.unit - 1) / r.value))
    calc r.unit * Nat.pow 10 0
        = r.unit := Nat.mul_one _
      _ ≤ Nat.pow 10 (digitCount ((r.unit - 1) / r.value)) * r.value := by omega
      _ = r.value * Nat.pow 10 (digitCount ((r.unit - 1) / r.value)) := Nat.mul_comm ..

/-- The last grid has a step that fits in the upper half of the interval. -/
theorem exists_lastGridPoint {r : Rounding} (h : r.IsProper) :
    ∃ digits, r.gridPoint? (r.magnitude + 1 - (maxGrids - 1 : Nat)) = some digits := by
  generalize hexponent : r.magnitude + 1 - (maxGrids - 1 : Nat) = exponent
  -- Exponents of either sign are kept as two powers of which one is trivial, so the
  -- distance between the two exponents is read off products.
  have hpos : ∀ n, 0 < Nat.pow 10 n := fun n => Nat.pow_pos (by decide)
  have hpowers : Nat.pow 10 r.magnitude.toNat * Nat.pow 10 (-exponent).toNat =
      Nat.pow 10 (maxGrids - 2) * Nat.pow 10 exponent.toNat * Nat.pow 10 (-r.magnitude).toNat := by
    have hsum : r.magnitude.toNat + (-exponent).toNat =
        maxGrids - 2 + exponent.toNat + (-r.magnitude).toNat := by
      simp only [maxGrids] at hexponent ⊢
      omega
    simp only [Nat.pow_eq, ← Nat.pow_add, hsum]
  have hstep : r.unit * Nat.pow 10 exponent.toNat <
      (r.high - r.value) * Nat.pow 10 (-exponent).toNat := by
    refine Nat.lt_of_mul_lt_mul_left
      (a := Nat.pow 10 (maxGrids - 2) * Nat.pow 10 (-r.magnitude).toNat) ?_
    calc Nat.pow 10 (maxGrids - 2) * Nat.pow 10 (-r.magnitude).toNat *
          (r.unit * Nat.pow 10 exponent.toNat)
        = r.unit * (Nat.pow 10 r.magnitude.toNat * Nat.pow 10 (-exponent).toNat) := by
          rw [hpowers]
          ac_rfl
      _ = r.unit * Nat.pow 10 r.magnitude.toNat * Nat.pow 10 (-exponent).toNat :=
          (Nat.mul_assoc ..).symm
      _ ≤ r.value * Nat.pow 10 (-r.magnitude).toNat * Nat.pow 10 (-exponent).toNat :=
          Nat.mul_le_mul_right _ (pow_magnitude_le h)
      _ < Nat.pow 10 (maxGrids - 2) * (r.high - r.value) * Nat.pow 10 (-r.magnitude).toNat *
            Nat.pow 10 (-exponent).toNat :=
          Nat.mul_lt_mul_of_pos_right (Nat.mul_lt_mul_of_pos_right h.wide (hpos _)) (hpos _)
      _ = Nat.pow 10 (maxGrids - 2) * Nat.pow 10 (-r.magnitude).toNat *
            ((r.high - r.value) * Nat.pow 10 (-exponent).toNat) := by
          ac_rfl
  refine exists_gridPoint (Nat.mul_lt_mul_of_pos_right h.low_lt (hpos _))
    (Nat.mul_pos h.unit_pos (hpos _)) ?_
  rw [Nat.sub_mul] at hstep
  exact Nat.add_lt_of_lt_sub' hstep

end Rounding

/-! ## The search -/

/-- If one of the grids that are tried has a point, the search ends at a point of a grid. -/
theorem gridPoint?_shortestFrom {r : Rounding} {tries : Nat} {exponent : Int}
    (h : ∃ k < tries, ∃ digits, r.gridPoint? (exponent - k) = some digits) :
    r.gridPoint? (shortestFrom r tries exponent).exponent =
      some (shortestFrom r tries exponent).digits := by
  induction tries generalizing exponent with
  | zero =>
    rcases h with ⟨k, hk, _⟩
    cases hk
  | succ tries ih =>
    rw [shortestFrom]
    split
    · rename_i digits hpoint
      exact hpoint
    · rename_i hnone
      rcases h with ⟨k, hk, digits, hpoint⟩
      cases k with
      | zero =>
        rw [Int.natCast_zero, Int.sub_zero, hnone] at hpoint
        cases hpoint
      | succ k =>
        refine ih ⟨k, by omega, digits, ?_⟩
        rw [← hpoint]
        congr 1
        omega

/-- The search ends at a point in the interval. -/
theorem gridPoint?_shortest {r : Rounding} (h : r.IsProper) :
    r.gridPoint? (shortest r).exponent = some (shortest r).digits := by
  rcases Rounding.exists_lastGridPoint h with ⟨digits, hdigits⟩
  exact gridPoint?_shortestFrom ⟨maxGrids - 1, by decide, digits, hdigits⟩

/-- The digits that are found are not zero. -/
theorem shortest_digits_pos {r : Rounding} (h : r.IsProper) : 0 < (shortest r).digits := by
  have hinside := Rounding.gridPoint?_sound (gridPoint?_shortest h)
  have hlow : 0 < (r.scaled (shortest r).exponent).1.low :=
    Nat.mul_pos h.low_pos (Nat.pow_pos (by decide))
  refine Nat.pos_of_ne_zero fun hzero => ?_
  rw [hzero, Nat.zero_mul, Rounding.contains] at hinside
  split at hinside <;> simp only [Bool.and_eq_true, decide_eq_true_eq] at hinside <;> omega

end CalendarStamp.Decimal
