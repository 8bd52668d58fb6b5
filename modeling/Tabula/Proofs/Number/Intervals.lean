import Tabula.Number.Shortest
import Tabula.Proofs.Number.Rounding

/-!
# The ratios that become a number

The shortest decimal of a number is looked for in an interval around it, which reaches half a
step to either side, and half as far below a power of two that has a finer step beneath it.
The interval holds ratios that are rounded to the number: at its ends, which belong to it when
the significand is even, ties go to that significand.
-/

namespace Tabula

namespace Decimal

/-- The ratio of units lies in the interval, which is kept in quarters of a unit. -/
def Interval.Covers (interval : Interval) (ratio : ℚ) : Prop :=
  if interval.closed then interval.low ≤ 4 * ratio ∧ 4 * ratio ≤ interval.high
  else interval.low < 4 * ratio ∧ 4 * ratio < interval.high

namespace Interval

variable {format : Format} {units significand : ℕ} {ratio : ℚ}

theorem Covers.low_le {interval : Interval} (covers : interval.Covers ratio) :
    interval.low ≤ 4 * ratio := by
  rw [Covers] at covers
  split at covers
  · exact covers.1
  · exact covers.1.le

theorem Covers.le_high {interval : Interval} (covers : interval.Covers ratio) :
    4 * ratio ≤ interval.high := by
  rw [Covers] at covers
  split at covers
  · exact covers.2
  · exact covers.2.le

/-- Strictly between the ends it does not matter whether they belong to the interval. -/
theorem covers_of_lt {interval : Interval} (low : interval.low < 4 * ratio)
    (high : 4 * ratio < interval.high) : interval.Covers ratio := by
  rw [Covers]
  split
  · exact ⟨low.le, high.le⟩
  · exact ⟨low, high⟩

/-- What lies between two covered ratios is covered. -/
theorem Covers.between {interval : Interval} {less more : ℚ} (first : interval.Covers less)
    (last : interval.Covers more) (above : less ≤ ratio) (below : ratio ≤ more) :
    interval.Covers ratio := by
  unfold Covers at *
  split
  · rename_i closed
    rw [if_pos closed] at first last
    exact ⟨by linarith [first.1], by linarith [last.2]⟩
  · rename_i notClosed
    rw [if_neg notClosed] at first last
    exact ⟨by linarith [first.1], by linarith [last.2]⟩

theorem div_one_shiftLeft (shape : format.Shape units significand) :
    units / 1 <<< format.shiftAt units = significand := by
  conv => lhs; lhs; rw [shape.same]
  rw [Nat.one_shiftLeft, Nat.shiftLeft_eq]
  exact Nat.mul_div_cancel _ (Nat.two_pow_pos _)

theorem closed_around (shape : format.Shape units significand) :
    (around format units).closed = true ↔ Even significand := by
  rw [around, div_one_shiftLeft shape, decide_eq_true_iff, Nat.even_iff]

theorem high_around (format : Format) (units : ℕ) :
    ((around format units).high : ℚ) = 4 * units + 2 * 2 ^ format.shiftAt units := by
  rw [around]
  push_cast
  rw [cast_one_shiftLeft]

/-- How far the interval reaches below a number, in quarters: half as far below a power of two
that has a finer step beneath it. -/
theorem low_around (shape : format.Shape units significand) (positive : 0 < units) :
    ((around format units).low : ℚ) = 4 * units -
      if significand = 1 <<< (format.precision - 1) ∧ 0 < format.shiftAt units then
        2 ^ format.shiftAt units
      else 2 * 2 ^ format.shiftAt units := by
  have step : 1 <<< format.shiftAt units ≤ units := by
    have := shape.step_le positive
    rw [← cast_one_shiftLeft] at this
    exact_mod_cast this
  rw [around, div_one_shiftLeft shape]
  simp only
  split
  · rw [Nat.cast_sub (by omega)]
    push_cast
    rw [cast_one_shiftLeft]
  · rw [Nat.cast_sub (by omega)]
    push_cast
    rw [cast_one_shiftLeft]

theorem Covers.le_half_step (shape : format.Shape units significand) (positive : 0 < units)
    (covers : (around format units).Covers ratio) :
    |ratio - units| ≤ 2 ^ format.shiftAt units / 2 := by
  have low := covers.low_le
  have high := covers.le_high
  have step : (0 : ℚ) < 2 ^ format.shiftAt units := by positivity
  rw [high_around] at high
  rw [low_around shape positive] at low
  rw [abs_le]
  split at low <;> constructor <;> linarith

theorem Covers.lt_half_step (shape : format.Shape units significand) (positive : 0 < units)
    (odd : ¬Even significand) (covers : (around format units).Covers ratio) :
    |ratio - units| < 2 ^ format.shiftAt units / 2 := by
  have step : (0 : ℚ) < 2 ^ format.shiftAt units := by positivity
  rw [Covers, if_neg (mt (closed_around shape).mp odd), high_around,
    low_around shape positive] at covers
  obtain ⟨low, high⟩ := covers
  rw [abs_lt]
  split at low <;> constructor <;> linarith

/-- Around an odd significand the interval is what is less than half a step away. -/
theorem covers_iff_of_odd (several : 1 < format.precision)
    (shape : format.Shape units significand) (positive : 0 < units) (odd : ¬Even significand) :
    (around format units).Covers ratio ↔ |ratio - units| < 2 ^ format.shiftAt units / 2 := by
  refine ⟨Covers.lt_half_step shape positive odd, fun near => ?_⟩
  obtain ⟨below, above⟩ := abs_lt.mp near
  have whole : ¬(significand = 1 <<< (format.precision - 1) ∧ 0 < format.shiftAt units) := by
    rintro ⟨least, _⟩
    apply odd
    rw [least, Nat.one_shiftLeft]
    exact Nat.even_pow.mpr ⟨even_two, by omega⟩
  apply covers_of_lt
  · rw [low_around shape positive, if_neg whole]
    linarith
  · rw [high_around]
    linarith

/-- Below a power of two the interval keeps to a quarter of the step. -/
theorem Covers.quarter_step (shape : format.Shape units significand) (positive : 0 < units)
    (least : significand = 1 <<< (format.precision - 1)) (moved : 0 < format.shiftAt units)
    (covers : (around format units).Covers ratio) :
    units - 2 ^ format.shiftAt units / 4 ≤ ratio := by
  have low := covers.low_le
  rw [low_around shape positive, if_pos ⟨least, moved⟩] at low
  linarith

end Interval

end Decimal

namespace Floating

open Decimal

variable {format : Format} {units : ℕ}

section

variable {numerator denominator significand : ℕ}

/-- A ratio that takes the whole step of the number is rounded at the number's own shift. -/
theorem ofRatio_of_reached (negative : Bool) (fits : format.Fits units) (filled : 0 < units)
    (shape : format.Shape units significand) (positive : 0 < denominator)
    (covers : (Interval.around format units).Covers (numerator / denominator))
    (reached : 0 < format.shiftAt units →
      ((1 <<< (format.precision - 1 + format.shiftAt units) : ℕ) : ℚ) ≤ numerator / denominator) :
    ofRatio format negative numerator denominator = finite negative units fits := by
  have close := covers.le_half_step shape filled
  have even_of_tie : |(numerator : ℚ) / denominator - units| = 2 ^ format.shiftAt units / 2 →
      Even significand := by
    intro tie
    by_contra odd
    exact absurd tie (covers.lt_half_step shape filled odd).ne
  have below : numerator / denominator < 1 <<< (format.precision + format.shiftAt units) := by
    have step : (0 : ℚ) < 2 ^ format.shiftAt units := by positivity
    have : (numerator : ℚ) / denominator <
        (1 <<< (format.precision + format.shiftAt units) : ℕ) := by
      rw [cast_one_shiftLeft]
      linarith [(abs_le.mp close).2, shape.add_step_le]
    exact_mod_cast Nat.cast_div_le.trans_lt this
  have chosen : format.shiftAt (numerator / denominator) = format.shiftAt units := by
    rcases Nat.eq_zero_or_pos (format.shiftAt units) with still | moved
    · rw [still] at below ⊢
      exact Format.shiftAt_eq_zero below
    · exact Format.shiftAt_eq (le_div_of_cast_le positive (reached moved)) below
  have nearest : IsNearest ((numerator : ℚ) / denominator / 2 ^ format.shiftAt units)
      significand := by
    apply IsNearest.of_shiftLeft <;> rw [← shape.same]
    · exact close
    · exact even_of_tie
  exact ofRatio_of_isNearest negative positive chosen nearest shape.small.le shape.bound
    shape.same fits

/-- A covered ratio below the numbers that take the whole step belongs to the least of them. -/
theorem significand_of_under {ratio : ℚ} (filled : 0 < units)
    (shape : format.Shape units significand) (moved : 0 < format.shiftAt units)
    (covers : (Interval.around format units).Covers ratio)
    (under : ratio < (1 <<< (format.precision - 1 + format.shiftAt units) : ℕ)) :
    significand = 1 <<< (format.precision - 1) := by
  have close := (abs_le.mp (covers.le_half_step shape filled)).1
  have step : (0 : ℚ) < 2 ^ format.shiftAt units := by positivity
  rw [cast_one_shiftLeft, pow_add] at under
  rw [shape.cast_eq] at close
  apply Nat.le_antisymm _ (shape.large moved)
  by_contra! beyond
  have next : (2 : ℚ) ^ (format.precision - 1) + 1 ≤ significand := by
    rw [← cast_one_shiftLeft]
    exact_mod_cast beyond
  linarith [mul_le_mul_of_nonneg_right next step.le]

/-- A ratio below the whole step of the number is rounded up to it at a finer shift: the number
is a power of two. -/
theorem ofRatio_of_under (negative : Bool) (fits : format.Fits units) (filled : 0 < units)
    (shape : format.Shape units significand) (positive : 0 < denominator)
    (covers : (Interval.around format units).Covers (numerator / denominator))
    (moved : 0 < format.shiftAt units)
    (under : (numerator : ℚ) / denominator <
      (1 <<< (format.precision - 1 + format.shiftAt units) : ℕ)) :
    ofRatio format negative numerator denominator = finite negative units fits := by
  have positivePrecision := format.precision_pos
  have least := significand_of_under filled shape moved covers under
  have value := shape.cast_eq
  rw [cast_one_shiftLeft, pow_add] at under
  have near := covers.quarter_step shape filled least moved
  have same := shape.same
  have bound := shape.bound
  obtain ⟨finer, shifted⟩ : ∃ finer, format.shiftAt units = finer + 1 :=
    ⟨format.shiftAt units - 1, by omega⟩
  rw [shifted] at under value near same bound
  have fine : (0 : ℚ) < 2 ^ finer := by positivity
  have doubled : (2 : ℚ) ^ (finer + 1) = 2 * 2 ^ finer := pow_succ' 2 finer
  have carried : units = (1 <<< format.precision) <<< finer := by
    rw [same, least, ← Nat.shiftLeft_add, ← Nat.shiftLeft_add]
    congr 1
    omega
  rw [least, cast_one_shiftLeft] at value
  have chosen : format.shiftAt (numerator / denominator) = finer := by
    apply Format.shiftAt_eq
    · apply le_div_of_cast_le positive
      have one : (1 : ℚ) ≤ 2 ^ (format.precision - 1) := one_le_pow₀ one_le_two
      rw [cast_one_shiftLeft, pow_add]
      nlinarith [mul_le_mul_of_nonneg_right one fine.le]
    · have : (numerator : ℚ) / denominator < (1 <<< (format.precision + finer) : ℕ) := by
        have exponent : format.precision + finer = format.precision - 1 + (finer + 1) := by omega
        rwa [cast_one_shiftLeft, exponent, pow_add]
      exact_mod_cast Nat.cast_div_le.trans_lt this
  have nearest : IsNearest ((numerator : ℚ) / denominator / 2 ^ finer)
      (1 <<< format.precision) := by
    apply IsNearest.of_shiftLeft
    · rw [← carried, abs_of_neg (by linarith)]
      linarith
    · intro
      rw [Nat.one_shiftLeft]
      exact Nat.even_pow.mpr ⟨even_two, by omega⟩
  exact ofRatio_of_isNearest negative positive chosen nearest le_rfl (by omega) carried fits

end

/-- The interval around a number holds ratios that are rounded to the number. -/
theorem ofRatio_of_covers (negative : Bool) {numerator denominator : ℕ}
    (fits : format.Fits units) (filled : 0 < units) (positive : 0 < denominator)
    (covers : (Interval.around format units).Covers (numerator / denominator)) :
    ofRatio format negative numerator denominator = finite negative units fits := by
  obtain ⟨significand, shape⟩ := fits.shape
  by_cases reached : 0 < format.shiftAt units →
      ((1 <<< (format.precision - 1 + format.shiftAt units) : ℕ) : ℚ) ≤ numerator / denominator
  · exact ofRatio_of_reached negative fits filled shape positive covers reached
  · push Not at reached
    exact ofRatio_of_under negative fits filled shape positive covers reached.1 reached.2

end Floating

end Tabula
