import Mathlib.Algebra.Order.Field.Power
import Mathlib.Data.Rat.Floor
import Mathlib.Tactic.FieldSimp
import Mathlib.Tactic.NormNum
import Tabula.Proofs.Number.Intervals

/-!
# Shortest decimals round back

Some decimal of at most seventeen digits lies in the interval around a number, because the
grid of that many digits is finer than the numbers of the format.  So the search for the
shortest decimal ends on a grid, with the decimal of that grid that is nearest to the number
among those that round to it.
-/

namespace Tabula

/-! ## Powers of ten -/

theorem cast_powerOfTen (exponent : ℕ) : (powerOfTen exponent : ℚ) = 10 ^ exponent := by
  rw [powerOfTen, Nat.pow_eq]
  push_cast
  rfl

/-- A power of ten is kept as a ratio of two, one of which is one. -/
theorem zpow_ten_eq_div (exponent : ℤ) :
    (10 : ℚ) ^ exponent = powerOfTen exponent.toNat / powerOfTen (-exponent).toNat := by
  rw [cast_powerOfTen, cast_powerOfTen]
  rcases Int.le_total 0 exponent with nonneg | nonpos
  · obtain ⟨power, rfl⟩ := Int.eq_ofNat_of_zero_le nonneg
    simp
  · obtain ⟨power, rfl⟩ := Int.exists_eq_neg_ofNat nonpos
    simp

namespace Text

theorem naturalDigits_length_pos (number : ℕ) : 0 < (naturalDigits number).length := by
  unfold naturalDigits
  split <;> simp

/-- The number of digits says between which powers of ten a number lies. -/
theorem lt_ten_pow_length (number : ℕ) : number < 10 ^ (naturalDigits number).length := by
  induction number using Nat.strongRecOn with
  | ind number inductionHypothesis =>
      unfold naturalDigits
      split
      · simpa
      · have := inductionHypothesis (number / 10) (by omega)
        rw [List.length_append, List.length_singleton, pow_succ]
        omega

theorem ten_pow_length_le {number : ℕ} (filled : 0 < number) :
    10 ^ ((naturalDigits number).length - 1) ≤ number := by
  induction number using Nat.strongRecOn with
  | ind number inductionHypothesis =>
      unfold naturalDigits
      split
      · simpa using Nat.one_le_iff_ne_zero.mpr filled.ne'
      · have := inductionHypothesis (number / 10) (by omega) (by omega)
        have positive := naturalDigits_length_pos (number / 10)
        have tenfold : 10 ^ (naturalDigits (number / 10)).length =
            10 ^ ((naturalDigits (number / 10)).length - 1) * 10 := by
          rw [← pow_succ, Nat.sub_add_cancel positive]
        rw [List.length_append, List.length_singleton, Nat.add_sub_cancel, tenfold]
        omega

end Text

namespace Decimal

/-- The number that a decimal names. -/
def amount (decimal : Decimal) : ℚ :=
  decimal.digits * 10 ^ decimal.exponent

/-- Zeros at the end of the digits stand for powers of ten. -/
theorem amount_reduced (fuel digits : ℕ) (exponent : ℤ) :
    (reduced fuel digits exponent).amount = (Decimal.mk digits exponent).amount := by
  induction fuel generalizing digits exponent with
  | zero => rfl
  | succ fuel inductionHypothesis =>
      unfold reduced
      split
      · rename_i zero
        have tenfold : (digits : ℚ) = (digits / 10 : ℕ) * 10 := by
          exact_mod_cast (Nat.div_mul_cancel (Nat.dvd_of_mod_eq_zero zero)).symm
        rw [inductionHypothesis, amount, amount]
        simp only
        rw [tenfold, zpow_add_one₀ (by norm_num : (10 : ℚ) ≠ 0)]
        ring
      · rfl

/-- A power of ten in units of the format. -/
def spacing (format : Format) (exponent : ℤ) : ℚ :=
  10 ^ exponent * 2 ^ format.fraction

theorem spacing_pos (format : Format) (exponent : ℤ) : 0 < spacing format exponent :=
  mul_pos (zpow_pos (by norm_num) exponent) (by positivity)

/-- The ratio of units that a decimal names. -/
def ratio (format : Format) (decimal : Decimal) : ℚ :=
  decimal.digits * spacing format decimal.exponent

theorem ratio_eq (format : Format) (decimal : Decimal) :
    decimal.ratio format = decimal.amount * 2 ^ format.fraction :=
  (mul_assoc _ _ _).symm

namespace Interval

variable {format : Format} {units significand : ℕ}

/-- A ratio over the scale of a decimal grid is looked up in the interval. -/
theorem contains_iff (interval : Interval) {scale : ℕ} (positive : 0 < scale) (numerator : ℕ) :
    interval.contains scale numerator = true ↔
      interval.Covers ((numerator : ℚ) / scale / 4) := by
  have positive' : (0 : ℚ) < scale := by exact_mod_cast positive
  rw [contains, Covers, mul_div_cancel₀ _ (by norm_num : (4 : ℚ) ≠ 0)]
  split
  · rw [Bool.and_eq_true, decide_eq_true_iff, decide_eq_true_iff, le_div_iff₀ positive',
      div_le_iff₀ positive']
    exact_mod_cast Iff.rfl
  · rw [Bool.and_eq_true, decide_eq_true_iff, decide_eq_true_iff, lt_div_iff₀ positive',
      div_lt_iff₀ positive']
    exact_mod_cast Iff.rfl

/-- The middle of the interval is at least its power of ten. -/
theorem ten_zpow_magnitude_le {interval : Interval} (filled : 0 < interval.middle)
    (positive : 0 < interval.denominator) :
    (10 : ℚ) ^ interval.magnitude ≤ interval.middle / interval.denominator := by
  have filled' : (0 : ℚ) < interval.middle := by exact_mod_cast filled
  have positive' : (0 : ℚ) < interval.denominator := by exact_mod_cast positive
  rw [magnitude]
  simp only
  split
  · rename_i whole
    have digits := Text.ten_pow_length_le (Nat.pos_of_ne_zero whole)
    have counted := Text.naturalDigits_length_pos (interval.middle / interval.denominator)
    rw [← Nat.cast_one, ← Nat.cast_sub counted, zpow_natCast]
    have least : (10 : ℚ) ^
        ((Text.naturalDigits (interval.middle / interval.denominator)).length - 1) ≤
          (interval.middle / interval.denominator : ℕ) := by exact_mod_cast digits
    exact least.trans Nat.cast_div_le
  · have counted := Text.naturalDigits_length_pos (interval.denominator / interval.middle)
    split
    · rename_i reached
      rw [← Nat.cast_one, ← Nat.cast_sub counted, zpow_neg, zpow_natCast, inv_le_comm₀, inv_div]
      rw [div_le_iff₀ filled', mul_comm, ← cast_powerOfTen]
      · exact_mod_cast reached
      · positivity
      · positivity
    · -- The denominator has fewer places than the next power of ten takes.
      have digits := Text.lt_ten_pow_length (interval.denominator / interval.middle)
      rw [Nat.div_lt_iff_lt_mul filled] at digits
      rw [zpow_neg, zpow_natCast, inv_le_comm₀, inv_div]
      rw [div_le_iff₀ filled']
      · exact_mod_cast digits.le
      · positivity
      · positivity

end Interval

/-! ## One grid -/

/-- The decimal lies in the interval around the number, and no decimal of the same exponent in
there is nearer to the number. -/
structure Represents (format : Format) (units : ℕ) (decimal : Decimal) : Prop where
  covers : (Interval.around format units).Covers (decimal.ratio format)
  nearest : ∀ other : ℕ,
    (Interval.around format units).Covers ((Decimal.mk other decimal.exponent).ratio format) →
      |decimal.ratio format - units| ≤ |(Decimal.mk other decimal.exponent).ratio format - units|

namespace Interval

variable {format : Format} {units significand : ℕ} {exponent : ℤ} {decimal : Decimal}

/-- The spacing of a grid as the search keeps it: over the scale of the grid, in quarters. -/
theorem spacing_eq (format : Format) (units : ℕ) (exponent : ℤ) :
    spacing format exponent =
      (((around format units).denominator * powerOfTen exponent.toNat : ℕ) : ℚ) /
        powerOfTen (-exponent).toNat / 4 := by
  rw [spacing, zpow_ten_eq_div, around]
  push_cast
  rw [cast_shiftLeft]
  push_cast
  ring

/-- The unit of a decimal grid, over the scale of the grid. -/
def gridUnit (interval : Interval) (exponent : ℤ) : ℕ :=
  interval.denominator * powerOfTen exponent.toNat

/-- The middle of the interval, over the scale of a decimal grid. -/
def scaledMiddle (interval : Interval) (exponent : ℤ) : ℕ :=
  interval.middle * powerOfTen (-exponent).toNat

/-- The steps of the grid that are not beyond the middle. -/
def stepsBelow (interval : Interval) (exponent : ℤ) : ℕ :=
  interval.scaledMiddle exponent / interval.gridUnit exponent

/-- What the middle has beyond those steps. -/
def restAbove (interval : Interval) (exponent : ℤ) : ℕ :=
  interval.scaledMiddle exponent % interval.gridUnit exponent

/-- Some steps of the grid lead into the interval. -/
def holdsSteps (interval : Interval) (exponent : ℤ) (steps : ℕ) : Bool :=
  interval.contains (powerOfTen (-exponent).toNat) (steps * interval.gridUnit exponent)

/-- Of the middle's two neighbours on the grid, the upper one is preferred. -/
def prefersUpper (interval : Interval) (tie : Tie) (exponent : ℤ) : Bool :=
  interval.gridUnit exponent < 2 * interval.restAbove exponent ||
    (2 * interval.restAbove exponent = interval.gridUnit exponent &&
      (tie = .up || interval.stepsBelow exponent % 2 = 1))

/-- The search on one grid, by the two neighbours of the middle. -/
theorem onGrid?_eq (interval : Interval) (tie : Tie) (exponent : ℤ) :
    interval.onGrid? tie exponent =
      if (interval.holdsSteps exponent (interval.stepsBelow exponent) &&
            interval.stepsBelow exponent ≠ 0) &&
          (!interval.holdsSteps exponent (interval.stepsBelow exponent + 1) ||
            !interval.prefersUpper tie exponent) then
        some ⟨interval.stepsBelow exponent, exponent⟩
      else if interval.holdsSteps exponent (interval.stepsBelow exponent + 1) then
        some ⟨interval.stepsBelow exponent + 1, exponent⟩
      else none :=
  rfl

theorem holdsSteps_iff (format : Format) (units steps : ℕ) (exponent : ℤ) :
    (around format units).holdsSteps exponent steps = true ↔
      (around format units).Covers (steps * spacing format exponent) := by
  rw [holdsSteps, contains_iff _ (powerOfTen_pos _), spacing_eq format units, gridUnit]
  push_cast
  rw [mul_div_assoc', mul_div_assoc']

theorem spacing_mul_scale (format : Format) (units : ℕ) (exponent : ℤ) :
    spacing format exponent * (4 * powerOfTen (-exponent).toNat) =
      (around format units).gridUnit exponent := by
  have positive : (0 : ℚ) < powerOfTen (-exponent).toNat := by
    exact_mod_cast powerOfTen_pos _
  rw [spacing_eq format units, gridUnit]
  field_simp

theorem denominator_around_pos (format : Format) (units : ℕ) :
    0 < (around format units).denominator := by
  change 0 < 4 <<< format.fraction
  rw [Nat.shiftLeft_eq]
  positivity

theorem gridUnit_pos (format : Format) (units : ℕ) (exponent : ℤ) :
    0 < (around format units).gridUnit exponent :=
  Nat.mul_pos (denominator_around_pos format units) (powerOfTen_pos _)

/-- The part of a step by which the number lies beyond its lower neighbour on a grid. -/
def partAbove (format : Format) (units : ℕ) (exponent : ℤ) : ℚ :=
  (around format units).restAbove exponent / (around format units).gridUnit exponent

theorem partAbove_nonneg (format : Format) (units : ℕ) (exponent : ℤ) :
    0 ≤ partAbove format units exponent := by
  unfold partAbove
  positivity

theorem partAbove_lt_one (format : Format) (units : ℕ) (exponent : ℤ) :
    partAbove format units exponent < 1 := by
  have positive := gridUnit_pos format units exponent
  rw [partAbove, div_lt_one (by exact_mod_cast positive)]
  exact_mod_cast Nat.mod_lt _ positive

/-- The number is some whole steps of a grid and a part of a step. -/
theorem units_eq_steps (format : Format) (units : ℕ) (exponent : ℤ) :
    (units : ℚ) = ((around format units).stepsBelow exponent + partAbove format units exponent) *
      spacing format exponent := by
  let middle := (around format units).scaledMiddle exponent
  let unit := (around format units).gridUnit exponent
  have scale : (0 : ℚ) < 4 * powerOfTen (-exponent).toNat := by
    have := powerOfTen_pos (-exponent).toNat
    positivity
  have positive : (unit : ℚ) ≠ 0 := by exact_mod_cast (gridUnit_pos format units exponent).ne'
  have whole : (middle : ℚ) = (middle / unit : ℕ) * unit + (middle % unit : ℕ) := by
    exact_mod_cast (Nat.div_add_mod' middle unit).symm
  have scaled : (middle : ℚ) = units * (4 * powerOfTen (-exponent).toNat) := by
    rw [show middle = 4 * units * powerOfTen (-exponent).toNat from rfl]
    push_cast
    ring
  apply mul_right_cancel₀ scale.ne'
  rw [mul_assoc _ (spacing format exponent), spacing_mul_scale format units, ← scaled, add_mul,
    partAbove, div_mul_cancel₀ _ positive]
  exact whole

/-- The upper neighbour is preferred only where it is no further off than the lower one. -/
theorem half_le_partAbove {tie : Tie}
    (preferred : (around format units).prefersUpper tie exponent = true) :
    1 / 2 ≤ partAbove format units exponent := by
  have positive : (0 : ℚ) < (around format units).gridUnit exponent := by
    exact_mod_cast gridUnit_pos format units exponent
  have atLeast : (around format units).gridUnit exponent ≤
      2 * (around format units).restAbove exponent := by
    simp only [prefersUpper, Bool.or_eq_true, Bool.and_eq_true, decide_eq_true_iff] at preferred
    omega
  rw [partAbove, div_le_div_iff₀ two_pos positive, one_mul, mul_comm]
  exact_mod_cast atLeast

theorem partAbove_le_half {tie : Tie}
    (passedOver : (around format units).prefersUpper tie exponent = false) :
    partAbove format units exponent ≤ 1 / 2 := by
  have positive : (0 : ℚ) < (around format units).gridUnit exponent := by
    exact_mod_cast gridUnit_pos format units exponent
  have atMost : 2 * (around format units).restAbove exponent ≤
      (around format units).gridUnit exponent := by
    simp only [prefersUpper, Bool.or_eq_false_iff, decide_eq_false_iff_not] at passedOver
    omega
  rw [partAbove, div_le_div_iff₀ positive two_pos, one_mul, mul_comm]
  exact_mod_cast atMost

/-- All that the search on one grid can give, where the number lies between some steps of the
grid and one step more: of the neighbours in the interval the nearer one. -/
inductive Chooses (format : Format) (units : ℕ) (exponent : ℤ) (lower : ℕ) :
    Option Decimal → Prop where
  | lower (covers : (around format units).Covers (lower * spacing format exponent))
      (nearer : (around format units).Covers ((lower + 1) * spacing format exponent) →
        units - lower * spacing format exponent ≤ (lower + 1) * spacing format exponent - units) :
      Chooses format units exponent lower (some ⟨lower, exponent⟩)
  | upper (covers : (around format units).Covers ((lower + 1) * spacing format exponent))
      (nearer : (around format units).Covers (lower * spacing format exponent) → lower ≠ 0 →
        (lower + 1) * spacing format exponent - units ≤ units - lower * spacing format exponent) :
      Chooses format units exponent lower (some ⟨lower + 1, exponent⟩)
  | nothing (noUpper : ¬(around format units).Covers ((lower + 1) * spacing format exponent))
      (noLower : (around format units).Covers (lower * spacing format exponent) → lower = 0) :
      Chooses format units exponent lower none

/-- The number lies between two neighbours on the grid, and the search chooses among them. -/
theorem onGrid?_chooses (format : Format) (tie : Tie) (units : ℕ) (exponent : ℤ) :
    ∃ lower : ℕ, lower * spacing format exponent ≤ units ∧
      units < (lower + 1) * spacing format exponent ∧
      Chooses format units exponent lower ((around format units).onGrid? tie exponent) := by
  have parted := units_eq_steps format units exponent
  have nonneg := partAbove_nonneg format units exponent
  have small := partAbove_lt_one format units exponent
  have positive := spacing_pos format exponent
  refine ⟨(around format units).stepsBelow exponent, by nlinarith, by nlinarith, ?_⟩
  have lowerHeld := holdsSteps_iff format units ((around format units).stepsBelow exponent) exponent
  have upperHeld :=
    holdsSteps_iff format units ((around format units).stepsBelow exponent + 1) exponent
  rw [Nat.cast_add_one] at upperHeld
  rw [onGrid?_eq]
  split
  · rename_i taken
    simp only [Bool.and_eq_true, Bool.or_eq_true, Bool.not_eq_true'] at taken
    obtain ⟨⟨held, _⟩, unheld | passedOver⟩ := taken
    · refine .lower (lowerHeld.mp held) fun covers => ?_
      rw [upperHeld.mpr covers] at unheld
      cases unheld
    · have half := partAbove_le_half passedOver
      exact .lower (lowerHeld.mp held) fun _ => by nlinarith
  · rename_i notTaken
    have preferred (covers : (around format units).Covers
          ((around format units).stepsBelow exponent * spacing format exponent))
        (filled : (around format units).stepsBelow exponent ≠ 0) :
        (around format units).holdsSteps exponent ((around format units).stepsBelow exponent + 1) =
            true ∧ (around format units).prefersUpper tie exponent = true := by
      simpa [lowerHeld.mpr covers, filled] using notTaken
    split
    · rename_i held
      refine .upper (upperHeld.mp held) fun covers filled => ?_
      have half := half_le_partAbove (preferred covers filled).2
      nlinarith
    · rename_i unheld
      refine .nothing (mt upperHeld.mpr unheld) fun covers => ?_
      by_contra filled
      exact unheld (preferred covers filled).1

/-- A positive number lies in its own interval, and zero does not. -/
theorem covers_self (fits : format.Fits units) (filled : 0 < units) :
    (around format units).Covers units := by
  obtain ⟨significand, shape⟩ := fits.shape
  have step : (0 : ℚ) < 2 ^ format.shiftAt units := by positivity
  apply covers_of_lt
  · rw [low_around shape filled]
    split <;> linarith
  · rw [high_around]
    linarith

theorem not_covers_zero (fits : format.Fits units) (filled : 0 < units) :
    ¬(around format units).Covers 0 := by
  obtain ⟨significand, shape⟩ := fits.shape
  intro covers
  have close := covers.le_half_step shape filled
  have step : (0 : ℚ) < 2 ^ format.shiftAt units := by positivity
  have atLeast := shape.step_le filled
  rw [zero_sub, abs_neg, abs_of_nonneg (by positivity)] at close
  linarith

theorem steps_le (format : Format) (exponent : ℤ) {steps others : ℕ} (atMost : steps ≤ others) :
    steps * spacing format exponent ≤ others * spacing format exponent :=
  mul_le_mul_of_nonneg_right (by exact_mod_cast atMost) (spacing_pos format exponent).le

theorem next_step_le (format : Format) (exponent : ℤ) {steps others : ℕ} (fewer : steps < others) :
    (steps + 1) * spacing format exponent ≤ others * spacing format exponent := by
  have further := steps_le format exponent (Nat.succ_le_of_lt fewer)
  rwa [Nat.cast_succ] at further

/-- What the search on a grid finds is nearest to the number. -/
theorem represents_of_onGrid? {tie : Tie} (fits : format.Fits units) (filled : 0 < units)
    (found : (around format units).onGrid? tie exponent = some decimal) :
    decimal.exponent = exponent ∧ Represents format units decimal := by
  have zero := not_covers_zero fits filled
  have middle := covers_self fits filled
  obtain ⟨lower, below, above, chooses⟩ := onGrid?_chooses format tie units exponent
  rw [found] at chooses
  cases chooses with
  | lower covers nearer =>
      refine ⟨rfl, covers, fun other otherCovers => ?_⟩
      change |_ * _ - _| ≤ |_ * _ - _|
      change (around format units).Covers (_ * _) at otherCovers
      rw [abs_of_nonpos (sub_nonpos.mpr below)]
      rcases Nat.lt_or_ge lower other with more | fewer
      · have beyond := next_step_le format exponent more
        have closer := nearer (middle.between otherCovers above.le beyond)
        rw [abs_of_nonneg (by linarith)]
        linarith
      · have before := steps_le format exponent fewer
        rw [abs_of_nonpos (by linarith)]
        linarith
  | upper covers nearer =>
      rw [← Nat.cast_add_one] at covers above nearer
      refine ⟨rfl, covers, fun other otherCovers => ?_⟩
      change |_ * _ - _| ≤ |_ * _ - _|
      change (around format units).Covers (_ * _) at otherCovers
      rw [abs_of_nonneg (sub_nonneg.mpr above.le)]
      rcases Nat.lt_or_ge lower other with more | fewer
      · have beyond := steps_le format exponent (Nat.succ_le_of_lt more)
        rw [abs_of_nonneg (by linarith)]
        linarith
      · have before := steps_le format exponent fewer
        have filledLower : lower ≠ 0 := by
          rintro rfl
          rw [Nat.le_zero.mp fewer, Nat.cast_zero, zero_mul] at otherCovers
          exact zero otherCovers
        have closer := nearer (otherCovers.between middle before below) filledLower
        rw [abs_of_nonpos (by linarith)]
        linarith

/-- If the interval holds a decimal of a grid, the search on the grid finds one. -/
theorem exists_onGrid? (tie : Tie) (fits : format.Fits units) (filled : 0 < units) {other : ℕ}
    (covers : (around format units).Covers (other * spacing format exponent)) :
    ∃ decimal, (around format units).onGrid? tie exponent = some decimal := by
  have middle := covers_self fits filled
  obtain ⟨lower, below, above, chooses⟩ := onGrid?_chooses format tie units exponent
  cases chosen : (around format units).onGrid? tie exponent with
  | some decimal => exact ⟨decimal, rfl⟩
  | none =>
      rw [chosen] at chooses
      cases chooses with
      | nothing noUpper noLower =>
          exfalso
          rcases Nat.lt_or_ge lower other with more | fewer
          · exact noUpper (middle.between covers above.le (next_step_le format exponent more))
          · have nothing : lower = 0 :=
              noLower (covers.between middle (steps_le format exponent fewer) below)
            have none : other = 0 := Nat.le_zero.mp (nothing ▸ fewer)
            rw [none, Nat.cast_zero, zero_mul] at covers
            exact not_covers_zero fits filled covers

/-- A number is at least the power of ten of its magnitude. -/
theorem spacing_magnitude_le (format : Format) (filled : 0 < units) :
    spacing format (around format units).magnitude ≤ units := by
  have fraction : (0 : ℚ) < 2 ^ format.fraction := by positivity
  have bound : (10 : ℚ) ^ (around format units).magnitude ≤
      (around format units).middle / (around format units).denominator :=
    ten_zpow_magnitude_le (Nat.mul_pos four_pos filled) (denominator_around_pos format units)
  have middle : ((around format units).middle : ℚ) / (around format units).denominator =
      units / 2 ^ format.fraction := by
    rw [around, cast_shiftLeft]
    push_cast
    rw [mul_div_mul_left _ _ (by norm_num)]
  rw [middle, le_div_iff₀ fraction] at bound
  exact bound

/-- A grid finer than the numbers of the format has a decimal in every interval. -/
theorem exists_covers (fits : format.Fits units) (filled : 0 < units)
    (fine : spacing format exponent * 2 ^ format.precision < units) :
    ∃ other : ℕ, (around format units).Covers (other * spacing format exponent) := by
  obtain ⟨significand, shape⟩ := fits.shape
  have value := shape.cast_eq
  have positive := spacing_pos format exponent
  have step : (0 : ℚ) < 2 ^ format.shiftAt units := by positivity
  have low := low_around shape filled
  let lower := ⌊units / spacing format exponent⌋₊
  have below : lower * spacing format exponent ≤ units :=
    (le_div_iff₀ positive).mp (Nat.floor_le (by positivity))
  have above : units < (lower + 1) * spacing format exponent :=
    (div_lt_iff₀ positive).mp (Nat.lt_floor_add_one _)
  have upper : 4 * ((lower + 1) * spacing format exponent) < (around format units).high →
      (around format units).Covers ((lower + 1 : ℕ) * spacing format exponent) := by
    intro high
    push_cast
    refine covers_of_lt ?_ high
    rw [low]
    split <;> linarith
  rw [high_around] at upper
  split at low
  · -- Half the step below a power of two: the neighbour above it is near enough.
    rename_i edge
    rw [edge.1, cast_one_shiftLeft] at value
    have half : 2 * spacing format exponent < 2 ^ format.shiftAt units := by
      rw [format.two_pow_precision, value] at fine
      have : (0 : ℚ) < 2 ^ (format.precision - 1) := by positivity
      nlinarith
    exact ⟨lower + 1, upper (by linarith)⟩
  · have finer : spacing format exponent < 2 ^ format.shiftAt units := by
      have small : (significand : ℚ) ≤ 2 ^ format.precision := by
        rw [← cast_one_shiftLeft]
        exact_mod_cast shape.small.le
      have : (0 : ℚ) < 2 ^ format.precision := by positivity
      nlinarith
    by_cases near : units - lower * spacing format exponent < 2 ^ format.shiftAt units / 2
    · refine ⟨lower, covers_of_lt ?_ ?_⟩
      · rw [low]
        linarith
      · rw [high_around]
        linarith
    · exact ⟨lower + 1, upper (by linarith)⟩

end Interval

/-- Around an odd significand the decimal is nearest to the number on its whole grid, so it is
off by at most half the spacing of the grid. -/
theorem Represents.two_mul_le_spacing {format : Format} {units significand : ℕ} {decimal : Decimal}
    (represents : Represents format units decimal) (several : 1 < format.precision)
    (shape : format.Shape units significand) (filled : 0 < units) (odd : ¬Even significand) :
    2 * |decimal.ratio format - units| ≤ spacing format decimal.exponent := by
  have positive := spacing_pos format decimal.exponent
  have near := represents.covers.lt_half_step shape filled odd
  have nearest : ∀ other : ℕ, |decimal.ratio format - units| ≤
      |other * spacing format decimal.exponent - units| := by
    intro other
    by_cases covers : (Interval.around format units).Covers
        ((Decimal.mk other decimal.exponent).ratio format)
    · exact represents.nearest other covers
    · rw [Interval.covers_iff_of_odd several shape filled odd, not_lt] at covers
      exact near.le.trans covers
  rcases le_total (units : ℚ) (decimal.ratio format) with above | below
  · have some : 1 ≤ decimal.digits := by
      rw [Nat.one_le_iff_ne_zero]
      intro nothing
      rw [ratio, nothing, Nat.cast_zero, zero_mul] at above
      have : (0 : ℚ) < units := by exact_mod_cast filled
      linarith
    have before := nearest (decimal.digits - 1)
    rw [Nat.cast_sub some, Nat.cast_one, sub_one_mul] at before
    change _ ≤ |decimal.ratio format - _ - _| at before
    rw [abs_of_nonneg (sub_nonneg.mpr above)] at before ⊢
    rcases le_abs.mp before with further | nearer <;> linarith
  · have behind := nearest (decimal.digits + 1)
    rw [Nat.cast_add_one, add_one_mul] at behind
    change _ ≤ |decimal.ratio format + _ - _| at behind
    rw [abs_of_nonpos (sub_nonpos.mpr below)] at behind ⊢
    rcases le_abs.mp behind with nearer | further <;> linarith

/-- The shortest decimal of a number stands for a decimal of some grid that is nearest to the
number, with the zeros at the end of its digits left out. -/
theorem exists_represents_shortest {format : Format} (tie : Tie) {units : ℕ}
    (fits : format.Fits units) (filled : 0 < units) (small : 1 <<< format.precision < 10 ^ 16) :
    ∃ decimal, Represents format units decimal ∧
      (shortest format tie units).amount = decimal.amount := by
  let interval := Interval.around format units
  cases found : (List.range 17).findSome? fun (places : ℕ) =>
      interval.onGrid? tie (interval.magnitude - places) with
  | some decimal =>
      obtain ⟨places, _, here⟩ := List.exists_of_findSome?_eq_some found
      have searched : shortest format tie units = reduced 17 decimal.digits decimal.exponent := by
        simp only [shortest]
        rw [found]
      refine ⟨decimal, (Interval.represents_of_onGrid? fits filled here).2, ?_⟩
      rw [searched]
      exact amount_reduced 17 decimal.digits decimal.exponent
  | none =>
      exfalso
      -- The last grid has more places than the format has significands.
      have nothing := List.findSome?_eq_none_iff.mp found 16 (by decide)
      have fine : spacing format (interval.magnitude - 16) * 2 ^ format.precision < units := by
        have magnitude := Interval.spacing_magnitude_le format filled
        have positive := spacing_pos format (interval.magnitude - 16)
        have digits : (2 : ℚ) ^ format.precision < 10 ^ 16 := by
          rw [← cast_one_shiftLeft]
          exact_mod_cast small
        have scaled : spacing format interval.magnitude =
            spacing format (interval.magnitude - 16) * 10 ^ 16 := by
          rw [spacing, spacing, zpow_sub₀ (by norm_num)]
          norm_num
          ring
        nlinarith
      obtain ⟨other, covers⟩ := Interval.exists_covers fits filled fine
      obtain ⟨decimal, here⟩ := Interval.exists_onGrid? tie fits filled covers
      cases nothing.symm.trans here

end Decimal

end Tabula
