import Tabula.Proofs.Number.DecimalText
import Tabula.Proofs.Number.Midpoints

/-!
# Numbers of 32 bits read through 64 bits

A text is read as a number of 64 bits, which is then narrowed to 32.  The first rounding
cannot leave the interval around the number that wrote the text, since both ends of the
interval are numbers of 64 bits.  At most it ends at one of them: the decimal is then so close
to the middle between two numbers of 32 bits that 64 bits do not tell it apart, and of all the
decimals that are written this is one.
-/

namespace Tabula

open Decimal

/-- The smallest number of 32 bits, in units of 64 bits. -/
def singleUnit : ℚ :=
  2 ^ 925

theorem two_pow_le_singleUnit : (2 : ℚ) ^ 53 ≤ singleUnit :=
  pow_le_pow_right₀ one_le_two (by norm_num)

theorem singleUnit_pos : 0 < singleUnit :=
  lt_of_lt_of_le (by positivity) two_pow_le_singleUnit

theorem two_pow_fraction_double :
    (2 : ℚ) ^ Format.double.fraction = singleUnit * 2 ^ Format.single.fraction :=
  pow_add 2 925 149

theorem cast_shiftLeft_quarter (quarters : ℕ) :
    ((quarters <<< 923 : ℕ) : ℚ) = quarters * (singleUnit / 4) := by
  have quarter : singleUnit = 2 ^ 923 * 2 ^ 2 := pow_add 2 923 2
  have four : (2 : ℚ) ^ 2 = 4 := by norm_num
  rw [cast_shiftLeft, quarter, four, mul_div_cancel_right₀ _ four_ne_zero]

/-- A decimal in units of either format. -/
theorem ratio_double {decimal reading : Decimal} (same : reading.amount = decimal.amount) :
    reading.ratio .double = decimal.ratio .single * singleUnit := by
  rw [ratio_eq, ratio_eq, same, mul_assoc, singleUnit, ← pow_add]
  rfl

namespace Decimal.Interval

variable {units significand : ℕ}

/-- Quarters of a step of 32 bits are numbers of 64 bits. -/
theorem fits_double_of_le {multiple shift : ℕ} (small : multiple < 1 <<< 53) (bound : shift ≤ 253) :
    Format.double.Fits ((multiple <<< shift) <<< 923) := by
  refine ⟨multiple, shift + 923, small, ?_, (Nat.shiftLeft_add ..).symm⟩
  change shift + 923 ≤ 2045
  omega

/-- The ends of an interval of 32 bits are numbers of 64 bits. -/
theorem fits_double_ends (shape : Format.single.Shape units significand) :
    Format.double.Fits ((around .single units).low <<< 923) ∧
      Format.double.Fits ((around .single units).high <<< 923) := by
  have small : significand < 1 <<< 24 := shape.small
  have bound : Format.single.shiftAt units ≤ 253 := shape.bound
  have quarters : 4 * units = (4 * significand) * 2 ^ Format.single.shiftAt units := by
    conv => lhs; rw [shape.same]
    rw [Nat.shiftLeft_eq, Nat.mul_assoc]
  rw [around, div_one_shiftLeft shape]
  simp only
  rw [quarters, Nat.one_shiftLeft (Format.single.shiftAt units)]
  constructor
  · split
    · rw [← Nat.sub_one_mul, ← Nat.shiftLeft_eq]
      exact fits_double_of_le (by omega) bound
    · rw [← Nat.sub_mul, ← Nat.shiftLeft_eq]
      exact fits_double_of_le (by omega) bound
  · rw [← Nat.add_mul, ← Nat.shiftLeft_eq]
    exact fits_double_of_le (by omega) bound

end Decimal.Interval

namespace Floating

variable {units significand : ℕ} {decimal reading : Decimal}

/-- What the decimal of a number of 32 bits becomes in 64 bits, in units of 32 bits: it keeps
within the number's interval, and as close to the decimal as 53 bits allow. -/
structure Approaches (units : ℕ) (decimal : Decimal) (ratio : ℚ) : Prop where
  low : (Interval.around .single units).low ≤ 4 * ratio
  high : 4 * ratio ≤ (Interval.around .single units).high
  relative : |decimal.ratio .single - ratio| ≤ ratio / 2 ^ 53

/-- The interval of a number of 32 bits lies well within the numbers of 64 bits that have all
their bits. -/
theorem ratio_double_bounds (shape : Format.single.Shape units significand) (filled : 0 < units)
    (represents : Represents .single units decimal) (same : reading.amount = decimal.amount) :
    (((Interval.around .single units).low <<< 923 : ℕ) : ℚ) ≤ reading.ratio .double ∧
      reading.ratio .double ≤ ((Interval.around .single units).high <<< 923 : ℕ) ∧
      (2 : ℚ) ^ 52 ≤ reading.ratio .double := by
  have unit := singleUnit_pos
  rw [cast_shiftLeft_quarter, cast_shiftLeft_quarter, ratio_double same]
  refine ⟨?_, ?_, ?_⟩
  · nlinarith [represents.covers.low_le]
  · nlinarith [represents.covers.le_high]
  · have step : (1 : ℚ) ≤ 2 ^ Format.single.shiftAt units := one_le_pow₀ one_le_two
    have half : 1 / 2 ≤ decimal.ratio .single := by
      linarith [(abs_le.mp (represents.covers.le_half_step shape filled)).1, shape.step_le filled]
    nlinarith [two_pow_le_singleUnit]

/-- What rounding to 64 bits makes of the decimal.  The ends of the interval are numbers of 64
bits, so rounding does not go beyond them. -/
theorem approaches_of_isRounded (shape : Format.single.Shape units significand)
    (filled : 0 < units) (represents : Represents .single units decimal)
    (same : reading.amount = decimal.amount) {wide : ℕ}
    (rounded : IsRounded .double (reading.ratio .double) wide) :
    Approaches units decimal (wide / singleUnit) := by
  have unit := singleUnit_pos
  obtain ⟨low, high, large⟩ := ratio_double_bounds shape filled represents same
  obtain ⟨fitsLow, fitsHigh⟩ := Interval.fits_double_ends shape
  constructor
  · have above : (((Interval.around .single units).low <<< 923 : ℕ) : ℚ) ≤ wide := by
      exact_mod_cast rounded.ge_of_ge fitsLow low
    rw [cast_shiftLeft_quarter] at above
    rw [mul_div_assoc', le_div_iff₀ unit]
    linarith
  · have below : (wide : ℚ) ≤ ((Interval.around .single units).high <<< 923 : ℕ) := by
      exact_mod_cast rounded.le_of_le fitsHigh high
    rw [cast_shiftLeft_quarter] at below
    rw [mul_div_assoc', div_le_iff₀ unit]
    linarith
  · have full : ((1 <<< (Format.double.precision - 1) : ℕ) : ℚ) ≤ reading.ratio .double := by
      rw [cast_one_shiftLeft]
      exact large
    have parted : decimal.ratio .single - wide / singleUnit =
        (reading.ratio .double - wide) / singleUnit := by
      rw [ratio_double same, sub_div, mul_div_cancel_right₀ _ unit.ne']
    rw [parted, abs_div, abs_of_pos unit, div_right_comm]
    exact div_le_div_of_nonneg_right (rounded.relative full) unit.le

/-- The decimal of a number of 32 bits becomes a number of 64 bits. -/
theorem exists_ofDecimal_double (negative : Bool) (fits : Format.single.Fits units)
    (filled : 0 < units) (represents : Represents .single units decimal)
    (same : reading.amount = decimal.amount) :
    ∃ wide, ∃ fits : Format.double.Fits wide,
      ofDecimal .double negative reading.digits reading.exponent = finite negative wide fits ∧
        Approaches units decimal (wide / singleUnit) := by
  obtain ⟨significand, shape⟩ := fits.shape
  obtain ⟨_, high, large⟩ := ratio_double_bounds shape filled represents same
  have bounded : reading.ratio .double ≤ Format.double.largest :=
    high.trans (by exact_mod_cast (Interval.fits_double_ends shape).2.le_largest)
  have some : 0 < reading.digits := by
    by_contra nothing
    rw [ratio, Nat.eq_zero_of_not_pos nothing, Nat.cast_zero, zero_mul] at large
    norm_num at large
  have inRange : reading.ratio .double < 2 ^ (Format.double.precision + Format.double.span) := by
    apply bounded.trans_lt
    rw [← cast_one_shiftLeft]
    exact_mod_cast Format.double.largest_lt
  obtain ⟨numerator, denominator, positive, value, read⟩ :=
    exists_ofDecimal negative some ((by norm_num : (1 : ℚ) / 4 ≤ 2 ^ 52).trans large) inRange
  obtain ⟨wide, fitsWide, found, rounded⟩ :=
    @exists_ofRatio .double negative numerator denominator positive (value ▸ bounded)
  rw [value] at rounded
  exact ⟨wide, fitsWide, read.trans found,
    approaches_of_isRounded shape filled represents same rounded⟩

/-- Rounding to 32 bits brings back the number whose interval covers the number of 64 bits. -/
theorem convert_of_covers (negative : Bool) {wide : ℕ} (fitsWide : Format.double.Fits wide)
    (fits : Format.single.Fits units) (filled : 0 < units)
    (covers : (Interval.around .single units).Covers (wide / singleUnit)) :
    (finite negative wide fitsWide).convert .single = finite negative units fits := by
  rw [convert]
  apply ofRatio_of_covers negative fits filled (one_shiftLeft_pos _)
  have same : ((wide <<< Format.single.fraction : ℕ) : ℚ) / (1 <<< Format.double.fraction : ℕ) =
      wide / singleUnit := by
    rw [cast_shiftLeft, cast_one_shiftLeft, two_pow_fraction_double,
      mul_div_mul_right _ _ (by positivity)]
  rwa [same]

/-- Below the largest number the interval ends within the range of 32 bits. -/
theorem not_exceeds (negative : Bool) {wide : ℕ} (fitsWide : Format.double.Fits wide)
    (fits : Format.single.Fits units) (below : units < Format.single.largest)
    (approaches : Approaches units decimal (wide / singleUnit)) :
    (finite negative wide fitsWide).exceeds .single = false := by
  obtain ⟨significand, shape⟩ := fits.shape
  have unit := singleUnit_pos
  have step : (0 : ℚ) < 2 ^ Format.single.shiftAt units := by positivity
  have high := approaches.high
  rw [Interval.high_around] at high
  have bounded : (wide : ℚ) / singleUnit ≤ Format.single.largest := by
    linarith [shape.add_step_le_largest below]
  rw [div_le_iff₀ unit] at bounded
  rw [exceeds, decide_eq_false_iff_not, Nat.not_lt]
  have : ((wide <<< Format.single.fraction : ℕ) : ℚ) ≤
      (Format.single.largest <<< Format.double.fraction : ℕ) := by
    rw [cast_shiftLeft, cast_shiftLeft, two_pow_fraction_double, ← mul_assoc]
    exact mul_le_mul_of_nonneg_right bounded (by positivity)
  exact_mod_cast this

/-- The number of 32 bits next to whose upper middle its decimal lies. -/
def misread : ℕ :=
  11420669 <<< 42

/-- The ends of an interval are an odd number of half steps. -/
theorem exists_halves (shape : Format.single.Shape units significand) (filled : 0 < units)
    (odd : ¬Even significand) {ratio : ℚ}
    (atEnd : |ratio - units| = 2 ^ Format.single.shiftAt units / 2) :
    ∃ halves : ℕ, halves < 2 ^ 25 ∧ ratio = halves * (2 ^ Format.single.shiftAt units / 2) ∧
      (halves = 22841339 → significand = 11420669) := by
  have small : significand < 1 <<< 24 := shape.small
  have some := shape.significand_pos filled
  have value := shape.cast_eq
  rw [Nat.even_iff] at odd
  rcases eq_or_eq_neg_of_abs_eq atEnd with above | below
  · refine ⟨2 * significand + 1, by omega, ?_, by omega⟩
    push_cast
    linarith
  · refine ⟨2 * significand - 1, by omega, ?_, by omega⟩
    rw [Nat.cast_sub (by omega)]
    push_cast
    linarith

section

variable (shape : Format.single.Shape units significand) (filled : 0 < units)
  (odd : ¬Even significand) (represents : Represents .single units decimal) {ratio : ℚ}
  (approaches : Approaches units decimal ratio)
  (atEnd : |ratio - units| = 2 ^ Format.single.shiftAt units / 2)
include shape filled odd represents approaches atEnd

/-- If 64 bits take the decimal to an end of the open interval, then the grid of the decimal is
nearly as coarse as the step. -/
theorem step_le_spacing_of_end {halves : ℕ} (fewHalves : halves < 2 ^ 25)
    (value : ratio = halves * (2 ^ Format.single.shiftAt units / 2)) :
    (2 : ℚ) ^ Format.single.shiftAt units * (1 - 1 / 2 ^ 28) ≤
      spacing .single decimal.exponent := by
  have spaced := represents.two_mul_le_spacing (by decide) shape filled odd
  have relative := approaches.relative
  have step : (0 : ℚ) < 2 ^ Format.single.shiftAt units := by positivity
  have few : (halves : ℚ) ≤ 2 ^ 25 := by exact_mod_cast fewHalves.le
  have triangle := abs_sub_le ratio (decimal.ratio .single) units
  rw [abs_sub_comm ratio (decimal.ratio .single), atEnd] at triangle
  have middle : ratio / 2 ^ 53 ≤ 2 ^ Format.single.shiftAt units / 2 / 2 ^ 28 := by
    have scaled := mul_le_mul_of_nonneg_right few (half_pos step).le
    rw [value]
    linarith
  linarith

/-- Then the decimal is near a middle, in powers of ten and of two. -/
theorem nearMiddle_of_end {halves : ℕ} (fewHalves : halves < 2 ^ 25)
    (value : ratio = halves * (2 ^ Format.single.shiftAt units / 2)) :
    Scale.NearMiddle decimal.digits halves decimal.exponent
      (Format.single.shiftAt units - 149) := by
  have coarse := step_le_spacing_of_end shape filled odd represents approaches atEnd fewHalves value
  have bound : Format.single.shiftAt units ≤ 253 := shape.bound
  have relative := approaches.relative
  have apart : decimal.ratio .single ≠ ratio := by
    rintro rfl
    exact absurd atEnd (represents.covers.lt_half_step shape filled odd).ne
  generalize Format.single.shiftAt units = shift at *
  let fraction : ℚ := 2 ^ Format.single.fraction
  have positive : 0 < fraction := by positivity
  have shifted : (2 : ℚ) ^ shift = 2 ^ (shift - 149 : ℤ) * fraction := by
    rw [show fraction = (2 : ℚ) ^ (149 : ℤ) from (zpow_natCast 2 149).symm,
      ← zpow_add₀ two_ne_zero, sub_add_cancel, zpow_natCast]
  have halved : (2 : ℚ) ^ shift / 2 = 2 ^ (shift - 149 - 1 : ℤ) * fraction := by
    rw [shifted, zpow_sub_one₀ two_ne_zero (shift - 149 : ℤ)]
    ring
  have named : decimal.ratio .single = decimal.digits * 10 ^ decimal.exponent * fraction :=
    ratio_eq _ _
  rw [value, halved, ← mul_assoc, named] at relative apart
  rw [shifted, spacing, mul_right_comm] at coarse
  have close : |decimal.digits * (10 : ℚ) ^ decimal.exponent -
      halves * 2 ^ (shift - 149 - 1 : ℤ)| ≤ halves * 2 ^ (shift - 149 - 1 : ℤ) / 2 ^ 53 := by
    rw [← sub_mul, abs_mul, abs_of_pos positive, mul_div_right_comm] at relative
    exact le_of_mul_le_mul_right relative positive
  exact ⟨by omega, by omega, fewHalves, le_of_mul_le_mul_right coarse positive, close,
    fun equal => apart (by rw [equal])⟩

/-- There is a single number whose decimal 64 bits do not tell from an end of its interval. -/
theorem eq_misread_of_end : units = misread := by
  obtain ⟨halves, fewHalves, value, lower⟩ := exists_halves shape filled odd atEnd
  obtain ⟨atBinary, atHalves⟩ :=
    (nearMiddle_of_end shape filled odd represents approaches atEnd fewHalves value).eq_closest
  have atShift : Format.single.shiftAt units = 42 := by omega
  rw [shape.same, lower atHalves, atShift]
  rfl

end

/-- Away from the end of an open interval the number of 64 bits is covered. -/
theorem covers_of_approaches (shape : Format.single.Shape units significand) (filled : 0 < units)
    (read : units ≠ misread) (represents : Represents .single units decimal) {ratio : ℚ}
    (approaches : Approaches units decimal ratio) :
    (Interval.around .single units).Covers ratio := by
  by_cases even : Even significand
  · rw [Interval.Covers, if_pos ((Interval.closed_around shape).mpr even)]
    exact ⟨approaches.low, approaches.high⟩
  · have low := approaches.low
    have high := approaches.high
    have step : (0 : ℚ) < 2 ^ Format.single.shiftAt units := by positivity
    rw [Interval.high_around] at high
    rw [Interval.low_around shape filled] at low
    have within : |ratio - units| ≤ 2 ^ Format.single.shiftAt units / 2 := by
      rw [abs_le]
      split at low <;> constructor <;> linarith
    rw [Interval.covers_iff_of_odd (by decide) shape filled even]
    exact within.lt_of_ne fun atEnd =>
      read (eq_misread_of_end shape filled even represents approaches atEnd)

/-- The text of a number of 32 bits, read in 64 bits, is narrowed to the number again, save for
the largest number and the misread one. -/
theorem exists_floating?_double (number : Floating .single)
    (below : number.units ≠ Format.single.largest) (read : number.units ≠ misread) :
    ∃ wide : Floating .double,
      Text.floating? .double (Text.trim (Text.plainText number).toList) = some wide ∧
        wide.exceeds .single = false ∧ wide.convert .single = number.foldNan := by
  cases number with
  | nan negative bits unordered =>
      exact ⟨_, Text.floating?_plainText_nan .double negative unordered, rfl, rfl⟩
  | infinite negative => exact ⟨_, Text.floating?_plainText_infinite .double negative, rfl, rfl⟩
  | finite negative units fits =>
      rcases Nat.eq_zero_or_pos units with rfl | filled
      · refine ⟨_, Text.floating?_plainText_zero .double negative fits, rfl, ?_⟩
        have exact := ofRatio_mul_self negative fits (one_shiftLeft_pos Format.double.fraction)
        rwa [Nat.zero_mul] at exact
      · obtain ⟨significand, shape⟩ := fits.shape
        obtain ⟨decimal, reading, represents, same, text⟩ :=
          Text.exists_floating?_plainText negative fits filled (by decide)
        obtain ⟨wide, fitsWide, rounded, approaches⟩ :=
          exists_ofDecimal_double negative fits filled represents same
        have covers := covers_of_approaches shape filled read represents approaches
        have less : units < Format.single.largest := Nat.lt_of_le_of_ne fits.le_largest below
        refine ⟨finite negative wide fitsWide, ?_, ?_, ?_⟩
        · rw [text, rounded]
        · exact not_exceeds negative fitsWide fits less approaches
        · exact convert_of_covers negative fitsWide fits filled covers

/-! ## The two numbers that are lost -/

/-- The largest number of 32 bits. -/
def largestSingle (negative : Bool) : Floating .single :=
  finite negative Format.single.largest ⟨1 <<< 24 - 1, 253, by decide, by decide, rfl⟩

/-- The misread number. -/
def misreadSingle (negative : Bool) : Floating .single :=
  finite negative misread ⟨11420669, 42, by decide, by decide, rfl⟩

/-- What the misread number is read as. -/
def misreadAs (negative : Bool) : Floating .single :=
  finite negative (11420670 <<< 42) ⟨11420670, 42, by decide, by decide, rfl⟩

/-- A number of positive size is determined by its size and its sign. -/
theorem exists_eq_finite {format : Format} {number : Floating format} {size : ℕ}
    (fits : format.Fits size) (positive : 0 < size) (sized : number.units = size) :
    ∃ negative, number = finite negative size fits := by
  cases number with
  | nan negative bits unordered => exact absurd sized positive.ne
  | infinite negative => exact absurd sized positive.ne
  | finite negative units fits =>
      obtain rfl : units = size := sized
      exact ⟨negative, rfl⟩

theorem exists_eq_largestSingle {number : Floating .single}
    (largest : number.units = Format.single.largest) :
    ∃ negative, number = largestSingle negative :=
  exists_eq_finite _ (by decide) largest

theorem exists_eq_misreadSingle {number : Floating .single} (lost : number.units = misread) :
    ∃ negative, number = misreadSingle negative :=
  exists_eq_finite _ (by decide) lost

/-- The shortest decimal of the largest number lies beyond it, and still does in 64 bits. -/
theorem floating?_largestSingle (negative : Bool) :
    ∃ wide : Floating .double,
      Text.floating? .double (Text.trim (Text.plainText (largestSingle negative)).toList) =
        some wide ∧
      wide.exceeds .single = true ∧
        Text.plainText wide = Text.plainText (largestSingle negative) := by
  refine ⟨ofDecimal .double negative 34028235 31, ?_⟩
  cases negative <;> decide +kernel

/-- The shortest decimal of the misread number is taken for a middle, and goes to the even
significand. -/
theorem floating?_misreadSingle (negative : Bool) :
    ∃ wide : Floating .double,
      Text.floating? .double (Text.trim (Text.plainText (misreadSingle negative)).toList) =
        some wide ∧
      wide.exceeds .single = false ∧ wide.convert .single = misreadAs negative := by
  refine ⟨ofDecimal .double negative 7038531 (-32), ?_⟩
  cases negative <;> decide +kernel

end Floating

end Tabula
