import Mathlib.Data.Nat.Cast.Order.Field
import Mathlib.Tactic.Linarith
import Mathlib.Tactic.Positivity
import Mathlib.Tactic.Ring
import Tabula.Proofs.Number.Widening

/-!
# Rounding to the nearest number

A ratio of units becomes the nearest number of the format.  This gives two bounds on how far
it moves: no number of the format lies between the ratio and the result, and beyond the
numbers of the least shift the ratio moves by at most one part in two to the precision.
-/

namespace Tabula

/-! ## The nearest natural number -/

theorem cast_one_shiftLeft (shift : ℕ) : ((1 <<< shift : ℕ) : ℚ) = 2 ^ shift := by
  rw [Nat.one_shiftLeft]
  push_cast
  rfl

theorem cast_shiftLeft (significand shift : ℕ) :
    ((significand <<< shift : ℕ) : ℚ) = significand * 2 ^ shift := by
  rw [Nat.shiftLeft_eq]
  push_cast
  rfl

/-- The natural number is nearest to the ratio, and even if another one is as near. -/
structure IsNearest (ratio : ℚ) (whole : ℕ) : Prop where
  close : |ratio - whole| ≤ 1 / 2
  even_of_tie : |ratio - whole| = 1 / 2 → Even whole

namespace IsNearest

variable {ratio : ℚ} {whole other : ℕ}

theorem le (first : IsNearest ratio whole) (second : IsNearest ratio other) : whole ≤ other := by
  by_contra! beyond
  have apart : (other : ℚ) + 1 ≤ whole := by exact_mod_cast beyond
  have above := (abs_le.mp first.close).1
  have below := (abs_le.mp second.close).2
  -- Two nearest numbers are neighbours, with the ratio half-way between them.
  have evenWhole : Even whole := by
    apply first.even_of_tie
    rw [abs_of_nonpos] <;> linarith
  have evenOther : Even other := by
    apply second.even_of_tie
    rw [abs_of_nonneg] <;> linarith
  have neighbours : whole = other + 1 := by
    have : (whole : ℚ) = other + 1 := by linarith
    exact_mod_cast this
  rw [neighbours, Nat.even_add_one] at evenWhole
  exact evenWhole evenOther

theorem unique (first : IsNearest ratio whole) (second : IsNearest ratio other) :
    whole = other :=
  Nat.le_antisymm (first.le second) (second.le first)

/-- A natural number less than a half away is the nearest one. -/
theorem of_lt (near : |ratio - whole| < 1 / 2) : IsNearest ratio whole :=
  ⟨near.le, fun tie => absurd tie near.ne⟩

/-- A multiple of a step is found by its distance in parts of the step. -/
theorem of_shiftLeft {shift : ℕ} (close : |ratio - (whole <<< shift : ℕ)| ≤ 2 ^ shift / 2)
    (even_of_tie : |ratio - (whole <<< shift : ℕ)| = 2 ^ shift / 2 → Even whole) :
    IsNearest (ratio / 2 ^ shift) whole := by
  have positive : (0 : ℚ) < 2 ^ shift := by positivity
  have scaled : |ratio / 2 ^ shift - whole| = |ratio - (whole <<< shift : ℕ)| / 2 ^ shift := by
    rw [← abs_of_pos positive, ← abs_div, abs_of_pos positive, cast_shiftLeft, sub_div,
      mul_div_cancel_right₀ _ positive.ne']
  constructor
  · rw [scaled, div_le_iff₀ positive]
    linarith
  · intro tie
    rw [scaled, div_eq_iff positive.ne'] at tie
    apply even_of_tie
    linarith

/-- The multiple of a step is at most half a step away. -/
theorem abs_sub_shiftLeft_le_half {shift : ℕ} (nearest : IsNearest (ratio / 2 ^ shift) whole) :
    |ratio - (whole <<< shift : ℕ)| ≤ 2 ^ shift / 2 := by
  have positive : (0 : ℚ) < 2 ^ shift := by positivity
  have scaled : ratio - (whole <<< shift : ℕ) = (ratio / 2 ^ shift - whole) * 2 ^ shift := by
    rw [cast_shiftLeft, sub_mul, div_mul_cancel₀ _ positive.ne']
  rw [scaled, abs_mul, abs_of_pos positive]
  linarith [mul_le_mul_of_nonneg_right nearest.close positive.le]

/-- No other multiple of the step is nearer: it is at least a step away from the first. -/
theorem abs_sub_shiftLeft_le {shift : ℕ} (nearest : IsNearest (ratio / 2 ^ shift) whole)
    (multiple : ℕ) : |ratio - (whole <<< shift : ℕ)| ≤ |ratio - multiple * 2 ^ shift| := by
  have positive : (0 : ℚ) < 2 ^ shift := by positivity
  have close := nearest.abs_sub_shiftLeft_le_half
  by_cases same : multiple = whole
  · rw [same, cast_shiftLeft]
  · have apart : (2 : ℚ) ^ shift ≤ |(multiple : ℚ) * 2 ^ shift - whole * 2 ^ shift| := by
      rw [← sub_mul, abs_mul, abs_of_pos positive]
      apply le_mul_of_one_le_left positive.le
      have : (1 : ℤ) ≤ |(multiple : ℤ) - whole| := Int.one_le_abs (by omega)
      exact_mod_cast this
    have triangle := abs_sub_le ((multiple : ℚ) * 2 ^ shift) ratio (whole * 2 ^ shift)
    rw [cast_shiftLeft] at close ⊢
    rw [abs_sub_comm _ ratio] at triangle
    linarith

/-- Bounds that are natural numbers survive. -/
theorem le_of_le (nearest : IsNearest ratio whole) (bound : ratio ≤ other) : whole ≤ other := by
  have above := (abs_le.mp nearest.close).1
  have : (whole : ℚ) < other + 1 := by linarith
  exact Nat.lt_succ_iff.mp (by exact_mod_cast this)

theorem ge_of_ge (nearest : IsNearest ratio whole) (bound : other ≤ ratio) : other ≤ whole := by
  have below := (abs_le.mp nearest.close).2
  have : (other : ℚ) < whole + 1 := by linarith
  exact Nat.lt_succ_iff.mp (by exact_mod_cast this)

end IsNearest

theorem isNearest_roundedQuotient (numerator : ℕ) {denominator : ℕ} (positive : 0 < denominator) :
    IsNearest (numerator / denominator) (roundedQuotient numerator denominator) := by
  have positive' : (0 : ℚ) < denominator := by exact_mod_cast positive
  let part : ℚ := (numerator % denominator : ℕ) / denominator
  have parted : (numerator : ℚ) / denominator = (numerator / denominator : ℕ) + part := by
    rw [div_eq_iff positive'.ne', add_mul, div_mul_cancel₀ _ positive'.ne']
    exact_mod_cast (Nat.div_add_mod' numerator denominator).symm
  have nonneg : 0 ≤ part := by positivity
  have small : part < 1 := by
    rw [div_lt_one positive']
    exact_mod_cast Nat.mod_lt numerator positive
  have less : part < 1 / 2 ↔ 2 * (numerator % denominator) < denominator := by
    rw [div_lt_div_iff₀ positive' two_pos, one_mul, mul_comm]
    exact_mod_cast Iff.rfl
  have more : 1 / 2 < part ↔ denominator < 2 * (numerator % denominator) := by
    rw [div_lt_div_iff₀ two_pos positive', one_mul, mul_comm (_ : ℚ) 2]
    exact_mod_cast Iff.rfl
  rw [parted, roundedQuotient]
  split
  · rename_i below
    apply IsNearest.of_lt
    rw [add_sub_cancel_left, abs_of_nonneg nonneg]
    exact less.mpr below
  · rename_i notBelow
    split
    · rename_i above
      have large := more.mpr above
      apply IsNearest.of_lt
      push_cast
      rw [abs_lt]
      constructor <;> linarith
    · rename_i notAbove
      have half : part = 1 / 2 := by
        have := mt less.mp notBelow
        have := mt more.mp notAbove
        linarith
      rcases Nat.even_or_odd (numerator / denominator) with even | odd
      · rw [Nat.even_iff.mp even, add_zero, half]
        refine ⟨?_, fun _ => even⟩
        norm_num
      · rw [Nat.odd_iff.mp odd, half]
        refine ⟨?_, fun _ => odd.add_one⟩
        push_cast
        rw [abs_of_nonpos] <;> linarith

/-- The quotient by so many steps of a power of two is rounded. -/
theorem isNearest_roundedQuotient_shiftLeft (numerator : ℕ) {denominator : ℕ}
    (positive : 0 < denominator) (shift : ℕ) :
    IsNearest ((numerator : ℚ) / denominator / 2 ^ shift)
      (roundedQuotient numerator (denominator <<< shift)) := by
  have positiveStep : 0 < denominator <<< shift := by
    rw [Nat.shiftLeft_eq]
    exact Nat.mul_pos positive (Nat.two_pow_pos _)
  have nearest := isNearest_roundedQuotient numerator positiveStep
  rwa [cast_shiftLeft, ← div_div] at nearest

/-! ## Significands -/

theorem le_div_of_cast_le {bound numerator denominator : ℕ} (positive : 0 < denominator)
    (le : (bound : ℚ) ≤ numerator / denominator) : bound ≤ numerator / denominator := by
  rw [le_div_iff₀ (by exact_mod_cast positive)] at le
  exact (Nat.le_div_iff_mul_le positive).mpr (by exact_mod_cast le)

namespace Format

variable {format : Format} {units : ℕ}

theorem shiftAt_eq_zero (small : units < 1 <<< format.precision) : format.shiftAt units = 0 := by
  by_contra moved
  have large := le_of_shiftAt_pos (Nat.pos_of_ne_zero moved)
  have positive := format.precision_pos
  have : 1 <<< format.precision ≤ 1 <<< (format.precision - 1 + format.shiftAt units) :=
    one_shiftLeft_le (by omega)
  omega

/-- A number of units determines the shift at which its significand has all its bits. -/
theorem shiftAt_eq {shift : ℕ} (low : 1 <<< (format.precision - 1 + shift) ≤ units)
    (high : units < 1 <<< (format.precision + shift)) : format.shiftAt units = shift := by
  have positive := format.precision_pos
  have filled : units ≠ 0 := (Nat.lt_of_lt_of_le (one_shiftLeft_pos _) low).ne'
  rw [Nat.one_shiftLeft] at low high
  have atLeast := (Nat.le_log2 filled).mpr low
  have below := (Nat.log2_lt filled).mpr high
  rw [shiftAt]
  omega

theorem largest_lt (format : Format) :
    format.largest < 1 <<< (format.precision + format.span) := by
  rw [largest, Nat.shiftLeft_add, Nat.shiftLeft_eq, Nat.shiftLeft_eq _ format.span]
  exact Nat.mul_lt_mul_of_pos_right (Nat.sub_lt (one_shiftLeft_pos _) Nat.one_pos)
    (Nat.two_pow_pos _)

theorem shiftAt_le_span (format : Format) {units : ℕ} (bounded : units ≤ format.largest) :
    format.shiftAt units ≤ format.span := by
  by_contra! beyond
  have large := le_of_shiftAt_pos (Nat.lt_of_le_of_lt (Nat.zero_le _) beyond)
  have positive := format.precision_pos
  have : 1 <<< (format.precision + format.span) ≤
      1 <<< (format.precision - 1 + format.shiftAt units) := one_shiftLeft_le (by omega)
  have := format.largest_lt
  omega

theorem two_pow_precision (format : Format) :
    (2 : ℚ) ^ format.precision = 2 * 2 ^ (format.precision - 1) := by
  rw [← pow_succ', Nat.sub_add_cancel format.precision_pos]

namespace Shape

variable {significand : ℕ}

theorem cast_eq (shape : format.Shape units significand) :
    (units : ℚ) = significand * 2 ^ format.shiftAt units := by
  conv => lhs; rw [shape.same]
  exact cast_shiftLeft _ _

theorem significand_pos (shape : format.Shape units significand) (filled : 0 < units) :
    0 < significand := by
  by_contra nothing
  have same := shape.same
  rw [Nat.eq_zero_of_not_pos nothing, Nat.zero_shiftLeft] at same
  omega

/-- A positive number is at least a step. -/
theorem step_le (shape : format.Shape units significand) (filled : 0 < units) :
    (2 : ℚ) ^ format.shiftAt units ≤ units := by
  rw [shape.cast_eq]
  apply le_mul_of_one_le_left (by positivity)
  exact_mod_cast shape.significand_pos filled

/-- The next number is at most a power of two. -/
theorem add_step_le (shape : format.Shape units significand) :
    (units : ℚ) + 2 ^ format.shiftAt units ≤ 2 ^ (format.precision + format.shiftAt units) := by
  have full : (significand : ℚ) + 1 ≤ 2 ^ format.precision := by
    rw [← cast_one_shiftLeft]
    exact_mod_cast shape.small
  rw [shape.cast_eq, ← add_one_mul, pow_add]
  exact mul_le_mul_of_nonneg_right full (by positivity)

/-- The next number is at most the largest one. -/
theorem add_step_le_largest (shape : format.Shape units significand)
    (below : units < format.largest) :
    (units : ℚ) + 2 ^ format.shiftAt units ≤ format.largest := by
  have positive : (0 : ℚ) < 2 ^ format.span := by positivity
  have some : (1 : ℚ) ≤ 2 ^ (format.precision - 1) := one_le_pow₀ one_le_two
  have largest : (format.largest : ℚ) = (2 ^ format.precision - 1) * 2 ^ format.span := by
    rw [Format.largest, cast_shiftLeft, Nat.cast_sub (one_shiftLeft_pos _), cast_one_shiftLeft,
      Nat.cast_one]
  rcases Nat.lt_or_eq_of_le shape.bound with finer | last
  · have exponent : (2 : ℚ) ^ (format.precision + format.shiftAt units) ≤
        2 ^ (format.precision - 1) * 2 ^ format.span := by
      have positivePrecision := format.precision_pos
      rw [← pow_add]
      exact pow_le_pow_right₀ one_le_two (by omega)
    rw [largest, format.two_pow_precision]
    nlinarith [shape.add_step_le]
  · have value := shape.cast_eq
    rw [last] at value ⊢
    have less : (units : ℚ) < format.largest := by exact_mod_cast below
    rw [largest, value] at less
    have next : (significand : ℚ) + 1 ≤ 2 ^ format.precision - 1 := by
      have := lt_of_mul_lt_mul_right less positive.le
      have : significand + 1 < 1 <<< format.precision := by
        rw [lt_sub_iff_add_lt, ← cast_one_shiftLeft] at this
        exact_mod_cast this
      rw [le_sub_iff_add_le, ← cast_one_shiftLeft]
      exact_mod_cast this
    rw [largest, value, ← add_one_mul]
    exact mul_le_mul_of_nonneg_right next positive.le

end Shape

end Format

/-! ## Rounding a ratio -/

/-- What rounding to the format does with a ratio. -/
structure IsRounded (format : Format) (ratio : ℚ) (units : ℕ) : Prop where
  /-- No number of the format is nearer. -/
  nearest : ∀ other, format.Fits other → |ratio - units| ≤ |ratio - other|
  /-- A full significand keeps the ratio up to one part in two to the precision. -/
  relative : ((1 <<< (format.precision - 1) : ℕ) : ℚ) ≤ ratio →
    |ratio - units| ≤ units / 2 ^ format.precision

namespace IsRounded

variable {format : Format} {ratio : ℚ} {units other : ℕ}

theorem le_of_le (rounded : IsRounded format ratio units) (fits : format.Fits other)
    (bound : ratio ≤ other) : units ≤ other := by
  have near := rounded.nearest other fits
  rw [abs_of_nonpos (sub_nonpos.mpr bound), abs_le] at near
  have : (units : ℚ) ≤ other := by linarith [near.1]
  exact_mod_cast this

theorem ge_of_ge (rounded : IsRounded format ratio units) (fits : format.Fits other)
    (bound : other ≤ ratio) : other ≤ units := by
  have near := rounded.nearest other fits
  rw [abs_of_nonneg (sub_nonneg.mpr bound), abs_le] at near
  have : (other : ℚ) ≤ units := by linarith [near.2]
  exact_mod_cast this

/-- A multiple of a step is a rounding of the ratio, once the ratio has reached the numbers that
take the whole step. -/
theorem of_isNearest {significand shift : ℕ} (nearest : IsNearest (ratio / 2 ^ shift) significand)
    (large : 0 < shift → ((1 <<< (format.precision - 1 + shift) : ℕ) : ℚ) ≤ ratio) :
    IsRounded format ratio (significand <<< shift) := by
  have positive : (0 : ℚ) < 2 ^ shift := by positivity
  constructor
  · rintro other ⟨otherSignificand, otherShift, otherSmall, -, same⟩
    rcases Nat.lt_or_ge otherShift shift with finer | coarser
    · -- A number of a finer step lies below the least one that takes the whole step.
      have reached := large (by omega)
      have edge : (other : ℚ) ≤ (1 <<< (format.precision - 1 + shift) : ℕ) := by
        have small : other ≤ 1 <<< (format.precision + otherShift) := by
          rw [same, Nat.shiftLeft_add, Nat.shiftLeft_eq, Nat.shiftLeft_eq _ otherShift]
          exact Nat.mul_le_mul_right _ otherSmall.le
        have grows : 1 <<< (format.precision + otherShift) ≤
            1 <<< (format.precision - 1 + shift) := one_shiftLeft_le (by omega)
        exact_mod_cast small.trans grows
      have least := nearest.abs_sub_shiftLeft_le (1 <<< (format.precision - 1))
      rw [← cast_shiftLeft (1 <<< _), ← Nat.shiftLeft_add] at least
      refine least.trans ?_
      rw [abs_of_nonneg (by linarith), abs_of_nonneg (by linarith)]
      linarith
    · have multiple : (other : ℚ) =
          (otherSignificand <<< (otherShift - shift) : ℕ) * 2 ^ shift := by
        rw [← cast_shiftLeft, ← Nat.shiftLeft_add, Nat.sub_add_cancel coarser, ← same]
      rw [multiple]
      exact nearest.abs_sub_shiftLeft_le _
  · intro reached
    have full : ((1 <<< (format.precision - 1) : ℕ) : ℚ) ≤ significand := by
      rcases Nat.eq_zero_or_pos shift with rfl | moved
      · rw [pow_zero, div_one] at nearest
        exact_mod_cast nearest.ge_of_ge reached
      · have bound := large moved
        rw [Nat.shiftLeft_add, cast_shiftLeft, ← le_div_iff₀ positive] at bound
        exact_mod_cast nearest.ge_of_ge bound
    rw [cast_one_shiftLeft] at full
    refine nearest.abs_sub_shiftLeft_le_half.trans ?_
    rw [cast_shiftLeft, format.two_pow_precision, div_le_div_iff₀ two_pos (by positivity)]
    nlinarith [mul_le_mul_of_nonneg_right full positive.le]

end IsRounded

namespace Floating

variable {format : Format}

/-- A significand may have just reached two to the precision: it still makes a number. -/
theorem place_of_fits (negative : Bool) {significand shift : ℕ}
    (small : significand ≤ 1 <<< format.precision) (bound : shift ≤ format.span)
    (fits : format.Fits (significand <<< shift)) :
    place format negative significand shift = finite negative (significand <<< shift) fits := by
  rcases Nat.lt_or_eq_of_le small with less | carried
  · exact place_of_lt negative less bound
  · have room : shift < format.span := by
      by_contra full
      have largest := fits.le_largest
      rw [Format.largest, carried, Nat.le_antisymm bound (Nat.not_lt.mp full),
        Nat.shiftLeft_eq, Nat.shiftLeft_eq _ format.span] at largest
      have := Nat.le_of_mul_le_mul_right largest (Nat.two_pow_pos _)
      have := one_shiftLeft_pos format.precision
      omega
    rw [place, dif_neg (by omega), dif_pos ⟨carried, room⟩]

/-- The ratio is rounded at the shift of its whole part. -/
theorem ofRatio_of_isNearest (negative : Bool)
    {numerator denominator significand shift units : ℕ} (positive : 0 < denominator)
    (chosen : format.shiftAt (numerator / denominator) = shift)
    (nearest : IsNearest ((numerator : ℚ) / denominator / 2 ^ shift) significand)
    (small : significand ≤ 1 <<< format.precision) (bound : shift ≤ format.span)
    (value : units = significand <<< shift) (fits : format.Fits units) :
    ofRatio format negative numerator denominator = finite negative units fits := by
  subst value
  have same : roundedQuotient numerator (denominator <<< shift) = significand :=
    (isNearest_roundedQuotient_shiftLeft numerator positive shift).unique nearest
  rw [ofRatio, chosen, same]
  exact place_of_fits negative small bound fits

/-- A significand that may have just reached two to the precision is one of the format. -/
theorem fits_of_le {significand shift : ℕ} (small : significand ≤ 1 <<< format.precision)
    (bound : shift ≤ format.span)
    (room : significand = 1 <<< format.precision → shift < format.span) :
    format.Fits (significand <<< shift) := by
  rcases Nat.lt_or_eq_of_le small with less | carried
  · exact ⟨significand, shift, less, bound, rfl⟩
  · refine ⟨1 <<< (format.precision - 1), shift + 1,
      one_shiftLeft_lt (Nat.sub_lt format.precision_pos Nat.one_pos), room carried, ?_⟩
    rw [carried, ← Nat.shiftLeft_add, ← Nat.shiftLeft_add]
    congr 1
    have positive := format.precision_pos
    omega

/-- Up to the largest number a significand reaches two to the precision at finer steps only. -/
theorem lt_span_of_carried {ratio : ℚ} {significand shift : ℕ}
    (nearest : IsNearest (ratio / 2 ^ shift) significand) (bounded : ratio ≤ format.largest)
    (bound : shift ≤ format.span) (carried : significand = 1 <<< format.precision) :
    shift < format.span := by
  by_contra full
  have atSpan : shift = format.span := by omega
  have atMost : ratio / 2 ^ shift ≤ (1 <<< format.precision - 1 : ℕ) := by
    rw [Format.largest, cast_shiftLeft] at bounded
    rw [div_le_iff₀ (by positivity), atSpan]
    exact bounded
  have smaller := nearest.le_of_le atMost
  have positive := one_shiftLeft_pos format.precision
  omega

/-- A ratio up to the largest number is rounded to a finite number. -/
theorem exists_ofRatio (negative : Bool) {numerator denominator : ℕ} (positive : 0 < denominator)
    (bounded : (numerator : ℚ) / denominator ≤ format.largest) :
    ∃ units, ∃ fits : format.Fits units,
      ofRatio format negative numerator denominator = finite negative units fits ∧
        IsRounded format (numerator / denominator) units := by
  let shift := format.shiftAt (numerator / denominator)
  have nearest := isNearest_roundedQuotient_shiftLeft numerator positive shift
  have small := roundedQuotient_shiftAt_le format numerator denominator
  have whole : numerator / denominator ≤ format.largest := by
    have : ((numerator / denominator : ℕ) : ℚ) ≤ format.largest := Nat.cast_div_le.trans bounded
    exact_mod_cast this
  have bound : shift ≤ format.span := format.shiftAt_le_span whole
  have room := lt_span_of_carried nearest bounded bound
  have fits := fits_of_le small bound room
  refine ⟨_, fits, ofRatio_of_isNearest negative positive rfl nearest small bound rfl fits, ?_⟩
  apply IsRounded.of_isNearest nearest
  intro moved
  have large : ((1 <<< (format.precision - 1 + shift) : ℕ) : ℚ) ≤
      (numerator / denominator : ℕ) := by
    exact_mod_cast Format.le_of_shiftAt_pos moved
  exact large.trans Nat.cast_div_le

end Floating

end Tabula
