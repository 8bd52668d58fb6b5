import Tabula.Number.Floating

/-!
# Exact rounding

Rounding leaves a ratio alone that is a number of the format already.  So a number that
goes to a format with room for it is still the same number there, and comes back
unchanged.
-/

namespace Tabula

namespace Format

/-- The shift chosen for a number of units is at most any shift that fits it. -/
theorem shiftAt_shiftLeft_le {format : Format} {significand : Nat} (shift : Nat)
    (small : significand < 1 <<< format.precision) :
    format.shiftAt (significand <<< shift) ≤ shift := by
  by_cases nothing : significand <<< shift = 0
  · rw [nothing, shiftAt, Nat.log2_zero]
    have positive := format.precision_pos
    omega
  · have below : significand <<< shift < 1 <<< (format.precision + shift) := by
      rw [Nat.shiftLeft_add, Nat.shiftLeft_eq, Nat.shiftLeft_eq _ shift]
      exact Nat.mul_lt_mul_of_pos_right small (Nat.two_pow_pos shift)
    rw [Nat.one_shiftLeft, ← Nat.log2_lt nothing] at below
    unfold shiftAt
    omega

/-- A moved significand has all its bits. -/
theorem le_of_shiftAt_pos {format : Format} {units : Nat} (moved : 0 < format.shiftAt units) :
    1 <<< (format.precision - 1 + format.shiftAt units) ≤ units := by
  have positive := format.precision_pos
  rw [shiftAt] at moved ⊢
  have filled : units ≠ 0 := by
    rintro rfl
    rw [Nat.log2_zero] at moved
    omega
  have exponent : format.precision - 1 + (units.log2 + 1 - format.precision) = units.log2 := by
    omega
  rw [exponent, Nat.one_shiftLeft]
  exact Nat.log2_self_le filled

/-- Every number of the format is a significand shifted by the chosen shift. -/
structure Shape (format : Format) (units significand : Nat) : Prop where
  small : significand < 1 <<< format.precision
  bound : format.shiftAt units ≤ format.span
  same : units = significand <<< format.shiftAt units
  large : 0 < format.shiftAt units → 1 <<< (format.precision - 1) ≤ significand

theorem Fits.shape {format : Format} {units : Nat} (fits : format.Fits units) :
    ∃ significand, format.Shape units significand := by
  have below := format.lt_shiftAt units
  rcases fits with ⟨significand, shift, small, bound, same⟩
  have chosen : format.shiftAt units ≤ shift := by
    rw [same]
    exact shiftAt_shiftLeft_le shift small
  have kept : units = (significand <<< (shift - format.shiftAt units)) <<<
      format.shiftAt units := by
    rw [← Nat.shiftLeft_add, Nat.sub_add_cancel chosen]
    exact same
  refine ⟨significand <<< (shift - format.shiftAt units), ?_, Nat.le_trans chosen bound,
    kept, ?_⟩
  · rw [Nat.shiftLeft_add, Nat.shiftLeft_eq _ (format.shiftAt units)] at below
    conv at below => lhs; rw [kept, Nat.shiftLeft_eq _ (format.shiftAt units)]
    exact Nat.lt_of_mul_lt_mul_right below
  · intro moved
    have large := le_of_shiftAt_pos moved
    rw [Nat.shiftLeft_add, Nat.shiftLeft_eq _ (format.shiftAt units)] at large
    conv at large => rhs; rw [kept, Nat.shiftLeft_eq _ (format.shiftAt units)]
    exact Nat.le_of_mul_le_mul_right large (Nat.two_pow_pos _)

/-- The largest number of units of a format is a bound for all of them. -/
theorem Fits.le_largest {format : Format} {units : Nat} (fits : format.Fits units) :
    units ≤ format.largest := by
  rcases fits with ⟨significand, shift, small, bound, rfl⟩
  rw [largest, Nat.shiftLeft_eq, Nat.shiftLeft_eq _ format.span]
  apply Nat.mul_le_mul
  · omega
  · exact Nat.pow_le_pow_right (by decide) bound

/-- Every number of the narrow format is one of the wide format. -/
structure Within (narrow wide : Format) : Prop where
  precision : narrow.precision ≤ wide.precision
  fraction : narrow.fraction ≤ wide.fraction
  span : narrow.span + (wide.fraction - narrow.fraction) ≤ wide.span

theorem single_within_double : Format.single.Within .double :=
  ⟨by decide, by decide, by decide⟩

/-- A number of the narrow format, in units of the wide one, fits the wide one. -/
theorem Fits.widen {narrow wide : Format} (within : narrow.Within wide) {units : Nat}
    (fits : narrow.Fits units) : wide.Fits (units <<< (wide.fraction - narrow.fraction)) := by
  rcases fits with ⟨significand, shift, small, bound, rfl⟩
  have room := within.span
  refine ⟨significand, shift + (wide.fraction - narrow.fraction), ?_, by omega, ?_⟩
  · exact Nat.lt_of_lt_of_le small (one_shiftLeft_le within.precision)
  · exact (Nat.shiftLeft_add ..).symm

end Format

theorem roundedQuotient_mul_self (quotient : Nat) {denominator : Nat}
    (positive : 0 < denominator) :
    roundedQuotient (quotient * denominator) denominator = quotient := by
  simp [roundedQuotient, Nat.mul_div_cancel _ positive, positive]

namespace Floating

theorem place_of_lt {format : Format} (negative : Bool) {significand shift : Nat}
    (small : significand < 1 <<< format.precision) (bound : shift ≤ format.span) :
    place format negative significand shift =
      finite negative (significand <<< shift) ⟨significand, shift, small, bound, rfl⟩ := by
  rw [place, dif_pos ⟨small, bound⟩]

/-- A number of the format is its own nearest number. -/
theorem ofRatio_mul_self {format : Format} (negative : Bool) {units denominator : Nat}
    (fits : format.Fits units) (positive : 0 < denominator) :
    ofRatio format negative (units * denominator) denominator =
      finite negative units fits := by
  obtain ⟨significand, shape⟩ := fits.shape
  have whole : units * denominator = significand * (denominator <<< format.shiftAt units) := by
    conv => lhs; rw [shape.same]
    rw [Nat.shiftLeft_eq, Nat.shiftLeft_eq denominator, Nat.mul_assoc, Nat.mul_comm denominator]
  have positiveStep : 0 < denominator <<< format.shiftAt units := by
    rw [Nat.shiftLeft_eq]
    exact Nat.mul_pos positive (Nat.two_pow_pos _)
  rw [ofRatio, Nat.mul_div_cancel _ positive, whole, roundedQuotient_mul_self _ positiveStep,
    place_of_lt negative shape.small shape.bound]
  congr 1
  exact shape.same.symm

section

variable {narrow wide : Format}

/-- A finite number in a format that has room for it. -/
theorem convert_finite_widen (within : narrow.Within wide) (negative : Bool) {units : Nat}
    (fits : narrow.Fits units) :
    (finite negative units fits).convert wide =
      finite negative (units <<< (wide.fraction - narrow.fraction)) (fits.widen within) := by
  rw [convert, ← ofRatio_mul_self negative (fits.widen within) (one_shiftLeft_pos narrow.fraction)]
  congr 1
  rw [Nat.one_shiftLeft, ← Nat.shiftLeft_eq, ← Nat.shiftLeft_add,
    Nat.sub_add_cancel within.fraction]

/-- A finite number that goes to a wider format comes back as it was. -/
theorem convert_convert (within : narrow.Within wide) {number : Floating narrow}
    (isFinite : number.isFinite = true) : (number.convert wide).convert narrow = number := by
  cases number with
  | nan negative bits unordered => cases isFinite
  | infinite negative => cases isFinite
  | finite negative units fits =>
      rw [convert_finite_widen within, convert,
        ← ofRatio_mul_self negative fits (one_shiftLeft_pos wide.fraction)]
      congr 1
      rw [← Nat.shiftLeft_add, Nat.sub_add_cancel within.fraction, Nat.one_shiftLeft,
        Nat.shiftLeft_eq]

theorem isFinite_convert_widen (within : narrow.Within wide) (number : Floating narrow) :
    (number.convert wide).isFinite = number.isFinite := by
  cases number with
  | nan negative bits unordered => rfl
  | infinite negative => rfl
  | finite negative units fits =>
      rw [convert_finite_widen within]
      rfl

/-- A number that came from a narrower format is not beyond it. -/
theorem exceeds_convert_widen (within : narrow.Within wide) (number : Floating narrow) :
    (number.convert wide).exceeds narrow = false := by
  cases number with
  | nan negative bits unordered => rfl
  | infinite negative => rfl
  | finite negative units fits =>
      rw [convert_finite_widen within, exceeds, decide_eq_false_iff_not, Nat.not_lt,
        ← Nat.shiftLeft_add, Nat.sub_add_cancel within.fraction, Nat.shiftLeft_eq,
        Nat.shiftLeft_eq]
      exact Nat.mul_le_mul_right _ fits.le_largest

end

end Floating

end Tabula
