/-!
# Floating-point numbers

A binary format has a precision, a number of fraction bits and a largest shift.  Every
finite number of the format is a natural number of *units*, the unit being the least
positive number, so a finite number is a sign and a natural number that fits the
format: a significand below two to the precision, shifted left by at most `span`
places.  Each number has one such form, and the two zeros differ in their sign.
What is no number has a sign, too, and a fraction, by whose bits NaNs differ.

Every operation computes an exact ratio and rounds it once, to the nearest number that
fits and to the even significand on a tie.
-/

namespace Tabula

/-- The shape of a binary floating-point format. -/
structure Format where
  /-- The bits of a significand. -/
  precision : Nat
  /-- One is two to this many units. -/
  fraction : Nat
  /-- The largest shift of a significand. -/
  span : Nat
  two_le_precision : 2 ≤ precision

/-- The 32-bit format. -/
def Format.single : Format :=
  ⟨24, 149, 253, by decide⟩

/-- The 64-bit format. -/
def Format.double : Format :=
  ⟨53, 1074, 2045, by decide⟩

theorem Format.precision_pos (format : Format) : 0 < format.precision :=
  Nat.lt_of_lt_of_le Nat.two_pos format.two_le_precision

/-- The number of units is a shifted significand of the format. -/
def Format.Fits (format : Format) (units : Nat) : Prop :=
  ∃ significand shift, significand < 1 <<< format.precision ∧ shift ≤ format.span ∧
    units = significand <<< shift

/-- The units of the largest finite number. -/
def Format.largest (format : Format) : Nat :=
  (1 <<< format.precision - 1) <<< format.span

/-- The shift of the significands around the given number of units. -/
def Format.shiftAt (format : Format) (units : Nat) : Nat :=
  units.log2 + 1 - format.precision

theorem one_shiftLeft_pos (shift : Nat) : 0 < 1 <<< shift := by
  rw [Nat.one_shiftLeft]
  exact Nat.two_pow_pos shift

theorem one_shiftLeft_le {less more : Nat} (ordered : less ≤ more) :
    1 <<< less ≤ 1 <<< more := by
  rw [Nat.one_shiftLeft, Nat.one_shiftLeft]
  exact Nat.pow_le_pow_right (by decide) ordered

theorem one_shiftLeft_lt {less more : Nat} (ordered : less < more) :
    1 <<< less < 1 <<< more := by
  rw [Nat.one_shiftLeft, Nat.one_shiftLeft]
  exact Nat.pow_lt_pow_right (by decide) ordered

theorem Format.fits_zero (format : Format) : format.Fits 0 :=
  ⟨0, 0, one_shiftLeft_pos _, Nat.zero_le _, rfl⟩

/-- The chosen shift leaves a significand of the format. -/
theorem Format.lt_shiftAt (format : Format) (units : Nat) :
    units < 1 <<< (format.precision + format.shiftAt units) := by
  have below : units < 1 <<< (units.log2 + 1) := by
    rw [Nat.one_shiftLeft]
    exact Nat.lt_log2_self
  apply Nat.lt_of_lt_of_le below
  apply one_shiftLeft_le
  unfold Format.shiftAt
  omega

/-- The bits are the fraction of a NaN: not all of them are zero. -/
def Format.Unordered (format : Format) (bits : Nat) : Prop :=
  0 < bits ∧ bits < 1 <<< (format.precision - 1)

/-- The leading bit of a fraction.  A NaN that has it is quiet. -/
def Format.quietBit (format : Format) : Nat :=
  1 <<< (format.precision - 2)

/-- A fraction with the leading bit set is that of a NaN. -/
theorem Format.unordered_quiet {format : Format} {bits : Nat}
    (small : bits < 1 <<< (format.precision - 1)) :
    format.Unordered (format.quietBit ||| bits) := by
  have leading : format.quietBit < 1 <<< (format.precision - 1) := by
    have wide := format.two_le_precision
    apply one_shiftLeft_lt
    omega
  constructor
  · exact Nat.lt_of_lt_of_le (one_shiftLeft_pos _) Nat.left_le_or
  · rw [Nat.one_shiftLeft] at leading small ⊢
    exact Nat.or_lt_two_pow leading small

theorem Format.unordered_quietBit (format : Format) : format.Unordered format.quietBit := by
  rw [← Nat.or_zero format.quietBit]
  exact Format.unordered_quiet (one_shiftLeft_pos _)

/-- A fraction in another format, its leading bits in the leading places there: what has no
room is dropped, and what is missing is zero. -/
def Format.moveFraction (format target : Format) (bits : Nat) : Nat :=
  bits <<< target.precision >>> format.precision

theorem Format.moveFraction_lt {format : Format} (target : Format) {bits : Nat}
    (small : bits < 1 <<< (format.precision - 1)) :
    format.moveFraction target bits < 1 <<< (target.precision - 1) := by
  have exponents : format.precision - 1 + target.precision =
      target.precision - 1 + format.precision := by
    have here := format.precision_pos
    have there := target.precision_pos
    omega
  rw [moveFraction, Nat.shiftRight_eq_div_pow]
  apply Nat.div_lt_of_lt_mul
  calc
    bits <<< target.precision < (1 <<< (format.precision - 1)) <<< target.precision := by
      rw [Nat.shiftLeft_eq, Nat.shiftLeft_eq _ target.precision]
      exact Nat.mul_lt_mul_of_pos_right small (Nat.two_pow_pos _)
    _ = (1 <<< (target.precision - 1)) <<< format.precision := by
      rw [← Nat.shiftLeft_add, exponents, Nat.shiftLeft_add]
    _ = _ := by
      rw [Nat.shiftLeft_eq _ format.precision, Nat.mul_comm]

/-- A number of a floating-point format. -/
inductive Floating (format : Format) where
  /-- No number. -/
  | nan (negative : Bool) (bits : Nat) (unordered : format.Unordered bits)
  | infinite (negative : Bool)
  | finite (negative : Bool) (units : Nat) (fits : format.Fits units)
  deriving DecidableEq

/-- The quotient rounded to the nearest natural number, an exact half to the even one. -/
def roundedQuotient (numerator denominator : Nat) : Nat :=
  let quotient := numerator / denominator
  let twice := 2 * (numerator % denominator)
  if twice < denominator then quotient
  else if denominator < twice then quotient + 1
  else quotient + quotient % 2

theorem roundedQuotient_le {numerator denominator bound : Nat}
    (small : numerator / denominator < bound) :
    roundedQuotient numerator denominator ≤ bound := by
  unfold roundedQuotient
  simp only
  split
  · omega
  · split <;> omega

namespace Floating

variable {format : Format}

/-- A significand and a shift as a number; the significand may have just reached two to
the precision, and what lies beyond the largest shift is infinite. -/
def place (format : Format) (negative : Bool) (significand shift : Nat) : Floating format :=
  if ordinary : significand < 1 <<< format.precision ∧ shift ≤ format.span then
    finite negative (significand <<< shift)
      ⟨significand, shift, ordinary.1, ordinary.2, rfl⟩
  else if carried : significand = 1 <<< format.precision ∧ shift < format.span then
    finite negative (significand <<< shift)
      ⟨1 <<< (format.precision - 1), shift + 1,
        one_shiftLeft_lt (Nat.sub_lt format.precision_pos Nat.one_pos), carried.2, by
          have positive := format.precision_pos
          rw [carried.1, ← Nat.shiftLeft_add, ← Nat.shiftLeft_add]
          congr 1
          omega⟩
  else infinite negative

/-- The number nearest to a ratio of units. -/
def ofRatio (format : Format) (negative : Bool) (numerator denominator : Nat) :
    Floating format :=
  let shift := format.shiftAt (numerator / denominator)
  place format negative (roundedQuotient numerator (denominator <<< shift)) shift

/-- The significand chosen by rounding a ratio reaches at most two to the precision. -/
theorem roundedQuotient_shiftAt_le (format : Format) (numerator denominator : Nat) :
    roundedQuotient numerator
        (denominator <<< format.shiftAt (numerator / denominator)) ≤
      1 <<< format.precision := by
  apply roundedQuotient_le
  have below := format.lt_shiftAt (numerator / denominator)
  rw [Nat.shiftLeft_add, Nat.shiftLeft_eq _ (format.shiftAt _)] at below
  rw [Nat.shiftLeft_eq, ← Nat.div_div_eq_div_mul]
  apply Nat.div_lt_of_lt_mul
  rw [Nat.mul_comm]
  exact below

/-- Zero with the given sign. -/
def zero (format : Format) (negative : Bool) : Floating format :=
  finite negative 0 format.fits_zero

/-- The number nearest to an integer. -/
def ofInt (format : Format) (number : Int) : Floating format :=
  ofRatio format (number < 0) (number.natAbs <<< format.fraction) 1

/-- One or zero. -/
def ofBool (format : Format) (bit : Bool) : Floating format :=
  ofInt format (if bit then 1 else 0)

/-- The NaN whose fraction has the leading bit alone. -/
def quietNan (format : Format) (negative : Bool) : Floating format :=
  nan negative format.quietBit format.unordered_quietBit

/-- The nearest number of another format.  A NaN becomes quiet and keeps its sign and what
there is room for of its fraction. -/
def convert (target : Format) : Floating format → Floating target
  | nan negative bits unordered =>
    nan negative (target.quietBit ||| format.moveFraction target bits)
      (Format.unordered_quiet (Format.moveFraction_lt target unordered.2))
  | infinite negative => infinite negative
  | finite negative units _ =>
    ofRatio target negative (units <<< target.fraction) (1 <<< format.fraction)

/-- The number with the opposite sign. -/
def negate : Floating format → Floating format
  | nan negative bits unordered => nan (!negative) bits unordered
  | infinite negative => infinite !negative
  | finite negative units fits => finite (!negative) units fits

/-- The product of two finite numbers, rounded once. -/
def ofProduct (format : Format) (negative : Bool) (left right : Nat) : Floating format :=
  ofRatio format negative (left * right) (1 <<< format.fraction)

/-- The quotient of two finite numbers, rounded once. -/
def ofQuotient (format : Format) (negative : Bool) (left right : Nat) : Floating format :=
  ofRatio format negative (left <<< format.fraction) right

/-- Neither infinite nor a NaN. -/
def isFinite : Floating format → Bool
  | finite .. => true
  | _ => false

/-- The units of a finite number; zero for the others. -/
def units : Floating format → Nat
  | finite _ units _ => units
  | _ => 0

/-- One of the two zeros. -/
def isZero : Floating format → Bool
  | finite _ 0 _ => true
  | _ => false

/-- The number with a negative zero replaced by the positive one; two numbers count as
equal cells when these agree. -/
def foldZero : Floating format → Floating format
  | finite _ 0 fits => finite false 0 fits
  | number => number

/-- The nearest integer of a finite number, an exact half to the even one. -/
def nearestInt? : Floating format → Option Int
  | finite negative units _ =>
    let size := roundedQuotient units (1 <<< format.fraction)
    some (if negative then -(size : Int) else size)
  | _ => none

/-- The finite number lies beyond every finite number of the other format. -/
def exceeds (target : Format) : Floating format → Bool
  | finite _ units _ => target.largest <<< format.fraction < units <<< target.fraction
  | _ => false

end Floating

end Tabula
