import Mathlib.Algebra.Order.Field.Power
import Mathlib.Data.Int.Range
import Mathlib.Data.Rat.Defs
import Mathlib.Tactic.FieldSimp
import Mathlib.Tactic.Linarith
import Mathlib.Tactic.LinearCombination
import Mathlib.Tactic.NormNum
import Mathlib.Tactic.Positivity
import Mathlib.Tactic.Ring

/-!
# Decimals next to midpoints

A decimal of few digits can lie extremely close to the middle between two 32-bit numbers, and
then it is taken for the middle in 64 bits.  For each power of ten this asks for a fraction
with a small denominator close to the ratio of that power to a power of two, as continued
fractions find them.  Two neighbours among those fractions span all pairs of whole numbers; a
pair with fewer digits than the farther one is a multiple of the nearer one, or at least as
far off as both together.

One search over the powers of ten in question shows that a single decimal comes that close.
-/

namespace Tabula

/-- Some digits times a power of ten, set against some halves of a power of two. -/
@[ext]
structure Match where
  digits : ℕ
  halves : ℕ
  deriving DecidableEq

namespace Match

/-- How far the two sides of a match are apart, for units in the given ratio. -/
def gap (numerator denominator : ℕ) (pair : Match) : ℤ :=
  pair.digits * numerator - pair.halves * denominator

/-- Two matches off to different sides which span all others. -/
@[mk_iff]
structure Spans (numerator denominator : ℕ) (near far : Match) : Prop where
  unimodular : ((near.digits : ℤ) * far.halves - far.digits * near.halves).natAbs = 1
  opposite : near.gap numerator denominator * far.gap numerator denominator ≤ 0

instance (numerator denominator : ℕ) (near far : Match) :
    Decidable (Spans numerator denominator near far) :=
  decidable_of_iff' _ (spans_iff ..)

variable {numerator denominator : ℕ} {near far : Match}

/-- Every match is a combination of the two. -/
theorem Spans.combination (spans : Spans numerator denominator near far) (pair : Match) :
    ∃ times others : ℤ, pair.digits = times * near.digits + others * far.digits ∧
      pair.halves = times * near.halves + others * far.halves := by
  let sign : ℤ := near.digits * far.halves - far.digits * near.halves
  have square : sign * sign = 1 := by
    rcases Int.natAbs_eq_iff.mp spans.unimodular with plus | minus
    · rw [show sign = 1 from plus]
      rfl
    · rw [show sign = -1 from minus]
      rfl
  refine ⟨sign * (pair.digits * far.halves - pair.halves * far.digits),
    sign * (near.digits * pair.halves - near.halves * pair.digits), ?_, ?_⟩
  · linear_combination (-(pair.digits : ℤ)) * square
  · linear_combination (-(pair.halves : ℤ)) * square

/-- A match of fewer digits than the farther one is a multiple of the nearer one, or it is at
least as far off as both together. -/
theorem Spans.multiple_or_le (spans : Spans numerator denominator near far) {pair : Match}
    (short : pair.digits < far.digits) :
    (∃ times : ℤ, pair.digits = times * near.digits ∧ pair.halves = times * near.halves) ∨
      |near.gap numerator denominator| + |far.gap numerator denominator| ≤
        |pair.gap numerator denominator| := by
  obtain ⟨times, others, digits, halves⟩ := spans.combination pair
  have gaps : pair.gap numerator denominator =
      times * near.gap numerator denominator + others * far.gap numerator denominator := by
    rw [gap, gap, gap, digits, halves]
    ring
  rcases eq_or_ne others 0 with rfl | used
  · exact .inl ⟨times, by rw [digits]; ring, by rw [halves]; ring⟩
  · right
    -- Taken with one sign the two would make too many digits, or less than none.
    have mixed : times * others < 0 := by
      by_contra! same
      have some : (0 : ℤ) ≤ near.digits := Int.natCast_nonneg _
      have fewer : (pair.digits : ℤ) < far.digits := by exact_mod_cast short
      have positive : (0 : ℤ) < far.digits := (Int.natCast_nonneg _).trans_lt fewer
      rcases mul_nonneg_iff.mp same with ⟨timesNonneg, othersNonneg⟩ | ⟨timesNonpos, othersNonpos⟩
      · have : 1 ≤ others := by omega
        nlinarith [mul_nonneg timesNonneg some]
      · have : others ≤ -1 := by omega
        nlinarith [mul_nonneg (neg_nonneg.mpr timesNonpos) some]
    have aligned : 0 ≤ (times * near.gap numerator denominator) *
        (others * far.gap numerator denominator) := by
      rw [mul_mul_mul_comm]
      exact mul_nonneg_of_nonpos_of_nonpos mixed.le spans.opposite
    have timesUsed : times ≠ 0 := by
      rintro rfl
      rw [zero_mul] at mixed
      exact lt_irrefl 0 mixed
    rw [gaps, abs_add_eq_add_abs_iff _ _ |>.mpr (mul_nonneg_iff.mp aligned), abs_mul, abs_mul]
    exact add_le_add (le_mul_of_one_le_left (abs_nonneg _) (Int.one_le_abs timesUsed))
      (le_mul_of_one_le_left (abs_nonneg _) (Int.one_le_abs used))

end Match

/-! ## Powers of ten among powers of two -/

/-- A power of ten is this ratio times two to one less than its binary exponent. -/
structure Scale where
  numerator : ℕ
  denominator : ℕ
  binary : ℤ

namespace Scale

/-- The scale of a power of ten. -/
def ofTen : ℤ → Scale
  | .ofNat power => ⟨2 * 10 ^ power, 2 ^ (10 ^ power).log2, (10 ^ power).log2⟩
  | .negSucc power => ⟨4 * 2 ^ (10 ^ (power + 1)).log2, 10 ^ (power + 1),
      -((10 ^ (power + 1)).log2 + 1 : ℕ)⟩

theorem denominator_pos (exponent : ℤ) : 0 < (ofTen exponent).denominator := by
  cases exponent <;> simp only [ofTen] <;> positivity

theorem ten_zpow_eq (exponent : ℤ) :
    (10 : ℚ) ^ exponent * (ofTen exponent).denominator =
      (ofTen exponent).numerator * 2 ^ ((ofTen exponent).binary - 1) := by
  cases exponent with
  | ofNat power =>
      simp only [ofTen, Int.ofNat_eq_natCast]
      rw [zpow_sub_one₀ two_ne_zero, zpow_natCast, zpow_natCast]
      push_cast
      ring
  | negSucc power =>
      simp only [ofTen]
      rw [zpow_negSucc, zpow_sub_one₀ two_ne_zero, zpow_neg, zpow_natCast]
      push_cast
      rw [pow_succ]
      field_simp
      ring

/-- How far the two sides of a match are apart on the scale. -/
def gap (scale : Scale) (pair : Match) : ℤ :=
  pair.gap scale.numerator scale.denominator

/-- The second match added to the first a number of times. -/
def advance (before : Match) (times : ℕ) (current : Match) : Match :=
  ⟨before.digits + times * current.digits, before.halves + times * current.halves⟩

/-- Goes through the matches that continued fractions find, each with the one before it, until
the next one has at least so many digits; the next one is then taken as early as it has them. -/
def search (scale : Scale) (bound : ℕ) : ℕ → Match → Match → Match × Match
  | 0, before, current => (current, before)
  | fuel + 1, before, current =>
    let steps := (scale.gap before).natAbs / (scale.gap current).natAbs
    let needed := (bound - before.digits + current.digits - 1) / current.digits
    if scale.gap current = 0 ∨ needed ≤ steps then (current, advance before needed current)
    else search scale bound fuel current (advance before steps current)

/-- Neighbours among the close matches, the farther one with too many digits for 24 bits. -/
def neighbours (scale : Scale) : Match × Match :=
  search scale (2 ^ 24) 64 ⟨0, 1⟩ ⟨1, scale.numerator / scale.denominator⟩

/-- The match whose sides agree to 53 bits without being equal, for the power of ten of
exponent -32. -/
def closest : Match :=
  ⟨7038531, 22841339⟩

/-- No match of 24 bits of digits and 25 bits of halves is closer than one part in two to the
28 of the binary unit without being exact, save for one. -/
@[mk_iff]
structure Separated (exponent : ℤ) (near far : Match) : Prop where
  spans : Match.Spans (ofTen exponent).numerator (ofTen exponent).denominator near far
  long : 2 ^ 24 ≤ far.digits
  apart : (ofTen exponent).denominator <
    (|(ofTen exponent).gap near| + |(ofTen exponent).gap far|) * 2 ^ 28
  alone : (ofTen exponent).gap near = 0 ∨
    (ofTen exponent).denominator < |(ofTen exponent).gap near| * 2 ^ 28 ∨
    2 ^ 25 ≤ near.halves ∨ exponent = -32 ∧ near = closest
  atLeast : 2 * (ofTen exponent).denominator ≤ (ofTen exponent).numerator
  below : (ofTen exponent).numerator * 2 ^ 28 < 4 * (ofTen exponent).denominator * (2 ^ 28 - 1)

instance (exponent : ℤ) (near far : Match) : Decidable (Separated exponent near far) :=
  decidable_of_iff' _ (separated_iff ..)

/-- The search over all powers of ten that reach into the numbers of 32 bits. -/
theorem separated : ∀ exponent : ℤ, -44 ≤ exponent → exponent ≤ 38 →
    Separated exponent (ofTen exponent).neighbours.1 (ofTen exponent).neighbours.2 := by
  decide +kernel

/-- What the search says about every match of so few digits and halves. -/
theorem Separated.exact_or_closest {exponent : ℤ} {near far pair : Match}
    (separated : Separated exponent near far) (fewDigits : pair.digits < 2 ^ 24)
    (fewHalves : pair.halves < 2 ^ 25)
    (close : |(ofTen exponent).gap pair| * 2 ^ 28 < (ofTen exponent).denominator) :
    (ofTen exponent).gap pair = 0 ∨ exponent = -32 ∧ pair = closest := by
  rcases separated.spans.multiple_or_le (fewDigits.trans_le separated.long) with
    ⟨times, digits, halves⟩ | together
  · by_cases exact : (ofTen exponent).gap pair = 0
    · exact .inl exact
    right
    have multiple : (ofTen exponent).gap pair = times * (ofTen exponent).gap near := by
      rw [gap, gap, Match.gap, Match.gap, digits, halves]
      ring
    have used : times ≠ 0 := by
      rintro rfl
      exact exact (multiple.trans (zero_mul _))
    have farther : |(ofTen exponent).gap near| ≤ |(ofTen exponent).gap pair| := by
      rw [multiple, abs_mul]
      exact le_mul_of_one_le_left (abs_nonneg _) (Int.one_le_abs used)
    have more : (near.halves : ℤ) ≤ pair.halves := by
      rw [← abs_of_nonneg (Int.natCast_nonneg pair.halves), halves, abs_mul,
        abs_of_nonneg (Int.natCast_nonneg near.halves)]
      exact le_mul_of_one_le_left (Int.natCast_nonneg _) (Int.one_le_abs used)
    rcases separated.alone with zero | apart | many | ⟨here, isClosest⟩
    · exact absurd (multiple.trans (by rw [zero, mul_zero])) exact
    · linarith
    · omega
    · subst isClosest
      simp only [closest] at digits halves
      have once : times = 1 := by omega
      rw [once, one_mul] at digits halves
      have sameDigits : pair.digits = 7038531 := by omega
      have sameHalves : pair.halves = 22841339 := by omega
      exact ⟨here, Match.ext sameDigits sameHalves⟩
  · have asFar : |(ofTen exponent).gap near| + |(ofTen exponent).gap far| ≤
        |(ofTen exponent).gap pair| := together
    linarith [separated.apart]

/-- A match of few halves whose sides agree to 53 bits has few digits. -/
theorem Separated.digits_lt {exponent : ℤ} {near far pair : Match}
    (separated : Separated exponent near far) (fewHalves : pair.halves < 2 ^ 25)
    (close : |(ofTen exponent).gap pair| * 2 ^ 53 ≤ pair.halves * (ofTen exponent).denominator) :
    pair.digits < 2 ^ 24 := by
  have denominator : (0 : ℤ) < (ofTen exponent).denominator := by
    exact_mod_cast denominator_pos exponent
  have twice : 2 * ((ofTen exponent).denominator : ℤ) ≤ (ofTen exponent).numerator := by
    exact_mod_cast separated.atLeast
  have side := le_abs_self ((ofTen exponent).gap pair)
  rw [gap, Match.gap] at side close
  have scaled : (pair.digits : ℤ) * (2 * (ofTen exponent).denominator) ≤
      pair.digits * (ofTen exponent).numerator :=
    mul_le_mul_of_nonneg_left twice (Int.natCast_nonneg _)
  have : (pair.digits : ℤ) * 2 ^ 54 ≤ pair.halves * (2 ^ 53 + 1) := by
    apply le_of_mul_le_mul_right _ denominator
    linarith
  omega

/-! ## Decimals near a middle -/

/-- A decimal on a grid nearly as coarse as the numbers of 32 bits around it, which 53 bits do
not tell from the middle between two of them, though it is not the middle. -/
structure NearMiddle (digits halves : ℕ) (exponent binary : ℤ) : Prop where
  low : -149 ≤ binary
  high : binary ≤ 104
  fewHalves : halves < 2 ^ 25
  coarse : (2 : ℚ) ^ binary * (1 - 1 / 2 ^ 28) ≤ 10 ^ exponent
  close : |digits * (10 : ℚ) ^ exponent - halves * 2 ^ (binary - 1)| ≤
    halves * 2 ^ (binary - 1) / 2 ^ 53
  apart : digits * (10 : ℚ) ^ exponent ≠ halves * 2 ^ (binary - 1)

namespace NearMiddle

variable {digits halves : ℕ} {exponent binary : ℤ}

theorem exponent_ge (near : NearMiddle digits halves exponent binary) : -44 ≤ exponent := by
  by_contra! below
  have ten : (10 : ℚ) ^ exponent ≤ 10 ^ (-45 : ℤ) :=
    zpow_le_zpow_right₀ (by norm_num) (by omega)
  have two : (2 : ℚ) ^ (-149 : ℤ) ≤ 2 ^ binary := zpow_le_zpow_right₀ one_le_two near.low
  have fine : (10 : ℚ) ^ (-45 : ℤ) < 2 ^ (-149 : ℤ) * (1 - 1 / 2 ^ 28) := by norm_num
  have scaled : (2 : ℚ) ^ (-149 : ℤ) * (1 - 1 / 2 ^ 28) ≤ 2 ^ binary * (1 - 1 / 2 ^ 28) :=
    mul_le_mul_of_nonneg_right two (by norm_num)
  exact absurd (scaled.trans (near.coarse.trans ten)) (not_le.mpr fine)

/-- Zero is not near a middle. -/
theorem digits_pos (near : NearMiddle digits halves exponent binary) : 0 < digits := by
  by_contra none
  have close := near.close
  have apart := near.apart
  rw [Nat.eq_zero_of_not_pos none, Nat.cast_zero, zero_mul] at close apart
  have middle : (0 : ℚ) ≤ halves * 2 ^ (binary - 1) := by positivity
  rw [zero_sub, abs_neg, abs_of_nonneg middle] at close
  exact apart (by linarith)

theorem exponent_le (near : NearMiddle digits halves exponent binary) : exponent ≤ 38 := by
  by_contra! above
  have ten : (10 : ℚ) ^ (39 : ℤ) ≤ 10 ^ exponent :=
    zpow_le_zpow_right₀ (by norm_num) (by omega)
  have two : (2 : ℚ) ^ (binary - 1) ≤ 2 ^ (103 : ℤ) :=
    zpow_le_zpow_right₀ one_le_two (by linarith [near.high])
  have few : (halves : ℚ) ≤ 2 ^ 25 := by exact_mod_cast near.fewHalves.le
  have middle : halves * (2 : ℚ) ^ (binary - 1) ≤ 2 ^ 25 * 2 ^ (103 : ℤ) :=
    mul_le_mul few two (by positivity) (by norm_num)
  have some : (1 : ℚ) ≤ digits := by exact_mod_cast near.digits_pos
  have reached : (10 : ℚ) ^ exponent ≤ digits * 10 ^ exponent :=
    le_mul_of_one_le_left (by positivity) some
  have far : (2 : ℚ) ^ 25 * 2 ^ (103 : ℤ) * (1 + 1 / 2 ^ 53) < 10 ^ (39 : ℤ) := by norm_num
  have := (abs_le.mp near.close).2
  linarith

/-- The power of two is not above the power of ten that makes a grid of about its size. -/
theorem binary_le (near : NearMiddle digits halves exponent binary) {nearer farther : Match}
    (separated : Separated exponent nearer farther) : binary ≤ (ofTen exponent).binary := by
  by_contra! above
  have grown : (2 : ℚ) ^ ((ofTen exponent).binary - 1) * 4 ≤ 2 ^ binary := by
    rw [show (4 : ℚ) = 2 ^ (2 : ℤ) by norm_num, ← zpow_add₀ two_ne_zero]
    exact zpow_le_zpow_right₀ one_le_two (by omega)
  have denominator : (0 : ℚ) < (ofTen exponent).denominator := by
    exact_mod_cast denominator_pos exponent
  have below : ((ofTen exponent).numerator : ℚ) * 2 ^ 28 <
      4 * (ofTen exponent).denominator * (2 ^ 28 - 1) := by
    have cast : ((2 ^ 28 - 1 : ℕ) : ℚ) = 2 ^ 28 - 1 := by norm_num
    rw [← cast]
    exact_mod_cast separated.below
  have positive : (0 : ℚ) < 2 ^ ((ofTen exponent).binary - 1) := by positivity
  have factor : (0 : ℚ) ≤ 1 - 1 / 2 ^ 28 := by norm_num
  have scaled := mul_le_mul_of_nonneg_right
    ((mul_le_mul_of_nonneg_right grown factor).trans near.coarse) denominator.le
  rw [ten_zpow_eq] at scaled
  linarith [mul_lt_mul_of_pos_right below positive]

section

variable {zeros : ℕ} (lifted : binary + zeros = (ofTen exponent).binary)
include lifted

theorem two_zpow_lifted :
    (2 : ℚ) ^ zeros * 2 ^ (binary - 1) = 2 ^ ((ofTen exponent).binary - 1) := by
  rw [← zpow_natCast, ← zpow_add₀ two_ne_zero, ← lifted]
  congr 1
  ring

/-- The gap of a match is the distance of a decimal from a middle, in other units. -/
theorem gap_mul_eq (digits halves : ℕ) :
    ((ofTen exponent).gap ⟨digits * 2 ^ zeros, halves⟩ : ℚ) * 2 ^ ((ofTen exponent).binary - 1) =
      (digits * 10 ^ exponent - halves * 2 ^ (binary - 1)) *
        (2 ^ zeros * (ofTen exponent).denominator) := by
  rw [gap, Match.gap]
  push_cast
  linear_combination (-(digits : ℚ) * 2 ^ zeros) * ten_zpow_eq exponent +
    (halves * (ofTen exponent).denominator : ℚ) * two_zpow_lifted lifted

theorem gap_le (near : NearMiddle digits halves exponent binary) :
    |(ofTen exponent).gap ⟨digits * 2 ^ zeros, halves⟩| * 2 ^ 53 ≤
      halves * (ofTen exponent).denominator := by
  have unit : (0 : ℚ) < 2 ^ ((ofTen exponent).binary - 1) := by positivity
  have factor : (0 : ℚ) ≤ 2 ^ zeros * (ofTen exponent).denominator := by positivity
  have scaled := mul_le_mul_of_nonneg_right near.close factor
  rw [← abs_of_nonneg factor, ← abs_mul, abs_of_nonneg factor, ← gap_mul_eq lifted, abs_mul,
    abs_of_pos unit] at scaled
  have : (|(ofTen exponent).gap ⟨digits * 2 ^ zeros, halves⟩| : ℚ) * 2 ^ 53 ≤
      halves * (ofTen exponent).denominator := by
    apply le_of_mul_le_mul_right _ unit
    linear_combination 2 ^ 53 * scaled +
      (halves * (ofTen exponent).denominator : ℚ) * two_zpow_lifted lifted
  exact_mod_cast this

theorem gap_ne_zero (near : NearMiddle digits halves exponent binary) :
    (ofTen exponent).gap ⟨digits * 2 ^ zeros, halves⟩ ≠ 0 := by
  intro exact
  have equal := gap_mul_eq lifted digits halves
  rw [exact, Int.cast_zero, zero_mul, zero_eq_mul, sub_eq_zero] at equal
  rcases equal with same | nothing
  · exact near.apart same
  · have some : (ofTen exponent).denominator ≠ 0 := (denominator_pos exponent).ne'
    have factor : (2 : ℚ) ^ zeros * (ofTen exponent).denominator ≠ 0 := by positivity
    exact factor nothing

end

/-- There is a single decimal that 53 bits do not tell from a middle. -/
theorem eq_closest (near : NearMiddle digits halves exponent binary) :
    binary = -107 ∧ halves = 22841339 := by
  have found := separated exponent near.exponent_ge near.exponent_le
  obtain ⟨zeros, lifted⟩ := Int.le.dest (near.binary_le found)
  have bound := near.gap_le lifted
  have fewHalves := near.fewHalves
  have closeGap : |(ofTen exponent).gap ⟨digits * 2 ^ zeros, halves⟩| * 2 ^ 28 <
      (ofTen exponent).denominator := by
    have denominator : (0 : ℤ) < (ofTen exponent).denominator := by
      exact_mod_cast denominator_pos exponent
    have few : (halves : ℤ) + 1 ≤ 2 ^ 25 := by exact_mod_cast fewHalves
    have := mul_le_mul_of_nonneg_right few denominator.le
    linarith
  rcases found.exact_or_closest (found.digits_lt fewHalves bound) fewHalves closeGap with
    exact | ⟨rfl, same⟩
  · exact absurd exact (near.gap_ne_zero lifted)
  · rw [closest, Match.mk.injEq] at same
    refine ⟨?_, same.2⟩
    -- The digits are odd, so the binary exponent is that of the power of ten.
    cases zeros with
    | zero =>
        rw [Nat.cast_zero, add_zero] at lifted
        exact lifted.trans (by decide +kernel)
    | succ zeros =>
        have even := same.1
        rw [pow_succ, ← mul_assoc] at even
        omega

end NearMiddle

end Scale

end Tabula
