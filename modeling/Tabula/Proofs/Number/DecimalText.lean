import Tabula.Number.Decimal
import Tabula.Number.Numeral
import Tabula.Proofs.Number.ShortestDecimal
import Tabula.Proofs.Number.WholeText
import Tabula.Proofs.Text.Words

/-!
# Decimals and their texts

A decimal in positional notation is read as a decimal of the same amount: zeros that fill
places change the digits and the exponent, but not what they name.  What is read depends on
the amount alone, since the shortcuts for large and small exponents give what rounding would
have given.  So the text of a decimal in the interval around a number is read as the number.
-/

namespace Tabula

open Decimal

/-! ## Rounding a decimal -/

namespace Floating

variable {format : Format} {significand units : ℕ} {exponent : ℤ}

/-- Where rounding does not lead to zero or infinity, no shortcut is taken. -/
theorem exists_ofDecimal (negative : Bool) (filled : 0 < significand)
    (low : 1 / 4 ≤ (Decimal.mk significand exponent).ratio format)
    (high : (Decimal.mk significand exponent).ratio format <
      2 ^ (format.precision + format.span)) :
    ∃ numerator denominator : ℕ, 0 < denominator ∧
      (numerator : ℚ) / denominator = (Decimal.mk significand exponent).ratio format ∧
      ofDecimal format negative significand exponent =
        ofRatio format negative numerator denominator := by
  have filled' : (1 : ℚ) ≤ significand := by exact_mod_cast filled
  have fraction : (1 : ℚ) ≤ 2 ^ format.fraction := one_le_pow₀ one_le_two
  cases exponent with
  | ofNat power =>
      rw [ratio, spacing, Int.ofNat_eq_natCast, zpow_natCast] at *
      -- Ten to the power is already beyond the format where the shortcut is taken.
      have inRange : ¬format.precision + format.span < power := by
        intro beyond
        have : (2 : ℚ) ^ (format.precision + format.span) ≤ 10 ^ power :=
          (pow_le_pow_left₀ (by norm_num) (by norm_num) _).trans
            (pow_le_pow_right₀ (by norm_num) beyond.le)
        have ten : (0 : ℚ) < 10 ^ power := by positivity
        nlinarith [mul_le_mul filled' (le_mul_of_one_le_right ten.le fraction) ten.le
          (by positivity)]
      refine ⟨(significand * powerOfTen power) <<< format.fraction, 1, Nat.one_pos, ?_, ?_⟩
      · rw [cast_shiftLeft, Nat.cast_mul, cast_powerOfTen, Nat.cast_one, div_one, mul_assoc]
      · rw [ofDecimal.eq_def, if_neg filled.ne']
        exact if_neg inRange
  | negSucc power =>
      rw [ratio, spacing, zpow_negSucc] at *
      -- Eight to the power already makes the ratio less than a quarter.
      have inRange : ¬significand.log2 + format.fraction + 2 < 3 * (power + 1) := by
        intro beyond
        have below : (significand : ℚ) < 2 ^ (significand.log2 + 1) := by
          exact_mod_cast Nat.lt_log2_self
        have eight : (2 : ℚ) ^ (significand.log2 + 1 + format.fraction + 2) ≤ 10 ^ (power + 1) :=
          calc (2 : ℚ) ^ (significand.log2 + 1 + format.fraction + 2)
              ≤ 2 ^ (3 * (power + 1)) := pow_le_pow_right₀ one_le_two (by omega)
            _ = 8 ^ (power + 1) := by rw [pow_mul]; norm_num
            _ ≤ 10 ^ (power + 1) := pow_le_pow_left₀ (by norm_num) (by norm_num) _
        have ten : (0 : ℚ) < 10 ^ (power + 1) := by positivity
        rw [inv_mul_eq_div, mul_div_assoc', div_le_div_iff₀ four_pos ten] at low
        rw [pow_add, pow_add] at eight
        nlinarith [mul_lt_mul_of_pos_right below (zero_lt_one.trans_le fraction)]
      refine ⟨significand <<< format.fraction, powerOfTen (power + 1), powerOfTen_pos _, ?_, ?_⟩
      · rw [cast_shiftLeft, cast_powerOfTen]
        ring
      · rw [ofDecimal, if_neg filled.ne']
        exact if_neg inRange

/-- A decimal in the interval around a number is read as the number. -/
theorem ofDecimal_of_covers (negative : Bool) (fits : format.Fits units) (filled : 0 < units)
    (covers : (Interval.around format units).Covers
      ((Decimal.mk significand exponent).ratio format)) :
    ofDecimal format negative significand exponent = finite negative units fits := by
  obtain ⟨shiftedSignificand, shape⟩ := fits.shape
  have close := abs_le.mp (covers.le_half_step shape filled)
  have step : (1 : ℚ) ≤ 2 ^ format.shiftAt units := one_le_pow₀ one_le_two
  have atLeast := shape.step_le filled
  have some : 0 < significand := by
    by_contra nothing
    rw [ratio, Nat.eq_zero_of_not_pos nothing, Nat.cast_zero, zero_mul] at close
    linarith
  have high : (Decimal.mk significand exponent).ratio format <
      2 ^ (format.precision + format.span) := by
    have : (2 : ℚ) ^ (format.precision + format.shiftAt units) ≤
        2 ^ (format.precision + format.span) :=
      pow_le_pow_right₀ one_le_two (Nat.add_le_add_left shape.bound _)
    linarith [shape.add_step_le]
  obtain ⟨numerator, denominator, positive, same, rounded⟩ :=
    exists_ofDecimal negative some (by linarith) high
  rw [rounded]
  exact ofRatio_of_covers negative fits filled positive (same ▸ covers)

end Floating

/-! ## Reading positional notation -/

namespace Text

variable {digits : List Char}

theorem digitsValue_append (front back : List Char) :
    digitsValue (front ++ back) = digitsValue front * 10 ^ back.length + digitsValue back := by
  induction back using List.reverseRecOn with
  | nil => simp
  | append_singleton back c inductionHypothesis =>
      rw [← List.append_assoc, digitsValue_append_singleton, inductionHypothesis,
        digitsValue_append_singleton, List.length_append, List.length_singleton, pow_succ]
      ring

theorem digitsValue_replicate_zero (places : ℕ) : digitsValue (List.replicate places '0') = 0 := by
  induction places with
  | zero => rfl
  | succ places inductionHypothesis =>
      rw [List.replicate_succ', digitsValue_append_singleton, inductionHypothesis]
      rfl

theorem isDigit_of_mem_replicate_zero {places : ℕ} {c : Char}
    (member : c ∈ List.replicate places '0') : c.isDigit = true := by
  rw [List.eq_of_mem_replicate member]
  rfl

/-- Digits alone are a significand. -/
theorem decimal?_of_isDigit (filled : digits ≠ []) (areDigits : ∀ c ∈ digits, c.isDigit = true) :
    decimal? digits = some (digitsValue digits, 0) := by
  have taken := List.takeWhile_eq_self_iff.mpr areDigits
  have dropped := List.dropWhile_eq_nil_iff.mpr areDigits
  rw [decimal?, taken, dropped]
  simp [filled, exponent?]

/-- Digits around a point are a significand with as many places as follow the point. -/
theorem decimal?_point {places : List Char} (filled : digits ≠ [])
    (areDigits : ∀ c ∈ digits, c.isDigit = true) (arePlaces : ∀ c ∈ places, c.isDigit = true) :
    decimal? (digits ++ '.' :: places) =
      some (digitsValue (digits ++ places), -(places.length : ℤ)) := by
  have stops : StopsAt Char.isDigit ('.' :: places) := stopsAt_cons rfl places
  have taken := List.takeWhile_eq_self_iff.mpr arePlaces
  have dropped := List.dropWhile_eq_nil_iff.mpr arePlaces
  rw [decimal?, takeWhile_append areDigits stops, dropWhile_append areDigits stops]
  simp [filled, taken, dropped, exponent?]

/-- A decimal in positional notation is read as a decimal of the same amount. -/
theorem decimal?_positional (filled : digits ≠ []) (areDigits : ∀ c ∈ digits, c.isDigit = true)
    (exponent : ℤ) :
    ∃ decimal : Decimal, decimal? (positional digits exponent) =
        some (decimal.digits, decimal.exponent) ∧
      decimal.amount = (Decimal.mk (digitsValue digits) exponent).amount := by
  cases exponent with
  | ofNat power =>
      -- Zeros behind the digits.
      have areAll : ∀ c ∈ digits ++ List.replicate power '0', c.isDigit = true := by
        intro c member
        rcases List.mem_append.mp member with here | zero
        · exact areDigits c here
        · exact isDigit_of_mem_replicate_zero zero
      have read := decimal?_of_isDigit (List.append_ne_nil_of_left_ne_nil filled _) areAll
      rw [digitsValue_append, digitsValue_replicate_zero, List.length_replicate, add_zero] at read
      refine ⟨⟨digitsValue digits * 10 ^ power, 0⟩, read, ?_⟩
      simp only [amount, Int.ofNat_eq_natCast]
      push_cast
      rw [mul_one, zpow_natCast]
  | negSucc power =>
      rw [positional]
      split
      · -- A point among the digits.
        rename_i among
        have front : digits.take (digits.length - (power + 1)) ≠ [] := by
          rw [← List.length_pos_iff, List.length_take]
          omega
        have arePlaces : ∀ c ∈ digits.drop (digits.length - (power + 1)), c.isDigit = true :=
          fun c member => areDigits c (List.mem_of_mem_drop member)
        have read := decimal?_point front
          (fun c member => areDigits c (List.mem_of_mem_take member)) arePlaces
        rw [List.take_append_drop, List.length_drop] at read
        refine ⟨⟨digitsValue digits, -(digits.length - (digits.length - (power + 1)) : ℕ)⟩,
          read, ?_⟩
        congr 2
        omega
      · -- Zeros between the point and the digits.
        rename_i before
        have arePlaces : ∀ c ∈ List.replicate (power + 1 - digits.length) '0' ++ digits,
            c.isDigit = true := by
          intro c member
          rcases List.mem_append.mp member with zero | here
          · exact isDigit_of_mem_replicate_zero zero
          · exact areDigits c here
        have read := decimal?_point (List.cons_ne_nil '0' []) (by simp) arePlaces
        rw [List.length_append, List.length_replicate, digitsValue_append, digitsValue_append,
          digitsValue_replicate_zero] at read
        refine ⟨⟨digitsValue digits, -(power + 1 - digits.length + digits.length : ℕ)⟩, ?_, ?_⟩
        · simpa [digitsValue, digitValue] using read
        · congr 2
          omega

theorem mem_positional {exponent : ℤ} {c : Char} (member : c ∈ positional digits exponent) :
    c ∈ digits ∨ c = '0' ∨ c = '.' := by
  unfold positional at member
  split at member
  · rcases List.mem_append.mp member with here | zero
    · exact .inl here
    · exact .inr (.inl (List.eq_of_mem_replicate zero))
  · simp only at member
    split at member
    · rcases List.mem_append.mp member with here | behind
      · exact .inl (List.mem_of_mem_take here)
      · rcases List.mem_cons.mp behind with point | here
        · exact .inr (.inr point)
        · exact .inl (List.mem_of_mem_drop here)
    · rw [List.mem_cons, List.mem_cons, List.mem_append] at member
      rcases member with zero | point | zero | here
      · exact .inr (.inl zero)
      · exact .inr (.inr point)
      · exact .inr (.inl (List.eq_of_mem_replicate zero))
      · exact .inl here

/-- Positional notation starts with a digit. -/
theorem exists_positional_cons (filled : digits ≠ []) (areDigits : ∀ c ∈ digits, c.isDigit = true)
    (exponent : ℤ) : ∃ c rest, positional digits exponent = c :: rest ∧ c.isDigit = true := by
  obtain ⟨c, rest, rfl⟩ := List.exists_cons_of_ne_nil filled
  have first := areDigits c List.mem_cons_self
  unfold positional
  split
  · exact ⟨c, _, rfl, first⟩
  · simp only
    split
    · rename_i power among
      obtain ⟨more, length⟩ : ∃ more, (c :: rest).length - (power + 1) = more + 1 :=
        ⟨(c :: rest).length - (power + 1) - 1, by omega⟩
      rw [length]
      exact ⟨c, _, rfl, first⟩
    · exact ⟨'0', _, rfl, rfl⟩

/-- No blank stands in positional notation, with or without a sign. -/
theorem trim_signed_positional (negative : Bool) (filled : digits ≠ [])
    (areDigits : ∀ c ∈ digits, c.isDigit = true) (exponent : ℤ) :
    trim (signed negative (positional digits exponent)).toList =
      if negative then '-' :: positional digits exponent else positional digits exponent := by
  have solid : ∀ c ∈ positional digits exponent, isBlank c = false := by
    intro c member
    rcases mem_positional member with here | rfl | rfl
    · exact isBlank_of_isWord (isWord_of_isDigit (areDigits c here))
    · decide
    · decide
  obtain ⟨c, rest, starts, _⟩ := exists_positional_cons filled areDigits exponent
  rw [signed, String.toList_ofList]
  apply Solid.trim_eq
  cases negative with
  | false => exact solid_of_forall (by simp [starts]) solid
  | true =>
      exact solid_of_forall (List.cons_ne_nil _ _)
        (List.forall_mem_cons.mpr ⟨by decide, solid⟩)

/-- No word for a real starts with a digit, and neither does a sign. -/
theorem floating?_signed (format : Format) (negative : Bool) {c : Char} {rest : List Char}
    (digit : c.isDigit = true) :
    floating? format (if negative then '-' :: c :: rest else c :: rest) =
      (decimal? (c :: rest)).map fun (significand, exponent) =>
        .ofDecimal format negative significand exponent := by
  have letters : ∀ c : Char, c.toNat < 0x80 →
      c.isDigit = true → c.toLower ≠ 'i' ∧ c.toLower ≠ 'n' :=
    forall_basic (by decide +kernel)
  obtain ⟨notInf, notNan⟩ := letters c (basic_of_isDigit digit) digit
  have split : splitSign (if negative then '-' :: c :: rest else c :: rest) =
      (negative, c :: rest) := by
    cases negative with
    | true => rfl
    | false =>
        rw [if_neg Bool.false_ne_true, splitSign]
        · rintro _ minus
          cases minus
          cases digit
        · rintro _ plus
          cases plus
          cases digit
  rw [floating?, split]
  simp [lowerLatin, notInf, notNan]

/-- The text of a decimal is read as a decimal of the same amount, in every format. -/
theorem exists_floating?_positional (negative : Bool) (decimal : Decimal) :
    ∃ reading : Decimal, reading.amount = decimal.amount ∧ ∀ format : Format,
      floating? format
          (trim (signed negative
            (positional (naturalDigits decimal.digits) decimal.exponent)).toList) =
        some (.ofDecimal format negative reading.digits reading.exponent) := by
  have areDigits : ∀ c ∈ naturalDigits decimal.digits, c.isDigit = true :=
    fun _ => isDigit_of_mem_naturalDigits
  have filled := naturalDigits_ne_nil decimal.digits
  obtain ⟨reading, read, same⟩ := decimal?_positional filled areDigits decimal.exponent
  obtain ⟨c, rest, starts, digit⟩ := exists_positional_cons filled areDigits decimal.exponent
  rw [digitsValue_naturalDigits] at same
  refine ⟨reading, same, fun format => ?_⟩
  rw [trim_signed_positional negative filled areDigits, starts,
    floating?_signed format negative digit, ← starts, read]
  rfl

section

variable {source : Format} (target : Format) (negative : Bool)

theorem floating?_plainText_nan {bits : ℕ} (unordered : source.Unordered bits) :
    floating? target (trim (plainText (.nan negative bits unordered)).toList) =
      some (.quietNan target false) := by
  rw [plainText]
  rfl

theorem floating?_plainText_infinite :
    floating? target (trim (plainText (.infinite negative : Floating source)).toList) =
      some (.infinite negative) := by
  rw [plainText, signed, String.toList_ofList]
  cases negative <;> rfl

theorem floating?_plainText_zero (fits : source.Fits 0) :
    floating? target (trim (plainText (.finite negative 0 fits)).toList) =
      some (.zero target negative) := by
  rw [plainText, if_pos rfl, signed, String.toList_ofList]
  cases negative <;> rfl

end

/-- The text of a positive number names a decimal in its interval that is nearest to it among
those of some grid, and every format reads that decimal. -/
theorem exists_floating?_plainText {source : Format} (negative : Bool) {units : ℕ}
    (fits : source.Fits units) (filled : 0 < units) (small : 1 <<< source.precision < 10 ^ 16) :
    ∃ decimal reading : Decimal, Represents source units decimal ∧
      reading.amount = decimal.amount ∧ ∀ target : Format,
        floating? target (trim (plainText (.finite negative units fits)).toList) =
          some (.ofDecimal target negative reading.digits reading.exponent) := by
  obtain ⟨decimal, represents, named⟩ := exists_represents_shortest .up fits filled small
  obtain ⟨reading, same, read⟩ := exists_floating?_positional negative (shortest source .up units)
  refine ⟨decimal, reading, represents, same.trans named, fun target => ?_⟩
  rw [plainText, if_neg filled.ne']
  exact read target

end Text

namespace Floating

variable {format : Format}

/-- The number, with every NaN replaced by one of them. -/
def foldNan : Floating format → Floating format
  | nan .. => quietNan format false
  | number => number

/-- Every number is read back from its text, except that a NaN loses its sign and its
fraction. -/
theorem floating?_plainText (small : 1 <<< format.precision < 10 ^ 16) (number : Floating format) :
    Text.floating? format (Text.trim (Text.plainText number).toList) = some number.foldNan := by
  cases number with
  | nan negative bits unordered => exact Text.floating?_plainText_nan format negative unordered
  | infinite negative => exact Text.floating?_plainText_infinite format negative
  | finite negative units fits =>
      rcases Nat.eq_zero_or_pos units with rfl | filled
      · exact Text.floating?_plainText_zero format negative fits
      · obtain ⟨decimal, reading, represents, same, read⟩ :=
          Text.exists_floating?_plainText negative fits filled small
        have covers : (Interval.around format units).Covers (reading.ratio format) := by
          rw [ratio_eq, same, ← ratio_eq]
          exact represents.covers
        rw [read format, ofDecimal_of_covers negative fits filled covers]
        rfl

end Floating

end Tabula
