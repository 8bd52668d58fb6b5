import Tabula.Text.Digit

/-!
# Whole numbers of fixed width

A whole number is stored in 8, 16, 32 or 64 bits and carries the proof that it fits.
Its text is the decimal digits after an optional minus sign; reading accepts a plus
sign and leading zeros as well, and refuses what does not fit.
-/

namespace Tabula

/-- How many bits store a whole number. -/
inductive IntegerWidth where
  | bits8
  | bits16
  | bits32
  | bits64
  deriving DecidableEq, Repr

namespace IntegerWidth

/-- The largest number of the width. -/
def maximum : IntegerWidth → Int
  | bits8 => 127
  | bits16 => 32767
  | bits32 => 2147483647
  | bits64 => 9223372036854775807

/-- The smallest number of the width, one further from zero than the largest. -/
def minimum (width : IntegerWidth) : Int :=
  -width.maximum - 1

theorem maximum_le_bits64 (width : IntegerWidth) : width.maximum ≤ bits64.maximum := by
  cases width <;> decide

theorem bits64_le_minimum (width : IntegerWidth) : bits64.minimum ≤ width.minimum := by
  cases width <;> decide

theorem minimum_nonpos (width : IntegerWidth) : width.minimum ≤ 0 := by
  cases width <;> decide

theorem one_le_maximum (width : IntegerWidth) : 1 ≤ width.maximum := by
  cases width <;> decide

end IntegerWidth

/-- A whole number that fits the width. -/
structure Whole (width : IntegerWidth) where
  value : Int
  minimum_le : width.minimum ≤ value
  le_maximum : value ≤ width.maximum
  deriving DecidableEq

/-- The numbers of 64 bits, in which counters and integer conversions work. -/
abbrev Long := Whole .bits64

namespace Whole

variable {width : IntegerWidth}

@[ext]
theorem ext {left right : Whole width} (same : left.value = right.value) : left = right := by
  cases left
  cases right
  simp only at same
  subst same
  rfl

/-- The integer as a number of the width, when it fits. -/
def ofInt? (width : IntegerWidth) (value : Int) : Option (Whole width) :=
  if fits : width.minimum ≤ value ∧ value ≤ width.maximum then
    some ⟨value, fits.1, fits.2⟩
  else none

@[simp]
theorem ofInt?_eq_some_iff {value : Int} {number : Whole width} :
    ofInt? width value = some number ↔ number.value = value := by
  constructor
  · intro found
    unfold ofInt? at found
    split at found
    · cases found
      rfl
    · simp at found
  · rintro rfl
    simp [ofInt?, number.minimum_le, number.le_maximum]

/-- Every number as a number of 64 bits. -/
def widen (number : Whole width) : Long :=
  ⟨number.value, Int.le_trans width.bits64_le_minimum number.minimum_le,
    Int.le_trans number.le_maximum width.maximum_le_bits64⟩

@[simp]
theorem widen_value (number : Whole width) : number.widen.value = number.value :=
  rfl

/-- One or zero. -/
def ofBool (width : IntegerWidth) (bit : Bool) : Whole width :=
  ⟨if bit then 1 else 0,
    by have := width.minimum_nonpos; split <;> omega,
    by have := width.one_le_maximum; split <;> omega⟩

/-- The next number, or the same one at the end of the range. -/
def next (number : Whole width) : Whole width :=
  if room : number.value < width.maximum then
    ⟨number.value + 1, by have := number.minimum_le; omega, by omega⟩
  else number

theorem le_next (number : Whole width) : number.value ≤ number.next.value := by
  unfold next
  split
  · exact Int.le_of_lt (Int.lt_succ number.value)
  · exact Int.le_refl number.value

theorem next_value (number : Whole width) :
    number.next.value = min (number.value + 1) width.maximum := by
  have bound := number.le_maximum
  unfold next
  split
  · rename_i room
    exact (Int.min_eq_left room).symm
  · omega

/-- The larger of two numbers. -/
def max (left right : Whole width) : Whole width :=
  if left.value ≤ right.value then right else left

@[simp]
theorem max_value (left right : Whole width) :
    (left.max right).value = Max.max left.value right.value := by
  unfold max
  split <;> omega

end Whole

namespace Text

/-- The decimal digit of a number below ten. -/
def digitChar (digit : Nat) : Char :=
  Char.ofNat (0x30 + digit)

/-- The decimal digits of a natural number, without leading zeros. -/
def naturalDigits (number : Nat) : List Char :=
  if number < 10 then [digitChar number]
  else naturalDigits (number / 10) ++ [digitChar (number % 10)]

/-- The text of an integer. -/
def integerText (number : Int) : String :=
  String.ofList (if number < 0 then '-' :: naturalDigits number.natAbs
    else naturalDigits number.natAbs)

/-- The text of a natural number. -/
def naturalText (number : Nat) : String :=
  String.ofList (naturalDigits number)

theorem digitValue_digitChar {digit : Nat} (small : digit < 10) :
    digitValue (digitChar digit) = digit := by
  match digit, small with
  | 0, _ | 1, _ | 2, _ | 3, _ | 4, _ | 5, _ | 6, _ | 7, _ | 8, _ | 9, _ => rfl

/-- The digits of a number read back as the number. -/
@[simp]
theorem digitsValue_naturalDigits (number : Nat) :
    digitsValue (naturalDigits number) = number := by
  induction number using Nat.strongRecOn with
  | ind number inductionHypothesis =>
      unfold naturalDigits
      split
      · rename_i small
        simp [digitsValue, digitValue_digitChar small]
      · rename_i large
        rw [digitsValue_append_singleton, inductionHypothesis (number / 10) (by omega),
          digitValue_digitChar (Nat.mod_lt _ (by decide))]
        omega

/-- Splits an optional sign off a text: whether it is a minus, and what follows. -/
def splitSign : List Char → Bool × List Char
  | '-' :: rest => (true, rest)
  | '+' :: rest => (false, rest)
  | text => (false, text)

/-- The integer that a text of an optional sign and decimal digits stands for. -/
def integer? (text : List Char) : Option Int :=
  let (negative, digits) := splitSign text
  (natural? digits).map fun size => if negative then -(size : Int) else size

end Text

end Tabula
