import Tabula.Number.Decimal
import Tabula.Text.Blank
import Tabula.Value
import Tabula.Value.Error

/-!
# Coercion

Every value can be asked to become a value of any scalar kind.  Whole numbers are
checked against the range of the kind, reals round half to even on their way to a whole
number, texts are read after trimming, truth values count as one and zero, and every
value has a text.  A value of the wanted kind is left alone.

All numeric conversions pass through the 64-bit numbers, and a refusal shows the
number at that point.
-/

namespace Tabula

namespace Value

/-- Reads a truth value in any case of its two words. -/
def boolean? (content : String) : Option Bool :=
  let word := Text.lowerLatin (Text.trim content.toList)
  if word = ['t', 'r', 'u', 'e'] then some true
  else if word = ['f', 'a', 'l', 's', 'e'] then some false
  else none

/-- The truth value of a value: a number is true unless it is zero. -/
def toBoolean : Value → Except ValueError Bool
  | boolean bit => .ok bit
  | integer _ number => .ok (number.value ≠ 0)
  | real _ number => .ok !number.isZero
  | text content =>
    match boolean? content with
    | some bit => .ok bit
    | none => .error (.conversion content .text .boolean)

/-- The number of 64 bits that a real rounds to, shown as the 64-bit real it is. -/
def roundToLong (shown : Floating .double) (source target : ScalarKind) :
    Except ValueError Long :=
  match shown.nearestInt? with
  | none => .error (.conversion (Text.plainText shown) source target)
  | some nearest =>
    match Whole.ofInt? .bits64 nearest with
    | some number => .ok number
    | none => .error (.outOfRange (Text.plainText shown) target)

/-- The number of 64 bits that a value stands for. -/
def toLong (value : Value) (target : ScalarKind) : Except ValueError Long :=
  match value with
  | boolean bit => .ok (.ofBool .bits64 bit)
  | integer _ number => .ok number.widen
  | real .bits32 number => roundToLong (number.convert .double) value.kind target
  | real .bits64 number => roundToLong number value.kind target
  | text content =>
    match (Text.integer? (Text.trim content.toList)).bind (Whole.ofInt? .bits64) with
    | some number => .ok number
    | none => .error (.conversion content .text target)

/-- The 64-bit real that a value stands for. -/
def toReal (value : Value) (target : ScalarKind) :
    Except ValueError (Floating .double) :=
  match value with
  | boolean bit => .ok (.ofBool .double bit)
  | integer _ number => .ok (.ofInt .double number.value)
  | real .bits32 number => .ok (number.convert .double)
  | real .bits64 number => .ok number
  | text content =>
    match Text.floating? .double (Text.trim content.toList) with
    | some number => .ok number
    | none => .error (.conversion content .text target)

/-- A number of 64 bits as a value of an integer kind. -/
def ofLong (width : IntegerWidth) (number : Long) : Except ValueError Value :=
  match Whole.ofInt? width number.value with
  | some fitting => .ok (integer width fitting)
  | none => .error (.outOfRange (Text.integerText number.value) (.integer width))

/-- A 64-bit real as a value of a real kind; a finite real has to stay finite. -/
def ofReal (width : RealWidth) (number : Floating .double) : Except ValueError Value :=
  match width with
  | .bits64 => .ok (real .bits64 number)
  | .bits32 =>
    if number.exceeds .single then
      .error (.outOfRange (Text.plainText number) (.real .bits32))
    else .ok (real .bits32 (number.convert .single))

/-- The value as a value of a scalar kind. -/
def convert (value : Value) (target : ScalarKind) : Except ValueError Value :=
  if value.kind = target then .ok value
  else
    match target with
    | .boolean => value.toBoolean.map boolean
    | .integer width => do ofLong width (← value.toLong target)
    | .real width => do ofReal width (← value.toReal target)
    | .text => .ok (text value.toText)

/-- The value as a value of a kind, which has to be scalar. -/
def coerce (value : Value) : Kind → Except ValueError Value
  | .scalar target => value.convert target
  | kind => .error (.notScalar kind)

@[simp]
theorem convert_self (value : Value) : value.convert value.kind = .ok value := by
  simp [convert]

@[simp]
theorem coerce_scalar (value : Value) (target : ScalarKind) :
    value.coerce (.scalar target) = value.convert target :=
  rfl

theorem kind_of_ofLong {width : IntegerWidth} {number : Long} {result : Value}
    (accepted : ofLong width number = .ok result) : result.kind = .integer width := by
  unfold ofLong at accepted
  split at accepted
  · cases accepted
    rfl
  · cases accepted

theorem kind_of_ofReal {width : RealWidth} {number : Floating .double} {result : Value}
    (accepted : ofReal width number = .ok result) : result.kind = .real width := by
  unfold ofReal at accepted
  split at accepted
  · cases accepted
    rfl
  · split at accepted
    · cases accepted
    · cases accepted
      rfl

/-- A coerced value has the wanted kind. -/
theorem kind_of_convert {value result : Value} {target : ScalarKind}
    (accepted : value.convert target = .ok result) : result.kind = target := by
  unfold convert at accepted
  split at accepted
  · cases accepted
    assumption
  · cases target with
    | boolean =>
        simp only at accepted
        cases bit : value.toBoolean with
        | error refusal =>
            rw [bit] at accepted
            cases accepted
        | ok bit' =>
            rw [bit] at accepted
            cases accepted
            rfl
    | integer width =>
        simp only at accepted
        cases number : value.toLong (.integer width) with
        | error refusal =>
            rw [number] at accepted
            cases accepted
        | ok number' =>
            rw [number] at accepted
            exact kind_of_ofLong accepted
    | real width =>
        simp only at accepted
        cases number : value.toReal (.real width) with
        | error refusal =>
            rw [number] at accepted
            cases accepted
        | ok number' =>
            rw [number] at accepted
            exact kind_of_ofReal accepted
    | text =>
        simp only at accepted
        cases accepted
        rfl

/-- Every value has a text. -/
theorem convert_text (value : Value) :
    value.convert .text = .ok (text value.toText) := by
  cases value <;> simp [convert, toText]

end Value

end Tabula
