import Tabula.Kind
import Tabula.Number.Numeral

/-!
# Values and cells

A value belongs to exactly one scalar kind.  A cell holds a value or nothing.  Each
value has a text, which is also the text that it becomes when it is stored as text.
-/

namespace Tabula

/-- A value of a scalar kind. -/
inductive Value where
  | boolean (bit : Bool)
  | integer (width : IntegerWidth) (number : Whole width)
  | real (width : RealWidth) (number : Floating width.format)
  | text (content : String)
  deriving DecidableEq

/-- A stored value, or nothing. -/
abbrev Cell := Option Value

namespace Value

/-- The kind a value is stored as. -/
def kind : Value → ScalarKind
  | boolean _ => .boolean
  | integer width _ => .integer width
  | real width _ => .real width
  | text _ => .text

/-- The truth value, of a Boolean only. -/
def asBoolean? : Value → Option Bool
  | boolean bit => some bit
  | _ => none

/-- The number of 64 bits that equals a whole number. -/
def asLong? : Value → Option Long
  | integer _ number => some number.widen
  | _ => none

/-- The 64-bit real nearest to a numeric value. -/
def asReal? : Value → Option (Floating .double)
  | integer _ number => some (.ofInt .double number.value)
  | real .bits32 number => some (number.convert .double)
  | real .bits64 number => some number
  | _ => none

/-- The content, of a text only. -/
def asText? : Value → Option String
  | text content => some content
  | _ => none

/-- The text of a value. -/
def toText : Value → String
  | boolean bit => if bit then "true" else "false"
  | integer _ number => Text.integerText number.value
  | real _ number => Text.plainText number
  | text content => content

@[simp]
theorem kind_boolean (bit : Bool) : (boolean bit).kind = .boolean :=
  rfl

@[simp]
theorem kind_integer (width : IntegerWidth) (number : Whole width) :
    (integer width number).kind = .integer width :=
  rfl

@[simp]
theorem kind_real (width : RealWidth) (number : Floating width.format) :
    (real width number).kind = .real width :=
  rfl

@[simp]
theorem kind_text (content : String) : (text content).kind = .text :=
  rfl

end Value

end Tabula
