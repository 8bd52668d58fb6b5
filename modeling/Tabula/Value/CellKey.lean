import Tabula.Text.Lowercase
import Tabula.Value

/-!
# Comparison keys

Two values count as equal in a unique column, and match in a search, when their keys
agree.  Text compares without regard to case.  Reals compare as 64-bit reals, bit for bit,
with the two zeros taken for one.  So a NaN equals itself and no other NaN.
-/

namespace Tabula

/-- The form in which stored values are compared. -/
inductive CellKey where
  | boolean (bit : Bool)
  | integer (number : Int)
  | real (number : Floating .double)
  | text (folded : String)
  deriving DecidableEq

/-- The comparison key of a value. -/
def CellKey.of : Value → CellKey
  | .boolean bit => .boolean bit
  | .integer _ number => .integer number.value
  | .real .bits32 number => .real (number.convert .double).foldZero
  | .real .bits64 number => .real number.foldZero
  | .text content => .text (Text.lowercase content)

@[simp]
theorem CellKey.of_text (content : String) :
    CellKey.of (.text content) = .text (Text.lowercase content) :=
  rfl

@[simp]
theorem CellKey.of_integer (width : IntegerWidth) (number : Whole width) :
    CellKey.of (.integer width number) = .integer number.value :=
  rfl

end Tabula
