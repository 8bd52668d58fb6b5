import Tabula.Json
import Tabula.Value
import Tabula.Value.Error

/-!
# Values in documents

A value is written to a document without its kind and read back in the widest kind of
its sort.  Arrays and objects are no values.
-/

namespace Tabula

namespace Value

/-- The tree of a value; a real that has no written form becomes null. -/
def toJson : Value → Json
  | boolean bit => .boolean bit
  | integer _ number => .number (.integer number.value)
  | real .bits32 number => ofFinite (number.convert .double)
  | real .bits64 number => ofFinite number
  | text content => .text content
where
  ofFinite (number : Floating .double) : Json :=
    if number.isFinite then .number (.real number) else .null

/-- The tree of a cell. -/
def cellToJson : Cell → Json
  | none => .null
  | some value => value.toJson

/-- The cell that a tree stands for.  An integer beyond the signed numbers of 64 bits is
taken as a real. -/
def ofJson : Json → Except ValueError Cell
  | .null => .ok none
  | .boolean bit => .ok (some (boolean bit))
  | .number (.integer number) =>
    match Whole.ofInt? .bits64 number with
    | some long => .ok (some (integer .bits64 long))
    | none => .ok (some (real .bits64 (.ofInt .double number)))
  | .number (.real number) => .ok (some (real .bits64 number))
  | .text content => .ok (some (text content))
  | tree => .error (.unsupportedDocument tree.compactText)

end Value

end Tabula
