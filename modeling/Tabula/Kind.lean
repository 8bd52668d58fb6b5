import Tabula.Number.Floating
import Tabula.Number.Whole

/-!
# Kinds of fields

Scalar kinds hold one value in a cell.  The other kinds describe fields that become
scalar only when a schema is flattened, or that still wait for a definition.
-/

namespace Tabula

/-- How many bits store a real number. -/
inductive RealWidth where
  | bits32
  | bits64
  deriving DecidableEq, Repr

/-- The floating-point format of a width. -/
def RealWidth.format : RealWidth → Format
  | bits32 => .single
  | bits64 => .double

/-- A kind that holds a single value. -/
inductive ScalarKind where
  | boolean
  | integer (width : IntegerWidth)
  | real (width : RealWidth)
  | text
  deriving DecidableEq, Repr

/-- What a field is. -/
inductive Kind where
  /-- One value. -/
  | scalar (kind : ScalarKind)
  /-- A fixed number of elements of one shape. -/
  | list
  /-- The fields of another schema. -/
  | embedded
  /-- A key into another table whose own kind is not known yet. -/
  | lookup
  /-- A type name that no definition has claimed yet. -/
  | unresolved
  deriving DecidableEq, Repr

namespace ScalarKind

/-- The name of a scalar kind. -/
def name : ScalarKind → String
  | boolean => "bool"
  | integer .bits8 => "int8"
  | integer .bits16 => "int16"
  | integer .bits32 => "int32"
  | integer .bits64 => "int64"
  | real .bits32 => "real32"
  | real .bits64 => "real64"
  | text => "string"

/-- All scalar kinds, in the order in which they are listed to a reader. -/
def all : List ScalarKind :=
  [boolean, integer .bits8, integer .bits16, integer .bits32, integer .bits64,
    real .bits32, real .bits64, text]

/-- The words of the definition language that name scalar kinds; reals of both widths
have two words. -/
def keywords : List (String × ScalarKind) :=
  [("int8", integer .bits8), ("int16", integer .bits16), ("int32", integer .bits32),
    ("int64", integer .bits64), ("float", real .bits32), ("double", real .bits64),
    ("real32", real .bits32), ("real64", real .bits64), ("bool", boolean),
    ("string", text)]

/-- The scalar kind that a word of the definition language names. -/
def ofKeyword? (word : String) : Option ScalarKind :=
  (keywords.find? (·.1 = word)).map (·.2)

/-- The kind stores whole numbers. -/
def isInteger : ScalarKind → Bool
  | integer _ => true
  | _ => false

/-- The kind stores reals. -/
def isReal : ScalarKind → Bool
  | real _ => true
  | _ => false

/-- The largest number of an integer kind. -/
def maximum? : ScalarKind → Option Int
  | integer width => some width.maximum
  | _ => none

end ScalarKind

namespace IntegerWidth

/-- The narrowest width whose largest number reaches the given one. -/
def smallestFor (maximum : Int) : IntegerWidth :=
  if maximum ≤ bits8.maximum then bits8
  else if maximum ≤ bits16.maximum then bits16
  else if maximum ≤ bits32.maximum then bits32
  else bits64

/-- A number of 64 bits fits the width chosen for it. -/
theorem le_maximum_smallestFor {number : Int} (long : number ≤ bits64.maximum) :
    number ≤ (smallestFor number).maximum := by
  unfold smallestFor
  split
  · assumption
  · split
    · assumption
    · split <;> assumption

end IntegerWidth

namespace Kind

/-- The name of a kind. -/
def name : Kind → String
  | scalar kind => kind.name
  | list => "list"
  | embedded => "embedded"
  | lookup => "lookup"
  | unresolved => "unresolved"

/-- All kinds, scalar kinds first. -/
def all : List Kind :=
  ScalarKind.all.map scalar ++ [list, embedded, lookup, unresolved]

/-- The kind holds a single value. -/
def isScalar : Kind → Bool
  | scalar _ => true
  | _ => false

/-- The kind stores whole numbers. -/
def isInteger : Kind → Bool
  | scalar kind => kind.isInteger
  | _ => false

/-- The kind stores reals. -/
def isReal : Kind → Bool
  | scalar kind => kind.isReal
  | _ => false

/-- The kind still waits for a definition or for its key field. -/
def isPending : Kind → Bool
  | lookup => true
  | unresolved => true
  | _ => false

/-- The largest number of an integer kind. -/
def maximum? : Kind → Option Int
  | scalar kind => kind.maximum?
  | _ => none

theorem isScalar_iff {kind : Kind} : kind.isScalar = true ↔ ∃ inner, kind = scalar inner := by
  cases kind <;> simp [isScalar]

end Kind

end Tabula
