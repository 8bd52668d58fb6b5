import Tabula.Json
import Tabula.Number.Decimal

/-!
# Reading the numbers of a document

An integer that fits 64 bits is read exactly.  Every other number is a real, computed
from a significand of at most 64 bits: digits that would overflow it are not taken up,
but those before the point still count as powers of ten.  The significand is rounded
to a real, then multiplied or divided once by a power of ten, itself rounded.  A
number too large for a real is refused and one too small is zero.
-/

namespace Tabula.Json

open Tabula.Text

/-- The largest significand. -/
def significandLimit : Nat :=
  18446744073709551615

/-- The largest exponent that a document may spell out digit by digit. -/
def exponentLimit : Nat :=
  2147483647

/-- Takes up digits while the significand stays within 64 bits; gives the significand,
how many digits were taken up and how many were left. -/
def takeDigits (significand : Nat) : List Char → Nat × Nat × Nat
  | [] => (significand, 0, 0)
  | digit :: digits =>
    let next := 10 * significand + digitValue digit
    if significandLimit < next then (significand, 0, digits.length + 1)
    else
      let (final, taken, left) := takeDigits next digits
      (final, taken + 1, left)

/-- The units of the real nearest to a power of ten, for powers up to 308. -/
def powerUnits (power : Nat) : Nat :=
  (Floating.ofDecimal .double false 1 power).units

/-- A number of units divided by a power of ten.  Powers beyond the range of the format
are divided out in steps of 308. -/
def scaleDown (units power : Nat) : Floating .double :=
  if power ≤ 308 then .ofQuotient .double false units (powerUnits power)
  else if units = 0 then .zero .double false
  else scaleDown (Floating.ofQuotient .double false units (powerUnits 308)).units (power - 308)
termination_by power

/-- A number of units multiplied by a power of ten, unless it becomes too large. -/
def scaleUp? (units power : Nat) : Option (Floating .double) :=
  if power ≤ 308 then
    let product := Floating.ofProduct .double false units (powerUnits power)
    if product.isFinite then some product else none
  else if units = 0 then some (.zero .double false)
  else none

/-- The real for a significand and a power of ten. -/
def realOfParts? (negative : Bool) (significand : Nat) (power : Int) :
    Option JsonNumber :=
  let units := (Floating.ofInt .double significand).units
  let size :=
    match power with
    | .ofNat up => scaleUp? units up
    | .negSucc down => some (scaleDown units (down + 1))
  size.map fun size => .real (if negative then size.negate else size)

/-- The real whose significand and power are followed by the text of an exponent, which
may be empty.  An exponent too long to be counted makes every number but zero too large,
or zero when it is negative. -/
def realOfExponent? (negative : Bool) (significand : Nat) (power : Int) :
    List Char → Option JsonNumber
  | [] => realOfParts? negative significand power
  | _ :: rest =>
    let (down, digits) := splitSign rest
    match natural? digits with
    | none => none
    | some size =>
      if exponentLimit < size then
        if significand ≠ 0 ∧ !down then none
        else some (.real (.zero .double negative))
      else realOfParts? negative significand (if down then power - size else power + size)

/-- An integer, or the real that takes its place: negative zero, and an integer beyond
64 bits. -/
def integerOrReal? (negative : Bool) (digits : List Char) : Option JsonNumber :=
  let (significand, _, left) := takeDigits 0 digits
  if left ≠ 0 then realOfParts? negative significand left
  else if negative then
    let number := -(significand : Int)
    if significand = 0 ∨ number < IntegerWidth.bits64.minimum then
      realOfParts? true significand 0
    else some (.integer number)
  else some (.integer significand)

/-- The number written as an optional minus sign, the digits before the point, the
digits after it when there is a point, and the text of an exponent. -/
def numberOfParts? (negative : Bool) (whole : List Char) (places : Option (List Char))
    (exponent : List Char) : Option JsonNumber :=
  match places, exponent with
  | none, [] => integerOrReal? negative whole
  | none, exponent =>
    let (significand, _, left) := takeDigits 0 whole
    realOfExponent? negative significand left exponent
  | some places, exponent =>
    let (significand, _, left) := takeDigits 0 whole
    let (extended, taken, _) := takeDigits significand places
    realOfExponent? negative extended ((left : Int) - taken) exponent

end Tabula.Json
