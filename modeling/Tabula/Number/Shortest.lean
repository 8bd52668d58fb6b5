import Tabula.Number.Floating
import Tabula.Number.Power
import Tabula.Number.Whole

/-!
# Shortest decimal digits

A number of a format stands for all reals that round to it.  Its shortest decimal is
the one with the fewest digits among them, and of those the nearest to the number.  If
a decimal of some number of digits rounds to the number, then so does one of the
number's two neighbours on that decimal grid; so the grids are tried from one digit
on, two candidates each.

The interval is kept in quarters of a unit, because below a power of two the grid of
the format is twice as fine.  Its ends belong to it when the significand is even.
-/

namespace Tabula

/-- Which of two equally near decimals is taken. -/
inductive Tie where
  /-- The one further from zero. -/
  | up
  /-- The one with the even last digit. -/
  | even
  deriving DecidableEq

/-- A decimal number `digits * 10 ^ exponent`. -/
structure Decimal where
  digits : Nat
  exponent : Int
  deriving DecidableEq

namespace Decimal

/-- The same decimal without zeros at the end of its digits. -/
def reduced : Nat → Nat → Int → Decimal
  | 0, digits, exponent => ⟨digits, exponent⟩
  | fuel + 1, digits, exponent =>
    if digits % 10 = 0 then reduced fuel (digits / 10) (exponent + 1) else ⟨digits, exponent⟩

/-- The reals that round to a number of a format: a middle, two ends and whether the
ends belong to it.  All are numerators over one denominator. -/
structure Interval where
  low : Nat
  middle : Nat
  high : Nat
  denominator : Nat
  closed : Bool

/-- The interval around a positive number of units. -/
def Interval.around (format : Format) (units : Nat) : Interval :=
  let shift := format.shiftAt units
  let step := 1 <<< shift
  let significand := units / step
  let below :=
    if significand = 1 <<< (format.precision - 1) ∧ 0 < shift then step else 2 * step
  { low := 4 * units - below
    middle := 4 * units
    high := 4 * units + 2 * step
    denominator := 4 <<< format.fraction
    closed := significand % 2 = 0 }

/-- The ratio, whose numerator counts in steps of a decimal grid, lies in the interval. -/
def Interval.contains (interval : Interval) (scale numerator : Nat) : Bool :=
  if interval.closed then
    interval.low * scale ≤ numerator && numerator ≤ interval.high * scale
  else
    interval.low * scale < numerator && numerator < interval.high * scale

/-- The power of ten at or below the middle of the interval. -/
def Interval.magnitude (interval : Interval) : Int :=
  let whole := interval.middle / interval.denominator
  if whole ≠ 0 then ((Text.naturalDigits whole).length : Int) - 1
  else
    let places := (Text.naturalDigits (interval.denominator / interval.middle)).length
    if interval.denominator ≤ interval.middle * powerOfTen (places - 1) then -((places : Int) - 1)
    else -(places : Int)

/-- The nearer of the middle's two neighbours on the grid of a power of ten, of those
that lie in the interval. -/
def Interval.onGrid? (interval : Interval) (tie : Tie) (exponent : Int) : Option Decimal :=
  let up := powerOfTen (-exponent).toNat
  let grid := interval.denominator * powerOfTen exponent.toNat
  let middle := interval.middle * up
  let lower := middle / grid
  let rest := middle % grid
  let lowerIn := interval.contains up (lower * grid) && lower ≠ 0
  let upperIn := interval.contains up ((lower + 1) * grid)
  let upperWins :=
    grid < 2 * rest || (2 * rest = grid && (tie = .up || lower % 2 = 1))
  if lowerIn && (!upperIn || !upperWins) then some ⟨lower, exponent⟩
  else if upperIn then some ⟨lower + 1, exponent⟩
  else none

/-- The shortest decimal of a positive number of units.  The last case is never needed
by the formats in use; it gives every digit of the number. -/
def shortest (format : Format) (tie : Tie) (units : Nat) : Decimal :=
  let interval := Interval.around format units
  let magnitude := interval.magnitude
  let found := (List.range 17).findSome? fun (places : Nat) =>
    interval.onGrid? tie (magnitude - places)
  match found with
  | some decimal => reduced 17 decimal.digits decimal.exponent
  | none =>
    ⟨units * powerOfTen format.fraction / 1 <<< format.fraction, -(format.fraction : Int)⟩

end Decimal

end Tabula
