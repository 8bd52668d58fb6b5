import Tabula.Number.Floating
import Tabula.Number.Power
import Tabula.Number.Whole

/-!
# Reading real numbers

A real is written as an optional sign and either a word for infinity, the word for no
number, or decimal digits with an optional point and an optional exponent; at least one
digit has to stand beside the point.  The words are read in any case.  The value is
the number of the format nearest to the written ratio.

Exponents are unbounded in the text.  Far outside the range of a format the answer is
known without computing the power of ten: ten exceeds two, and eight is below ten.
-/

namespace Tabula

namespace Floating

/-- The number nearest to a significand times a power of ten. -/
def ofDecimal (format : Format) (negative : Bool) (significand : Nat) (exponent : Int) :
    Floating format :=
  if significand = 0 then zero format negative
  else
    match exponent with
    | .ofNat power =>
      if format.precision + format.span < power then infinite negative
      else ofRatio format negative ((significand * powerOfTen power) <<< format.fraction) 1
    | .negSucc power =>
      if significand.log2 + format.fraction + 2 < 3 * (power + 1) then zero format negative
      else ofRatio format negative (significand <<< format.fraction) (powerOfTen (power + 1))

end Floating

namespace Text

/-- The signed number after the letter of an exponent; there is at least one digit and
nothing after the digits. -/
def exponent? : List Char → Option Int
  | [] => some 0
  | c :: rest => if c = 'e' ∨ c = 'E' then integer? rest else none

/-- A significand and a power of ten from the text of an unsigned decimal number. -/
def decimal? (text : List Char) : Option (Nat × Int) :=
  let whole := text.takeWhile Char.isDigit
  let afterWhole := text.dropWhile Char.isDigit
  let (places, afterPlaces) :=
    match afterWhole with
    | '.' :: rest => (rest.takeWhile Char.isDigit, rest.dropWhile Char.isDigit)
    | rest => ([], rest)
  if whole = [] ∧ places = [] then none
  else
    (exponent? afterPlaces).map fun exponent =>
      (digitsValue (whole ++ places), exponent - places.length)

/-- The basic Latin letters of a text in lowercase. -/
def lowerLatin (text : List Char) : List Char :=
  text.map Char.toLower

/-- The real number that a text stands for, rounded to the format. -/
def floating? (format : Format) (text : List Char) : Option (Floating format) :=
  let (negative, size) := splitSign text
  let word := lowerLatin size
  if word = ['i', 'n', 'f'] ∨ word = ['i', 'n', 'f', 'i', 'n', 'i', 't', 'y'] then
    some (.infinite negative)
  else if word = ['n', 'a', 'n'] then some (.quietNan format negative)
  else
    (decimal? size).map fun (significand, exponent) =>
      .ofDecimal format negative significand exponent

end Text

end Tabula
