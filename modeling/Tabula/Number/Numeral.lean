import Tabula.Number.Shortest
import Tabula.Number.Whole

/-!
# Written forms of numbers

A real has two written forms.  The plain form never uses an exponent and writes no
point after a whole number.  The document form keeps at least one digit after the point,
so that a whole real is told from an integer, and turns to an exponent outside the
range from `10 ^ -5` up to `10 ^ 16`.
-/

namespace Tabula.Text

/-- Digits and a power of ten in positional notation: zeros fill the places that the
digits do not reach. -/
def positional (digits : List Char) (exponent : Int) : List Char :=
  match exponent with
  | .ofNat power => digits ++ List.replicate power '0'
  | .negSucc power =>
    let places := power + 1
    if places < digits.length then
      digits.take (digits.length - places) ++ '.' :: digits.drop (digits.length - places)
    else '0' :: '.' :: (List.replicate (places - digits.length) '0' ++ digits)

/-- One digit before the point, the others after it, and the power of ten with its
sign. -/
def scientific (digits : List Char) (power : Int) : List Char :=
  let significand :=
    match digits with
    | [] => []
    | [digit] => [digit]
    | digit :: rest => digit :: '.' :: rest
  let sign := if power < 0 then '-' else '+'
  significand ++ 'e' :: sign :: naturalDigits power.natAbs

/-- A minus sign in front of the text of a negative number. -/
def signed (negative : Bool) (text : List Char) : String :=
  String.ofList (if negative then '-' :: text else text)

variable {format : Format}

/-- The plain form: the shortest digits in positional notation. -/
def plainText : Floating format → String
  | .nan .. => "NaN"
  | .infinite negative => signed negative ['i', 'n', 'f']
  | .finite negative units _ =>
    if units = 0 then signed negative ['0']
    else
      let decimal := Decimal.shortest format .up units
      signed negative (positional (naturalDigits decimal.digits) decimal.exponent)

/-- The document form; only finite numbers have one. -/
def documentText? : Floating format → Option String
  | .nan .. => none
  | .infinite _ => none
  | .finite negative units _ =>
    if units = 0 then some (signed negative ['0', '.', '0'])
    else
      let decimal := Decimal.shortest format .even units
      let digits := naturalDigits decimal.digits
      let power := decimal.exponent + (digits.length : Int) - 1
      some <| signed negative <|
        if -5 ≤ power ∧ power < 16 then
          if 0 ≤ decimal.exponent then positional digits decimal.exponent ++ ['.', '0']
          else positional digits decimal.exponent
        else scientific digits power

end Tabula.Text
