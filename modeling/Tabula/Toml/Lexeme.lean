import Tabula.Number.Decimal
import Tabula.Toml

/-!
# Plain words of TOML

Every value that is not quoted and not bracketed is one word of letters, digits and a
few signs: a Boolean, a number or a point in time.  Digits of numbers may be grouped by
single low lines.  Integers have to fit 64 bits, a real may not exceed the positive range
of its format, and dates follow the calendar.
-/

namespace Tabula.Toml

open Tabula.Text

/-- The character may stand in a plain word. -/
def isPlain (c : Char) : Bool :=
  c.isAlphanum || c = '_' || c = '+' || c = '-' || c = '.' || c = ':'

/-- Digits grouped by single low lines, which stand between two digits; gives the digits
alone. -/
def grouped? (isDigit : Char → Bool) : List Char → Option (List Char)
  | [] => none
  | [c] => if isDigit c then some [c] else none
  | c :: '_' :: rest =>
    if isDigit c then (grouped? isDigit rest).map (c :: ·) else none
  | c :: rest => if isDigit c then (grouped? isDigit rest).map (c :: ·) else none

/-- The value of a hexadecimal digit in either case. -/
def radixDigit (c : Char) : Nat :=
  if c.isDigit then c.toNat - 0x30 else c.toLower.toNat - 0x57

/-- The integer of digits in some base. -/
def inBase (base : Nat) (digits : List Char) : Int :=
  (digits.foldl (fun value c => base * value + radixDigit c) 0 : Nat)

/-- The digit is hexadecimal. -/
def isHexDigit (c : Char) : Bool :=
  c.isDigit || ('a' ≤ c.toLower && c.toLower ≤ 'f')

/-- Decimal digits of an integer: grouped, and without a leading zero before others. -/
def decimalDigits? (word : List Char) : Option (List Char) := do
  let digits ← grouped? Char.isDigit word
  if digits.head? = some '0' ∧ digits ≠ ['0'] then none else some digits

/-- An integer, of base sixteen, eight or two after a prefix, else decimal with an
optional sign. -/
def integer? (word : List Char) : Option Int :=
  match word with
  | '0' :: 'x' :: rest => (grouped? isHexDigit rest).map (inBase 16)
  | '0' :: 'o' :: rest => (grouped? (fun c => '0' ≤ c && c ≤ '7') rest).map (inBase 8)
  | '0' :: 'b' :: rest => (grouped? (fun c => c = '0' || c = '1') rest).map (inBase 2)
  | _ =>
    let (negative, size) := splitSign word
    (decimalDigits? size).map fun digits =>
      if negative then -inBase 10 digits else inBase 10 digits

/-- The exponent of a real, when there is one, is an optional sign and grouped digits. -/
def isExponent : List Char → Bool
  | [] => true
  | letter :: rest =>
    (letter = 'e' || letter = 'E') && (grouped? Char.isDigit (splitSign rest).2).isSome

/-- The digits and low lines in front of the rest of a word. -/
def digitRun (word : List Char) : List Char × List Char :=
  (word.takeWhile fun c => c.isDigit || c = '_', word.dropWhile fun c => c.isDigit || c = '_')

/-- The unsigned word is written as a real: an integer with places, with an exponent,
or with both. -/
def isRealSize (word : List Char) : Bool :=
  let (whole, rest) := digitRun word
  (decimalDigits? whole).isSome &&
    match rest with
    | [] => false
    | '.' :: rest =>
      let (places, rest) := digitRun rest
      (grouped? Char.isDigit places).isSome && isExponent rest
    | rest => isExponent rest

/-- The word is a real; infinity may be written as a word but not reached by digits. -/
def isReal (word : List Char) : Bool :=
  let (negative, size) := splitSign word
  size = ['i', 'n', 'f'] || size = ['n', 'a', 'n'] ||
    (isRealSize size &&
      match floating? .double (size.filter (· ≠ '_')) with
      | some number => negative || number.isFinite
      | none => false)

/-! ## Points in time -/

/-- The natural number of exactly two basic digits. -/
def twoDigits? : List Char → Option Nat
  | [a, b] => natural? [a, b]
  | _ => none

/-- The days of a month. -/
def daysOf (year month : Nat) : Nat :=
  if month = 2 then
    if year % 4 = 0 ∧ (year % 100 ≠ 0 ∨ year % 400 = 0) then 29 else 28
  else if month = 4 ∨ month = 6 ∨ month = 9 ∨ month = 11 then 30
  else 31

/-- The word is a day of the calendar. -/
def isDate : List Char → Bool
  | [a, b, c, d, '-', e, f, '-', g, h] =>
    match natural? [a, b, c, d], twoDigits? [e, f], twoDigits? [g, h] with
    | some year, some month, some day =>
      1 ≤ month && month ≤ 12 && 1 ≤ day && day ≤ daysOf year month
    | _, _, _ => false
  | _ => false

/-- The two digits are at most the given number. -/
def upTo (limit : Nat) (a b : Char) : Bool :=
  match twoDigits? [a, b] with
  | some number => number ≤ limit
  | none => false

/-- The word is an offset from universal time, or nothing. -/
def isOffset : List Char → Bool
  | [] => true
  | [c] => c = 'Z' || c = 'z'
  | [sign, a, b, ':', c, d] => (sign = '+' || sign = '-') && upTo 23 a b && upTo 59 c d
  | _ => false

/-- The word is a time of the day followed by what the test accepts. -/
def isTimeThen (accepts : List Char → Bool) : List Char → Bool
  | a :: b :: ':' :: c :: d :: ':' :: e :: f :: rest =>
    upTo 23 a b && upTo 59 c d && upTo 60 e f &&
      match rest with
      | '.' :: rest =>
        rest.takeWhile Char.isDigit ≠ [] && accepts (rest.dropWhile Char.isDigit)
      | rest => accepts rest
  | _ => false

/-- The word is a point in time: a date, a time of the day, or both with an optional
offset. -/
def isMoment (word : List Char) : Bool :=
  isTimeThen List.isEmpty word || isDate word ||
    (isDate (word.take 10) &&
      match word.drop 10 with
      | mark :: rest => (mark = 'T' || mark = 't' || mark = ' ') && isTimeThen isOffset rest
      | [] => false)

/-- The value of a plain word. -/
def plainValue? (word : List Char) : Option TomlValue :=
  if word = ['t', 'r', 'u', 'e'] then some (.boolean true)
  else if word = ['f', 'a', 'l', 's', 'e'] then some (.boolean false)
  else
    match integer? word with
    | some number => (Whole.ofInt? .bits64 number).map fun long => .integer long.value
    | none => if isReal word || isMoment word then some .other else none

end Tabula.Toml
