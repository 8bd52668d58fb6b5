import Tabula.Json.Number

/-!
# Reading JSON

The reader is strict: one value, with blanks around it and nothing else.  Arrays and
objects may be nested at most 127 deep, a quoted text holds no control character, and
an escaped surrogate must be one half of a pair.  Repeated names of an object are kept.

Every reading function takes the rest of the text and gives what it read together with
what is left.  The nesting still allowed is an argument, so that reading a value is
recursion on it.
-/

namespace Tabula.Json

open Tabula.Text

/-- The blanks of the format. -/
def isGap (c : Char) : Bool :=
  c = ' ' || c = '\t' || c = '\n' || c = '\r'

/-- The text after its leading blanks. -/
def skipGaps (source : List Char) : List Char :=
  source.dropWhile isGap

/-- The value of a hexadecimal digit. -/
def hexValue? (c : Char) : Option Nat :=
  if c.isDigit then some (c.toNat - 0x30)
  else if 'a' ≤ c ∧ c ≤ 'f' then some (c.toNat - 0x57)
  else if 'A' ≤ c ∧ c ≤ 'F' then some (c.toNat - 0x37)
  else none

/-- The code unit of four hexadecimal digits. -/
def codeUnit? (a b c d : Char) : Option Nat := do
  let first ← hexValue? a
  let second ← hexValue? b
  let third ← hexValue? c
  let fourth ← hexValue? d
  return ((first * 16 + second) * 16 + third) * 16 + fourth

/-- The character of an escape of one letter. -/
def simpleEscape? (c : Char) : Option Char :=
  if c = '"' ∨ c = '\\' ∨ c = '/' then some c
  else if c = 'b' then some (Char.ofNat 8)
  else if c = 'f' then some (Char.ofNat 12)
  else if c = 'n' then some '\n'
  else if c = 'r' then some '\r'
  else if c = 't' then some '\t'
  else none

/-- The character of a surrogate pair. -/
def pairedChar? (high low : Nat) : Option Char :=
  if 0xD800 ≤ high ∧ high < 0xDC00 ∧ 0xDC00 ≤ low ∧ low < 0xE000 then
    some (Char.ofNat (0x10000 + (high - 0xD800) * 0x400 + (low - 0xDC00)))
  else none

/-- Adds a character in front of a text that was read. -/
def pushChar (c : Char) (read : Option (List Char × List Char)) :
    Option (List Char × List Char) :=
  read.map fun (content, rest) => (c :: content, rest)

/-- Reads a quoted text after its opening quote. -/
def readQuoted : List Char → Option (List Char × List Char)
  | [] => none
  | '"' :: rest => some ([], rest)
  | '\\' :: 'u' :: a :: b :: c :: d :: rest =>
    match codeUnit? a b c d with
    | none => none
    | some unit =>
      if 0xD800 ≤ unit ∧ unit < 0xE000 then
        match rest with
        | '\\' :: 'u' :: e :: f :: g :: h :: rest =>
          match (codeUnit? e f g h).bind (pairedChar? unit) with
          | none => none
          | some paired => pushChar paired (readQuoted rest)
        | _ => none
      else pushChar (Char.ofNat unit) (readQuoted rest)
  | '\\' :: c :: rest =>
    match simpleEscape? c with
    | none => none
    | some escape => pushChar escape (readQuoted rest)
  | c :: rest =>
    if c.toNat < 0x20 ∨ c = '\\' then none else pushChar c (readQuoted rest)

/-- Reads the text of an exponent, when the letter of one comes next. -/
def readExponent (source : List Char) : Option (List Char × List Char) :=
  match source with
  | letter :: rest =>
    if letter = 'e' ∨ letter = 'E' then
      let (sign, rest) :=
        match rest with
        | '-' :: rest => (['-'], rest)
        | '+' :: rest => ([], rest)
        | rest => ([], rest)
      let digits := rest.takeWhile Char.isDigit
      if digits = [] then none
      else some (letter :: (sign ++ digits), rest.dropWhile Char.isDigit)
    else some ([], source)
  | [] => some ([], [])

/-- Reads the point and the digits after it, when a point comes next. -/
def readPlaces (source : List Char) : Option (Option (List Char) × List Char) :=
  match source with
  | '.' :: rest =>
    let digits := rest.takeWhile Char.isDigit
    if digits = [] then none else some (some digits, rest.dropWhile Char.isDigit)
  | source => some (none, source)

/-- Reads a number.  A leading zero stands alone before the point. -/
def readNumber (source : List Char) : Option (Json × List Char) :=
  let (negative, unsigned) :=
    match source with
    | '-' :: rest => (true, rest)
    | source => (false, source)
  let whole := unsigned.takeWhile Char.isDigit
  if whole = [] ∨ (whole.head? = some '0' ∧ whole ≠ ['0']) then none
  else do
    let (places, rest) ← readPlaces (unsigned.dropWhile Char.isDigit)
    let (exponent, rest) ← readExponent rest
    let value ← numberOfParts? negative whole places exponent
    return (.number value, rest)

/-- Reads the items of an array up to its closing bracket; the first item comes next. -/
def readItems (readItem : List Char → Option (Json × List Char)) :
    Nat → List Char → Option (List Json × List Char)
  | 0, _ => none
  | fuel + 1, source => do
    let (item, rest) ← readItem source
    match skipGaps rest with
    | ']' :: rest => return ([item], rest)
    | ',' :: rest =>
      let (items, rest) ← readItems readItem fuel rest
      return (item :: items, rest)
    | _ => none

/-- Reads the entries of an object up to its closing brace; the first name comes next. -/
def readEntries (readItem : List Char → Option (Json × List Char)) :
    Nat → List Char → Option (List (String × Json) × List Char)
  | 0, _ => none
  | fuel + 1, source =>
    match skipGaps source with
    | '"' :: rest => do
      let (name, rest) ← readQuoted rest
      match skipGaps rest with
      | ':' :: rest =>
        let (body, rest) ← readItem rest
        match skipGaps rest with
        | '\x7d' :: rest => return ([(String.ofList name, body)], rest)
        | ',' :: rest =>
          let (entries, rest) ← readEntries readItem fuel rest
          return ((String.ofList name, body) :: entries, rest)
        | _ => none
      | _ => none
    | _ => none

/-- Reads a value that is neither an array nor an object. -/
def readScalar (source : List Char) : Option (Json × List Char) :=
  match source with
  | '"' :: rest => do
    let (content, rest) ← readQuoted rest
    return (.text (String.ofList content), rest)
  | 'n' :: 'u' :: 'l' :: 'l' :: rest => some (.null, rest)
  | 't' :: 'r' :: 'u' :: 'e' :: rest => some (.boolean true, rest)
  | 'f' :: 'a' :: 'l' :: 's' :: 'e' :: rest => some (.boolean false, rest)
  | source => readNumber source

/-- Reads a value inside which arrays and objects may be nested to the given depth. -/
def readValue : Nat → List Char → Option (Json × List Char)
  | 0, source => readScalar (skipGaps source)
  | depth + 1, source =>
    match skipGaps source with
    | '[' :: rest =>
      match skipGaps rest with
      | ']' :: rest => some (.array [], rest)
      | rest => do
        let (items, rest) ← readItems (readValue depth) (rest.length + 1) rest
        return (.array items, rest)
    | '\x7b' :: rest =>
      match skipGaps rest with
      | '\x7d' :: rest => some (.object [], rest)
      | rest => do
        let (entries, rest) ← readEntries (readValue depth) (rest.length + 1) rest
        return (.object entries, rest)
    | rest => readScalar rest

/-- How deep arrays and objects may be nested. -/
def nestingLimit : Nat :=
  127

/-- Reads a document: one value and blanks around it. -/
def ofText? (source : String) : Option Json :=
  match readValue nestingLimit source.toList with
  | some (value, rest) => if (skipGaps rest).isEmpty then some value else none
  | none => none

end Tabula.Json
