import Tabula.Json.Reader
import Tabula.Toml.Lexeme

/-!
# Reading TOML

A document is a sequence of lines: keys with values, headers of tables and of tables in
arrays, comments and blank lines.  Reading builds the tree line by line and fails on the
first line that is not well written or not allowed where it stands.
-/

namespace Tabula.Toml

open Tabula.Text

/-- A blank within a line. -/
def isSpace (c : Char) : Bool :=
  c = ' ' || c = '\t'

/-- The text after the blanks within the line. -/
def skipSpaces (source : List Char) : List Char :=
  source.dropWhile isSpace

/-- The character may stand in a comment or, unescaped, in a quoted text. -/
def isPrintable (c : Char) : Bool :=
  c = '\t' || (0x20 ≤ c.toNat && c.toNat ≠ 0x7F)

/-- The text after a line end. -/
def lineEnd? : List Char → Option (List Char)
  | '\n' :: rest => some rest
  | '\r' :: '\n' :: rest => some rest
  | _ => none

/-- The text after a comment, when one comes next. -/
def skipComment (source : List Char) : List Char :=
  match source with
  | '#' :: rest => rest.dropWhile isPrintable
  | source => source

/-- The text after the end of a line, with blanks and a comment before it; the end of the
document ends a line too. -/
def finishLine? (source : List Char) : Option (List Char) :=
  match skipComment (skipSpaces source) with
  | [] => some []
  | rest => lineEnd? rest

/-! ## Quoted texts -/

/-- The value of hexadecimal digits. -/
def hexNumber? (digits : List Char) : Option Nat :=
  if digits.all isHexDigit then some (inBase 16 digits).toNat else none

/-- The character of a code point, when it is one. -/
def scalar? (code : Nat) : Option Char :=
  if code.isValidChar then some (Char.ofNat code) else none

/-- The character of an escape of one letter. -/
def letterEscape? (c : Char) : Option Char :=
  if c = '/' then none else Json.simpleEscape? c

/-- Reads a text in double quotes after the opening quote. -/
def readBasic : List Char → Option (List Char × List Char)
  | [] => none
  | '"' :: rest => some ([], rest)
  | '\\' :: 'u' :: a :: b :: c :: d :: rest =>
    match (hexNumber? [a, b, c, d]).bind scalar? with
    | none => none
    | some escape => Json.pushChar escape (readBasic rest)
  | '\\' :: 'U' :: a :: b :: c :: d :: e :: f :: g :: h :: rest =>
    match (hexNumber? [a, b, c, d, e, f, g, h]).bind scalar? with
    | none => none
    | some escape => Json.pushChar escape (readBasic rest)
  | '\\' :: c :: rest =>
    match letterEscape? c with
    | none => none
    | some escape => Json.pushChar escape (readBasic rest)
  | c :: rest =>
    if isPrintable c ∧ c ≠ '\\' then Json.pushChar c (readBasic rest) else none

/-- Reads a text in single quotes after the opening quote. -/
def readLiteral : List Char → Option (List Char × List Char)
  | [] => none
  | '\'' :: rest => some ([], rest)
  | c :: rest => if isPrintable c then Json.pushChar c (readLiteral rest) else none

/-- The text after three closing quotes, of which up to two more belong to the content. -/
def skipClosing (quote : Char) (source : List Char) : List Char :=
  let quotes := Nat.min 5 (source.takeWhile (· = quote)).length
  source.drop quotes

/-- The text begins with three quotes. -/
def closes (quote : Char) (source : List Char) : Bool :=
  source.take 3 = [quote, quote, quote]

/-- The text after blanks and line ends. -/
def skipGap : List Char → List Char
  | '\n' :: rest => skipGap rest
  | '\r' :: '\n' :: rest => skipGap rest
  | c :: rest => if isSpace c then skipGap rest else c :: rest
  | [] => []

/-- The text after the blanks and line ends that follow a backslash at the end of a line;
there has to be a line end among them. -/
def skipContinuation? (source : List Char) : Option (List Char) :=
  (lineEnd? (skipSpaces source)).map skipGap

/-- Reads past a text of several lines after the opening quotes.  In double quotes a
backslash escapes. -/
def skipBlock (quote : Char) : Nat → List Char → Option (List Char)
  | 0, _ => none
  | fuel + 1, source =>
    if closes quote source then some (skipClosing quote source)
    else
      match source with
      | [] => none
      | '\r' :: rest => do
        let rest ← lineEnd? ('\r' :: rest)
        skipBlock quote fuel rest
      | '\\' :: rest =>
        if quote = '\'' then skipBlock quote fuel rest
        else
          match rest with
          | 'u' :: a :: b :: c :: d :: rest => do
            let _ ← (hexNumber? [a, b, c, d]).bind scalar?
            skipBlock quote fuel rest
          | 'U' :: a :: b :: c :: d :: e :: f :: g :: h :: rest => do
            let _ ← (hexNumber? [a, b, c, d, e, f, g, h]).bind scalar?
            skipBlock quote fuel rest
          | c :: others =>
            if (letterEscape? c).isSome then skipBlock quote fuel others
            else do
              let rest ← skipContinuation? rest
              skipBlock quote fuel rest
          | [] => none
      | c :: rest =>
        if isPrintable c ∨ c = '\n' then skipBlock quote fuel rest else none

/-! ## Keys -/

/-- The character may stand in a bare key. -/
def isBare (c : Char) : Bool :=
  c.isAlphanum || c = '_' || c = '-'

/-- Reads one part of a key. -/
def readKeyPart (source : List Char) : Option (String × List Char) :=
  match source with
  | '"' :: rest => (readBasic rest).map fun (part, rest) => (String.ofList part, rest)
  | '\'' :: rest => (readLiteral rest).map fun (part, rest) => (String.ofList part, rest)
  | source =>
    let part := source.takeWhile isBare
    if part = [] then none else some (String.ofList part, source.dropWhile isBare)

/-- Reads the parts of a key, which dots separate, and the blanks around them. -/
def readKey : Nat → List Char → Option (List String × List Char)
  | 0, _ => none
  | fuel + 1, source => do
    let (part, rest) ← readKeyPart (skipSpaces source)
    match skipSpaces rest with
    | '.' :: rest =>
      let (parts, rest) ← readKey fuel rest
      return (part :: parts, rest)
    | rest => return ([part], rest)

/-- How many parts a key may have, and how deep values may be nested. -/
def nestingLimit : Nat :=
  79

/-! ## Values -/

/-- The text after blanks, line ends and comments between the items of an array. -/
def skipFiller : Nat → List Char → List Char
  | 0, source => source
  | fuel + 1, source =>
    match lineEnd? (skipComment (skipSpaces source)) with
    | some rest => skipFiller fuel rest
    | none => skipSpaces source

/-- Reads past the items of an array up to its closing bracket. -/
def skipItems (skipItem : List Char → Option (List Char)) :
    Nat → List Char → Option (List Char)
  | 0, _ => none
  | fuel + 1, source =>
    match skipFiller source.length source with
    | ']' :: rest => some rest
    | source => do
      let rest ← skipItem source
      match skipFiller rest.length rest with
      | ']' :: rest => return rest
      | ',' :: rest => skipItems skipItem fuel rest
      | _ => none

/-- Reads the entries of a table within braces, up to the closing brace. -/
def skipPairs (skipItem : List Char → Option (List Char)) :
    Nat → Entries → List Char → Option (List Char)
  | 0, _, _ => none
  | fuel + 1, entries, source => do
    let (key, rest) ← readKey nestingLimit source
    match rest with
    | '=' :: rest =>
      let rest ← skipItem (skipSpaces rest)
      let entries ← assign .other key entries
      match skipSpaces rest with
      | '\x7d' :: rest => return rest
      | ',' :: rest => skipPairs skipItem fuel entries rest
      | _ => none
    | _ => none

/-- Reads a plain word; a date may be followed by one blank and a time. -/
def readPlain (source : List Char) : Option (TomlValue × List Char) :=
  let word := source.takeWhile isPlain
  let rest := source.dropWhile isPlain
  match rest with
  | ' ' :: digit :: after =>
    if isDate word ∧ digit.isDigit then
      let time := (digit :: after).takeWhile isPlain
      (plainValue? (word ++ ' ' :: time)).map fun content =>
        (content, (digit :: after).dropWhile isPlain)
    else (plainValue? word).map fun content => (content, rest)
  | _ => (plainValue? word).map fun content => (content, rest)

/-- Reads a value inside which arrays and tables may be nested to the given depth. -/
def readValue : Nat → List Char → Option (TomlValue × List Char)
  | depth, source =>
    match source with
    | '"' :: '"' :: '"' :: rest =>
      (skipBlock '"' (rest.length + 1) rest).map fun rest => (.other, rest)
    | '"' :: rest => (readBasic rest).map fun (_, rest) => (.other, rest)
    | '\'' :: '\'' :: '\'' :: rest =>
      (skipBlock '\'' (rest.length + 1) rest).map fun rest => (.other, rest)
    | '\'' :: rest => (readLiteral rest).map fun (_, rest) => (.other, rest)
    | '[' :: rest =>
      match depth with
      | 0 => none
      | depth + 1 =>
        (skipItems (fun item => (readValue depth item).map (·.2)) (rest.length + 1) rest).map
          fun rest => (.other, rest)
    | '\x7b' :: rest =>
      match depth with
      | 0 => none
      | depth + 1 =>
        match skipSpaces rest with
        | '\x7d' :: rest => some (.other, rest)
        | rest =>
          (skipPairs (fun item => (readValue depth item).map (·.2)) (rest.length + 1) []
            rest).map fun rest => (.other, rest)
    | source => readPlain source

/-! ## Lines -/

/-- The tree so far, and the path of the table that keys go to. -/
structure Progress where
  entries : Entries
  path : List String

/-- Reads a header after its opening brackets; it ends with as many closing ones. -/
def readHeader (closing : List Char) (source : List Char) :
    Option (List String × List Char) := do
  let (path, rest) ← readKey nestingLimit source
  if rest.take closing.length = closing then return (path, rest.drop closing.length)
  else none

/-- Reads one line that starts with something other than blanks, and says what is left
of the line. -/
def readLine (progress : Progress) (source : List Char) :
    Option (Progress × List Char) :=
  match source with
  | '[' :: '[' :: rest => do
    let (path, rest) ← readHeader [']', ']'] rest
    let key ← path.getLast?
    let entries ← atHeader (openTable key) path.dropLast progress.entries
    return (⟨entries, path⟩, rest)
  | '[' :: rest => do
    let (path, rest) ← readHeader [']'] rest
    let key ← path.getLast?
    let entries ← atHeader (stateTable key) path.dropLast progress.entries
    return (⟨entries, path⟩, rest)
  | source => do
    let (key, rest) ← readKey nestingLimit source
    match rest with
    | '=' :: rest =>
      let (content, rest) ← readValue nestingLimit (skipSpaces rest)
      let entries ← atHeader (assign content key) progress.path progress.entries
      return ({ progress with entries }, rest)
    | _ => none

/-- Reads lines until the document ends. -/
def readLines : Nat → Progress → List Char → Option Entries
  | 0, _, _ => none
  | fuel + 1, progress, source =>
    match finishLine? source with
    | some [] => some progress.entries
    | some rest => readLines fuel progress rest
    | none => do
      let (progress, rest) ← readLine progress (skipSpaces source)
      match ← finishLine? rest with
      | [] => return progress.entries
      | rest => readLines fuel progress rest

/-- Reads a document: the entries of its outermost table. -/
def ofText? (source : String) : Option Entries :=
  match source.toList with
  | '\ufeff' :: rest => readLines (rest.length + 2) ⟨[], []⟩ rest
  | rest => readLines (rest.length + 2) ⟨[], []⟩ rest

end Tabula.Toml
