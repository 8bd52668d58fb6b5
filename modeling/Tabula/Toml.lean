/-!
# TOML trees

A tree is built line by line.  A table remembers how it came about, because a header may
state a table only once, dotted keys may not reopen a stated table, and a value is never
extended.  Of values that no one asks for, only the sort is kept.
-/

namespace Tabula

/-- A value of a TOML document. -/
inductive TomlValue where
  | boolean (bit : Bool)
  | integer (number : Int)
  /-- A value of a sort that is only checked to be well written. -/
  | other
  deriving DecidableEq

/-- How a table came about. -/
inductive TomlOrigin where
  /-- By a header of its own, or as the whole document. -/
  | stated
  /-- As a part of the path of a header. -/
  | implied
  /-- As a part of a dotted key. -/
  | dotted
  deriving DecidableEq

/-- A TOML tree. -/
inductive Toml where
  | value (content : TomlValue)
  | table (origin : TomlOrigin) (entries : List (String × Toml))
  /-- An array of tables, the current one first. -/
  | tables (last : List (String × Toml)) (earlier : List (List (String × Toml)))

namespace Toml

/-- The entries of a table. -/
abbrev Entries := List (String × Toml)

/-- What stands under a key. -/
def find? (entries : Entries) (key : String) : Option Toml :=
  (entries.find? (·.1 = key)).map (·.2)

/-- Puts a tree under a key, in place of what stood there. -/
def put (entries : Entries) (key : String) (tree : Toml) : Entries :=
  (key, tree) :: entries.filter (·.1 ≠ key)

/-- Changes the table at the end of a path of a header.  Tables on the way are implied
when they are missing, and an array of tables is entered at its current table. -/
def atHeader (change : Entries → Option Entries) : List String → Entries → Option Entries
  | [], entries => change entries
  | key :: path, entries =>
    match find? entries key with
    | none => do
      let below ← atHeader change path []
      return put entries key (table .implied below)
    | some (value _) => none
    | some (table origin below) => do
      let below ← atHeader change path below
      return put entries key (table origin below)
    | some (tables last earlier) => do
      let last ← atHeader change path last
      return put entries key (tables last earlier)

/-- Puts a value under a dotted key, which has to be new.  The table that receives it has
to come from dotted keys itself; tables further up may also be implied by headers. -/
def assign (content : TomlValue) : List String → Entries → Option Entries
  | [], _ => none
  | [key], entries =>
    match find? entries key with
    | none => some (put entries key (value content))
    | some _ => none
  | key :: path, entries =>
    match find? entries key with
    | none => do
      let below ← assign content path []
      return put entries key (table .dotted below)
    | some (table .dotted below) => do
      let below ← assign content path below
      return put entries key (table .dotted below)
    | some (table .implied below) =>
      if path.length < 2 then none
      else do
        let below ← assign content path below
        return put entries key (table .implied below)
    | some (tables last earlier) =>
      if path.length < 2 then none
      else do
        let last ← assign content path last
        return put entries key (tables last earlier)
    | some _ => none

/-- States a table by its header. -/
def stateTable (key : String) (entries : Entries) : Option Entries :=
  match find? entries key with
  | none => some (put entries key (table .stated []))
  | some (table .implied below) => some (put entries key (table .stated below))
  | some _ => none

/-- Opens one more table of an array of tables. -/
def openTable (key : String) (entries : Entries) : Option Entries :=
  match find? entries key with
  | none => some (put entries key (tables [] []))
  | some (tables last earlier) => some (put entries key (tables [] (last :: earlier)))
  | some _ => none

end Toml

end Tabula
