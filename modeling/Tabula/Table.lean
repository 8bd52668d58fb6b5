import Tabula.Schema.Compatibility
import Tabula.Schema.Flat
import Tabula.Table.Error
import Tabula.Table.Ledger
import Tabula.Value.Coercion

/-!
# Tables

A table holds rows whose cells stand in the order of the fields of a flat schema.  A
row is prepared cell by cell before anything is stored: an empty cell takes the number
of the column's counter or the column's fallback, a value is coerced to the column's
kind, and a unique column refuses a value that it holds already.  Only a row whose cells
all pass changes the table.
-/

namespace Tabula

/-- The cells of one row, in the order of the columns. -/
abbrev Row := List Cell

/-- Rows over a flat schema. -/
structure Table where
  name : String
  flat : FlatSchema
  rows : List Row
  ledgers : List Ledger

namespace Table

/-- The table without rows. -/
def ofSchema (name : String) (flat : FlatSchema) : Table where
  name
  flat
  rows := []
  ledgers := flat.fields.map Ledger.ofField

/-- The schema of the rows. -/
def schema (table : Table) : Schema :=
  table.flat.schema

/-- The position of the column with the given name. -/
def column? (table : Table) (name : String) : Option Nat :=
  table.schema.position? name

/-- The value of a row in a named column, if there is one. -/
def cell (table : Table) (row : Nat) (name : String) : Cell := do
  let column ← table.column? name
  let cells ← table.rows[row]?
  let cell ← cells[column]?
  cell

/-! ## Preparing rows -/

/-- What goes into a cell: the input, else the column's next number, else its
fallback. -/
def filled (field : Field) (ledger : Ledger) (input : Cell) : Cell :=
  (input.or (ledger.next?.map (Value.integer .bits64))).or field.head.fallback

/-- The cell that a column stores for an input. -/
def prepareCell (table : String) (field : Field) (ledger : Ledger) (input : Cell) :
    Except TableError Cell :=
  match filled field ledger input with
  | none =>
    if field.head.nullable then .ok none else .error (.nullNotAllowed table field.name)
  | some value =>
    match value.coerce field.kind with
    | .error refusal => .error (.coercion table field.name refusal)
    | .ok coerced =>
      if ledger.holds coerced then
        .error (.uniqueViolation table field.name coerced.toText)
      else .ok (some coerced)

/-- The cells that the columns store for a list of inputs.  Missing inputs are empty and
further ones are ignored. -/
def prepareCells (table : String) : List Field → List Ledger → List Cell →
    Except TableError Row
  | field :: fields, ledger :: ledgers, inputs => do
    let cell ← prepareCell table field ledger (inputs.head?.getD none)
    let cells ← prepareCells table fields ledgers inputs.tail
    return cell :: cells
  | _, _, _ => .ok []

/-- The row that the table stores for a list of inputs. -/
def prepareRow (table : Table) (inputs : List Cell) : Except TableError Row :=
  prepareCells table.name table.flat.fields table.ledgers inputs

/-- Stores a row that was prepared. -/
def storeRow (table : Table) (row : Row) : Table :=
  { table with
    rows := table.rows ++ [row]
    ledgers := List.zipWith Ledger.store table.ledgers row }

/-- The table with one more row, given by position. -/
def addRow (table : Table) (inputs : List Cell) : Except TableError Table := do
  let row ← table.prepareRow inputs
  return table.storeRow row

/-- Inputs by position for inputs by name.  The last input for a column counts, and
names of no column are dropped. -/
def align (table : Table) (inputs : List (String × Cell)) : List Cell :=
  inputs.foldl
    (fun row (name, cell) =>
      match table.column? name with
      | none => row
      | some column => row.set column cell)
    (List.replicate table.flat.fields.length none)

/-- The table with one more row, given by names. -/
def addNamedRow (table : Table) (inputs : List (String × Cell)) : Except TableError Table :=
  table.addRow (table.align inputs)

/-- The table without its rows, as it was in the beginning. -/
def clear (table : Table) : Table :=
  { table with rows := [], ledgers := table.ledgers.map Ledger.reset }

/-! ## Searching -/

/-- The row has a value with the given key in a column. -/
def rowMatches (column : Nat) (wanted : CellKey) (row : Row) : Bool :=
  match row[column]? with
  | some (some value) => CellKey.of value = wanted
  | _ => false

/-- The first row whose named column equals a value once that has the column's kind. -/
def findRow? (table : Table) (name : String) (value : Value) : Option Row := do
  let column ← table.column? name
  let field ← table.flat.fields[column]?
  let wanted ← (value.coerce field.kind).toOption
  table.rows.find? (rowMatches column (CellKey.of wanted))

/-- Rows may pass between the tables. -/
def compatible (left right : Table) : Bool :=
  left.schema.compatible right.schema

@[simp]
theorem rows_storeRow (table : Table) (row : Row) :
    (table.storeRow row).rows = table.rows ++ [row] :=
  rfl

/-- An accepted row is appended to the others. -/
theorem addRow_eq_ok_iff {table result : Table} {inputs : List Cell} :
    table.addRow inputs = .ok result ↔
      ∃ row, table.prepareRow inputs = .ok row ∧ result = table.storeRow row := by
  unfold addRow
  cases prepared : table.prepareRow inputs with
  | error refusal => simp [bind, Except.bind]
  | ok row =>
      simp [bind, Except.bind, pure, Except.pure, eq_comm]

end Table

end Tabula
