import Tabula.Table
import Tabula.Traced

/-!
# Batches of rows

A batch stores its rows one after another.  When a row is refused, the rows stored so
far are taken back: they leave the table, their keys leave the ledgers, and the
counters return to where they stood before the batch.
-/

namespace Tabula

namespace Table

/-- The numbers at which the counters stand. -/
def counters (table : Table) : List (Option Long) :=
  table.ledgers.map Ledger.next?

/-- Takes the keys of a row out of the ledgers. -/
def forgetRow (ledgers : List Ledger) (row : Row) : List Ledger :=
  List.zipWith Ledger.forget ledgers row

/-- The table with only its first rows and with its counters set back. -/
def rollBack (table : Table) (size : Nat) (counters : List (Option Long)) : Table :=
  { table with
    rows := table.rows.take size
    ledgers :=
      List.zipWith Ledger.rewind ((table.rows.drop size).foldl forgetRow table.ledgers)
        counters }

/-- Stores rows until one is refused; gives the table reached and the refusal. -/
def storeUntilRefused (table : Table) : List (List Cell) → Table × Option TableError
  | [] => (table, none)
  | inputs :: batch =>
    match table.addRow inputs with
    | .error refusal => (table, some refusal)
    | .ok next => next.storeUntilRefused batch

/-- Appends a batch of rows, all of them or none. -/
def addRows (table : Table) (batch : List (List Cell)) : Step Table TableError Nat :=
  match table.storeUntilRefused batch with
  | (reached, none) => ⟨reached, [], .ok batch.length⟩
  | (reached, some refusal) =>
    ⟨reached.rollBack table.rows.length table.counters,
      [.rowsRolledBack (reached.rows.length - table.rows.length) table.name],
      .error refusal⟩

/-- Appends a batch of rows given by names, all of them or none. -/
def addNamedRows (table : Table) (batch : List (List (String × Cell))) :
    Step Table TableError Nat :=
  table.addRows (batch.map table.align)

/-- Appends every row of a table with a compatible schema, all of them or none. -/
def merge (table other : Table) : Step Table TableError Unit :=
  if table.compatible other then
    let step := table.addRows other.rows
    match step.result with
    | .error refusal => ⟨step.state, step.events, .error refusal⟩
    | .ok added =>
      ⟨step.state, step.events ++ [.rowsMerged added other.name table.name], .ok ()⟩
  else ⟨table, [], .error (.incompatible table.name other.name)⟩

end Table

end Tabula
