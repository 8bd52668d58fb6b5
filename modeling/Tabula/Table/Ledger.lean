import Tabula.Field
import Tabula.Value.CellKey

/-!
# Column ledgers

A table keeps a ledger for each column: the comparison keys of a unique column, and the
counter of a column whose empty cells are filled with numbers.  The counter stays ahead
of every number stored in the column.
-/

namespace Tabula

/-- The counter of a column. -/
structure Counter where
  seed : Long
  /-- The number for the next empty cell. -/
  next : Long
  deriving DecidableEq

/-- The counter after a value was stored: past it, and never back. -/
def Counter.passing (counter : Counter) (value : Value) : Counter :=
  match value.asLong? with
  | none => counter
  | some number => { counter with next := counter.next.max number.next }

/-- The bookkeeping of one column. -/
structure Ledger where
  /-- The keys of the stored values, in a unique column. -/
  keys : Option (List CellKey)
  /-- The counter, in a column that has one. -/
  counter : Option Counter
  deriving DecidableEq

/-- The seed of a counter that declares none. -/
def defaultSeed : Long :=
  .ofBool .bits64 true

namespace Ledger

/-- The ledger of a column without rows. -/
def ofField (field : Field) : Ledger where
  keys := if field.head.unique then some [] else none
  counter :=
    if field.head.autoIncrement then
      let seed := field.head.seed.getD defaultSeed
      some ⟨seed, seed⟩
    else none

/-- The number for the next empty cell. -/
def next? (ledger : Ledger) : Option Long :=
  ledger.counter.map (·.next)

/-- The column is unique and holds an equal value. -/
def holds (ledger : Ledger) (value : Value) : Bool :=
  match ledger.keys with
  | none => false
  | some keys => keys.contains (CellKey.of value)

/-- The ledger after a cell was stored. -/
def store (ledger : Ledger) : Cell → Ledger
  | none => ledger
  | some value =>
    { keys := ledger.keys.map (List.insert (CellKey.of value))
      counter := ledger.counter.map (Counter.passing · value) }

/-- The ledger without the key of a cell that is taken back. -/
def forget (ledger : Ledger) : Cell → Ledger
  | none => ledger
  | some value => { ledger with keys := ledger.keys.map (List.erase · (CellKey.of value)) }

/-- The ledger with its counter set back to an earlier number. -/
def rewind (ledger : Ledger) (next : Option Long) : Ledger :=
  match ledger.counter, next with
  | some counter, some next => { ledger with counter := some { counter with next } }
  | _, _ => ledger

/-- The ledger of the column once all rows are gone. -/
def reset (ledger : Ledger) : Ledger where
  keys := ledger.keys.map fun _ => []
  counter := ledger.counter.map fun counter => { counter with next := counter.seed }

/-- Resetting a column gives it the ledger it started with. -/
@[simp]
theorem reset_ofField (field : Field) : (ofField field).reset = ofField field := by
  unfold ofField reset
  cases field.head.unique <;> cases field.head.autoIncrement <;> rfl

end Ledger

end Tabula
