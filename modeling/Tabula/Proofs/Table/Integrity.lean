import Mathlib.Data.List.Induction
import Mathlib.Data.List.Nodup
import Tabula.Proofs.Table.History

/-!
# Integrity of stored rows

Every row of a reachable table has one cell for every column, every value in it is of
the kind of its column, a cell is empty only where nothing could have filled it, and no
unique column holds two values with one comparison key.

The last part rests on the ledgers: the ledger of a column is the one that storing the
cells of the column one after another leaves behind, so the keys that it knows are the
keys of those cells.
-/

namespace Tabula

/-! ## The ledger of a list of cells -/

/-- The comparison keys of the cells that are not empty. -/
def storedKeys (cells : List Cell) : List CellKey :=
  cells.filterMap (Option.map CellKey.of)

@[simp]
theorem storedKeys_nil : storedKeys [] = [] :=
  rfl

@[simp]
theorem storedKeys_append (first second : List Cell) :
    storedKeys (first ++ second) = storedKeys first ++ storedKeys second :=
  List.filterMap_append

namespace Ledger

/-- The ledger of a column that stored the given cells. -/
def ofCells (field : Field) (cells : List Cell) : Ledger :=
  cells.foldl store (ofField field)

@[simp]
theorem ofCells_nil (field : Field) : ofCells field [] = ofField field :=
  rfl

theorem ofCells_append_singleton (field : Field) (cells : List Cell) (cell : Cell) :
    ofCells field (cells ++ [cell]) = (ofCells field cells).store cell := by
  simp [ofCells]

theorem isSome_counter_store (ledger : Ledger) (cell : Cell) :
    (ledger.store cell).counter.isSome = ledger.counter.isSome := by
  cases cell <;> simp [store]

/-- Exactly the columns that are filled from a counter have one. -/
theorem isSome_counter_ofCells (field : Field) (cells : List Cell) :
    (ofCells field cells).counter.isSome = field.head.autoIncrement := by
  induction cells using List.reverseRecOn with
  | nil => cases automatic : field.head.autoIncrement <;> simp [ofField, automatic]
  | append_singleton cells cell inductionHypothesis =>
      rw [ofCells_append_singleton, isSome_counter_store, inductionHypothesis]

/-- The ledger of a unique column knows exactly the keys of the stored cells. -/
theorem mem_keys_ofCells {field : Field} (unique : field.head.unique = true)
    (cells : List Cell) :
    ∃ keys, (ofCells field cells).keys = some keys ∧
      ∀ key, key ∈ keys ↔ key ∈ storedKeys cells := by
  induction cells using List.reverseRecOn with
  | nil => exact ⟨[], by simp [ofField, unique], by simp⟩
  | append_singleton cells cell inductionHypothesis =>
      rcases inductionHypothesis with ⟨keys, known, exact⟩
      rw [ofCells_append_singleton]
      cases cell with
      | none => exact ⟨keys, known, by simp [exact, storedKeys]⟩
      | some value =>
          refine ⟨keys.insert (CellKey.of value), by simp [store, known], ?_⟩
          intro key
          rw [List.mem_insert_iff, exact, storedKeys_append, List.mem_append, or_comm]
          simp [storedKeys]

theorem isSome_keys_store (ledger : Ledger) (cell : Cell) :
    (ledger.store cell).keys.isSome = ledger.keys.isSome := by
  cases cell <;> simp [store]

/-- Columns that are not unique remember no keys. -/
theorem keys_ofCells_eq_none {field : Field} (plain : field.head.unique = false)
    (cells : List Cell) : (ofCells field cells).keys = none := by
  rw [← Option.isNone_iff_eq_none, ← Option.isSome_eq_false_iff]
  induction cells using List.reverseRecOn with
  | nil => simp [ofField, plain]
  | append_singleton cells cell inductionHypothesis =>
      rw [ofCells_append_singleton, isSome_keys_store, inductionHypothesis]

theorem nodup_storedKeys_append_some {cells : List Cell} {value : Value} :
    (storedKeys (cells ++ [some value])).Nodup ↔
      (storedKeys cells).Nodup ∧ CellKey.of value ∉ storedKeys cells := by
  have last : storedKeys [some value] = [CellKey.of value] := rfl
  rw [storedKeys_append, last, List.nodup_append_comm, List.singleton_append,
    List.nodup_cons, and_comm]

/-- A column that keeps its keys apart takes a cell when the keys stay apart. -/
theorem fresh_ofCells_iff {field : Field} {cells : List Cell} {cell : Cell}
    (distinct : field.head.unique = true → (storedKeys cells).Nodup) :
    (ofCells field cells).Fresh cell ↔
      (field.head.unique = true → (storedKeys (cells ++ [cell])).Nodup) := by
  cases cell with
  | none => simpa [Fresh, storedKeys] using distinct
  | some value =>
      rw [nodup_storedKeys_append_some]
      cases unique : field.head.unique with
      | false => simp [Fresh, holds, keys_ofCells_eq_none unique]
      | true =>
          obtain ⟨keys, known, same⟩ := mem_keys_ofCells unique cells
          simp [Fresh, holds, known, same, distinct unique]

end Ledger

/-! ## What a column takes -/

/-- A column takes values of its own kind.  It is left empty only when it may be empty
and has neither a fallback nor a counter. -/
def Field.Suits (field : Field) : Cell → Prop
  | none =>
    field.head.nullable = true ∧ field.head.fallback = none ∧
      field.head.autoIncrement = false
  | some value => field.kind = .scalar value.kind

theorem Value.kind_of_coerce {value result : Value} {kind : Kind}
    (accepted : value.coerce kind = .ok result) : kind = .scalar result.kind := by
  cases kind with
  | scalar target => rw [kind_of_convert accepted]
  | list => cases accepted
  | embedded => cases accepted
  | lookup => cases accepted
  | unresolved => cases accepted

namespace Table

/-- A prepared cell suits a column that has a counter whenever it is filled from one. -/
theorem suits_of_prepareCell {name : String} {field : Field} {ledger : Ledger}
    {input cell : Cell} (counted : ledger.counter.isSome = field.head.autoIncrement)
    (prepared : prepareCell name field ledger input = .ok cell) : field.Suits cell := by
  unfold prepareCell at prepared
  split at prepared
  · rename_i empty
    split at prepared
    · rename_i nullable
      cases prepared
      simp only [filled, Option.or_eq_none_iff, Option.map_eq_none_iff, Ledger.next?] at empty
      rcases empty with ⟨⟨_, uncounted⟩, fallback⟩
      refine ⟨nullable, fallback, ?_⟩
      rw [← counted, uncounted]
      rfl
    · cases prepared
  · split at prepared
    · cases prepared
    · rename_i coerced accepted
      split at prepared
      · cases prepared
      · cases prepared
        exact Value.kind_of_coerce accepted

/-- The cell of a prepared row in a column was prepared from the input for the column. -/
theorem prepareCell_of_prepareCells {name : String} {fields : List Field}
    {ledgers : List Ledger} {inputs : List Cell} {row : Row}
    (prepared : prepareCells name fields ledgers inputs = .ok row) {column : Nat}
    {field : Field} {ledger : Ledger} (fieldAt : fields[column]? = some field)
    (ledgerAt : ledgers[column]? = some ledger) :
    ∃ cell, row[column]? = some cell ∧
      prepareCell name field ledger (inputs[column]?.getD none) = .ok cell := by
  induction column generalizing fields ledgers inputs row with
  | zero =>
      cases fields with
      | nil => simp at fieldAt
      | cons first fields =>
          cases ledgers with
          | nil => simp at ledgerAt
          | cons firstLedger ledgers =>
              simp only [prepareCells, bind_eq_ok_iff, pure_eq_ok_iff] at prepared
              rcases prepared with ⟨cell, here, cells, _, rfl⟩
              simp only [List.getElem?_cons_zero, Option.some.injEq] at fieldAt ledgerAt
              subst fieldAt ledgerAt
              exact ⟨cell, rfl, by rw [← List.head?_eq_getElem?]; exact here⟩
  | succ column inductionHypothesis =>
      cases fields with
      | nil => simp at fieldAt
      | cons first fields =>
          cases ledgers with
          | nil => simp at ledgerAt
          | cons firstLedger ledgers =>
              simp only [prepareCells, bind_eq_ok_iff, pure_eq_ok_iff] at prepared
              rcases prepared with ⟨cell, _, cells, further, rfl⟩
              rw [List.getElem?_cons_succ] at fieldAt ledgerAt
              obtain ⟨found, foundAt, here⟩ := inductionHypothesis further fieldAt ledgerAt
              rw [List.getElem?_tail] at here
              exact ⟨found, by rw [List.getElem?_cons_succ]; exact foundAt, here⟩

/-! ## The invariant -/

/-- The cells of a column, from the first row to the last. -/
def columnCells (table : Table) (column : Nat) : List Cell :=
  table.rows.map fun row => row[column]?.join

/-- Each ledger is the one that its column's cells leave behind. -/
def Tracked (table : Table) : Prop :=
  ∀ column field, table.flat.fields[column]? = some field →
    table.ledgers[column]? = some (Ledger.ofCells field (table.columnCells column))

/-- The rows fit the columns, and unique columns hold every key once. -/
structure Obeys (table : Table) : Prop where
  rows : ∀ row ∈ table.rows, List.Forall₂ Field.Suits table.flat.fields row
  unique : ∀ column field, table.flat.fields[column]? = some field →
    field.head.unique = true → (storedKeys (table.columnCells column)).Nodup

theorem columnCells_storeRow (table : Table) (row : Row) (column : Nat) :
    (table.storeRow row).columnCells column =
      table.columnCells column ++ [row[column]?.join] := by
  simp [columnCells]

theorem tracked_ofSchema (name : String) (flat : FlatSchema) :
    (ofSchema name flat).Tracked := by
  intro column field fieldAt
  have start : (flat.fields.map Ledger.ofField)[column]? = some (.ofField field) := by
    rw [List.getElem?_map]
    exact congrArg (Option.map Ledger.ofField) fieldAt
  exact start

theorem Tracked.storeRow {table : Table} {inputs : List Cell} {row : Row}
    (tracked : table.Tracked) (prepared : table.prepareRow inputs = .ok row) :
    (table.storeRow row).Tracked := by
  intro column field fieldAt
  have ledgerAt := tracked column field fieldAt
  obtain ⟨cell, cellAt, _⟩ := prepareCell_of_prepareCells prepared fieldAt ledgerAt
  rw [columnCells_storeRow, cellAt, Option.join_some, Ledger.ofCells_append_singleton]
  simp [Table.storeRow, List.getElem?_zipWith, ledgerAt, cellAt]

theorem suits_of_prepareRow {table : Table} {inputs : List Cell} {row : Row}
    (aligned : table.Aligned) (tracked : table.Tracked)
    (prepared : table.prepareRow inputs = .ok row) :
    List.Forall₂ Field.Suits table.flat.fields row := by
  have width : table.flat.fields.length = row.length :=
    aligned.symm.trans (fresh_of_prepareRow aligned prepared).length_eq
  rw [List.forall₂_iff_get]
  constructor
  · exact width
  · intro column fieldBound cellBound
    have fieldAt := List.getElem?_eq_getElem fieldBound
    obtain ⟨cell, cellAt, here⟩ :=
      prepareCell_of_prepareCells prepared fieldAt (tracked column _ fieldAt)
    have suits := suits_of_prepareCell (Ledger.isSome_counter_ofCells _ _) here
    rw [List.getElem?_eq_getElem cellBound, Option.some.injEq] at cellAt
    simpa [cellAt] using suits

/-- A stored row brings no key into a unique column that is there already. -/
theorem nodup_storedKeys_storeRow {table : Table} {inputs : List Cell} {row : Row}
    (tracked : table.Tracked) (prepared : table.prepareRow inputs = .ok row) {column : Nat}
    {field : Field} (fieldAt : table.flat.fields[column]? = some field)
    (unique : field.head.unique = true)
    (distinct : (storedKeys (table.columnCells column)).Nodup) :
    (storedKeys ((table.storeRow row).columnCells column)).Nodup := by
  obtain ⟨cell, cellAt, here⟩ :=
    prepareCell_of_prepareCells prepared fieldAt (tracked column field fieldAt)
  rw [columnCells_storeRow, cellAt, Option.join_some]
  exact (Ledger.fresh_ofCells_iff fun _ => distinct).mp (fresh_of_prepareCell here) unique

theorem Obeys.storeRow {table : Table} {inputs : List Cell} {row : Row}
    (obeys : table.Obeys) (aligned : table.Aligned) (tracked : table.Tracked)
    (prepared : table.prepareRow inputs = .ok row) : (table.storeRow row).Obeys where
  rows := by
    intro member stored
    rw [rows_storeRow, List.mem_append, List.mem_singleton] at stored
    rcases stored with before | same
    · exact obeys.rows member before
    · have suits := suits_of_prepareRow aligned tracked prepared
      rw [same]
      exact suits
  unique := by
    intro column field fieldAt unique
    exact nodup_storedKeys_storeRow tracked prepared fieldAt unique
      (obeys.unique column field fieldAt unique)

theorem obeys_ofSchema (name : String) (flat : FlatSchema) : (ofSchema name flat).Obeys where
  rows := by
    intro row member
    cases member
  unique _ _ _ _ := List.nodup_nil

/-- The invariant of a reachable table in full. -/
theorem Reachable.invariant {table : Table} (reached : table.Reachable) :
    table.Aligned ∧ table.Tracked ∧ table.Obeys := by
  rcases reached.exists_addEach with ⟨batch, stored⟩
  apply addEach_induction
    (motive := fun table => table.Aligned ∧ table.Tracked ∧ table.Obeys) stored
    ⟨aligned_ofSchema _ _, tracked_ofSchema _ _, obeys_ofSchema _ _⟩
  rintro before inputs row ⟨aligned, tracked, obeys⟩ prepared
  exact ⟨aligned.storeRow prepared, tracked.storeRow prepared,
    obeys.storeRow aligned tracked prepared⟩

/-- Whatever operations lead to a table, its rows obey its schema. -/
theorem Reachable.rows_obey_schema {table : Table} (reached : table.Reachable) : table.Obeys :=
  reached.invariant.2.2

theorem itemTable_obeys : itemTable.Reachable ∧ itemTable.Obeys :=
  ⟨reachable_itemTable, Reachable.rows_obey_schema reachable_itemTable⟩

end Table

end Tabula
