import Mathlib.Data.List.Nodup
import Tabula.Proofs.Correspondence
import Tabula.Proofs.Table.Integrity

/-!
# Storing stored rows again

A stored row fits its columns.  So a table with the same columns takes its cells as they
are: no value is coerced to another, and no empty cell is filled from a counter or a
fallback.  The one thing that such a table can object to is a key that a unique column
holds already.

The rows of a reachable table share no keys.  Adding them to the table without rows
therefore gives the table back, and with it its ledgers: the keys of a column are those
of its cells, and its counter stands at the furthest number that a cell pushed it to.
-/

namespace Tabula

/-! ## What a ledger knows of the cells of its column -/

/-- The numbers that the counter of a column has been moved to: its seed, and for every
stored number the next one, or the last one of 64 bits. -/
def counterMarks (seed : Long) (cells : List Cell) : List Int :=
  seed.value :: (cells.filterMap fun cell => cell.bind Value.asLong?).map fun number =>
    min (number.value + 1) IntegerWidth.bits64.maximum

/-- The furthest mark after one more cell. -/
theorem max?_counterMarks_append {seed : Long} {cells : List Cell} {furthest : Int}
    (known : (counterMarks seed cells).max? = some furthest) (cell : Cell) :
    (counterMarks seed (cells ++ [cell])).max? =
      some (match cell.bind Value.asLong? with
        | none => furthest
        | some number => max furthest (min (number.value + 1) IntegerWidth.bits64.maximum)) := by
  rw [counterMarks, List.max?_cons'] at known ⊢
  rw [Option.some.injEq] at known ⊢
  rw [List.filterMap_append, List.map_append, List.foldl_append, known]
  cases found : cell.bind Value.asLong? with
  | none => simp [found]
  | some number => simp [found]

namespace Ledger

/-- The ledger holds what the cells of its column tell: the keys of a unique column are
those of its cells, and the counter stands at the furthest of its marks. -/
structure Records (ledger : Ledger) (field : Field) (cells : List Cell) : Prop where
  keys : field.head.unique = true →
    ∃ keys, ledger.keys = some keys ∧ ∀ key, key ∈ keys ↔ key ∈ storedKeys cells
  noKeys : field.head.unique = false → ledger.keys = none
  counter : field.head.autoIncrement = true →
    ∃ counter, ledger.counter = some counter ∧
      counter.seed = field.head.seed.getD defaultSeed ∧
      (counterMarks counter.seed cells).max? = some counter.next.value
  noCounter : field.head.autoIncrement = false → ledger.counter = none

theorem next_passing (counter : Counter) (value : Value) :
    (counter.passing value).next.value =
      match value.asLong? with
      | none => counter.next.value
      | some number =>
        max counter.next.value (min (number.value + 1) IntegerWidth.bits64.maximum) := by
  unfold Counter.passing
  cases value.asLong? with
  | none => rfl
  | some number => simp [Whole.next_value]

theorem counter_ofCells {field : Field} (automatic : field.head.autoIncrement = true)
    (cells : List Cell) :
    ∃ counter, (ofCells field cells).counter = some counter ∧
      counter.seed = field.head.seed.getD defaultSeed ∧
      (counterMarks counter.seed cells).max? = some counter.next.value := by
  induction cells using List.reverseRecOn with
  | nil => simp [ofField, automatic, counterMarks]
  | append_singleton cells cell inductionHypothesis =>
      rcases inductionHypothesis with ⟨counter, known, seed, furthest⟩
      rw [ofCells_append_singleton]
      cases cell with
      | none =>
          refine ⟨counter, known, seed, ?_⟩
          rw [max?_counterMarks_append furthest]
          rfl
      | some value =>
          refine ⟨counter.passing value, by simp [store, known], ?_, ?_⟩
          · rw [seed_passing, seed]
          · rw [seed_passing, max?_counterMarks_append furthest, next_passing]
            rfl

theorem records_ofCells (field : Field) (cells : List Cell) :
    (ofCells field cells).Records field cells where
  keys unique := mem_keys_ofCells unique cells
  noKeys plain := keys_ofCells_eq_none plain cells
  counter automatic := counter_ofCells automatic cells
  noCounter manual := by
    rw [← Option.isSome_eq_false_iff.trans Option.isNone_iff_eq_none, isSome_counter_ofCells,
      manual]

end Ledger

namespace Table

/-! ## Preparing rows that were stored before -/

/-- A cell that suits its column is taken as it is, or not at all. -/
theorem prepareCell_eq_ok_iff {name : String} {field : Field} {ledger : Ledger}
    {cell stored : Cell} (counted : ledger.counter.isSome = field.head.autoIncrement)
    (suits : field.Suits cell) :
    prepareCell name field ledger cell = .ok stored ↔ ledger.Fresh cell ∧ stored = cell := by
  cases cell with
  | none =>
      rcases suits with ⟨nullable, fallback, manual⟩
      rw [manual, Option.isSome_eq_false_iff, Option.isNone_iff_eq_none] at counted
      have empty : filled field ledger none = none := by
        simp [filled, Ledger.next?, counted, fallback]
      simp [prepareCell, empty, nullable, Ledger.Fresh, eq_comm (a := stored)]
  | some value =>
      have kind : field.kind = .scalar value.kind := suits
      have given : filled field ledger (some value) = some value := rfl
      have same : value.coerce (.scalar value.kind) = .ok value := value.convert_self
      cases held : ledger.holds value with
      | false => simp [prepareCell, given, kind, same, held, Ledger.Fresh, eq_comm (a := stored)]
      | true => simp [prepareCell, given, kind, same, held, Ledger.Fresh]

theorem prepareCells_eq_ok_iff {name : String} {fields : List Field} {ledgers : List Ledger}
    {row stored : Row}
    (counted : List.Forall₂
      (fun field ledger => ledger.counter.isSome = field.head.autoIncrement) fields ledgers)
    (suits : List.Forall₂ Field.Suits fields row) :
    prepareCells name fields ledgers row = .ok stored ↔
      List.Forall₂ Ledger.Fresh ledgers row ∧ stored = row := by
  induction counted generalizing row stored with
  | nil =>
      cases suits
      simp [prepareCells, eq_comm]
  | cons countedHere _ inductionHypothesis =>
      cases suits with
      | cons here further =>
          simp only [prepareCells, List.head?_cons, Option.getD_some, List.tail_cons,
            bind_eq_ok_iff, pure_eq_ok_iff, prepareCell_eq_ok_iff countedHere here,
            inductionHypothesis further, List.forall₂_cons]
          constructor
          · rintro ⟨cell, ⟨fresh, rfl⟩, cells, ⟨others, rfl⟩, rfl⟩
            exact ⟨⟨fresh, others⟩, rfl⟩
          · rintro ⟨⟨fresh, others⟩, rfl⟩
            exact ⟨_, ⟨fresh, rfl⟩, _, ⟨others, rfl⟩, rfl⟩

/-! ## Sound tables -/

/-- What holds of every reachable table: columns and ledgers stand side by side, the
ledgers tell of the stored cells, and the rows obey the schema. -/
structure Sound (table : Table) : Prop where
  aligned : table.Aligned
  tracked : table.Tracked
  obeys : table.Obeys

theorem Reachable.sound {table : Table} (reached : table.Reachable) : table.Sound := by
  obtain ⟨aligned, tracked, obeys⟩ := reached.invariant
  exact ⟨aligned, tracked, obeys⟩

theorem sound_ofSchema (name : String) (flat : FlatSchema) : (ofSchema name flat).Sound :=
  ⟨aligned_ofSchema name flat, tracked_ofSchema name flat, obeys_ofSchema name flat⟩

/-- No unique column holds a key twice. -/
def KeysDistinct (table : Table) : Prop :=
  ∀ column field, table.flat.fields[column]? = some field → field.head.unique = true →
    (storedKeys (table.columnCells column)).Nodup

namespace Sound

variable {table : Table}

theorem storeRow {inputs : List Cell} {row : Row} (sound : table.Sound)
    (prepared : table.prepareRow inputs = .ok row) : (table.storeRow row).Sound :=
  ⟨sound.aligned.storeRow prepared, sound.tracked.storeRow prepared,
    sound.obeys.storeRow sound.aligned sound.tracked prepared⟩

theorem addEach {batch : List (List Cell)} {reached : Table} (sound : table.Sound)
    (stored : table.addEach batch = .ok reached) : reached.Sound :=
  addEach_induction stored sound fun known prepared => known.storeRow prepared

theorem addRow {inputs : List Cell} {next : Table} (sound : table.Sound)
    (accepted : table.addRow inputs = .ok next) : next.Sound := by
  rcases Table.addRow_eq_ok_iff.mp accepted with ⟨row, prepared, rfl⟩
  exact sound.storeRow prepared

theorem counted (sound : table.Sound) :
    List.Forall₂ (fun field ledger => ledger.counter.isSome = field.head.autoIncrement)
      table.flat.fields table.ledgers := by
  rw [List.forall₂_iff_get]
  constructor
  · exact sound.aligned.symm
  · intro column fieldBound ledgerBound
    have known := sound.tracked column _ (List.getElem?_eq_getElem fieldBound)
    rw [List.getElem?_eq_getElem ledgerBound, Option.some.injEq] at known
    rw [List.get_eq_getElem, List.get_eq_getElem, known]
    exact Ledger.isSome_counter_ofCells _ _

/-- The cells of a row are new to their columns exactly when the keys stay apart. -/
theorem fresh_iff (sound : table.Sound) {row : Row}
    (suits : List.Forall₂ Field.Suits table.flat.fields row) :
    List.Forall₂ Ledger.Fresh table.ledgers row ↔ (table.storeRow row).KeysDistinct := by
  have width : table.ledgers.length = row.length := sound.aligned.trans suits.length_eq
  constructor
  · intro fresh column field fieldAt unique
    have ledgerAt := sound.tracked column field fieldAt
    obtain ⟨cell, cellAt, here⟩ := exists_getElem?_of_forall₂ fresh ledgerAt
    rw [columnCells_storeRow, cellAt, Option.join_some]
    exact (Ledger.fresh_ofCells_iff (sound.obeys.unique column field fieldAt)).mp here unique
  · intro distinct
    rw [List.forall₂_iff_get]
    constructor
    · exact width
    · intro column ledgerBound cellBound
      have fieldBound : column < table.flat.fields.length := by
        rw [← sound.aligned]
        exact ledgerBound
      have fieldAt := List.getElem?_eq_getElem fieldBound
      have ledgerAt := sound.tracked column _ fieldAt
      have cellAt := List.getElem?_eq_getElem cellBound
      rw [List.getElem?_eq_getElem ledgerBound, Option.some.injEq] at ledgerAt
      rw [List.get_eq_getElem, List.get_eq_getElem, ledgerAt,
        Ledger.fresh_ofCells_iff (sound.obeys.unique column _ fieldAt)]
      intro unique
      have apart := distinct column _ fieldAt unique
      rw [columnCells_storeRow, cellAt, Option.join_some] at apart
      exact apart

/-- A sound table takes a row that fits its columns as it is, or not at all. -/
theorem addRow_eq_ok_iff (sound : table.Sound) {row : Row}
    (suits : List.Forall₂ Field.Suits table.flat.fields row) {result : Table} :
    table.addRow row = .ok result ↔
      (table.storeRow row).KeysDistinct ∧ result = table.storeRow row := by
  rw [Table.addRow_eq_ok_iff, ← sound.fresh_iff suits]
  constructor
  · rintro ⟨stored, prepared, rfl⟩
    obtain ⟨fresh, rfl⟩ := (prepareCells_eq_ok_iff sound.counted suits).mp prepared
    exact ⟨fresh, rfl⟩
  · rintro ⟨fresh, rfl⟩
    exact ⟨row, (prepareCells_eq_ok_iff sound.counted suits).mpr ⟨fresh, rfl⟩, rfl⟩

end Sound

/-! ## Many rows -/

/-- The table with rows stored behind those that it holds, whatever their cells. -/
def storeRows (table : Table) (rows : List Row) : Table :=
  rows.foldl storeRow table

@[simp]
theorem storeRows_nil (table : Table) : table.storeRows [] = table :=
  rfl

@[simp]
theorem storeRows_cons (table : Table) (row : Row) (rows : List Row) :
    table.storeRows (row :: rows) = (table.storeRow row).storeRows rows :=
  rfl

theorem storeRows_append (table : Table) (first second : List Row) :
    table.storeRows (first ++ second) = (table.storeRows first).storeRows second :=
  List.foldl_append

theorem storeRows_eq (table : Table) (rows : List Row) :
    table.storeRows rows = { table with
      rows := table.rows ++ rows
      ledgers := rows.foldl (List.zipWith Ledger.store) table.ledgers } := by
  induction rows generalizing table with
  | nil => simp
  | cons row rows inductionHypothesis =>
      rw [storeRows_cons, inductionHypothesis]
      simp [storeRow]

@[simp]
theorem rows_storeRows (table : Table) (rows : List Row) :
    (table.storeRows rows).rows = table.rows ++ rows := by
  rw [storeRows_eq]

@[simp]
theorem flat_storeRows (table : Table) (rows : List Row) :
    (table.storeRows rows).flat = table.flat := by
  rw [storeRows_eq]

theorem columnCells_storeRows (table : Table) (rows : List Row) (column : Nat) :
    (table.storeRows rows).columnCells column =
      table.columnCells column ++ rows.map fun row => row[column]?.join := by
  rw [columnCells, rows_storeRows, List.map_append]
  rfl

/-- Keys that stay apart while rows are added were apart before. -/
theorem KeysDistinct.of_storeRows {table : Table} {rows : List Row}
    (distinct : (table.storeRows rows).KeysDistinct) : table.KeysDistinct := by
  intro column field fieldAt unique
  rw [← flat_storeRows table rows] at fieldAt
  have whole := distinct column field fieldAt unique
  rw [columnCells_storeRows, storedKeys_append] at whole
  exact whole.of_append_left

namespace Sound

variable {table : Table}

/-- A sound table takes rows that fit its columns as they are, and refuses one of them
exactly when a unique column would hold a key twice. -/
theorem addEach_eq_ok_iff (sound : table.Sound) {rows : List Row}
    (suits : ∀ row ∈ rows, List.Forall₂ Field.Suits table.flat.fields row) {result : Table} :
    table.addEach rows = .ok result ↔
      (table.storeRows rows).KeysDistinct ∧ result = table.storeRows rows := by
  induction rows generalizing table with
  | nil =>
      constructor
      · rintro ⟨⟩
        exact ⟨sound.obeys.unique, rfl⟩
      · rintro ⟨_, rfl⟩
        rfl
  | cons row rows inductionHypothesis =>
      rw [List.forall_mem_cons] at suits
      rcases suits with ⟨here, further⟩
      rw [addEach_cons, bind_eq_ok_iff, storeRows_cons]
      constructor
      · rintro ⟨next, accepted, rest⟩
        obtain ⟨_, rfl⟩ := (sound.addRow_eq_ok_iff here).mp accepted
        exact (inductionHypothesis (sound.addRow accepted) further).mp rest
      · rintro ⟨distinct, rfl⟩
        have accepted := (sound.addRow_eq_ok_iff here).mpr ⟨distinct.of_storeRows, rfl⟩
        exact ⟨_, accepted,
          (inductionHypothesis (sound.addRow accepted) further).mpr ⟨distinct, rfl⟩⟩

end Sound

/-! ## Rebuilding a table -/

/-- A reachable table holds what storing its rows leaves behind. -/
theorem Reachable.storeRows_rows {table : Table} (reached : table.Reachable) :
    (ofSchema table.name table.flat).storeRows table.rows = table := by
  rcases reached.exists_addEach with ⟨batch, stored⟩
  obtain ⟨rows, same⟩ := exists_rows_of_addEach stored
  have held : table.rows = rows := congrArg Table.rows same
  rw [storeRows_eq, held, ← same]

/-- The rows of a reachable table rebuild it, and its ledgers hold what the cells of their
columns tell. -/
theorem Reachable.rebuilt_from_rows {table : Table} (reached : table.Reachable) :
    (ofSchema table.name table.flat).addEach table.rows = .ok table ∧
      ∀ column field, table.flat.fields[column]? = some field →
        ∃ ledger : Ledger, table.ledgers[column]? = some ledger ∧
          ledger.Records field (table.columnCells column) := by
  have sound := reached.sound
  constructor
  · have again := reached.storeRows_rows
    rw [(sound_ofSchema table.name table.flat).addEach_eq_ok_iff sound.obeys.rows, again]
    exact ⟨sound.obeys.unique, rfl⟩
  · intro column field fieldAt
    exact ⟨_, sound.tracked column field fieldAt, Ledger.records_ofCells field _⟩

theorem itemTable_rebuilt :
    itemTable.Reachable ∧
      itemTable.rows = [[some (.integer .bits32 ⟨1, by decide, by decide⟩), some (.text "Axe")]] ∧
      (ofSchema "Items" itemSchema).addEach itemTable.rows = .ok itemTable ∧
      itemTable.counters = [some ⟨2, by decide, by decide⟩, none] :=
  ⟨reachable_itemTable, rfl, (Reachable.rebuilt_from_rows reachable_itemTable).1, rfl⟩

end Table

end Tabula
