import Mathlib.Data.List.Find
import Tabula.Proofs.Schema.Lookup
import Tabula.Proofs.Table.CompatibleMerge

/-!
# Unique columns and searches

A unique column refuses a value by the keys that its ledger remembers, and a search looks
for the value among the rows.  Both have to say the same: the ledger knows a key exactly
when some row has it in the column, whatever became of the table before.

A row is refused or stored for what its cells become, so it may be replaced by the row of
the values that would be stored, which the columns take as they are.
-/

namespace Tabula

/-! ## What would be stored -/

/-- What a column makes of a filled cell before keys are compared: an empty one may stay
empty, and a value becomes a value of the kind of the column. -/
inductive Field.Admits (field : Field) : Cell → Cell → Prop where
  | empty (nullable : field.head.nullable = true) : Admits field none none
  | value {given stored : Value} (accepted : given.coerce field.kind = .ok stored) :
      Admits field (some given) (some stored)

/-- The row that columns make of inputs before keys are compared.  Missing inputs are
empty and further ones are ignored. -/
inductive Field.AdmitsEach : List Field → List Ledger → List Cell → Row → Prop where
  | nil {inputs : List Cell} : AdmitsEach [] [] inputs []
  | cons {field : Field} {fields : List Field} {ledger : Ledger} {ledgers : List Ledger}
      {inputs : List Cell} {cell : Cell} {cells : Row}
      (here : field.Admits (Table.filled field ledger (inputs.head?.getD none)) cell)
      (further : AdmitsEach fields ledgers inputs.tail cells) :
      AdmitsEach (field :: fields) (ledger :: ledgers) inputs (cell :: cells)

namespace Table

/-- All cells of a row of inputs can be filled, coerced and left empty as the columns of
the table demand, and the given row is what would be stored. -/
def Admits (table : Table) (inputs : List Cell) (row : Row) : Prop :=
  Field.AdmitsEach table.flat.fields table.ledgers inputs row

/-- An admitted cell suits its column. -/
theorem suits_of_admits {field : Field} {ledger : Ledger} {input cell : Cell}
    (counted : ledger.counter.isSome = field.head.autoIncrement)
    (admits : field.Admits (filled field ledger input) cell) : field.Suits cell := by
  cases given : filled field ledger input with
  | none =>
      rw [given] at admits
      cases admits with
      | empty nullable =>
          simp only [filled, Option.or_eq_none_iff, Option.map_eq_none_iff, Ledger.next?] at given
          rcases given with ⟨⟨_, uncounted⟩, fallback⟩
          refine ⟨nullable, fallback, ?_⟩
          rw [← counted, uncounted]
          rfl
  | some value =>
      rw [given] at admits
      cases admits with
      | value accepted => exact Value.kind_of_coerce accepted

/-- A column does with an input what it does with the cell that the input becomes. -/
theorem prepareCell_of_admits {name : String} {field : Field} {ledger : Ledger}
    {input cell : Cell} (admits : field.Admits (filled field ledger input) cell) :
    prepareCell name field ledger input = prepareCell name field ledger cell := by
  cases given : filled field ledger input with
  | none =>
      rw [given] at admits
      cases admits with
      | empty _ =>
          have vacant : input = none := by
            rw [filled, Option.or_eq_none_iff, Option.or_eq_none_iff] at given
            exact given.1.1
          rw [vacant]
  | some value =>
      rw [given] at admits
      cases admits with
      | @value _ stored accepted =>
          have kind : field.kind = .scalar stored.kind := Value.kind_of_coerce accepted
          have again : stored.coerce field.kind = .ok stored := by
            rw [kind]
            exact stored.convert_self
          have givenAgain : filled field ledger (some stored) = some stored := rfl
          simp only [prepareCell, given, accepted, givenAgain, again]

theorem prepareCells_of_admits {name : String} {fields : List Field} {ledgers : List Ledger}
    {inputs : List Cell} {row : Row} (admits : Field.AdmitsEach fields ledgers inputs row) :
    prepareCells name fields ledgers inputs = prepareCells name fields ledgers row := by
  induction admits with
  | nil => rfl
  | cons here _ inductionHypothesis =>
      simp only [prepareCells, List.head?_cons, Option.getD_some, List.tail_cons]
      rw [prepareCell_of_admits here, inductionHypothesis]

/-- A table does with inputs what it does with the row that they become. -/
theorem addRow_of_admits {table : Table} {inputs : List Cell} {row : Row}
    (admits : table.Admits inputs row) : table.addRow inputs = table.addRow row := by
  rw [addRow, addRow, prepareRow, prepareRow, prepareCells_of_admits admits]

theorem forall₂_suits_of_admits {fields : List Field} {ledgers : List Ledger}
    {inputs : List Cell} {row : Row}
    (counted : List.Forall₂
      (fun field ledger => ledger.counter.isSome = field.head.autoIncrement) fields ledgers)
    (admits : Field.AdmitsEach fields ledgers inputs row) :
    List.Forall₂ Field.Suits fields row := by
  induction admits with
  | nil => exact .nil
  | cons here _ inductionHypothesis =>
      cases counted with
      | cons countedHere countedFurther =>
          exact .cons (suits_of_admits countedHere here) (inductionHypothesis countedFurther)

/-! ## Searching for a value of the kind of the column -/

/-- A search by a name looks for the value, in the kind of the column, among the cells at
the position of the column. -/
theorem findRow?_of_column? {table : Table} {name : String} {column : Nat} {field : Field}
    (named : table.column? name = some column)
    (fieldAt : table.flat.fields[column]? = some field) (value : Value) :
    table.findRow? name value = (value.coerce field.kind).toOption.bind fun wanted =>
      table.rows.find? (rowMatches column (CellKey.of wanted)) := by
  simp only [findRow?, named, Option.bind_some, Option.bind_eq_bind, fieldAt]

/-- A value that suits a column is looked for as it is. -/
theorem findRow?_of_suits {table : Table} {column : Nat} {field : Field}
    (fieldAt : table.flat.fields[column]? = some field) {value : Value}
    (suits : field.Suits (some value)) :
    table.findRow? field.name value =
      table.rows.find? (rowMatches column (CellKey.of value)) := by
  have kind : field.kind = .scalar value.kind := suits
  have same : value.coerce field.kind = .ok value := by
    rw [kind]
    exact value.convert_self
  rw [findRow?_of_column? (Schema.position?_of_getElem? fieldAt) fieldAt, same]
  rfl

theorem rowMatches_iff {column : Nat} {key : CellKey} {row : Row} :
    rowMatches column key row = true ↔
      ∃ value, row[column]? = some (some value) ∧ CellKey.of value = key := by
  unfold rowMatches
  split
  · rename_i value found
    simp [found]
  · rename_i absent
    simp only [Bool.false_eq_true, false_iff, not_exists, not_and]
    intro value found
    exact absurd found (absent value)

/-- Some row has the value in the column exactly when its key is among those of the
column. -/
theorem isSome_findRow?_iff {table : Table} {column : Nat} {field : Field}
    (fieldAt : table.flat.fields[column]? = some field) {value : Value}
    (suits : field.Suits (some value)) :
    (table.findRow? field.name value).isSome = true ↔
      CellKey.of value ∈ storedKeys (table.columnCells column) := by
  rw [findRow?_of_suits fieldAt suits, List.find?_isSome, mem_storedKeys_iff]
  simp only [rowMatches_iff, columnCells, List.mem_map]
  constructor
  · rintro ⟨row, stored, held, found, same⟩
    exact ⟨held, ⟨row, stored, by rw [found, Option.join_some]⟩, same⟩
  · rintro ⟨held, ⟨row, stored, found⟩, same⟩
    exact ⟨row, stored, held, Option.join_eq_some_iff.mp found, same⟩

/-! ## The ledgers and the rows -/

/-- A search for a value of the row in some unique column finds a row of the table. -/
def FindsSome (table : Table) (row : Row) : Prop :=
  ∃ (column : Nat) (field : Field) (value : Value),
    table.flat.fields[column]? = some field ∧ field.head.unique = true ∧
      row[column]? = some (some value) ∧ (table.findRow? field.name value).isSome = true

/-- The keys of a table stay apart with one more row exactly when a search finds none of
its values in a unique column. -/
theorem Sound.keysDistinct_storeRow_iff {table : Table} (sound : table.Sound) {row : Row}
    (suits : List.Forall₂ Field.Suits table.flat.fields row) :
    (table.storeRow row).KeysDistinct ↔ ¬table.FindsSome row := by
  constructor
  · rintro distinct ⟨column, field, value, fieldAt, unique, cellAt, found⟩
    obtain ⟨cell, sameCell, fits⟩ := exists_getElem?_of_forall₂ suits fieldAt
    cases cellAt.symm.trans sameCell
    have apart := distinct column field fieldAt unique
    rw [columnCells_storeRow, cellAt, Option.join_some,
      Ledger.nodup_storedKeys_append_some] at apart
    exact apart.2 ((isSome_findRow?_iff fieldAt fits).mp found)
  · intro finds column field fieldAt unique
    have fieldOf : table.flat.fields[column]? = some field := fieldAt
    have apart := sound.obeys.unique column field fieldOf unique
    obtain ⟨cell, cellAt, fits⟩ := exists_getElem?_of_forall₂ suits fieldOf
    rw [columnCells_storeRow, cellAt, Option.join_some]
    cases cell with
    | none => simpa [storedKeys] using apart
    | some value =>
        rw [Ledger.nodup_storedKeys_append_some]
        refine ⟨apart, ?_⟩
        intro held
        exact finds ⟨column, field, value, fieldOf, unique, cellAt,
          (isSome_findRow?_iff fieldOf fits).mpr held⟩

/-- A search finds the last row when no other row has the value. -/
theorem findRow?_storeRow {table : Table} {column : Nat} {field : Field} {row : Row}
    {value : Value} (fieldAt : table.flat.fields[column]? = some field)
    (suits : field.Suits (some value)) (cellAt : row[column]? = some (some value))
    (unfound : table.findRow? field.name value = none) :
    (table.storeRow row).findRow? field.name value = some row := by
  have hit : rowMatches column (CellKey.of value) row = true :=
    rowMatches_iff.mpr ⟨value, cellAt, rfl⟩
  rw [findRow?_of_suits fieldAt suits] at unfound
  have grownAt : (table.storeRow row).flat.fields[column]? = some field := fieldAt
  rw [findRow?_of_suits grownAt suits, rows_storeRow, List.find?_append, unfound,
    Option.none_or]
  exact List.find?_cons_of_pos hit

/-- The ledgers and the rows of a reachable table agree about every row whose cells are all
admitted.  It is refused for a key exactly when a search finds one of its values in a
unique column.  Otherwise it is stored as the last row, and in each unique column a search
for its value finds that row and has found none before. -/
theorem Reachable.ledgers_agree_with_searches {table : Table} (reached : table.Reachable)
    {inputs : List Cell} {row : Row} (admits : table.Admits inputs row) :
    ((∃ column shown,
        table.addRow inputs = .error (.uniqueViolation table.name column shown)) ↔
      table.FindsSome row) ∧
    (¬table.FindsSome row → ∃ grown, table.addRow inputs = .ok grown ∧
      grown.rows = table.rows ++ [row] ∧
      ∀ (column : Nat) (field : Field) (value : Value),
        table.flat.fields[column]? = some field → field.head.unique = true →
          row[column]? = some (some value) →
            table.findRow? field.name value = none ∧
              grown.findRow? field.name value = some row) := by
  have sound := reached.sound
  have suits := forall₂_suits_of_admits sound.counted admits
  have stores : table.addRow row = .ok (table.storeRow row) ↔
      ¬table.FindsSome row := by
    rw [sound.addRow_eq_ok_iff suits, and_iff_left rfl, sound.keysDistinct_storeRow_iff suits]
  rw [addRow_of_admits admits]
  constructor
  · constructor
    · rintro ⟨column, shown, refused⟩
      by_contra unfound
      rw [stores.mpr unfound] at refused
      cases refused
    · intro found
      cases outcome : table.addRow row with
      | ok grown =>
          obtain ⟨distinct, _⟩ := (sound.addRow_eq_ok_iff suits).mp outcome
          exact absurd found ((sound.keysDistinct_storeRow_iff suits).mp distinct)
      | error refusal =>
          obtain ⟨field, _, _, value, rfl⟩ := sound.violates_of_addRow suits outcome
          exact ⟨field.name, value.toText, rfl⟩
  · intro unfound
    refine ⟨table.storeRow row, stores.mpr unfound, rows_storeRow table row, ?_⟩
    intro column field value fieldAt unique cellAt
    obtain ⟨cell, sameCell, fits⟩ := exists_getElem?_of_forall₂ suits fieldAt
    cases cellAt.symm.trans sameCell
    have before : table.findRow? field.name value = none := by
      rw [← Option.isNone_iff_eq_none, ← Option.not_isSome, Bool.not_eq_true',
        ← Bool.not_eq_true]
      intro found
      exact unfound ⟨column, field, value, fieldAt, unique, cellAt, found⟩
    exact ⟨before, findRow?_storeRow fieldAt fits cellAt before⟩

/-- An axe again, as it would be stored next. -/
def twinAxe : Row :=
  [some (.integer .bits32 ⟨2, by decide, by decide⟩), some (.text "AXE")]

/-- A bow with a number of its own. -/
def numberedBow : Row :=
  [some (.integer .bits32 ⟨8, by decide, by decide⟩), some (.text "Bow")]

theorem itemTable_admits_twinAxe : itemTable.Admits [none, some (.text "AXE")] twinAxe :=
  .cons (.value rfl) (.cons (.value rfl) .nil)

theorem itemTable_admits_numberedBow :
    itemTable.Admits [some (.text "8"), some (.text "Bow")] numberedBow :=
  .cons (.value rfl) (.cons (.value rfl) .nil)

theorem itemTable_agrees_with_searches :
    itemTable.Reachable ∧ itemTable.Admits [none, some (.text "AXE")] twinAxe ∧
      itemTable.Admits [some (.text "8"), some (.text "Bow")] numberedBow ∧
      itemTable.FindsSome twinAxe ∧ ¬itemTable.FindsSome numberedBow ∧
      ∃ grown, itemTable.addRow [some (.text "8"), some (.text "Bow")] = .ok grown ∧
        grown.rows = itemTable.rows ++ [numberedBow] ∧
        grown.findRow? "name" (.text "Bow") = some numberedBow := by
  have refused : itemTable.addRow [none, some (.text "AXE")] =
      .error (.uniqueViolation "Items" "name" "AXE") := by rfl
  have found := (Reachable.ledgers_agree_with_searches reachable_itemTable
    itemTable_admits_twinAxe).1.mp ⟨_, _, refused⟩
  have agreed := Reachable.ledgers_agree_with_searches reachable_itemTable
    itemTable_admits_numberedBow
  have unfound : ¬itemTable.FindsSome numberedBow := by
    intro finds
    obtain ⟨column, shown, violated⟩ := agreed.1.mpr finds
    have stored : (itemTable.addRow [some (.text "8"), some (.text "Bow")]).isOk = true := by
      rfl
    rw [violated] at stored
    cases stored
  obtain ⟨grown, accepted, rows, searches⟩ := agreed.2 unfound
  obtain ⟨_, last⟩ := searches 1 _ (.text "Bow") rfl rfl rfl
  exact ⟨reachable_itemTable, itemTable_admits_twinAxe, itemTable_admits_numberedBow, found,
    unfound, grown, accepted, rows, last⟩

end Table

end Tabula
