import Tabula.Proofs.Table.Alignment
import Tabula.Proofs.Table.Reinsertion
import Tabula.Proofs.Value.Documents

/-!
# Tables through documents

A row is written as pairs of a column name and a tree, and such pairs are read as inputs
by name.  What is read for a finite value is coerced back to it by its column, and null
is read for an empty cell.  So the inputs differ from the stored cells in their kinds
only, a table treats the ones as it treats the others, and a table without rows takes
the stored rows as they are.
-/

namespace Tabula

/-! ## Cells -/

/-- An input that a column of the stored cell's kind turns into the stored cell. -/
inductive Restores : Cell → Cell → Prop
  | empty : Restores none none
  | value {read stored : Value} (back : read.convert stored.kind = .ok stored) :
      Restores (some read) (some stored)

/-- The finite cells are read back as inputs that restore them. -/
theorem exists_ofJson_cellToJson {cell : Cell}
    (finite : ∀ value, some value = cell → value.isFinite = true) :
    ∃ read, Value.ofJson (Value.cellToJson cell) = .ok read ∧ Restores read cell := by
  cases cell with
  | none => exact ⟨none, rfl, .empty⟩
  | some value =>
      rcases Value.exists_ofJson_toJson (finite value rfl) with ⟨read, accepted, back⟩
      exact ⟨some read, accepted, .value back⟩

namespace Table

/-- A column does with an input what it does with the stored cell that it restores. -/
theorem prepareCell_of_restores {name : String} {field : Field} {ledger : Ledger}
    {read stored : Cell} (restores : Restores read stored) (suits : field.Suits stored) :
    prepareCell name field ledger read = prepareCell name field ledger stored := by
  cases restores with
  | empty => rfl
  | @value read stored back =>
      have kind : field.kind = .scalar stored.kind := suits
      have same : read.coerce field.kind = stored.coerce field.kind := by
        rw [kind, Value.coerce_scalar, Value.coerce_scalar, back, Value.convert_self]
      have given : filled field ledger (some read) = some read := rfl
      have kept : filled field ledger (some stored) = some stored := rfl
      simp only [prepareCell, given, kept, same]

theorem prepareCells_of_restores {name : String} {fields : List Field}
    {ledgers : List Ledger} {reads row : List Cell}
    (restores : List.Forall₂ Restores reads row)
    (suits : List.Forall₂ Field.Suits fields row) :
    prepareCells name fields ledgers reads = prepareCells name fields ledgers row := by
  induction suits generalizing ledgers reads with
  | nil => rfl
  | cons here _ inductionHypothesis =>
      cases restores with
      | cons first others =>
          cases ledgers with
          | nil => rfl
          | cons ledger ledgers =>
              simp only [prepareCells, List.head?_cons, Option.getD_some, List.tail_cons,
                prepareCell_of_restores first here, inductionHypothesis others]

/-- A table treats inputs that restore rows of its columns like those rows. -/
theorem addEach_of_restores (table : Table) {batch rows : List (List Cell)}
    (restores : List.Forall₂ (List.Forall₂ Restores) batch rows)
    (suits : ∀ row ∈ rows, List.Forall₂ Field.Suits table.flat.fields row) :
    table.addEach batch = table.addEach rows := by
  induction restores generalizing table with
  | nil => rfl
  | @cons reads row _ _ here _ inductionHypothesis =>
      rw [List.forall_mem_cons] at suits
      have same : table.addRow reads = table.addRow row := by
        rw [addRow, prepareRow, prepareCells_of_restores here suits.1]
        rfl
      rw [addEach_cons, addEach_cons, same]
      cases accepted : table.addRow row with
      | error refusal => rfl
      | ok next =>
          rcases addRow_eq_ok_iff.mp accepted with ⟨stored, _, rfl⟩
          exact inductionHypothesis (table.storeRow stored) suits.2

end Table

/-! ## Rows -/

/-- A row as pairs of column names and trees. -/
def FlatSchema.writeRow (flat : FlatSchema) (row : Row) : List (String × Json) :=
  (flat.nameCells row).map fun (name, cell) => (name, Value.cellToJson cell)

/-- The inputs by name that pairs of names and trees stand for. -/
def readInputs (entries : List (String × Json)) :
    Except ValueError (List (String × Cell)) :=
  entries.mapM fun (name, tree) => (Value.ofJson tree).map (name, ·)

theorem readInputs_zip {names : List String} {row reads : List Cell}
    (each : List.Forall₂
      (fun cell read => Value.ofJson (Value.cellToJson cell) = .ok read) row reads) :
    readInputs ((names.zip row).map fun (name, cell) => (name, Value.cellToJson cell)) =
      .ok (names.zip reads) := by
  rw [readInputs, mapM_eq_ok_iff, List.forall₂_map_left_iff]
  induction each generalizing names with
  | nil =>
      rw [List.zip_nil_right]
      exact .nil
  | cons here _ inductionHypothesis =>
      cases names with
      | nil => exact .nil
      | cons name names =>
          apply List.Forall₂.cons
          · exact congrArg (Except.map (name, ·)) here
          · exact inductionHypothesis

/-- A row of finite cells is read back as inputs that restore it. -/
theorem exists_readInputs_writeRow {flat : FlatSchema} {row : Row}
    (finite : ∀ value, some value ∈ row → value.isFinite = true) :
    ∃ reads, readInputs (flat.writeRow row) = .ok (flat.nameCells reads) ∧
      List.Forall₂ Restores reads row := by
  have each : ∀ cell ∈ row, ∃ read,
      Value.ofJson (Value.cellToJson cell) = .ok read ∧ Restores read cell := by
    intro cell among
    apply exists_ofJson_cellToJson
    rintro value rfl
    exact finite value among
  rcases exists_forall₂ each with ⟨reads, restored⟩
  refine ⟨reads, readInputs_zip ?_, ?_⟩
  · exact restored.imp fun _ _ => And.left
  · exact (restored.imp fun _ _ => And.right).flip

namespace Table

/-- Rows given by the names of their columns are stored as rows given by position. -/
theorem addNamedRows_nameCells {table : Table} {batch : List (List Cell)}
    (widths : ∀ row ∈ batch, row.length = table.flat.fields.length) :
    table.addNamedRows (batch.map table.flat.nameCells) = table.addRows batch := by
  have same : batch.map (table.align ∘ table.flat.nameCells) = batch.map id :=
    List.map_congr_left fun row among => align_nameCells (widths row among)
  rw [addNamedRows, List.map_map, same, List.map_id]

/-! ## Tables -/

namespace Reachable

variable {table : Table}

/-- Storing the rows of a reachable table leads to it, up to its name. -/
theorem storeRows_rows_of_name (reached : table.Reachable) (name : String) :
    (ofSchema name table.flat).storeRows table.rows = { table with name } := by
  have whole := reached.storeRows_rows
  rw [storeRows_eq] at whole ⊢
  exact congrArg (fun other => { other with name }) whole

/-- The rows of a reachable table whose reals are finite survive a trip through
documents: written cell by cell under the names of their columns, read again and given
by names to a table without rows, they are accepted and give the table back. -/
theorem rows_survive_documents (reached : table.Reachable) (name : String)
    (finite : ∀ row ∈ table.rows, ∀ value, some value ∈ row → value.isFinite = true) :
    ∃ batch, (table.rows.map table.flat.writeRow).mapM readInputs = .ok batch ∧
      ((ofSchema name table.flat).addNamedRows batch).result = .ok table.rows.length ∧
      ((ofSchema name table.flat).addNamedRows batch).state = { table with name } := by
  have obeys := reached.sound.obeys
  have each : ∀ row ∈ table.rows, ∃ reads,
      readInputs (table.flat.writeRow row) = .ok (table.flat.nameCells reads) ∧
        reads.length = table.flat.fields.length ∧ List.Forall₂ Restores reads row := by
    intro row among
    rcases exists_readInputs_writeRow (finite row among) with ⟨reads, read, restores⟩
    exact ⟨reads, read, restores.length_eq.trans (obeys.rows row among).length_eq.symm,
      restores⟩
  rcases exists_forall₂ each with ⟨batch, restored⟩
  have read : (table.rows.map table.flat.writeRow).mapM readInputs =
      .ok (batch.map table.flat.nameCells) := by
    rw [mapM_eq_ok_iff, List.forall₂_map_left_iff, List.forall₂_map_right_iff]
    exact restored.imp fun _ _ => And.left
  rcases (List.forall₂_and_left _ _).mp (restored.imp fun _ _ => And.right).flip with
    ⟨widths, restores⟩
  have stored : (ofSchema name table.flat).addEach batch = .ok { table with name } := by
    rw [addEach_of_restores (ofSchema name table.flat) restores obeys.rows,
      (sound_ofSchema name table.flat).addEach_eq_ok_iff obeys.rows,
      reached.storeRows_rows_of_name name]
    exact ⟨obeys.unique, rfl⟩
  -- Columns are found again by their names, so the inputs may as well be given by position.
  have named : (ofSchema name table.flat).addNamedRows (batch.map table.flat.nameCells) =
      (ofSchema name table.flat).addRows batch := addNamedRows_nameCells widths
  refine ⟨_, read, ?_⟩
  rw [named, ← restores.length_eq]
  exact addRows_of_addEach_eq_ok stored

end Reachable

/-- Samples with numbers from a counter, sizes of 32 bits and notes that may be missing. -/
def sampleSchema : FlatSchema where
  schema :=
    { name := "Sample"
      fields :=
        [.single
          { name := "id", typeText := "int32", autoIncrement := true, unique := true
            shape := .scalar (.integer .bits32) none },
        .single
          { name := "size", typeText := "float32", shape := .scalar (.real .bits32) none },
        .single
          { name := "note", typeText := "string", nullable := true
            shape := .scalar .text none }]
      distinct := by decide +kernel }
  flat := by decide
  counted := by decide

/-- Two samples, the first of them with a size that no short decimal equals. -/
def sampleTable : Table :=
  ((ofSchema "Samples" sampleSchema).perform
    (.addRows [[none, some (.text "0.1"), none],
      [none, some (.boolean true), some (.text "null")]])).state

theorem sampleTable_survives_documents :
    sampleTable.Reachable ∧
      (∀ row ∈ sampleTable.rows, ∀ value, some value ∈ row → value.isFinite = true) ∧
      ∃ batch, (sampleTable.rows.map sampleTable.flat.writeRow).mapM readInputs = .ok batch ∧
        ((ofSchema "Copies" sampleTable.flat).addNamedRows batch).result = .ok 2 ∧
        ((ofSchema "Copies" sampleTable.flat).addNamedRows batch).state =
          { sampleTable with name := "Copies" } := by
  have reached : sampleTable.Reachable := .step (.start "Samples" sampleSchema) _
  have checked : (sampleTable.rows.all fun row => row.all fun cell =>
      cell.all Value.isFinite) = true := by decide +kernel
  have size : sampleTable.rows.length = 2 := by decide +kernel
  have finite : ∀ row ∈ sampleTable.rows, ∀ value, some value ∈ row →
      value.isFinite = true := by
    intro row among value stored
    rw [List.all_eq_true] at checked
    exact List.all_eq_true.mp (checked row among) (some value) stored
  rw [← size]
  exact ⟨reached, finite, Reachable.rows_survive_documents reached "Copies" finite⟩

end Table

end Tabula
