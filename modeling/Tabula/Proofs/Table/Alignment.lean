import Tabula.Proofs.Schema.Lookup
import Tabula.Table

/-!
# Inputs by name

Inputs by name are written one after another into a row of empty cells.  A column that no
input names is left empty, and a row that is given by the names of all its columns comes
back as it was.
-/

namespace Tabula

/-- The cells of a row, each under the name of its column. -/
def FlatSchema.nameCells (flat : FlatSchema) (cells : List Cell) : List (String × Cell) :=
  (flat.fields.map Field.name).zip cells

namespace Table

/-- The row with one more input by name written into it. -/
def writeInput (table : Table) (row : List Cell) (input : String × Cell) : List Cell :=
  match table.column? input.1 with
  | none => row
  | some column => row.set column input.2

theorem align_eq_foldl (table : Table) (inputs : List (String × Cell)) :
    table.align inputs =
      inputs.foldl table.writeInput (List.replicate table.flat.fields.length none) :=
  rfl

theorem writeInput_of_column? {table : Table} {name : String} {column : Nat}
    (named : table.column? name = some column) (row : List Cell) (cell : Cell) :
    table.writeInput row (name, cell) = row.set column cell := by
  rw [writeInput, named]

/-- An input leaves alone the columns that it does not name. -/
theorem getElem?_writeInput_of_ne {table : Table} {input : String × Cell} {column : Nat}
    (other : table.column? input.1 ≠ some column) (row : List Cell) :
    (table.writeInput row input)[column]? = row[column]? := by
  cases named : table.column? input.1 with
  | none => rw [writeInput, named]
  | some found =>
      rw [named, ne_eq, Option.some.injEq] at other
      rw [writeInput, named]
      exact List.getElem?_set_ne other

theorem getElem?_foldl_writeInput {table : Table} {inputs : List (String × Cell)}
    {column : Nat} (unnamed : ∀ input ∈ inputs, table.column? input.1 ≠ some column)
    (row : List Cell) : (inputs.foldl table.writeInput row)[column]? = row[column]? := by
  induction inputs generalizing row with
  | nil => rfl
  | cons input inputs inductionHypothesis =>
      rw [List.forall_mem_cons] at unnamed
      rw [List.foldl_cons, inductionHypothesis unnamed.2,
        getElem?_writeInput_of_ne unnamed.1]

/-- A column that no input names gets an empty cell. -/
theorem align_of_unnamed {table : Table} {inputs : List (String × Cell)} {column : Nat}
    (unnamed : ∀ input ∈ inputs, table.column? input.1 ≠ some column) :
    (table.align inputs)[column]?.getD none = none := by
  rw [align_eq_foldl, getElem?_foldl_writeInput unnamed, List.getElem?_replicate]
  split <;> rfl

/-- Inputs for the remaining columns fill the row from where it is still empty. -/
theorem foldl_writeInput {table : Table} (passed : List Field) {rest : List Field}
    (columns : table.flat.fields = passed ++ rest) (filled : List Cell) {cells : List Cell}
    (before : filled.length = passed.length) (width : cells.length = rest.length) :
    ((rest.map Field.name).zip cells).foldl table.writeInput
        (filled ++ List.replicate rest.length none) =
      filled ++ cells := by
  -- One more column is passed and one more cell filled, which makes its position the next.
  induction rest generalizing passed filled cells with
  | nil =>
      rw [List.length_nil, List.length_eq_zero_iff] at width
      rw [width]
      rfl
  | cons field rest inductionHypothesis =>
      cases cells with
      | nil => cases width
      | cons cell cells =>
          have fieldAt : table.flat.fields[filled.length]? = some field := by
            rw [columns, before, List.getElem?_append_right (Nat.le_refl _), Nat.sub_self]
            rfl
          have named : table.column? field.name = some filled.length :=
            Schema.position?_of_getElem? fieldAt
          have written : (filled ++ List.replicate (rest.length + 1) none).set filled.length
              cell = (filled ++ [cell]) ++ List.replicate rest.length none := by
            simp [List.replicate_succ]
          rw [List.map_cons, List.zip_cons_cons, List.foldl_cons,
            writeInput_of_column? named, List.length_cons, written,
            inductionHypothesis (passed ++ [field])]
          · simp
          · simpa using columns
          · simpa using before
          · simpa using width

/-- A row that is given by the names of its columns is the row. -/
theorem align_nameCells {table : Table} {cells : List Cell}
    (width : cells.length = table.flat.fields.length) :
    table.align (table.flat.nameCells cells) = cells :=
  foldl_writeInput [] rfl [] rfl width

end Table

end Tabula
