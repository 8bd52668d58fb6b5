import Tabula.Proofs.Table.Merging

/-!
# Taking over rows of compatible tables

Rows may pass between tables whose schemas are compatible.  Compatible columns have one
kind, so a value is taken over as it is, and both or neither of them have a counter.  But
fallbacks take no part in compatibility: a cell that could stay empty in the one table
meets a fallback in the other, and is filled from it.
-/

namespace Tabula

/-! ## Filling empty cells -/

/-- What a column holds for a cell that is taken over: an empty cell takes the fallback, as
a value of the column's kind. -/
def Field.refill (field : Field) : Cell → Cell
  | some value => some value
  | none => field.head.fallback.bind fun fallback => (fallback.coerce field.kind).toOption

/-- What a table holds for a row that is taken over. -/
def FlatSchema.refill (flat : FlatSchema) (row : Row) : Row :=
  List.zipWith Field.refill flat.fields row

/-- The cell of the row in a column is not empty, or the column has no fallback. -/
def FlatSchema.KeepsAt (flat : FlatSchema) (column : Nat) (row : Row) : Prop :=
  ∀ field : Field, flat.fields[column]? = some field → row[column]? = some none →
    field.head.fallback = none

/-- No cell of the row is empty in a column that has a fallback. -/
def FlatSchema.Keeps (flat : FlatSchema) (row : Row) : Prop :=
  ∀ column, flat.KeepsAt column row

theorem FlatSchema.refill_eq_self {flat : FlatSchema} {row : Row}
    (width : row.length = flat.fields.length) (keeps : flat.Keeps row) :
    flat.refill row = row := by
  apply List.ext_getElem
  · rw [refill, List.length_zipWith, width, Nat.min_self]
  · intro column bound cellBound
    simp only [refill, List.getElem_zipWith]
    cases cell : row[column] with
    | some value => rfl
    | none =>
        have vacant := keeps column _ (List.getElem?_eq_getElem (width ▸ cellBound))
          (by rw [List.getElem?_eq_getElem cellBound, cell])
        rw [Field.refill, vacant]
        rfl

/-- Rows that a table holds keep their empty cells, for nothing could have filled them. -/
theorem FlatSchema.keeps_of_suits {flat : FlatSchema} {row : Row}
    (suits : List.Forall₂ Field.Suits flat.fields row) : flat.Keeps row := by
  intro column field fieldAt empty
  obtain ⟨cell, cellAt, here⟩ := exists_getElem?_of_forall₂ suits fieldAt
  rw [empty, Option.some.injEq] at cellAt
  subst cellAt
  exact here.2.1

namespace Table

/-- A cell of a compatible column is taken over with its value, or filled. -/
theorem eq_refill_of_prepareCell {name : String} {field other : Field} {ledger : Ledger}
    {cell stored : Cell} (counted : ledger.counter.isSome = field.head.autoIncrement)
    (agree : field.compatible other = true) (suits : other.Suits cell)
    (prepared : prepareCell name field ledger cell = .ok stored) :
    stored = field.refill cell := by
  cases cell with
  | some value =>
      have kind : field.kind = .scalar value.kind :=
        (Field.kind_eq_of_compatible agree).trans suits
      have fits : field.Suits (some value) := kind
      exact ((prepareCell_eq_ok_iff counted fits).mp prepared).2
  | none =>
      rcases suits with ⟨_, _, manual⟩
      rw [Field.autoIncrement_eq_of_compatible agree, manual, Option.isSome_eq_false_iff,
        Option.isNone_iff_eq_none] at counted
      have only : filled field ledger none = field.head.fallback := by
        simp [filled, Ledger.next?, counted]
      rw [prepareCell, only] at prepared
      rw [Field.refill]
      cases fallback : field.head.fallback with
      | none =>
          simp only [fallback] at prepared
          split at prepared
          · cases prepared
            rfl
          · cases prepared
      | some value =>
          simp only [fallback] at prepared
          cases coerced : value.coerce field.kind with
          | error refusal =>
              rw [coerced] at prepared
              cases prepared
          | ok result =>
              simp only [coerced] at prepared
              split at prepared
              · cases prepared
              · cases prepared
                rw [Option.bind_some, coerced]
                rfl

theorem eq_refill_of_prepareCells {name : String} {fields others : List Field}
    {ledgers : List Ledger} {row stored : Row}
    (counted : List.Forall₂
      (fun field ledger => ledger.counter.isSome = field.head.autoIncrement) fields ledgers)
    (agree : List.Forall₂ (fun field other => field.compatible other = true) fields others)
    (suits : List.Forall₂ Field.Suits others row)
    (prepared : prepareCells name fields ledgers row = .ok stored) :
    stored = List.zipWith Field.refill fields row := by
  induction counted generalizing others row stored with
  | nil =>
      cases prepared
      rfl
  | cons countedHere _ inductionHypothesis =>
      cases agree with
      | cons agreeHere agreeFurther =>
          cases suits with
          | cons here further =>
              simp only [prepareCells, List.head?_cons, Option.getD_some, List.tail_cons,
                bind_eq_ok_iff, pure_eq_ok_iff] at prepared
              rcases prepared with ⟨cell, first, cells, rest, rfl⟩
              rw [List.zipWith_cons_cons,
                eq_refill_of_prepareCell countedHere agreeHere here first,
                inductionHypothesis agreeFurther further rest]

namespace Sound

variable {table other : Table}

/-- Rows of a compatible table are stored behind the others, refilled. -/
theorem eq_storeRows_of_addEach {rows : List Row} {reached : Table} (sound : table.Sound)
    (agree : table.compatible other = true)
    (suits : ∀ row ∈ rows, List.Forall₂ Field.Suits other.flat.fields row)
    (stored : table.addEach rows = .ok reached) :
    reached = table.storeRows (rows.map table.flat.refill) := by
  induction rows generalizing table with
  | nil =>
      cases stored
      rfl
  | cons row rows inductionHypothesis =>
      rw [List.forall_mem_cons] at suits
      rw [addEach_cons, bind_eq_ok_iff] at stored
      rcases stored with ⟨next, accepted, rest⟩
      have further := sound.addRow accepted
      rcases Table.addRow_eq_ok_iff.mp accepted with ⟨first, prepared, rfl⟩
      have refilled : first = table.flat.refill row :=
        eq_refill_of_prepareCells sound.counted (compatibleFields_iff.mp agree) suits.1
          prepared
      rw [inductionHypothesis further agree suits.2 rest, List.map_cons, storeRows_cons, refilled]
      rfl

/-- A merged table is stored behind the other rows, refilled. -/
theorem state_merge_of_compatible (sound : table.Sound) (obeys : other.Obeys)
    (accepted : (table.merge other).result = .ok ()) :
    (table.merge other).state = table.storeRows (other.rows.map table.flat.refill) ∧
      (table.storeRows (other.rows.map table.flat.refill)).Sound := by
  unfold merge at accepted ⊢
  split at accepted
  · rename_i agree
    rw [if_pos agree]
    rcases addRows_cases sound.aligned other.rows with ⟨refusal, result, _⟩ | ⟨result, stored⟩
    · simp only [result] at accepted
      cases accepted
    · have state := sound.eq_storeRows_of_addEach agree obeys.rows stored
      simp only [result]
      exact ⟨state, state ▸ sound.addEach stored⟩
  · cases accepted

end Sound

end Table

end Tabula
