import Tabula.Proofs.Outcome
import Tabula.Table.Batch

/-!
# Taking rows back

Storing a cell whose key is new and then forgetting that key restores the keys of the
ledger, and keys are forgotten in any order.  So the rows that a batch stored before it
was refused can be taken back first to last, although they were stored in that order
too, and setting the counters back completes the table from before the batch.

A batch is compared with adding its rows one after another.
-/

namespace Tabula

namespace Ledger

/-! ## One column -/

/-- The ledgers agree in all but the position of their counters. -/
def SameKeys (left right : Ledger) : Prop :=
  left.keys = right.keys ∧ left.counter.map Counter.seed = right.counter.map Counter.seed

/-- A cell that the ledger may store: no equal value is there yet. -/
def Fresh (ledger : Ledger) : Cell → Prop
  | none => True
  | some value => ledger.holds value = false

theorem forget_comm (ledger : Ledger) (first second : Cell) :
    (ledger.forget first).forget second = (ledger.forget second).forget first := by
  cases first with
  | none => rfl
  | some value =>
      cases second with
      | none => rfl
      | some other =>
          simp only [forget, Option.map_map]
          congr 2
          funext keys
          exact List.erase_comm _ _

@[simp]
theorem seed_passing (counter : Counter) (value : Value) :
    (counter.passing value).seed = counter.seed := by
  unfold Counter.passing
  split <;> rfl

/-- Forgetting keys and storing them leave the seed of the counter alone. -/
theorem SameKeys.forget_store {earlier later : Ledger} {cell : Cell}
    (fresh : earlier.Fresh cell) (same : (earlier.store cell).SameKeys later) :
    earlier.SameKeys (later.forget cell) := by
  cases cell with
  | none => exact same
  | some value =>
      rcases same with ⟨sameKeys, sameSeed⟩
      constructor
      · rw [forget, ← sameKeys]
        cases held : earlier.keys with
        | none => simp [store, held]
        | some keys =>
            have absent : CellKey.of value ∉ keys := by
              simpa [Fresh, holds, held] using fresh
            simp [store, held, List.insert_of_not_mem absent]
      · rw [forget, ← sameSeed]
        simp [store, Function.comp_def]

/-- A ledger is complete again once its counter is set back. -/
theorem SameKeys.rewind_eq {earlier later : Ledger} (same : earlier.SameKeys later) :
    later.rewind earlier.next? = earlier := by
  rcases earlier with ⟨keys, counter⟩
  rcases later with ⟨laterKeys, laterCounter⟩
  rcases same with ⟨sameKeys, sameSeed⟩
  simp only at sameKeys sameSeed
  subst sameKeys
  cases counter with
  | none =>
      cases laterCounter with
      | none => rfl
      | some other => simp at sameSeed
  | some counter =>
      cases laterCounter with
      | none => simp at sameSeed
      | some other =>
          simp only [Option.map_some, Option.some.injEq] at sameSeed
          simp [rewind, next?, ← sameSeed]

end Ledger

namespace Table

/-! ## One row -/

/-- Every column has a ledger. -/
def Aligned (table : Table) : Prop :=
  table.ledgers.length = table.flat.fields.length

theorem aligned_ofSchema (name : String) (flat : FlatSchema) : (ofSchema name flat).Aligned := by
  simp [Aligned, ofSchema]

/-- A prepared cell is new to its ledger. -/
theorem fresh_of_prepareCell {name : String} {field : Field} {ledger : Ledger}
    {input cell : Cell} (prepared : prepareCell name field ledger input = .ok cell) :
    ledger.Fresh cell := by
  unfold prepareCell at prepared
  split at prepared
  · split at prepared
    · cases prepared
      trivial
    · cases prepared
  · split at prepared
    · cases prepared
    · split at prepared
      · cases prepared
      · rename_i absent
        cases prepared
        exact Bool.eq_false_iff.mpr absent

/-- The cells of a prepared row stand one to one with the columns, and each is new to
the ledger of its column. -/
theorem fresh_of_prepareCells {name : String} {fields : List Field} {ledgers : List Ledger}
    {inputs : List Cell} {row : Row} (aligned : ledgers.length = fields.length)
    (prepared : prepareCells name fields ledgers inputs = .ok row) :
    List.Forall₂ Ledger.Fresh ledgers row := by
  induction fields generalizing ledgers inputs row with
  | nil =>
      cases ledgers with
      | nil =>
          cases prepared
          exact .nil
      | cons ledger ledgers => simp at aligned
  | cons field fields inductionHypothesis =>
      cases ledgers with
      | nil => simp at aligned
      | cons ledger ledgers =>
          simp only [prepareCells, bind_eq_ok_iff, pure_eq_ok_iff] at prepared
          rcases prepared with ⟨cell, here, cells, further, rfl⟩
          refine .cons (fresh_of_prepareCell here) (inductionHypothesis ?_ further)
          simpa using aligned

theorem fresh_of_prepareRow {table : Table} {inputs : List Cell} {row : Row}
    (aligned : table.Aligned) (prepared : table.prepareRow inputs = .ok row) :
    List.Forall₂ Ledger.Fresh table.ledgers row :=
  fresh_of_prepareCells aligned prepared

theorem Aligned.storeRow {table : Table} {inputs : List Cell} {row : Row}
    (aligned : table.Aligned) (prepared : table.prepareRow inputs = .ok row) :
    (table.storeRow row).Aligned := by
  have width := (fresh_of_prepareRow aligned prepared).length_eq
  simp only [Aligned, Table.storeRow, List.length_zipWith, ← width, Nat.min_self]
  exact aligned

theorem forgetRow_comm (ledgers : List Ledger) (first second : Row) :
    forgetRow (forgetRow ledgers first) second =
      forgetRow (forgetRow ledgers second) first := by
  induction ledgers generalizing first second with
  | nil => rfl
  | cons ledger ledgers inductionHypothesis =>
      cases first with
      | nil => cases second <;> rfl
      | cons cell cells =>
          cases second with
          | nil => rfl
          | cons other others =>
              simp only [forgetRow, List.zipWith_cons_cons] at inductionHypothesis ⊢
              rw [Ledger.forget_comm, inductionHypothesis]

theorem foldl_forgetRow_cons (ledgers : List Ledger) (row : Row) (rows : List Row) :
    (row :: rows).foldl forgetRow ledgers =
      forgetRow (rows.foldl forgetRow ledgers) row := by
  induction rows generalizing ledgers with
  | nil => rfl
  | cons other rows inductionHypothesis =>
      simp only [List.foldl_cons] at inductionHypothesis ⊢
      rw [forgetRow_comm, inductionHypothesis]

/-- Forgetting a row of new cells undoes storing it, up to the counters. -/
theorem sameKeys_forgetRow {earlier later : List Ledger} {row : Row}
    (fresh : List.Forall₂ Ledger.Fresh earlier row)
    (same : List.Forall₂ Ledger.SameKeys (List.zipWith Ledger.store earlier row) later) :
    List.Forall₂ Ledger.SameKeys earlier (forgetRow later row) := by
  induction fresh generalizing later with
  | nil =>
      cases same
      exact .nil
  | cons here further inductionHypothesis =>
      cases same with
      | cons sameHere sameFurther =>
          exact .cons (sameHere.forget_store here) (inductionHypothesis sameFurther)

/-- Ledgers that agree up to their counters are complete once those are set back. -/
theorem zipWith_rewind_eq {earlier later : List Ledger}
    (same : List.Forall₂ Ledger.SameKeys earlier later) :
    List.zipWith Ledger.rewind later (earlier.map Ledger.next?) = earlier := by
  induction same with
  | nil => rfl
  | cons here _ inductionHypothesis =>
      rw [List.map_cons, List.zipWith_cons_cons, here.rewind_eq, inductionHypothesis]

/-! ## Batches -/

/-- The table with rows added one after another, each by position. -/
def addEach (table : Table) (batch : List (List Cell)) : Except TableError Table :=
  batch.foldlM addRow table

theorem addEach_cons (table : Table) (inputs : List Cell) (batch : List (List Cell)) :
    table.addEach (inputs :: batch) = table.addRow inputs >>= (addEach · batch) := by
  simp [addEach]

theorem addEach_append (table : Table) (first second : List (List Cell)) :
    table.addEach (first ++ second) = table.addEach first >>= (addEach · second) := by
  simp [addEach]

/-- Whatever each accepted row preserves, rows added one after another preserve. -/
theorem addEach_induction {motive : Table → Prop} {table reached : Table}
    {batch : List (List Cell)} (stored : table.addEach batch = .ok reached)
    (start : motive table)
    (step : ∀ {before inputs row}, motive before → before.prepareRow inputs = .ok row →
      motive (before.storeRow row)) : motive reached := by
  induction batch generalizing table with
  | nil =>
      cases stored
      exact start
  | cons inputs batch inductionHypothesis =>
      rw [addEach_cons, bind_eq_ok_iff] at stored
      rcases stored with ⟨next, here, further⟩
      rcases addRow_eq_ok_iff.mp here with ⟨row, prepared, rfl⟩
      exact inductionHypothesis further (step start prepared)

theorem Aligned.addEach {table reached : Table} {batch : List (List Cell)}
    (aligned : table.Aligned) (stored : table.addEach batch = .ok reached) :
    reached.Aligned :=
  addEach_induction stored aligned fun aligned prepared => aligned.storeRow prepared

/-- Adding rows only appends to the rows that are there. -/
theorem exists_rows_of_addEach {table reached : Table} {batch : List (List Cell)}
    (stored : table.addEach batch = .ok reached) :
    ∃ rows, reached = { table with
      rows := table.rows ++ rows
      ledgers := rows.foldl (List.zipWith Ledger.store) table.ledgers } := by
  induction batch generalizing table with
  | nil =>
      cases stored
      exact ⟨[], by simp⟩
  | cons inputs batch inductionHypothesis =>
      rw [addEach_cons, bind_eq_ok_iff] at stored
      rcases stored with ⟨next, here, further⟩
      rcases addRow_eq_ok_iff.mp here with ⟨row, prepared, rfl⟩
      obtain ⟨rows, rfl⟩ := inductionHypothesis further
      exact ⟨row :: rows, by simp [storeRow]⟩

/-- Forgetting the added rows leads back to the ledgers from before, up to the
counters. -/
theorem sameKeys_of_addEach {table reached : Table} {batch : List (List Cell)}
    (aligned : table.Aligned) (stored : table.addEach batch = .ok reached) :
    List.Forall₂ Ledger.SameKeys table.ledgers
      ((reached.rows.drop table.rows.length).foldl forgetRow reached.ledgers) := by
  induction batch generalizing table with
  | nil =>
      cases stored
      rw [List.drop_length]
      exact List.forall₂_same.mpr fun _ _ => ⟨rfl, rfl⟩
  | cons inputs batch inductionHypothesis =>
      rw [addEach_cons, bind_eq_ok_iff] at stored
      rcases stored with ⟨next, here, further⟩
      rcases addRow_eq_ok_iff.mp here with ⟨row, prepared, rfl⟩
      have later := inductionHypothesis (aligned.storeRow prepared) further
      obtain ⟨rows, rfl⟩ := exists_rows_of_addEach further
      have tail : (table.rows ++ [row] ++ rows).drop (table.rows ++ [row]).length = rows :=
        List.drop_left
      have whole : (table.rows ++ [row] ++ rows).drop table.rows.length = row :: rows := by
        rw [List.append_assoc, List.drop_left]
        rfl
      simp only [rows_storeRow, tail] at later
      simp only [rows_storeRow, whole, foldl_forgetRow_cons]
      exact sameKeys_forgetRow (fresh_of_prepareRow aligned prepared) later

/-- Taking back the rows that were added restores the table. -/
theorem rollBack_of_addEach {table reached : Table} {batch : List (List Cell)}
    (aligned : table.Aligned) (stored : table.addEach batch = .ok reached) :
    reached.rollBack table.rows.length table.counters = table := by
  have restored := zipWith_rewind_eq (sameKeys_of_addEach aligned stored)
  unfold rollBack counters
  rw [restored]
  obtain ⟨rows, rfl⟩ := exists_rows_of_addEach stored
  simp

/-- The outcome of storing a batch is that of adding its rows one after another. -/
theorem storeUntilRefused_eq (table : Table) (batch : List (List Cell)) :
    (∃ reached, table.addEach batch = .ok reached ∧
      table.storeUntilRefused batch = (reached, none)) ∨
    (∃ stored reached refusal, table.addEach batch = .error refusal ∧
      table.addEach stored = .ok reached ∧
      table.storeUntilRefused batch = (reached, some refusal)) := by
  induction batch generalizing table with
  | nil => exact .inl ⟨table, rfl, rfl⟩
  | cons inputs batch inductionHypothesis =>
      simp only [addEach_cons, storeUntilRefused]
      cases here : table.addRow inputs with
      | error refusal => exact .inr ⟨[], table, refusal, rfl, rfl, rfl⟩
      | ok next =>
          rcases inductionHypothesis next with
            ⟨reached, further, same⟩ | ⟨stored, reached, refusal, refused, further, same⟩
          · exact .inl ⟨reached, further, same⟩
          · refine .inr ⟨inputs :: stored, reached, refusal, refused, ?_, same⟩
            rw [addEach_cons, here]
            exact further

/-- A batch whose rows are accepted one after another is accepted. -/
theorem addRows_of_addEach_eq_ok {table reached : Table} {batch : List (List Cell)}
    (stored : table.addEach batch = .ok reached) :
    (table.addRows batch).result = .ok batch.length ∧
      (table.addRows batch).state = reached := by
  unfold addRows
  rcases table.storeUntilRefused_eq batch with
    ⟨other, accepted, outcome⟩ | ⟨_, _, refusal, refused, _⟩
  · rw [stored, Except.ok.injEq] at accepted
    subst accepted
    rw [outcome]
    exact ⟨rfl, rfl⟩
  · rw [stored] at refused
    cases refused

/-- A batch with a row that is refused is refused with it, and changes nothing. -/
theorem addRows_of_addEach_eq_error {table : Table} {batch : List (List Cell)}
    {refusal : TableError} (aligned : table.Aligned)
    (refused : table.addEach batch = .error refusal) :
    (table.addRows batch).result = .error refusal ∧
      (table.addRows batch).state = table := by
  unfold addRows
  rcases table.storeUntilRefused_eq batch with
    ⟨_, accepted, _⟩ | ⟨stored, reached, first, same, before, outcome⟩
  · rw [refused] at accepted
    cases accepted
  · rw [refused, Except.error.injEq] at same
    subst same
    rw [outcome]
    exact ⟨rfl, rollBack_of_addEach aligned before⟩

/-- Merging a compatible table does what adding its rows one after another does. -/
theorem merge_of_addEach_eq_ok {table other reached : Table}
    (agree : table.compatible other = true) (stored : table.addEach other.rows = .ok reached) :
    (table.merge other).result = .ok () ∧ (table.merge other).state = reached := by
  rcases addRows_of_addEach_eq_ok stored with ⟨result, state⟩
  rw [merge, if_pos agree]
  simpa only [result, true_and] using state

/-- A compatible table with a row that is refused is not merged, and changes nothing. -/
theorem merge_of_addEach_eq_error {table other : Table} {refusal : TableError}
    (aligned : table.Aligned) (agree : table.compatible other = true)
    (refused : table.addEach other.rows = .error refusal) :
    (table.merge other).result = .error refusal ∧ (table.merge other).state = table := by
  rcases addRows_of_addEach_eq_error aligned refused with ⟨result, state⟩
  rw [merge, if_pos agree]
  simpa only [result, true_and] using state

end Table

end Tabula
