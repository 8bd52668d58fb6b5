import Tabula.Proofs.Table.Rollback

/-!
# Histories of tables

A table is reachable when some sequence of operations, refused ones among them, leads to
it from a table without rows.  A refused operation leaves no trace and clearing a table
gives back the one it started as, so every reachable table is also reached by adding
rows one after another, none of them refused.
-/

namespace Tabula

namespace Ledger

theorem reset_store (ledger : Ledger) (cell : Cell) :
    (ledger.store cell).reset = ledger.reset := by
  cases cell with
  | none => rfl
  | some value =>
      rcases ledger with ⟨keys, counter⟩
      cases keys <;> cases counter <;> simp [store, reset]

end Ledger

namespace Table

/-! ## Rows given by names -/

/-- The table with rows added one after another, each by names. -/
def addEachNamed (table : Table) (batch : List (List (String × Cell))) :
    Except TableError Table :=
  batch.foldlM addNamedRow table

/-- Columns are found in the schema, which no row changes. -/
@[simp]
theorem align_storeRow (table : Table) (row : Row) :
    (table.storeRow row).align = table.align :=
  rfl

theorem addEachNamed_eq (table : Table) (batch : List (List (String × Cell))) :
    table.addEachNamed batch = table.addEach (batch.map table.align) := by
  unfold addEachNamed
  induction batch generalizing table with
  | nil => rfl
  | cons inputs batch inductionHypothesis =>
      rw [List.foldlM_cons, List.map_cons, addEach_cons, addNamedRow]
      cases here : table.addRow (table.align inputs) with
      | error refusal => rfl
      | ok next =>
          rcases addRow_eq_ok_iff.mp here with ⟨row, _, rfl⟩
          exact (inductionHypothesis _).trans (by rw [align_storeRow]; rfl)

/-! ## Operations -/

/-- What a caller can ask of a table. -/
inductive Operation where
  | addRow (inputs : List Cell)
  | addNamedRow (inputs : List (String × Cell))
  | addRows (batch : List (List Cell))
  | addNamedRows (batch : List (List (String × Cell)))
  | merge (other : Table)
  | clear

/-- The step that puts an accepted table in the place of another. -/
def replaceBy (table : Table) : Except TableError Table → Step Table TableError Unit
  | .ok next => ⟨next, [], .ok ()⟩
  | .error refusal => ⟨table, [], .error refusal⟩

/-- The step of an operation, without the number of rows that a batch answers. -/
def perform (table : Table) : Operation → Step Table TableError Unit
  | .addRow inputs => table.replaceBy (table.addRow inputs)
  | .addNamedRow inputs => table.replaceBy (table.addNamedRow inputs)
  | .addRows batch =>
    let step := table.addRows batch
    { step with result := step.result.map fun _ => () }
  | .addNamedRows batch =>
    let step := table.addNamedRows batch
    { step with result := step.result.map fun _ => () }
  | .merge other => table.merge other
  | .clear => ⟨table.clear, [], .ok ()⟩

/-- The tables that operations lead to. -/
inductive Reachable : Table → Prop where
  | start (name : String) (flat : FlatSchema) : Reachable (ofSchema name flat)
  | step {table : Table} (reached : Reachable table) (operation : Operation) :
      Reachable (table.perform operation).state

/-- What an operation can do: it is refused and changes nothing, or it adds rows one
after another, or it takes all rows away. -/
inductive Effect (table : Table) (step : Step Table TableError Unit) : Prop where
  | refused (refusal : TableError) (result : step.result = .error refusal)
      (state : step.state = table)
  | grown (batch : List (List Cell)) (result : step.result = .ok ())
      (state : table.addEach batch = .ok step.state)
  | cleared (result : step.result = .ok ()) (state : step.state = table.clear)

theorem effect_replaceBy (table : Table) (inputs : List Cell) :
    Effect table (table.replaceBy (table.addRow inputs)) := by
  cases outcome : table.addRow inputs with
  | error refusal => exact .refused refusal rfl rfl
  | ok next => exact .grown [inputs] rfl (by simp [addEach, outcome, replaceBy])

/-- A batch is refused as a whole or adds its rows one after another. -/
theorem addRows_cases {table : Table} (aligned : table.Aligned) (batch : List (List Cell)) :
    (∃ refusal, (table.addRows batch).result = .error refusal ∧
      (table.addRows batch).state = table) ∨
    ((table.addRows batch).result = .ok batch.length ∧
      table.addEach batch = .ok (table.addRows batch).state) := by
  cases outcome : table.addEach batch with
  | error refusal => exact .inl ⟨refusal, addRows_of_addEach_eq_error aligned outcome⟩
  | ok reached =>
      obtain ⟨result, state⟩ := addRows_of_addEach_eq_ok outcome
      exact .inr ⟨result, by rw [state]⟩

theorem effect_addRows {table : Table} (aligned : table.Aligned) (batch : List (List Cell)) :
    Effect table (table.perform (.addRows batch)) := by
  rcases addRows_cases aligned batch with ⟨refusal, result, state⟩ | ⟨result, state⟩
  · exact .refused refusal (by simp [perform, result]) state
  · exact .grown batch (by simp [perform, result]) state

theorem effect_merge {table : Table} (aligned : table.Aligned) (other : Table) :
    Effect table (table.merge other) := by
  unfold merge
  split
  · rcases addRows_cases aligned other.rows with ⟨refusal, result, state⟩ | ⟨result, state⟩
    · simp only [result]
      exact .refused refusal rfl state
    · simp only [result]
      exact .grown other.rows rfl state
  · exact .refused _ rfl rfl

theorem effect_perform {table : Table} (aligned : table.Aligned) (operation : Operation) :
    Effect table (table.perform operation) := by
  cases operation with
  | addRow inputs => exact effect_replaceBy table inputs
  | addNamedRow inputs => exact effect_replaceBy table (table.align inputs)
  | addRows batch => exact effect_addRows aligned batch
  | addNamedRows batch => exact effect_addRows aligned (batch.map table.align)
  | merge other => exact effect_merge aligned other
  | clear => exact .cleared rfl rfl

/-- No operation changes the name of a table or what it is made over. -/
theorem perform_keeps {table : Table} (aligned : table.Aligned) (operation : Operation) :
    (table.perform operation).state.name = table.name ∧
      (table.perform operation).state.flat = table.flat := by
  cases effect_perform aligned operation with
  | refused _ _ state =>
      rw [state]
      exact ⟨rfl, rfl⟩
  | grown batch _ state =>
      obtain ⟨rows, same⟩ := exists_rows_of_addEach state
      rw [same]
      exact ⟨rfl, rfl⟩
  | cleared _ state =>
      rw [state]
      exact ⟨rfl, rfl⟩

/-! ## Reachable tables -/

theorem map_reset_zipWith_store {ledgers : List Ledger} {row : Row}
    (width : ledgers.length = row.length) :
    (List.zipWith Ledger.store ledgers row).map Ledger.reset = ledgers.map Ledger.reset := by
  induction ledgers generalizing row with
  | nil => rfl
  | cons ledger ledgers inductionHypothesis =>
      cases row with
      | nil => simp at width
      | cons cell cells =>
          rw [List.zipWith_cons_cons, List.map_cons, List.map_cons, Ledger.reset_store,
            inductionHypothesis (by simpa using width)]

@[simp]
theorem clear_ofSchema (name : String) (flat : FlatSchema) :
    (ofSchema name flat).clear = ofSchema name flat := by
  simp [clear, ofSchema, Function.comp_def]

/-- Clearing a table that rows were added to gives back the table without rows. -/
theorem clear_of_addEach {name : String} {flat : FlatSchema} {batch : List (List Cell)}
    {table : Table} (stored : (ofSchema name flat).addEach batch = .ok table) :
    table.Aligned ∧ table.clear = ofSchema name flat := by
  apply addEach_induction
    (motive := fun table => table.Aligned ∧ table.clear = ofSchema name flat) stored
    ⟨aligned_ofSchema name flat, clear_ofSchema name flat⟩
  rintro before inputs row ⟨aligned, cleared⟩ prepared
  constructor
  · exact aligned.storeRow prepared
  · have width := (fresh_of_prepareRow aligned prepared).length_eq
    rw [← cleared]
    simp only [clear, storeRow, map_reset_zipWith_store width]

/-- A reachable table is reached by adding rows of which none is refused. -/
theorem Reachable.exists_addEach {table : Table} (reached : table.Reachable) :
    ∃ batch, (ofSchema table.name table.flat).addEach batch = .ok table := by
  induction reached with
  | start name flat => exact ⟨[], rfl⟩
  | @step table _ operation inductionHypothesis =>
      rcases inductionHypothesis with ⟨batch, stored⟩
      obtain ⟨aligned, cleared⟩ := clear_of_addEach stored
      cases effect_perform aligned operation with
      | refused refusal _ state =>
          rw [state]
          exact ⟨batch, stored⟩
      | grown further _ state =>
          obtain ⟨rows, same⟩ := exists_rows_of_addEach state
          refine ⟨batch ++ further, ?_⟩
          rw [same, addEach_append]
          simp only [stored]
          rw [← same]
          exact state
      | cleared _ state =>
          refine ⟨[], ?_⟩
          rw [state, cleared]
          rfl

theorem Reachable.aligned {table : Table} (reached : table.Reachable) : table.Aligned := by
  rcases reached.exists_addEach with ⟨batch, stored⟩
  exact (aligned_ofSchema _ _).addEach stored

/-! ## Atomicity -/

/-- A batch of the given size did what its rows do one after another: it stored all of
them, or it was refused with the first of them that is refused and left the table. -/
def AllOrNothing (table : Table) (size : Nat) (single : Except TableError Table)
    (step : Step Table TableError Nat) : Prop :=
  match single with
  | .ok grown => step.result = .ok size ∧ step.state = grown
  | .error refusal => step.result = .error refusal ∧ step.state = table

theorem allOrNothing_addRows {table : Table} (aligned : table.Aligned)
    (batch : List (List Cell)) :
    AllOrNothing table batch.length (table.addEach batch) (table.addRows batch) := by
  cases outcome : table.addEach batch with
  | error refusal => exact addRows_of_addEach_eq_error aligned outcome
  | ok reached => exact addRows_of_addEach_eq_ok outcome

/-- Batches of either form equal their rows added one by one or change nothing, and no
operation that is refused changes a reachable table. -/
theorem Reachable.batches_atomic {table : Table} (reached : table.Reachable) :
    (∀ batch, AllOrNothing table batch.length (table.addEach batch) (table.addRows batch)) ∧
    (∀ batch, AllOrNothing table batch.length (table.addEachNamed batch)
      (table.addNamedRows batch)) ∧
    (∀ operation refusal, (table.perform operation).result = .error refusal →
      (table.perform operation).state = table) := by
  constructor
  · intro batch
    exact allOrNothing_addRows reached.aligned batch
  constructor
  · intro batch
    rw [addEachNamed_eq, addNamedRows, ← List.length_map table.align]
    exact allOrNothing_addRows reached.aligned _
  · intro operation refusal refused
    cases effect_perform reached.aligned operation with
    | refused _ _ state => exact state
    | grown _ result _ =>
        rw [refused] at result
        cases result
    | cleared result _ =>
        rw [refused] at result
        cases result

/-! ## A concrete history -/

/-- Items with numbers from a counter and with names that no two of them share. -/
def itemSchema : FlatSchema where
  schema :=
    { name := "Item"
      fields :=
        [.single
          { name := "id", typeText := "int32", autoIncrement := true, unique := true
            shape := .scalar (.integer .bits32) none },
        .single
          { name := "name", typeText := "string", unique := true
            shape := .scalar .text none }]
      distinct := by decide +kernel }
  flat := by decide
  counted := by decide

/-- Two names that differ in case only. -/
def twinNames : List (List Cell) :=
  [[none, some (.text "Bow")], [none, some (.text "BOW")]]

/-- Items of which one was stored after a batch was refused. -/
def itemTable : Table :=
  (((ofSchema "Items" itemSchema).perform (.addRows twinNames)).state.perform
    (.addNamedRow [("NAME", some (.text "Axe"))])).state

theorem reachable_itemTable : itemTable.Reachable :=
  .step (.step (.start "Items" itemSchema) _) _

theorem itemTable_refuses_twinNames :
    itemTable.Reachable ∧
      (itemTable.addRows twinNames).result =
        .error (.uniqueViolation "Items" "name" "BOW") ∧
      (itemTable.addRows twinNames).state = itemTable := by
  have single : itemTable.addEach twinNames =
      .error (.uniqueViolation "Items" "name" "BOW") := by rfl
  have atomic := (Reachable.batches_atomic reachable_itemTable).1 twinNames
  rw [single] at atomic
  exact ⟨reachable_itemTable, atomic⟩

end Table

end Tabula
