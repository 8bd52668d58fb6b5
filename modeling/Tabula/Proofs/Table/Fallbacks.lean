import Tabula.Proofs.Table.CompatibleMerge

/-!
# Fallbacks of columns

The fallback of a column was put to the test of the column's kind long before a row comes to
need it, so filling a cell with it cannot fail.  A value that is refused for its kind was
given by the row, or counted.
-/

namespace Tabula

namespace Table

/-! ## Refused operations -/

/-- The rows that an operation adds, each by position. -/
def Operation.rows (table : Table) : Operation → List (List Cell)
  | addRow inputs => [inputs]
  | addNamedRow inputs => [table.align inputs]
  | addRows batch => batch
  | addNamedRows batch => batch.map table.align
  | merge other => other.rows
  | clear => []

theorem addEach_singleton (table : Table) (inputs : List Cell) :
    table.addEach [inputs] = table.addRow inputs := by
  rw [addEach_cons]
  cases table.addRow inputs with
  | error refusal => rfl
  | ok next => rfl

theorem addEach_of_replaceBy_eq_error {table : Table} {inputs : List Cell} {refusal : TableError}
    (refused : (table.replaceBy (table.addRow inputs)).result = .error refusal) :
    table.addEach [inputs] = .error refusal := by
  rw [addEach_singleton]
  cases outcome : table.addRow inputs with
  | error first =>
      rw [outcome] at refused
      cases refused
      rfl
  | ok next =>
      rw [outcome] at refused
      cases refused

theorem addEach_of_addRows_eq_error {table : Table} (aligned : table.Aligned)
    {batch : List (List Cell)} {refusal : TableError}
    (refused : (table.addRows batch).result = .error refusal) :
    table.addEach batch = .error refusal := by
  cases outcome : table.addEach batch with
  | error first =>
      rw [(addRows_of_addEach_eq_error aligned outcome).1] at refused
      cases refused
      rfl
  | ok reached =>
      rw [(addRows_of_addEach_eq_ok outcome).1] at refused
      cases refused

/-- Between compatible tables, what refuses an operation refuses its rows one after
another. -/
theorem addEach_of_perform_eq_error {table : Table} (aligned : table.Aligned)
    {operation : Operation} {refusal : TableError}
    (agree : ∀ other, refusal ≠ .incompatible table.name other)
    (refused : (table.perform operation).result = .error refusal) :
    table.addEach (operation.rows table) = .error refusal := by
  cases operation with
  | addRow inputs => exact addEach_of_replaceBy_eq_error refused
  | addNamedRow inputs => exact addEach_of_replaceBy_eq_error refused
  | addRows batch => exact addEach_of_addRows_eq_error aligned (map_eq_error_iff.mp refused)
  | addNamedRows batch => exact addEach_of_addRows_eq_error aligned (map_eq_error_iff.mp refused)
  | merge other =>
      change (table.merge other).result = .error refusal at refused
      by_cases compatible : table.compatible other = true
      · cases outcome : table.addEach other.rows with
        | error first =>
            rw [(merge_of_addEach_eq_error aligned compatible outcome).1] at refused
            cases refused
            exact outcome
        | ok reached =>
            rw [(merge_of_addEach_eq_ok compatible outcome).1] at refused
            cases refused
      · rw [merge, if_neg compatible] at refused
        cases refused
        exact absurd rfl (agree other.name)
  | clear => cases refused

/-- The first row that is refused comes to what the rows before it have led to. -/
theorem exists_of_addEach_eq_error {table : Table} {rows : List (List Cell)}
    {refusal : TableError} (refused : table.addEach rows = .error refusal) :
    ∃ before row after reached, rows = before ++ row :: after ∧
      table.addEach before = .ok reached ∧ reached.addRow row = .error refusal := by
  induction rows generalizing table with
  | nil => cases refused
  | cons row rows inductionHypothesis =>
      rw [addEach_cons, bind_eq_error_iff] at refused
      rcases refused with here | ⟨next, accepted, further⟩
      · exact ⟨[], row, rows, table, rfl, rfl, here⟩
      · rcases inductionHypothesis further with
          ⟨before, refusedRow, after, reached, rfl, stored, there⟩
        refine ⟨row :: before, refusedRow, after, reached, rfl, ?_, there⟩
        rw [addEach_cons, accepted]
        exact stored

/-! ## Refused values -/

/-- What goes into a cell before the fallback has its turn: the input, else the column's next
number. -/
def supplied (ledger : Ledger) (input : Cell) : Cell :=
  input.or (ledger.next?.map (Value.integer .bits64))

/-- A column of the name is supplied with a value that is refused for its kind. -/
def SuppliedRefused (table : Table) (row : List Cell) (column : String) (refusal : ValueError) :
    Prop :=
  ∃ (position : Nat) (field : Field) (ledger : Ledger) (value : Value),
    table.flat.fields[position]? = some field ∧ table.ledgers[position]? = some ledger ∧
      field.name = column ∧ supplied ledger (row[position]?.getD none) = some value ∧
        value.coerce field.kind = .error refusal

/-- A flat field can store its own fallback. -/
theorem coerce_fallback {field : Field} {value : Value} (flat : field.isFlat = true)
    (fits : field.head.FallbackFits) (present : field.head.fallback = some value) :
    value.coerce field.kind = .ok value := by
  rcases Field.exists_scalar_of_isFlat flat with ⟨kind, reference, shape, _⟩
  have same : value.kind = kind := fits kind reference value shape present
  rw [Field.kind, shape, ← same]
  exact value.convert_self

/-- A value that is refused for its kind was supplied. -/
theorem supplied_of_prepareCell_eq_error {name table column : String} {field : Field}
    {ledger : Ledger} {input : Cell} {refusal : ValueError} (flat : field.isFlat = true)
    (fits : field.head.FallbackFits)
    (refused : prepareCell name field ledger input = .error (.coercion table column refusal)) :
    field.name = column ∧
      ∃ value, supplied ledger input = some value ∧ value.coerce field.kind = .error refusal := by
  unfold prepareCell at refused
  split at refused
  · split at refused
    · cases refused
    · cases refused
  · rename_i value filledWith
    split at refused
    · rename_i cause refusedValue
      cases refused
      rw [filled, Option.or_eq_some_iff] at filledWith
      rcases filledWith with given | ⟨_, fallback⟩
      · exact ⟨rfl, value, given, refusedValue⟩
      · rw [coerce_fallback flat fits fallback] at refusedValue
        cases refusedValue
    · split at refused
      · cases refused
      · cases refused

theorem suppliedRefused_of_addRow {table : Table} {row : List Cell} {name column : String}
    {refusal : ValueError} (made : ∀ field ∈ table.flat.fields, field.Made)
    (refused : table.addRow row = .error (.coercion name column refusal)) :
    table.SuppliedRefused row column refusal := by
  rw [addRow, bind_eq_error_iff] at refused
  rcases refused with here | ⟨_, _, impossible⟩
  · rcases exists_of_prepareCells_eq_error here with
      ⟨position, field, ledger, fieldAt, ledgerAt, refusedCell⟩
    have among : field ∈ table.flat.fields := List.mem_of_getElem? fieldAt
    have flat : field.isFlat = true := List.all_eq_true.mp table.flat.flat field among
    rcases supplied_of_prepareCell_eq_error flat (made field among).fallbacksAgree.here.scalar
      refusedCell with ⟨named, value, given, refusedValue⟩
    exact ⟨position, field, ledger, value, fieldAt, ledgerAt, named, given, refusedValue⟩
  · exact absurd impossible pure_ne_error

/-- When an operation is refused for the kind of a value, it came to a row that supplied the
value. -/
theorem Reachable.suppliedRefused_of_perform {table : Table} (reachable : table.Reachable)
    (made : ∀ field ∈ table.flat.fields, field.Made) {operation : Operation}
    {name column : String} {refusal : ValueError}
    (refused : (table.perform operation).result = .error (.coercion name column refusal)) :
    ∃ before row after reached, operation.rows table = before ++ row :: after ∧
      table.addEach before = .ok reached ∧ reached.SuppliedRefused row column refusal := by
  have aligned := reachable.aligned
  have refusedRows := addEach_of_perform_eq_error aligned (by rintro _ ⟨⟩) refused
  rcases exists_of_addEach_eq_error refusedRows with
    ⟨before, row, after, reached, split, stored, refusedRow⟩
  refine ⟨before, row, after, reached, split, stored, ?_⟩
  rcases exists_rows_of_addEach stored with ⟨rows, rfl⟩
  exact suppliedRefused_of_addRow made refusedRow

end Table

/-- Fallbacks always fit.  Those of all fields that can be made agree with them at every depth,
whatever step was refused on the way; a fallback or a template that is refused leaves the field
as it is; and when an operation on a table of such columns is refused for the kind of a value,
the value was supplied and no fallback. -/
theorem fallbacks_always_fit :
    (∀ field : Field, field.Made → field.FallbacksAgree) ∧
    (∀ (field : Field) (fallback : Option Value),
      field.changeFallback fallback = .replace field (field.assignFallback fallback) ∧
      ∀ refusal, (field.changeFallback fallback).result = .error refusal →
        (field.changeFallback fallback).state = field) ∧
    (∀ field element : Field,
      field.changeElement element = .replace field (field.setElement element) ∧
      ∀ refusal, (field.changeElement element).result = .error refusal →
        (field.changeElement element).state = field) ∧
    (∀ (field : Field) (reference : Reference) (kind : ScalarKind),
      field.settleReference reference kind =
        .replace (field.referring reference kind) (field.settleLookup reference kind)) ∧
    ∀ table : Table, table.Reachable → (∀ field ∈ table.flat.fields, field.Made) →
      ∀ operation name column refusal,
        (table.perform operation).result = .error (.coercion name column refusal) →
        ∃ before row after reached, operation.rows table = before ++ row :: after ∧
          table.addEach before = .ok reached ∧
          reached.SuppliedRefused row column refusal := by
  refine ⟨fun _ made => made.fallbacksAgree, ?_, ?_, Field.settleReference_eq, ?_⟩
  · intro field fallback
    refine ⟨field.changeFallback_eq fallback, ?_⟩
    intro refusal refused
    rw [Field.changeFallback_eq] at refused ⊢
    exact Step.state_replace_of_error refused
  · intro field element
    refine ⟨field.changeElement_eq element, ?_⟩
    intro refusal refused
    rw [Field.changeElement_eq] at refused ⊢
    exact Step.state_replace_of_error refused
  · intro table reachable made operation name column refusal refused
    exact reachable.suppliedRefused_of_perform made refused

/-- Three levels that are small numbers, and five where none is given. -/
def levels : Field :=
  ((Field.list "levels" (.ofKind "level" (.scalar (.integer .bits8))) 3).changeFallback
    (some (.text "5"))).state

theorem made_levels : levels.Made :=
  .fallback (.list _ _ (.ofKind _ _)) _

/-- One such level. -/
def level : Field :=
  ((Field.ofKind "level" (.scalar (.integer .bits8))).changeFallback (some (.text "5"))).state

theorem made_level : level.Made :=
  .fallback (.ofKind _ _) _

/-- Readings of one level each. -/
def readings : Table :=
  Table.ofSchema "Readings"
    { schema := { name := "Reading", fields := [level] }
      flat := rfl
      counted := by
        intro field member automatic
        rw [List.mem_singleton] at member
        subst member
        cases automatic }

/-- The kind of the levels refuses another text, another kind refuses theirs, and a reading
that is refused supplied the refused level itself. -/
theorem levels_fall_back_to_five :
    levels.Made ∧ levels.FallbacksAgree ∧
      (levels.changeFallback (some (.text "x"))).result =
        .error (.conversion "x" .text (.integer .bits8)) ∧
      (levels.changeFallback (some (.text "x"))).state = levels ∧
      (levels.changeElement (.ofKind "level" (.scalar .boolean))).result =
        .error (.conversion "5" .text .boolean) ∧
      (levels.changeElement (.ofKind "level" (.scalar .boolean))).state = levels ∧
      readings.Reachable ∧ (∀ field ∈ readings.flat.fields, field.Made) ∧
      (readings.perform (.addRow [some (.text "high")])).result =
        .error (.coercion "Readings" "level" (.conversion "high" .text (.integer .bits8))) ∧
      ∃ before row after reached, [[some (.text "high")]] = before ++ row :: after ∧
        readings.addEach before = .ok reached ∧
        reached.SuppliedRefused row "level" (.conversion "high" .text (.integer .bits8)) := by
  rcases fallbacks_always_fit with ⟨agree, fallback, template, _, operations⟩
  have refusedFallback : (levels.changeFallback (some (.text "x"))).result =
      .error (.conversion "x" .text (.integer .bits8)) := by rfl
  have refusedElement : (levels.changeElement (.ofKind "level" (.scalar .boolean))).result =
      .error (.conversion "5" .text .boolean) := by rfl
  have reachable : readings.Reachable := .start _ _
  have made : ∀ field ∈ readings.flat.fields, field.Made := by
    intro field member
    cases List.mem_singleton.mp member
    exact made_level
  have refusedRow : (readings.perform (.addRow [some (.text "high")])).result =
      .error (.coercion "Readings" "level" (.conversion "high" .text (.integer .bits8))) := by rfl
  exact ⟨made_levels, agree levels made_levels,
    refusedFallback, (fallback levels _).2 _ refusedFallback,
    refusedElement, (template levels _).2 _ refusedElement,
    reachable, made, refusedRow, operations readings reachable made _ _ _ _ refusedRow⟩

end Tabula
