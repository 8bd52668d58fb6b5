import Tabula.Proofs.Field.Fallbacks
import Tabula.Proofs.Table.Adoption

/-!
# Merging compatible tables

The rows of one table pass through the whole insertion of another, where a cell could be
coerced, filled or refused.  Between compatible tables nothing of this happens but one
thing: an empty cell takes the fallback of its new column.  A completed row fits the
columns that it comes to, so it is stored as it is, unless a unique column holds one of
its keys.
-/

namespace Tabula

/-- The cell, or the fallback of the field in the place of an empty one. -/
def Field.complete (field : Field) (cell : Cell) : Cell :=
  cell.or field.head.fallback

/-- The row with the fallbacks of the columns in the place of empty cells. -/
def FlatSchema.complete (flat : FlatSchema) (row : Row) : Row :=
  List.zipWith Field.complete flat.fields row

/-- In every unique column the values of the rows have different keys. -/
def FlatSchema.KeysApart (flat : FlatSchema) (rows : List Row) : Prop :=
  ∀ (column : Nat) (field : Field), flat.fields[column]? = some field →
    field.head.unique = true → (storedKeys (rows.map fun row => row[column]?.join)).Nodup

/-! ## Completed cells -/

namespace Field

variable {field other : Field} {cell : Cell}

/-- A cell of a compatible column suits the column that completes it. -/
theorem suits_complete (flat : field.isFlat = true) (fits : field.head.FallbackFits)
    (agree : field.compatible other = true) (suits : other.Suits cell) :
    field.Suits (field.complete cell) := by
  cases cell with
  | some value => exact (kind_eq_of_compatible agree).trans suits
  | none =>
      rcases suits with ⟨nullable, _, manual⟩
      rw [complete, Option.none_or]
      cases fallback : field.head.fallback with
      | none =>
          exact ⟨(nullable_eq_of_compatible agree).trans nullable, fallback,
            (autoIncrement_eq_of_compatible agree).trans manual⟩
      | some value =>
          rcases exists_scalar_of_isFlat flat with ⟨kind, reference, shape, _⟩
          rw [Suits, Field.kind, shape, fits kind reference value shape fallback]
          rfl

theorem forall₂_suits_complete {fields others : List Field} {row : Row}
    (columns : ∀ field ∈ fields, field.isFlat = true ∧ field.head.FallbackFits)
    (agree : List.Forall₂ (fun field other => field.compatible other = true) fields others)
    (suits : List.Forall₂ Field.Suits others row) :
    List.Forall₂ Field.Suits fields (List.zipWith Field.complete fields row) := by
  induction agree generalizing row with
  | nil => exact .nil
  | cons agreeHere _ inductionHypothesis =>
      rw [List.forall_mem_cons] at columns
      cases suits with
      | cons here further =>
          exact .cons (suits_complete columns.1.1 columns.1.2 agreeHere here)
            (inductionHypothesis columns.2 further)

end Field

namespace Table

/-- A column that fills no empty cell from a counter completes it as it would be filled. -/
theorem prepareCell_complete {name : String} {field other : Field} {ledger : Ledger}
    {cell : Cell} (counted : ledger.counter.isSome = field.head.autoIncrement)
    (agree : field.compatible other = true) (suits : other.Suits cell) :
    prepareCell name field ledger (field.complete cell) =
      prepareCell name field ledger cell := by
  have same : filled field ledger (field.complete cell) = filled field ledger cell := by
    cases cell with
    | some value => rfl
    | none =>
        rcases suits with ⟨_, _, manual⟩
        rw [Field.autoIncrement_eq_of_compatible agree, manual, Option.isSome_eq_false_iff,
          Option.isNone_iff_eq_none] at counted
        cases fallback : field.head.fallback <;>
          simp [filled, Field.complete, Ledger.next?, counted, fallback]
  rw [prepareCell, prepareCell, same]

theorem prepareCells_complete {name : String} {fields others : List Field}
    {ledgers : List Ledger} {row : Row}
    (counted : List.Forall₂
      (fun field ledger => ledger.counter.isSome = field.head.autoIncrement) fields ledgers)
    (agree : List.Forall₂ (fun field other => field.compatible other = true) fields others)
    (suits : List.Forall₂ Field.Suits others row) :
    prepareCells name fields ledgers (List.zipWith Field.complete fields row) =
      prepareCells name fields ledgers row := by
  induction counted generalizing others row with
  | nil => rfl
  | cons countedHere _ inductionHypothesis =>
      cases agree with
      | cons agreeHere agreeFurther =>
          cases suits with
          | cons here further =>
              simp only [prepareCells, List.zipWith_cons_cons, List.head?_cons,
                Option.getD_some, List.tail_cons]
              rw [prepareCell_complete countedHere agreeHere here,
                inductionHypothesis agreeFurther further]

/-! ## Refused rows -/

/-- A refusal of a row is the refusal of one of its cells. -/
theorem exists_of_prepareCells_eq_error {name : String} {fields : List Field}
    {ledgers : List Ledger} {inputs : List Cell} {refusal : TableError}
    (refused : prepareCells name fields ledgers inputs = .error refusal) :
    ∃ (column : Nat) (field : Field) (ledger : Ledger), fields[column]? = some field ∧
      ledgers[column]? = some ledger ∧
      prepareCell name field ledger (inputs[column]?.getD none) = .error refusal := by
  induction fields generalizing ledgers inputs with
  | nil => cases refused
  | cons field fields inductionHypothesis =>
      cases ledgers with
      | nil => cases refused
      | cons ledger ledgers =>
          simp only [prepareCells, bind_eq_error_iff] at refused
          rcases refused with here | ⟨cell, _, further | ⟨cells, _, impossible⟩⟩
          · rw [List.head?_eq_getElem?] at here
            exact ⟨0, field, ledger, rfl, rfl, here⟩
          · rcases inductionHypothesis further with ⟨column, other, known, fieldAt, ledgerAt, there⟩
            rw [List.getElem?_tail] at there
            exact ⟨column + 1, other, known, fieldAt, ledgerAt, there⟩
          · exact absurd impossible pure_ne_error

/-- A cell that suits its column is refused for nothing but its key. -/
theorem exists_of_prepareCell_eq_error {name : String} {field : Field} {ledger : Ledger}
    {cell : Cell} {refusal : TableError}
    (counted : ledger.counter.isSome = field.head.autoIncrement) (suits : field.Suits cell)
    (refused : prepareCell name field ledger cell = .error refusal) :
    ∃ value, ledger.holds value = true ∧
      refusal = .uniqueViolation name field.name value.toText := by
  cases cell with
  | none =>
      have accepted : prepareCell name field ledger none = .ok none :=
        (prepareCell_eq_ok_iff counted suits).mpr ⟨trivial, rfl⟩
      rw [accepted] at refused
      cases refused
  | some value =>
      refine ⟨value, ?_⟩
      by_cases held : ledger.holds value = true
      · have kind : field.kind = .scalar value.kind := suits
        have same : value.coerce (.scalar value.kind) = .ok value := value.convert_self
        have given : filled field ledger (some value) = some value := rfl
        simp only [prepareCell, given, kind, same, held, if_true] at refused
        cases refused
        exact ⟨held, rfl⟩
      · have accepted : prepareCell name field ledger (some value) = .ok (some value) :=
          (prepareCell_eq_ok_iff counted suits).mpr ⟨Bool.eq_false_iff.mpr held, rfl⟩
        rw [accepted] at refused
        cases refused

/-- The table refuses a value for its key in a unique column. -/
def Violates (table : Table) (refusal : TableError) : Prop :=
  ∃ field ∈ table.flat.fields, field.head.unique = true ∧
    ∃ value : Value, refusal = .uniqueViolation table.name field.name value.toText

namespace Sound

variable {table other : Table}

theorem violates_of_addRow (sound : table.Sound) {row : Row}
    (suits : List.Forall₂ Field.Suits table.flat.fields row) {refusal : TableError}
    (refused : table.addRow row = .error refusal) : table.Violates refusal := by
  rw [Table.addRow, bind_eq_error_iff] at refused
  rcases refused with here | ⟨_, _, impossible⟩
  · rcases exists_of_prepareCells_eq_error here with ⟨column, field, ledger, fieldAt, ledgerAt,
      refusedCell⟩
    rcases exists_getElem?_of_forall₂ suits fieldAt with ⟨cell, cellAt, fits⟩
    have known := sound.tracked column field fieldAt
    rw [ledgerAt, Option.some.injEq] at known
    rw [cellAt, Option.getD_some, known] at refusedCell
    rcases exists_of_prepareCell_eq_error (Ledger.isSome_counter_ofCells _ _) fits refusedCell with
      ⟨value, held, same⟩
    have unique : field.head.unique = true := by
      by_contra plain
      have noKeys := Ledger.keys_ofCells_eq_none (Bool.eq_false_iff.mpr plain)
        (table.columnCells column)
      simp [Ledger.holds, noKeys] at held
    exact ⟨field, List.mem_of_getElem? fieldAt, unique, value, same⟩
  · exact absurd impossible pure_ne_error

/-- Rows that fit their columns are refused for nothing but a key. -/
theorem violates_of_addEach (sound : table.Sound) {rows : List Row}
    (suits : ∀ row ∈ rows, List.Forall₂ Field.Suits table.flat.fields row)
    {refusal : TableError} (refused : table.addEach rows = .error refusal) :
    table.Violates refusal := by
  induction rows generalizing table with
  | nil => cases refused
  | cons row rows inductionHypothesis =>
      rw [List.forall_mem_cons] at suits
      rw [addEach_cons, bind_eq_error_iff] at refused
      rcases refused with here | ⟨next, accepted, further⟩
      · exact sound.violates_of_addRow suits.1 here
      · have later := sound.addRow accepted
        rcases Table.addRow_eq_ok_iff.mp accepted with ⟨stored, _, rfl⟩
        have refusedThere := inductionHypothesis later suits.2 further
        exact refusedThere

/-! ## Taking over completed rows -/

/-- Rows of a compatible table are taken over as if they had been completed before. -/
theorem addEach_complete (sound : table.Sound) (agree : table.compatible other = true)
    {rows : List Row} (suits : ∀ row ∈ rows, List.Forall₂ Field.Suits other.flat.fields row) :
    table.addEach (rows.map table.flat.complete) = table.addEach rows := by
  induction rows generalizing table with
  | nil => rfl
  | cons row rows inductionHypothesis =>
      rw [List.forall_mem_cons] at suits
      have first : table.addRow (table.flat.complete row) = table.addRow row := by
        rw [Table.addRow, Table.addRow, prepareRow, prepareRow, FlatSchema.complete,
          prepareCells_complete sound.counted (compatibleFields_iff.mp agree) suits.1]
      rw [List.map_cons, addEach_cons, addEach_cons, first]
      cases accepted : table.addRow row with
      | error refusal => rfl
      | ok next =>
          have later := sound.addRow accepted
          rcases Table.addRow_eq_ok_iff.mp accepted with ⟨stored, _, rfl⟩
          exact inductionHypothesis later agree suits.2

/-- Completed rows of a compatible table fit the columns that they come to. -/
theorem suits_complete (made : ∀ field ∈ table.flat.fields, field.Made)
    (agree : table.compatible other = true) (obeys : other.Obeys) :
    ∀ row ∈ other.rows.map table.flat.complete,
      List.Forall₂ Field.Suits table.flat.fields row := by
  intro row member
  rcases List.mem_map.mp member with ⟨original, among, rfl⟩
  apply Field.forall₂_suits_complete _ (compatibleFields_iff.mp agree)
    (obeys.rows original among)
  intro field present
  exact ⟨List.all_eq_true.mp table.flat.flat field present,
    (made field present).fallbacksAgree.here.scalar⟩

/-- A compatible table is stored behind the other rows, completed, exactly when that brings
no key into a unique column that is there already. -/
theorem addEach_compatible_eq_ok_iff (sound : table.Sound) (obeys : other.Obeys)
    (made : ∀ field ∈ table.flat.fields, field.Made)
    (agree : table.compatible other = true) (result : Table) :
    table.addEach other.rows = .ok result ↔
      table.flat.KeysApart (table.rows ++ other.rows.map table.flat.complete) ∧
        result = table.storeRows (other.rows.map table.flat.complete) := by
  rw [← sound.addEach_complete agree obeys.rows,
    sound.addEach_eq_ok_iff (suits_complete made agree obeys)]
  apply and_congr_left'
  rw [KeysDistinct, FlatSchema.KeysApart, flat_storeRows, ← rows_storeRows]
  rfl

theorem violates_of_compatible (sound : table.Sound) (obeys : other.Obeys)
    (made : ∀ field ∈ table.flat.fields, field.Made)
    (agree : table.compatible other = true) {refusal : TableError}
    (refused : table.addEach other.rows = .error refusal) : table.Violates refusal := by
  rw [← sound.addEach_complete agree obeys.rows] at refused
  exact sound.violates_of_addEach (suits_complete made agree obeys) refused

end Sound

/-- Merging two reachable tables has one effect and one reason to be refused: between
compatible tables the completed rows of the other table are appended, or a unique column
would hold a key twice and nothing changes. -/
theorem Reachable.merge_appends_or_refuses {table other : Table} (reached : table.Reachable)
    (otherReached : other.Reachable) (made : ∀ field ∈ table.flat.fields, field.Made) :
    (table.compatible other = false →
      (table.merge other).result = .error (.incompatible table.name other.name) ∧
        (table.merge other).state = table) ∧
    (table.compatible other = true →
      ((table.merge other).result = .ok () ↔
        table.flat.KeysApart (table.rows ++ other.rows.map table.flat.complete)) ∧
      ((table.merge other).result = .ok () →
        (table.merge other).state.rows =
          table.rows ++ other.rows.map table.flat.complete ∧
        (table.merge other).state =
          table.storeRows (other.rows.map table.flat.complete)) ∧
      ∀ refusal, (table.merge other).result = .error refusal →
        table.Violates refusal ∧ (table.merge other).state = table) := by
  constructor
  · intro disagree
    rw [merge, if_neg (Bool.eq_false_iff.mp disagree)]
    exact ⟨rfl, rfl⟩
  · intro agree
    have sound := reached.sound
    have obeys := otherReached.sound.obeys
    have appends := sound.addEach_compatible_eq_ok_iff obeys made agree
    cases outcome : table.addEach other.rows with
    | ok grown =>
        rcases merge_of_addEach_eq_ok agree outcome with ⟨result, state⟩
        rcases (appends grown).mp outcome with ⟨apart, rfl⟩
        rw [result, state]
        refine ⟨⟨fun _ => apart, fun _ => rfl⟩, fun _ => ⟨rows_storeRows _ _, rfl⟩, ?_⟩
        intro refusal refused
        cases refused
    | error refusal =>
        rcases merge_of_addEach_eq_error sound.aligned agree outcome with ⟨result, state⟩
        have clash : ¬table.flat.KeysApart
            (table.rows ++ other.rows.map table.flat.complete) := by
          intro apart
          have accepted := (appends _).mpr ⟨apart, rfl⟩
          rw [outcome] at accepted
          cases accepted
        rw [result, state]
        refine ⟨iff_of_false ?_ clash, ?_, ?_⟩
        · rintro ⟨⟩
        · rintro ⟨⟩
        · rintro _ ⟨⟩
          exact ⟨sound.violates_of_compatible obeys made agree outcome, rfl⟩

/-- The code of a glaze, which no other glaze has. -/
def codeField : Field :=
  .single
    { name := "code", typeText := "string", unique := true, shape := .scalar .text none }

/-- The shade of a glaze, with or without a shade for those that leave it open. -/
def shadeField (fallback : Option Value) : Field :=
  .single
    { name := "shade", typeText := "string", nullable := true, shape := .scalar .text none
      fallback }

theorem made_codeField : codeField.Made :=
  .traits (.ofKind "code" (.scalar .text)) (fun head => { head with unique := true }) rfl rfl

theorem made_shadeField : (shadeField (some (.text "plain"))).Made := by
  have start : (shadeField none).Made :=
    .traits (.ofKind "shade" (.scalar .text)) (fun head => { head with nullable := true }) rfl
      rfl
  exact start.fallback (some (.text "plain"))

/-- Glazes with the given shade for those that leave it open. -/
def glazeSchema (fallback : Option Value) : FlatSchema where
  schema :=
    { name := "Glaze"
      fields := [codeField, shadeField fallback]
      distinct := by
        change [NameKey.of "code", NameKey.of "shade"].Nodup
        decide +kernel }
  flat := rfl
  counted := by
    intro field member automatic
    simp only [List.mem_cons, List.not_mem_nil, or_false] at member
    rcases member with rfl | rfl
    · cases automatic
    · cases automatic

/-- A red glaze. -/
def glazes : Table :=
  ((ofSchema "Glazes" (glazeSchema (some (.text "plain")))).perform
    (.addRow [some (.text "G1"), some (.text "red")])).state

/-- A glaze whose shade is open. -/
def openGlazes : Table :=
  ((ofSchema "Samples" (glazeSchema none)).perform
    (.addRow [some (.text "G2"), none])).state

/-- The open shade becomes plain. -/
theorem glazes_take_open_shades :
    glazes.Reachable ∧ openGlazes.Reachable ∧
      (∀ field ∈ glazes.flat.fields, field.Made) ∧ glazes.compatible openGlazes = true ∧
      (glazes.merge openGlazes).result = .ok () ∧
      (glazes.merge openGlazes).state.rows =
        [[some (.text "G1"), some (.text "red")], [some (.text "G2"), some (.text "plain")]] := by
  have reached : glazes.Reachable := .step (.start _ _) _
  have otherReached : openGlazes.Reachable := .step (.start _ _) _
  have made : ∀ field ∈ glazes.flat.fields, field.Made := by
    have fields : glazes.flat.fields = [codeField, shadeField (some (.text "plain"))] := rfl
    rw [fields, List.forall_mem_cons, List.forall_mem_singleton]
    exact ⟨made_codeField, made_shadeField⟩
  have agree : glazes.compatible openGlazes = true := by decide +kernel
  have accepted : (glazes.merge openGlazes).result = .ok () := by rfl
  have outcome :=
    (Reachable.merge_appends_or_refuses reached otherReached made).2 agree
  refine ⟨reached, otherReached, made, agree, accepted, ?_⟩
  rw [(outcome.2.1 accepted).1]
  rfl

end Table

end Tabula
