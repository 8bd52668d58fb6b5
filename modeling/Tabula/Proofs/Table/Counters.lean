import Tabula.Proofs.Table.Merging
import Tabula.Proofs.Value.Narrowing

/-!
# Numbers from counters

The counter of a column stands behind every number that the column holds, however the
numbers got there, so the number for an empty cell is larger than all of them.  But
counters end with the last number of 64 bits.  Once that number is stored, the counter
stays at it and hands it out again, and only a unique column refuses it then.
-/

namespace Tabula

/-- The counter of a column has passed every number in its cells, or has come to its
end. -/
theorem Ledger.passed_of_mem {field : Field} (automatic : field.head.autoIncrement = true)
    {cells : List Cell} {value : Value} (member : some value ∈ cells) {number : Long}
    (whole : value.asLong? = some number) :
    ∃ counter, (ofCells field cells).counter = some counter ∧
      min (number.value + 1) IntegerWidth.bits64.maximum ≤ counter.next.value := by
  rcases counter_ofCells automatic cells with ⟨counter, known, _, furthest⟩
  refine ⟨counter, known, ?_⟩
  rw [List.max?_eq_some_iff] at furthest
  apply furthest.2
  apply List.mem_cons_of_mem
  apply List.mem_map.mpr
  exact ⟨number, List.mem_filterMap.mpr ⟨some value, member, whole⟩, rfl⟩

theorem Kind.exists_width_of_isInteger {kind : Kind} (whole : kind.isInteger = true) :
    ∃ width, kind = .scalar (.integer width) := by
  cases kind with
  | scalar inner =>
      cases inner with
      | integer width => exact ⟨width, rfl⟩
      | boolean => cases whole
      | real => cases whole
      | text => cases whole
  | list => cases whole
  | embedded => cases whole
  | lookup => cases whole
  | unresolved => cases whole

/-- A value of an integer kind is a number of that width. -/
theorem Value.exists_integer_of_kind {value : Value} {width : IntegerWidth}
    (kind : value.kind = .integer width) : ∃ number, value = .integer width number := by
  cases value with
  | integer other number =>
      cases kind
      exact ⟨number, rfl⟩
  | boolean => cases kind
  | real => cases kind
  | text => cases kind

namespace Table

/-- A value that stands in a column suits it. -/
theorem Obeys.suits_of_mem {table : Table} (obeys : table.Obeys) {column : Nat} {field : Field}
    (fieldAt : table.flat.fields[column]? = some field) {value : Value}
    (member : some value ∈ table.columnCells column) : field.Suits (some value) := by
  rcases List.mem_map.mp member with ⟨row, stored, found⟩
  rcases exists_getElem?_of_forall₂ (obeys.rows row stored) fieldAt with ⟨cell, cellAt, suits⟩
  rw [cellAt, Option.join_some] at found
  rwa [← found]

/-- An empty cell of a column with a counter takes the number at which that stands. -/
theorem exists_number_of_prepareCell {name : String} {field : Field} {ledger : Ledger}
    {counter : Counter} {width : IntegerWidth} {cell : Cell}
    (known : ledger.counter = some counter) (kind : field.kind = .scalar (.integer width))
    (prepared : prepareCell name field ledger none = .ok cell) :
    ∃ number : Whole width, cell = some (.integer width number) ∧
      number.value = counter.next.value := by
  have given : filled field ledger none = some (.integer .bits64 counter.next) := by
    simp [filled, Ledger.next?, known]
  simp only [prepareCell, given, kind, Value.coerce_scalar] at prepared
  split at prepared
  · cases prepared
  · rename_i coerced accepted
    split at prepared
    · cases prepared
    · cases prepared
      rcases Value.convert_long_eq_ok_iff.mp accepted with ⟨number, same, rfl⟩
      exact ⟨number, rfl, same⟩

/-- A unique column takes no number that it holds. -/
theorem ne_of_fresh {field : Field} {width : IntegerWidth} {number held : Whole width}
    {cells : List Cell} (unique : field.head.unique = true)
    (member : some (.integer width held) ∈ cells)
    (fresh : (Ledger.ofCells field cells).Fresh (some (.integer width number))) :
    held.value ≠ number.value := by
  intro same
  rcases Ledger.mem_keys_ofCells unique cells with ⟨keys, known, exact⟩
  have among : CellKey.integer number.value ∈ keys := by
    rw [exact, mem_storedKeys_iff]
    exact ⟨_, member, congrArg CellKey.integer same⟩
  simp [Ledger.Fresh, Ledger.holds, known, among] at fresh

/-- An empty cell of a column with a counter is given a number larger than all that the
column holds.  The one exception is the last number of 64 bits, which a column that is not
unique gives again. -/
theorem Reachable.handed_out_numbers_grow {table next : Table} (reached : table.Reachable)
    {column : Nat} {field : Field} (fieldAt : table.flat.fields[column]? = some field)
    (automatic : field.head.autoIncrement = true) {inputs : List Cell}
    (empty : inputs[column]?.getD none = none) (accepted : table.addRow inputs = .ok next) :
    ∃ (row : Row) (width : IntegerWidth) (number : Whole width),
      next = table.storeRow row ∧ row[column]? = some (some (.integer width number)) ∧
      ∀ earlier, some earlier ∈ table.columnCells column →
        ∃ held : Whole width, earlier = .integer width held ∧
          (held.value < number.value ∨
            held.value = IntegerWidth.bits64.maximum ∧
              number.value = IntegerWidth.bits64.maximum ∧ field.head.unique = false) := by
  have sound := reached.sound
  rcases addRow_eq_ok_iff.mp accepted with ⟨row, prepared, same⟩
  rcases prepareCell_of_prepareCells prepared fieldAt (sound.tracked column field fieldAt) with
    ⟨cell, cellAt, here⟩
  have whole := table.flat.counted field (List.mem_of_getElem? fieldAt) automatic
  rcases Kind.exists_width_of_isInteger whole with ⟨width, kind⟩
  rcases Ledger.counter_ofCells automatic (table.columnCells column) with ⟨counter, known, _⟩
  have fresh := fresh_of_prepareCell here
  rw [empty] at here
  rcases exists_number_of_prepareCell known kind here with ⟨number, rfl, stands⟩
  refine ⟨row, width, number, same, cellAt, ?_⟩
  intro earlier member
  have suits : field.kind = .scalar earlier.kind := sound.obeys.suits_of_mem fieldAt member
  rw [kind, Kind.scalar.injEq] at suits
  rcases Value.exists_integer_of_kind suits.symm with ⟨held, rfl⟩
  refine ⟨held, rfl, ?_⟩
  rcases Ledger.passed_of_mem automatic member rfl with ⟨other, again, passed⟩
  rw [known, Option.some.injEq] at again
  rw [← again, Whole.widen_value, ← stands] at passed
  have last := counter.next.le_maximum
  have bound : held.value ≤ IntegerWidth.bits64.maximum := held.widen.le_maximum
  by_cases smaller : held.value < number.value
  · exact Or.inl smaller
  · have ended : held.value = IntegerWidth.bits64.maximum ∧
        number.value = IntegerWidth.bits64.maximum := by
      omega
    refine Or.inr ⟨ended.1, ended.2, Bool.eq_false_iff.mpr ?_⟩
    intro unique
    exact ne_of_fresh unique member fresh (ended.1.trans ended.2.symm)

/-- The number of a line. -/
def lineField : Field :=
  .single
    { name := "id", typeText := "int64", autoIncrement := true
      shape := .scalar (.integer .bits64) none }

/-- Lines of a log, numbered from a counter. -/
def logSchema : FlatSchema where
  schema := { name := "Log", fields := [lineField] }
  flat := by decide
  counted := by decide

/-- A log whose only line has the given number. -/
def logFrom (number : Long) : Table :=
  ((ofSchema "Logs" logSchema).perform (.addRow [some (.integer .bits64 number)])).state

theorem reachable_logFrom (number : Long) : (logFrom number).Reachable :=
  .step (.start "Logs" logSchema) _

theorem fieldAt_logFrom (number : Long) :
    (logFrom number).flat.fields[0]? = some lineField :=
  rfl

/-- The seventh number. -/
def seven : Long :=
  ⟨7, by decide, by decide⟩

/-- The last number of 64 bits. -/
def lastLong : Long :=
  ⟨IntegerWidth.bits64.maximum, by decide, by decide⟩

/-- A line behind the seventh gets a larger number. -/
theorem logFrom_seven_grows :
    (logFrom seven).Reachable ∧ (logFrom seven).columnCells 0 = [some (.integer .bits64 seven)] ∧
      ∃ (next : Table) (row : Row) (width : IntegerWidth) (number : Whole width),
        (logFrom seven).addRow [none] = .ok next ∧ next = (logFrom seven).storeRow row ∧
        row[0]? = some (some (.integer width number)) ∧ seven.value < number.value := by
  have cells : (logFrom seven).columnCells 0 = [some (.integer .bits64 seven)] := by rfl
  refine ⟨reachable_logFrom seven, cells, ?_⟩
  cases accepted : (logFrom seven).addRow [none] with
  | error refusal => cases accepted
  | ok next =>
      rcases Reachable.handed_out_numbers_grow (reachable_logFrom seven) (fieldAt_logFrom seven)
        rfl rfl accepted with ⟨row, width, number, same, cellAt, larger⟩
      refine ⟨next, row, width, number, rfl, same, cellAt, ?_⟩
      rcases larger (.integer .bits64 seven) (cells ▸ List.mem_singleton_self _) with
        ⟨held, ⟨⟩, smaller | ⟨last, _⟩⟩
      · exact smaller
      · exact absurd last (by decide)

/-- Not every number that a counter hands out is new: the last one is given twice. -/
theorem last_number_is_handed_out_again :
    ¬∀ (table next : Table) (column : Nat) (field : Field) (inputs : List Cell) (row : Row),
      table.Reachable → table.flat.fields[column]? = some field →
      field.head.autoIncrement = true → inputs[column]?.getD none = none →
      table.addRow inputs = .ok next → next = table.storeRow row →
      ∀ (stored earlier : Value) (number held : Long), row[column]? = some (some stored) →
        some earlier ∈ table.columnCells column → stored.asLong? = some number →
        earlier.asLong? = some held → held.value < number.value := by
  intro claim
  have cells : (logFrom lastLong).columnCells 0 = [some (.integer .bits64 lastLong)] := by rfl
  have accepted : (logFrom lastLong).addRow [none] =
      .ok ((logFrom lastLong).storeRow [some (.integer .bits64 lastLong)]) := by rfl
  have larger := claim _ _ 0 _ _ _ (reachable_logFrom lastLong) (fieldAt_logFrom lastLong) rfl
    rfl accepted rfl (.integer .bits64 lastLong) (.integer .bits64 lastLong) lastLong lastLong rfl
    (cells ▸ List.mem_singleton_self _) rfl rfl
  exact Int.lt_irrefl _ larger

end Table

end Tabula
