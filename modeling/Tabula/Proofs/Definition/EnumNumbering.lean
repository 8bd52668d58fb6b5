import Tabula.Proofs.Definition.Enums

/-!
# How the values of an enum go on

Each line of an enum is stored as one row, in the order of the lines.  A line that gives a
value stores it, and one that gives none goes on from the row before: with the next number,
or with zero where no row stands before.  But the count ends with the last number of 64
bits.  Behind a row that holds it, a line without a value is not refused: it stores that
number once more.
-/

namespace Tabula

/-- The number is the one that the line gives or, without one, the successor of the number
before it.  Without a number before it the count starts with zero. -/
def EnumLine.Continues (line : EnumLine) (before : Option Int) (number : Int) : Prop :=
  match line.value, before with
  | some given, _ => number = given.value
  | none, none => number = 0
  | none, some earlier => number = earlier + 1

/-- The number in the row in front of a position, if there is one. -/
def Table.numberBefore (table : Table) : Nat → Option Int
  | 0 => none
  | position + 1 =>
    (table.cell position Definition.enumValueField).bind fun value =>
      value.asLong?.map Whole.value

namespace EnumLine

variable {line : EnumLine}

/-- The first line of an enum starts the count. -/
theorem continues_none {number : Int}
    (same : number = (line.value.getD (.ofBool .bits64 false)).value) :
    line.Continues none number := by
  unfold Continues
  cases given : line.value with
  | none =>
      rw [given] at same
      exact same
  | some value =>
      rw [given] at same
      exact same

/-- A line goes on behind a number, unless it gives no value and the number is the last one
of 64 bits. -/
theorem continues_or_repeats {earlier : Long} {number : Int}
    (same : number = (line.value.getD earlier.next).value) :
    line.Continues (some earlier.value) number ∨
      line.value = none ∧ earlier.value = IntegerWidth.bits64.maximum ∧ number = earlier.value := by
  unfold Continues
  cases given : line.value with
  | some value =>
      rw [given] at same
      exact .inl same
  | none =>
      rw [given, Option.getD_none, Whole.next_value] at same
      have bound := earlier.le_maximum
      by_cases last : earlier.value = IntegerWidth.bits64.maximum
      · have repeated : number = earlier.value := by omega
        exact .inr ⟨rfl, last, repeated⟩
      · have continued : number = earlier.value + 1 := by omega
        exact .inl continued

end EnumLine

namespace Definition

variable {next : Long} {lines : List EnumLine} {line : EnumLine}

@[simp]
theorem length_numberLines (next : Long) (lines : List EnumLine) :
    (numberLines next lines).length = lines.length := by
  induction lines generalizing next with
  | nil => rfl
  | cons line lines inductionHypothesis => exact congrArg (· + 1) (inductionHypothesis _)

theorem getElem?_numberLines_zero (lineAt : lines[0]? = some line) :
    (numberLines next lines)[0]? = some ⟨line.name, line.value.getD next, line.comment⟩ := by
  cases lines with
  | nil => cases lineAt
  | cons first lines =>
      cases lineAt
      rfl

/-- A line counts on from the entry of the line before. -/
theorem getElem?_numberLines_succ {position : Nat} (lineAt : lines[position + 1]? = some line) :
    ∃ earlier, (numberLines next lines)[position]? = some earlier ∧
      (numberLines next lines)[position + 1]? =
        some ⟨line.name, line.value.getD earlier.value.next, line.comment⟩ := by
  induction lines generalizing next position with
  | nil => cases lineAt
  | cons first lines inductionHypothesis =>
      cases position with
      | zero => exact ⟨_, rfl, getElem?_numberLines_zero lineAt⟩
      | succ position => exact inductionHypothesis lineAt

end Definition

/-! ## Numbers of rows -/

namespace Table

variable {table : Table} {width : IntegerWidth} {entries : List EnumEntry}

/-- The row of an entry holds its value in the column of the values. -/
theorem Lists.numberBefore_succ (lists : table.Lists entries width) {position : Nat}
    {entry : EnumEntry} (entryAt : entries[position]? = some entry) :
    table.numberBefore (position + 1) = some entry.value.value := by
  obtain ⟨row, rowAt, number, same, rfl⟩ := exists_getElem?_of_forall₂ lists.rows entryAt
  have column := (Schema.positions_of_enumFields lists.fields).2
  have held : table.cell position Definition.enumValueField = some (.integer width number) := by
    rw [cell, column?, schema, column]
    simp [rowAt]
  rw [numberBefore, held, Option.bind_some, Value.asLong?, Option.map_some, Whole.widen_value,
    same]

end Table

namespace Definition

/-- An enum that is read has one row for each line of its body, with the name and the comment
of the line and with the value that it gives or that continues the row before.  The one
exception is a line without a value behind the last number of 64 bits, which repeats that
number. -/
theorem enum_values_continue {header : String} {body : Json} {table : Table}
    (accepted : (readEnumTable header body).result = .ok table) :
    ∃ (parts : EnumHeader) (trees : List Json) (lines : List EnumLine) (width : IntegerWidth),
      readEnumHeader header = .ok parts ∧ body = .array trees ∧
      List.Forall₂ (IsLine parts.name) trees lines ∧
      table.flat.fields = enumFields width ∧ table.rows.length = trees.length ∧
      ∀ position line, lines[position]? = some line →
        ∃ number : Whole width,
          table.rows[position]? = some [some (.text line.name), some (.integer width number),
            some (.text line.comment)] ∧
          (line.Continues (table.numberBefore position) number.value ∨
            line.value = none ∧
              table.numberBefore position = some IntegerWidth.bits64.maximum ∧
              number.value = IntegerWidth.bits64.maximum) := by
  obtain ⟨parts, entries, width, headerRead, bodyRead, _, lists⟩ := lists_of_readEnumTable accepted
  obtain ⟨_, trees, lines, _, rfl, each, rfl, _, _⟩ := readEnumParts_eq_ok_iff.mp bodyRead
  have size : table.rows.length = trees.length := by
    rw [← lists.rows.length_eq, length_numberLines, each.length_eq]
  refine ⟨parts, trees, lines, width, headerRead, rfl, each, lists.fields, size, ?_⟩
  intro position line lineAt
  cases position with
  | zero =>
      obtain ⟨_, rowAt, number, same, rfl⟩ :=
        exists_getElem?_of_forall₂ lists.rows (getElem?_numberLines_zero lineAt)
      exact ⟨number, rowAt, .inl (EnumLine.continues_none same)⟩
  | succ position =>
      obtain ⟨earlier, earlierAt, entryAt⟩ := getElem?_numberLines_succ lineAt
      obtain ⟨_, rowAt, number, same, rfl⟩ := exists_getElem?_of_forall₂ lists.rows entryAt
      refine ⟨number, rowAt, ?_⟩
      rw [lists.numberBefore_succ earlierAt]
      rcases EnumLine.continues_or_repeats same with continues | ⟨noValue, last, repeated⟩
      · exact .inl continues
      · exact .inr ⟨noValue, congrArg some last, repeated.trans last⟩

/-! ## Concrete enums -/

/-- Leaves of three colors, of which the second restarts the count. -/
def leafHeader : String :=
  "enum Leaf: int16"

/-- The lines of the leaves. -/
def leafLines : List Json :=
  [.text "RED", .text "GREEN = 5 // spring", .text "BROWN"]

theorem readEnumLine_brown : readEnumLine "Leaf" "BROWN" = .ok ⟨"BROWN", none, ""⟩ := by
  rfl

theorem numberBefore_leaf :
    (readEnumTable leafHeader (.array leafLines)).result.toOption.map (·.numberBefore 2) =
      some (some 5) := by
  decide +kernel

/-- The brown leaf comes behind the fifth. -/
theorem brown_continues_green :
    ∃ (table : Table) (width : IntegerWidth) (number : Whole width),
      (readEnumTable leafHeader (.array leafLines)).result = .ok table ∧
      table.numberBefore 2 = some 5 ∧
      table.rows[2]? = some [some (.text "BROWN"), some (.integer width number),
        some (.text "")] ∧
      number.value = 6 := by
  obtain ⟨table, accepted, before⟩ := Option.map_eq_some_iff.mp numberBefore_leaf
  rw [toOption_eq_some_iff] at accepted
  obtain ⟨parts, trees, lines, width, headerRead, body, each, _, _, follows⟩ :=
    enum_values_continue accepted
  cases body
  have named : parts.name = "Leaf" := by
    cases headerRead
    rfl
  have treeAt : leafLines[2]? = some (.text "BROWN") := rfl
  obtain ⟨line, lineAt, _, ⟨⟩, lineRead⟩ := exists_getElem?_of_forall₂ each treeAt
  rw [named, readEnumLine_brown, Except.ok.injEq] at lineRead
  subst lineRead
  obtain ⟨number, rowAt, continues | ⟨_, last, _⟩⟩ := follows 2 _ lineAt
  · rw [before] at continues
    exact ⟨table, width, number, accepted, before, rowAt, continues⟩
  · rw [before] at last
    exact absurd last (by decide)

/-- An enum whose first value is the last number of 64 bits. -/
def endLines : List Json :=
  [.text "A = 9223372036854775807", .text "B"]

theorem numberBefore_end :
    (readEnumTable "enum End" (.array endLines)).result.toOption.map (·.numberBefore 1) =
      some (some IntegerWidth.bits64.maximum) := by
  decide +kernel

/-- Values do not always go on: behind the last number of 64 bits, an enum is read that
repeats it. -/
theorem last_enum_value_is_repeated :
    ¬∀ (header : String) (parts : EnumHeader) (trees : List Json) (lines : List EnumLine)
      (table : Table), (readEnumTable header (.array trees)).result = .ok table →
      readEnumHeader header = .ok parts → List.Forall₂ (IsLine parts.name) trees lines →
      ∀ (position : Nat) (line : EnumLine), lines[position]? = some line →
        ∃ (width : IntegerWidth) (number : Whole width),
          table.rows[position]? = some [some (.text line.name), some (.integer width number),
            some (.text line.comment)] ∧
          line.Continues (table.numberBefore position) number.value := by
  intro claim
  obtain ⟨table, accepted, before⟩ := Option.map_eq_some_iff.mp numberBefore_end
  rw [toOption_eq_some_iff] at accepted
  have headerRead : readEnumHeader "enum End" = .ok ⟨"End", none, none⟩ := by rfl
  have each : List.Forall₂ (IsLine "End") endLines
      [⟨"A", some ⟨IntegerWidth.bits64.maximum, by decide, by decide⟩, ""⟩, ⟨"B", none, ""⟩] :=
    .cons ⟨_, rfl, by rfl⟩ (.cons ⟨_, rfl, by rfl⟩ .nil)
  obtain ⟨width, number, _, continues⟩ := claim _ _ _ _ _ accepted headerRead each 1 _ rfl
  rw [before] at continues
  change number.value = IntegerWidth.bits64.maximum + 1 at continues
  have bound := Int.le_trans number.le_maximum width.maximum_le_bits64
  omega

end Definition

end Tabula
