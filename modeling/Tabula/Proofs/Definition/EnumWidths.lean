import Tabula.Proofs.Definition.Enums

/-!
# The widths of enums

The width of an enum is settled before any row is stored, from the largest value alone: it is
the one that is declared, when the largest value fits it, and otherwise the narrowest that
holds that value.  Storing the rows then converts and checks every value once more.  The two
always agree, so an enum is only refused for what its header and its lines say, and each value
is stored as it was computed.
-/

namespace Tabula

/-! ## Widths that hold values -/

namespace IntegerWidth

/-- No width that reaches a number is narrower than the one chosen for it. -/
theorem maximum_smallestFor_le {number : Int} {width : IntegerWidth}
    (reaches : number ≤ width.maximum) : (smallestFor number).maximum ≤ width.maximum := by
  unfold smallestFor
  cases width with
  | bits8 => exact Int.le_of_eq (congrArg maximum (if_pos reaches))
  | bits16 =>
      rw [if_pos reaches]
      split <;> decide
  | bits32 =>
      rw [if_pos reaches]
      split
      · decide
      · split <;> decide
  | bits64 => exact maximum_le_bits64 _

/-- Every value of the entries is a number of the width. -/
def HoldsAll (width : IntegerWidth) (entries : List EnumEntry) : Prop :=
  ∀ entry ∈ entries, ∃ number : Whole width, number.value = entry.value.value

end IntegerWidth

namespace Definition

/-- The largest value is zero or that of an entry, and no entry has a larger one. -/
theorem max?_largestValue (entries : List EnumEntry) :
    (0 :: entries.map (·.value.value)).max? = some (largestValue entries) := by
  rw [List.max?_cons', List.foldl_map]
  rfl

theorem largestValue_le_iff {entries : List EnumEntry} {bound : Int} :
    largestValue entries ≤ bound ↔ 0 ≤ bound ∧ ∀ entry ∈ entries, entry.value.value ≤ bound := by
  rw [List.max?_le_iff (max?_largestValue entries), List.forall_mem_cons, List.forall_mem_map]

/-- Values that are not negative fit a width exactly when the largest of them does. -/
theorem holdsAll_iff {entries : List EnumEntry} {width : IntegerWidth}
    (nonnegative : ∀ entry ∈ entries, 0 ≤ entry.value.value) :
    width.HoldsAll entries ↔ largestValue entries ≤ width.maximum := by
  have room := width.one_le_maximum
  rw [largestValue_le_iff]
  constructor
  · intro holds
    refine ⟨by omega, ?_⟩
    intro entry member
    obtain ⟨number, same⟩ := holds entry member
    rw [← same]
    exact number.le_maximum
  · rintro ⟨_, below⟩ entry member
    have floor := Int.le_trans width.minimum_nonpos (nonnegative entry member)
    exact ⟨⟨entry.value.value, floor, below entry member⟩, rfl⟩

/-- The largest value of an enum that a width does not hold is that of an entry. -/
theorem exists_largest {entries : List EnumEntry} {width : IntegerWidth}
    (exceeds : width.maximum < largestValue entries) :
    ∃ entry ∈ entries, entry.value.value = largestValue entries ∧
      ∀ other ∈ entries, other.value.value ≤ entry.value.value := by
  obtain ⟨attained, bound⟩ := List.max?_eq_some_iff.mp (max?_largestValue entries)
  rcases List.mem_cons.mp attained with zero | among
  · have room := width.one_le_maximum
    omega
  · obtain ⟨entry, member, same⟩ := List.mem_map.mp among
    refine ⟨entry, member, same, ?_⟩
    intro other further
    rw [same]
    exact bound _ (List.mem_cons_of_mem _ (List.mem_map_of_mem further))

/-- The width of an enum reaches its largest value. -/
theorem le_maximum_of_enumWidth {name : String} {declared : Option IntegerWidth} {largest : Int}
    {width : IntegerWidth} (long : largest ≤ IntegerWidth.bits64.maximum)
    (settled : enumWidth name declared largest = .ok width) : largest ≤ width.maximum := by
  cases declared with
  | none =>
      cases settled
      exact IntegerWidth.le_maximum_smallestFor long
  | some declared =>
      rw [enumWidth] at settled
      split at settled
      · cases settled
      · rename_i fits
        cases settled
        exact Int.not_lt.mp fits

end Definition

/-! ## What an enum is refused for -/

/-- The refusal is that of a schema or of a table. -/
def DefinitionError.IsOfStorage : DefinitionError → Prop
  | .refusedSchema _ => True
  | .refusedTable _ => True
  | _ => False

namespace Definition

section

variable {refusal : DefinitionError}

theorem not_isOfStorage_of_readEnumHeader {header : String}
    (refused : readEnumHeader header = .error refusal) : ¬refusal.IsOfStorage := by
  rw [readEnumHeader] at refused
  split at refused
  · cases refused
    exact not_false
  · rw [bind_eq_error_iff] at refused
    rcases refused with misnamed | ⟨_, _, impossible⟩
    · rw [checkName] at misnamed
      split at misnamed
      · cases misnamed
      · cases misnamed
        exact not_false
    · exact absurd impossible pure_ne_error

theorem not_isOfStorage_of_declaredWidth {name : String} {word : Option String}
    (refused : declaredWidth name word = .error refusal) : ¬refusal.IsOfStorage := by
  unfold declaredWidth at refused
  split at refused
  · cases refused
  · split at refused
    · cases refused
      exact not_false
    · cases refused
    · cases refused
      exact not_false

theorem not_isOfStorage_of_enumWidth {name : String} {declared : Option IntegerWidth}
    {largest : Int} (refused : enumWidth name declared largest = .error refusal) :
    ¬refusal.IsOfStorage := by
  unfold enumWidth at refused
  split at refused
  · cases refused
  · split at refused
    · cases refused
      exact not_false
    · cases refused

theorem not_isOfStorage_of_readEnumLine {enum line : String}
    (refused : readEnumLine enum line = .error refusal) : ¬refusal.IsOfStorage := by
  rw [readEnumLine] at refused
  split at refused
  · cases refused
    exact not_false
  · cases refused

theorem not_isOfStorage_of_readEnumEntries {enum : String} {seen : NameSet} {next : Long}
    {trees : List Json} (refused : readEnumEntries enum seen next trees = .error refusal) :
    ¬refusal.IsOfStorage := by
  induction trees generalizing seen next with
  | nil => cases refused
  | cons tree trees inductionHypothesis =>
      unfold readEnumEntries at refused
      split at refused
      · cases refused
        exact not_false
      · rw [bind_eq_error_iff] at refused
        rcases refused with unread | ⟨line, _, refused⟩
        · exact not_isOfStorage_of_readEnumLine unread
        · dsimp only at refused
          split at refused
          · cases refused
            exact not_false
          · split at refused
            · cases refused
              exact not_false
            · rw [bind_eq_error_iff] at refused
              rcases refused with further | ⟨_, _, impossible⟩
              · exact inductionHypothesis further
              · exact absurd impossible pure_ne_error

theorem not_isOfStorage_of_readEnumParts {header : EnumHeader} {body : Json}
    (refused : readEnumParts header body = .error refusal) : ¬refusal.IsOfStorage := by
  rw [readEnumParts, bind_eq_error_iff] at refused
  rcases refused with undeclared | ⟨declared, _, refused⟩
  · exact not_isOfStorage_of_declaredWidth undeclared
  · split at refused
    · rw [bind_eq_error_iff] at refused
      rcases refused with unread | ⟨entries, _, refused⟩
      · exact not_isOfStorage_of_readEnumEntries unread
      · rw [bind_eq_error_iff] at refused
        rcases refused with exceeds | ⟨_, _, impossible⟩
        · exact not_isOfStorage_of_enumWidth exceeds
        · exact absurd impossible pure_ne_error
    · cases refused
      exact not_false

end

/-! ## Enums that are read -/

/-- An enum whose header and body are read is stored. -/
theorem exists_of_readEnumParts {header : String} {parts : EnumHeader} {body : Json}
    {entries : List EnumEntry} {width : IntegerWidth}
    (headerRead : readEnumHeader header = .ok parts)
    (bodyRead : readEnumParts parts body = .ok (entries, width)) :
    ∃ table, (readEnumTable header body).result = .ok table ∧ table.Lists entries width := by
  obtain ⟨declared, _, _, _, _, _, _, mayFollow, settled⟩ := readEnumParts_eq_ok_iff.mp bodyRead
  have long : largestValue entries ≤ IntegerWidth.bits64.maximum :=
    (holdsAll_iff mayFollow.nonnegative).mp fun entry _ => ⟨entry.value, rfl⟩
  have holds : width.HoldsAll entries :=
    (holdsAll_iff mayFollow.nonnegative).mpr (le_maximum_of_enumWidth long settled)
  obtain ⟨rows, each⟩ : ∃ rows, List.Forall₂ (EnumEntry.IsStored width) entries rows := by
    apply exists_forall₂
    intro entry member
    obtain ⟨number, same⟩ := holds entry member
    exact ⟨_, number, same, rfl⟩
  obtain ⟨start, made⟩ := exists_emptyEnumTable parts width
  have isEmpty := isEmptyEnum_of_emptyEnumTable made
  have stored := (Table.addEach_entries_eq_ok_iff isEmpty.fields isEmpty.plain).mpr ⟨rows, each, rfl⟩
  have accepted := readEnumTable_eq_ok_iff.mpr
    ⟨parts, entries, width, start, headerRead, bodyRead, made, stored⟩
  obtain ⟨_, _, _, sameHeader, sameBody, _, lists⟩ := lists_of_readEnumTable accepted
  cases headerRead.symm.trans sameHeader
  cases bodyRead.symm.trans sameBody
  exact ⟨_, accepted, lists⟩

/-- An enum is refused for its header or its body. -/
theorem readEnumTable_eq_error_iff {header : String} {body : Json} {refusal : DefinitionError} :
    (readEnumTable header body).result = .error refusal ↔
      readEnumHeader header = .error refusal ∨
        ∃ parts, readEnumHeader header = .ok parts ∧ readEnumParts parts body = .error refusal := by
  cases headerRead : readEnumHeader header with
  | error cause => simp [readEnumTable, headerRead, Except.bind]
  | ok parts =>
      cases bodyRead : readEnumParts parts body with
      | error cause => simp [readEnumTable, headerRead, bodyRead, Except.bind]
      | ok read =>
          obtain ⟨table, accepted, _⟩ := exists_of_readEnumParts headerRead bodyRead
          simp [accepted, bodyRead]

/-! ## Lines that can be numbered -/

/-- The trees are texts that read as the lines.  The lines have different names but for case,
and no negative values. -/
structure Enumerates (enum : String) (trees : List Json) (lines : List EnumLine) : Prop where
  parsed : List.Forall₂ (IsLine enum) trees lines
  distinct : (lines.map (NameKey.of ·.name)).Nodup
  nonnegative : ∀ line ∈ lines, ∀ value, line.value = some value → 0 ≤ value.value

theorem names_numberLines (next : Long) (lines : List EnumLine) :
    (numberLines next lines).map (NameKey.of ·.name) = lines.map (NameKey.of ·.name) := by
  induction lines generalizing next with
  | nil => rfl
  | cons line lines inductionHypothesis =>
      rw [numberLines, List.map_cons, List.map_cons, inductionHypothesis]

/-- A count that starts at a number that is not negative stays so, unless a line gives a
negative value. -/
theorem nonnegative_numberLines {next : Long} {lines : List EnumLine} (start : 0 ≤ next.value)
    (nonnegative : ∀ line ∈ lines, ∀ value, line.value = some value → 0 ≤ value.value) :
    ∀ entry ∈ numberLines next lines, 0 ≤ entry.value.value := by
  induction lines generalizing next with
  | nil => exact List.forall_mem_nil _
  | cons line lines inductionHypothesis =>
      rw [List.forall_mem_cons] at nonnegative
      have here : 0 ≤ (line.value.getD next).value := by
        cases given : line.value with
        | none => exact start
        | some value => exact nonnegative.1 value given
      rw [numberLines, List.forall_mem_cons]
      exact ⟨here, inductionHypothesis (Int.le_trans here (Whole.le_next _)) nonnegative.2⟩

theorem Enumerates.mayFollow {enum : String} {trees : List Json} {lines : List EnumLine}
    (enumerates : Enumerates enum trees lines) :
    MayFollow .empty (numberLines (.ofBool .bits64 false) lines) where
  nonnegative := nonnegative_numberLines (Int.le_refl 0) enumerates.nonnegative
  distinct := by
    rw [names_numberLines]
    exact enumerates.distinct
  unseen := fun entry _ => NameSet.contains_empty entry.name

/-- The width alone decides about lines that can be numbered. -/
theorem Enumerates.readEnumParts {parts : EnumHeader} {trees : List Json}
    {lines : List EnumLine} (enumerates : Enumerates parts.name trees lines)
    {declared : Option IntegerWidth} (declares : declaredWidth parts.name parts.kind = .ok declared) :
    readEnumParts parts (.array trees) =
      (enumWidth parts.name declared
        (largestValue (numberLines (.ofBool .bits64 false) lines))).map
          (numberLines (.ofBool .bits64 false) lines, ·) := by
  have read := readEnumEntries_eq_ok_iff.mpr ⟨lines, enumerates.parsed, rfl, enumerates.mayFollow⟩
  rw [Definition.readEnumParts, declares]
  change (readEnumEntries parts.name .empty (.ofBool .bits64 false) trees >>= _) = _
  rw [read]
  rfl

/-- An enum is never refused by the schema or the table behind it.  Lines that can be numbered
are stored in the narrowest width that holds all their values, or in the width that is
declared, each value as it was computed.  Only a declared width that does not hold them all is
refused, with the largest of the values. -/
theorem enums_fit_their_widths (header : String) (body : Json) :
    (∀ refusal, (readEnumTable header body).result = .error refusal → ¬refusal.IsOfStorage) ∧
    ∀ parts trees lines entries, readEnumHeader header = .ok parts → body = .array trees →
      Enumerates parts.name trees lines → entries = numberLines (.ofBool .bits64 false) lines →
      (parts.kind = none →
        ∃ table width, (readEnumTable header body).result = .ok table ∧
          table.Lists entries width ∧ width.HoldsAll entries ∧
          ∀ other : IntegerWidth, other.HoldsAll entries → width.maximum ≤ other.maximum) ∧
      ∀ word width, parts.kind = some word →
        ScalarKind.ofKeyword? word = some (.integer width) →
        (width.HoldsAll entries →
          ∃ table, (readEnumTable header body).result = .ok table ∧
            table.Lists entries width) ∧
        (¬width.HoldsAll entries →
          ∃ largest ∈ entries, (∀ entry ∈ entries, entry.value.value ≤ largest.value.value) ∧
            (readEnumTable header body).result = .error (.enumOutOfRange parts.name
              largest.value.value (.scalar (.integer width)))) := by
  constructor
  · intro refusal refused
    rcases readEnumTable_eq_error_iff.mp refused with unread | ⟨parts, _, unread⟩
    · exact not_isOfStorage_of_readEnumHeader unread
    · exact not_isOfStorage_of_readEnumParts unread
  · rintro parts trees lines entries headerRead rfl enumerates rfl
    have mayFollow := enumerates.mayFollow
    constructor
    · intro undeclared
      have declares : declaredWidth parts.name parts.kind = .ok none := by
        rw [undeclared]
        rfl
      obtain ⟨table, accepted, lists⟩ :=
        exists_of_readEnumParts headerRead (enumerates.readEnumParts declares)
      refine ⟨table, _, accepted, lists, ?_, ?_⟩
      · rw [holdsAll_iff mayFollow.nonnegative]
        apply IntegerWidth.le_maximum_smallestFor
        rw [← holdsAll_iff mayFollow.nonnegative]
        exact fun entry _ => ⟨entry.value, rfl⟩
      · intro other holds
        exact IntegerWidth.maximum_smallestFor_le ((holdsAll_iff mayFollow.nonnegative).mp holds)
    · intro word width declared keyword
      have declares : declaredWidth parts.name parts.kind = .ok (some width) := by
        rw [declared, declaredWidth, keyword]
      have bodyRead := enumerates.readEnumParts declares
      rw [enumWidth] at bodyRead
      rw [holdsAll_iff mayFollow.nonnegative]
      constructor
      · intro fits
        rw [if_neg (Int.not_lt.mpr fits)] at bodyRead
        exact exists_of_readEnumParts headerRead bodyRead
      · intro exceeds
        rw [Int.not_le] at exceeds
        rw [if_pos exceeds] at bodyRead
        obtain ⟨largest, member, same, bound⟩ := exists_largest exceeds
        refine ⟨largest, member, bound, readEnumTable_eq_error_iff.mpr (.inr ?_)⟩
        rw [same]
        exact ⟨parts, headerRead, bodyRead⟩

/-- Sizes of which the last one is too wide for eight bits. -/
def sizeTrees : List Json :=
  [.text "Small", .text "Wide = 200 // by far"]

/-- What the texts of the sizes say. -/
def sizeLines : List EnumLine :=
  [⟨"Small", none, ""⟩, ⟨"Wide", some ⟨200, by decide, by decide⟩, "by far"⟩]

theorem enumerates_sizes : Enumerates "Size" sizeTrees sizeLines where
  parsed := .cons ⟨_, rfl, by rfl⟩ (.cons ⟨_, rfl, by rfl⟩ .nil)
  distinct := by decide +kernel
  nonnegative := by
    simp only [sizeLines, List.forall_mem_cons]
    refine ⟨?_, ?_, List.forall_mem_nil _⟩
    · rintro value ⟨⟩
    · rintro _ ⟨⟩
      exact Int.natCast_nonneg 200

/-- The sizes are stored in sixteen bits, and do not fit eight. -/
theorem sizes_fit_sixteen_bits :
    (∃ table, (readEnumTable "enum Size" (.array sizeTrees)).result = .ok table ∧
      table.Lists (numberLines (.ofBool .bits64 false) sizeLines) .bits16) ∧
    (readEnumTable "enum Size: int8" (.array sizeTrees)).result =
      .error (.enumOutOfRange "Size" 200 (.scalar (.integer .bits8))) := by
  have nonnegative := enumerates_sizes.mayFollow.nonnegative
  have largest : largestValue (numberLines (.ofBool .bits64 false) sizeLines) = 200 := by rfl
  have narrow : ¬IntegerWidth.bits8.HoldsAll (numberLines (.ofBool .bits64 false) sizeLines) := by
    rw [holdsAll_iff nonnegative, largest]
    decide
  have enough : IntegerWidth.bits16.HoldsAll (numberLines (.ofBool .bits64 false) sizeLines) := by
    rw [holdsAll_iff nonnegative, largest]
    decide
  constructor
  · obtain ⟨undeclared, _⟩ := (enums_fit_their_widths "enum Size" (.array sizeTrees)).2
      ⟨"Size", none, none⟩ _ _ _ (by rfl) rfl enumerates_sizes rfl
    obtain ⟨table, width, accepted, lists, holds, narrowest⟩ := undeclared rfl
    have least := narrowest .bits16 enough
    cases width with
    | bits8 => exact absurd holds narrow
    | bits16 => exact ⟨table, accepted, lists⟩
    | bits32 | bits64 => exact absurd least (by decide)
  · obtain ⟨_, declared⟩ := (enums_fit_their_widths "enum Size: int8" (.array sizeTrees)).2
      ⟨"Size", some "int8", none⟩ _ _ _ (by rfl) rfl enumerates_sizes rfl
    obtain ⟨wide, member, bound, refused⟩ := (declared "int8" .bits8 rfl (by rfl)).2 narrow
    have same : wide.value.value = 200 := by
      apply Int.le_antisymm
      · exact (largestValue_le_iff.mp (Int.le_of_eq largest)).2 wide member
      · exact bound _ (List.mem_cons_of_mem _ List.mem_cons_self)
    rw [refused, same]

end Definition

end Tabula
