import Tabula.Definition.EnumText
import Tabula.Proofs.Definition.TypeExpressions
import Tabula.Proofs.Number.WholeText

/-!
# Headers and lines of enums as they are written

A header or a line of an enum is a name and up to two more parts, each behind a mark of its own
and with any blanks around the mark.  It is read back as these parts: a word ends where a mark
or a blank comes, and the marks of the parts differ, so that no part is taken for another, and
what comes behind the slashes is not looked into.
-/

namespace Tabula

open Text

/-! ## Written parts -/

/-- A description or a comment behind two slashes. -/
structure WrittenRemark where
  before : Gap
  behind : Gap
  content : String
  oneLine : '\n' ∉ content.toList
  trimmed : trimText content = content

/-- A kind behind a colon. -/
structure WrittenKind where
  before : Gap
  behind : Gap
  word : String
  filled : word ≠ ""
  isWords : ∀ c ∈ word.toList, isWord c = true

theorem WrittenKind.solid (kind : WrittenKind) : Solid kind.word.toList :=
  solid_of_isWord (mt String.toList_eq_nil_iff.mp kind.filled) kind.isWords

/-- A value behind an equals sign. -/
structure WrittenValue where
  before : Gap
  behind : Gap
  number : Long

/-- The text of a part behind its mark, with the blanks around the mark. -/
def markedText (before : Gap) (mark : List Char) (behind : Gap) (content : String) : List Char :=
  before.blanks ++ (mark ++ (behind.blanks ++ content.toList))

def WrittenRemark.text (remark : WrittenRemark) : List Char :=
  markedText remark.before ['/', '/'] remark.behind remark.content

def WrittenKind.text (kind : WrittenKind) : List Char :=
  markedText kind.before [':'] kind.behind kind.word

def WrittenValue.text (value : WrittenValue) : List Char :=
  markedText value.before ['='] value.behind (integerText value.number.value)

/-- The text of a part that may be missing. -/
def optionalText {Part : Type} (text : Part → List Char) : Option Part → List Char
  | none => []
  | some part => text part

/-- The character may start the name of a line. -/
def isLineName : List Char → Bool
  | [] => false
  | c :: rest => (isNameStart c || c = '_') && rest.all isWord

/-- A line of an enum as it is written. -/
structure WrittenEnumLine where
  leading : Gap
  name : String
  named : isLineName name.toList = true
  value : Option WrittenValue
  remark : Option WrittenRemark
  trailing : Gap

/-- A header of an enum as it is written. -/
structure WrittenEnumHeader where
  leading : Gap
  /-- What stands between the word for an enum and the name. -/
  spaces : Gap
  spaced : spaces.blanks ≠ []
  name : String
  named : isName name.toList = true
  kind : Option WrittenKind
  remark : Option WrittenRemark
  trailing : Gap

namespace WrittenEnumLine

/-- The text of a line. -/
def text (line : WrittenEnumLine) : String :=
  String.ofList (line.leading.blanks ++ (line.name.toList ++
    (optionalText WrittenValue.text line.value ++
      (optionalText WrittenRemark.text line.remark ++ line.trailing.blanks))))

/-- The parts of a line. -/
def parts (line : WrittenEnumLine) : EnumLine where
  name := line.name
  value := line.value.map (·.number)
  comment := (line.remark.map (·.content)).getD ""

end WrittenEnumLine

namespace WrittenEnumHeader

/-- The text of a header. -/
def text (header : WrittenEnumHeader) : String :=
  String.ofList (header.leading.blanks ++ ("enum".toList ++ (header.spaces.blanks ++
    (header.name.toList ++ (optionalText WrittenKind.text header.kind ++
      (optionalText WrittenRemark.text header.remark ++ header.trailing.blanks))))))

/-- The parts of a header.  An empty description counts as none. -/
def parts (header : WrittenEnumHeader) : EnumHeader where
  name := header.name
  kind := header.kind.map (·.word)
  description := (header.remark.map (·.content)).filter (· ≠ "")

end WrittenEnumHeader

/-! ## Remarks -/

namespace Text

theorem stopsAt_optional_remark {test : Char → Bool}
    (blanks : ∀ c : Char, isBlank c = true → test c = false) (slash : test '/' = false)
    (remark : Option WrittenRemark) :
    StopsAt test (optionalText WrittenRemark.text remark) := by
  cases remark with
  | none => nofun
  | some remark => exact remark.before.stopsAt blanks (stopsAt_cons slash _)

/-- A text without blanks at its ends is empty or solid. -/
theorem empty_or_solid {text : String} (trimmed : trimText text = text) :
    text.toList = [] ∨ Solid text.toList := by
  by_cases filled : text = ""
  · exact .inl (by rw [filled]; rfl)
  · exact .inr (solid_of_trimText filled trimmed)

theorem takeRemark?_text (remark : WrittenRemark) :
    takeRemark? remark.text = some (some remark.content.toList) := by
  have slash : ∀ others : List Char, StopsAt isBlank ('/' :: others) := stopsAt_cons (by decide)
  obtain ⟨starts, ends⟩ : StopsAt isBlank remark.content.toList ∧
      trimEnd remark.content.toList = remark.content.toList := by
    rcases empty_or_solid remark.trimmed with empty | solid
    · rw [empty]
      exact ⟨nofun, rfl⟩
    · exact ⟨solid.starts, solid.trimEnd_append []⟩
  have oneLine : remark.content.toList.contains '\n' = false := by
    rw [List.contains_eq_mem, decide_eq_false remark.oneLine]
  simp only [takeRemark?, WrittenRemark.text, markedText, List.cons_append, List.nil_append,
    trimStart_append remark.before.blank (slash _), trimStart_append remark.behind.blank starts,
    oneLine, ends, Bool.false_eq_true, if_false]

theorem takeRemark?_optional (remark : Option WrittenRemark) :
    takeRemark? (optionalText WrittenRemark.text remark) =
      some (remark.map (·.content.toList)) := by
  cases remark with
  | none => rfl
  | some remark => exact takeRemark?_text remark

theorem Solid.append_marked {front : List Char} {content : String} (first : Solid front)
    (last : Solid content.toList) (before : Gap) (mark : List Char) (behind : Gap) :
    Solid (front ++ markedText before mark behind content) := by
  have joined := first.join last (before.blanks ++ (mark ++ behind.blanks))
  rwa [List.append_assoc, List.append_assoc] at joined

/-- Trimming takes nothing from a text with a remark but blanks, and not from the remark. -/
theorem exists_trim_remark (leading trailing : Gap) {front : List Char} (solid : Solid front)
    (remark : Option WrittenRemark) :
    ∃ trimmed : Option WrittenRemark,
      trim (leading.blanks ++ (front ++
        (optionalText WrittenRemark.text remark ++ trailing.blanks))) =
        front ++ optionalText WrittenRemark.text trimmed ∧
      trimmed.map (·.content) = remark.map (·.content) := by
  cases remark with
  | none =>
      refine ⟨none, ?_, rfl⟩
      rw [optionalText, List.nil_append, List.append_nil,
        solid.trim_append leading.blank trailing.blank]
  | some remark =>
      rcases empty_or_solid remark.trimmed with empty | content
      · -- The blanks behind the slashes end the text, and go with those that follow it.
        refine ⟨some { remark with behind := .none }, ?_, rfl⟩
        have slashes : Solid ['/', '/'] := solid_of_trim (List.cons_ne_nil _ _) rfl
        have blank : ∀ c ∈ remark.behind.blanks ++ trailing.blanks, isBlank c = true :=
          List.forall_mem_append.mpr ⟨remark.behind.blank, trailing.blank⟩
        have trimmed := (solid.join slashes remark.before.blanks).trim_append leading.blank blank
        simpa [optionalText, WrittenRemark.text, markedText, Gap.none, empty] using trimmed
      · refine ⟨some remark, ?_, rfl⟩
        have whole := solid.append_marked content remark.before ['/', '/'] remark.behind
        have trimmed := whole.trim_append leading.blank trailing.blank
        rwa [List.append_assoc] at trimmed

/-! ## Parts behind a mark of one character -/

theorem takeMark?_markedText {mark : Char} (solid : isBlank mark = false) (before behind : Gap)
    {content : String} {rest : List Char} (starts : StopsAt isBlank (content.toList ++ rest)) :
    takeMark? mark (markedText before [mark] behind content ++ rest) =
      some (content.toList ++ rest) := by
  simp only [takeMark?, markedText, List.append_assoc, List.cons_append, List.nil_append,
    trimStart_append before.blank (stopsAt_cons solid _), if_true,
    trimStart_append behind.blank starts]

/-- A remark is not taken for a part behind another mark. -/
theorem takeMark?_remark {mark : Char} (notSlash : mark ≠ '/') (remark : Option WrittenRemark) :
    takeMark? mark (optionalText WrittenRemark.text remark) = none := by
  cases remark with
  | none => rfl
  | some remark =>
      have slash : ∀ others : List Char, StopsAt isBlank ('/' :: others) :=
        stopsAt_cons (by decide)
      simp only [takeMark?, optionalText, WrittenRemark.text, markedText, List.cons_append,
        trimStart_append remark.before.blank (slash _), if_neg notSlash.symm]

theorem takeKindWord_text (kind : Option WrittenKind) (remark : Option WrittenRemark) :
    takeKindWord (optionalText WrittenKind.text kind ++
        optionalText WrittenRemark.text remark) =
      (kind.map (·.word.toList), optionalText WrittenRemark.text remark) := by
  cases kind with
  | none => rw [optionalText, List.nil_append, takeKindWord, takeMark?_remark (by decide)]; rfl
  | some kind =>
      have stops := stopsAt_optional_remark isWord_of_isBlank (by decide) remark
      rw [takeKindWord, optionalText, WrittenKind.text, takeMark?_markedText (by decide)
        kind.before kind.behind (kind.solid.starts_append _)]
      simp only [takeWhile_append kind.isWords stops, dropWhile_append kind.isWords stops,
        if_neg kind.solid.filled, Option.map_some]

/-- The text of an integer ends with a digit, and starts with one or with a sign. -/
theorem solid_integerText (number : Int) : Solid (integerText number).toList := by
  have digits : Solid (naturalDigits number.natAbs) :=
    solid_of_isWord (naturalDigits_ne_nil _) fun _ member =>
      isWord_of_isDigit (isDigit_of_mem_naturalDigits member)
  rw [integerText, String.toList_ofList]
  split
  · exact ⟨List.cons_ne_nil _ _, stopsAt_cons (by decide) _, digits.ends_append ['-']⟩
  · exact digits

theorem takeValueWord_text (value : Option WrittenValue) (remark : Option WrittenRemark) :
    takeValueWord (optionalText WrittenValue.text value ++
        optionalText WrittenRemark.text remark) =
      (value.map fun value => (integerText value.number.value).toList,
        optionalText WrittenRemark.text remark) := by
  cases value with
  | none => rw [optionalText, List.nil_append, takeValueWord, takeMark?_remark (by decide)]; rfl
  | some value =>
      have stops := stopsAt_optional_remark isDigit_of_isBlank (by decide) remark
      have digits : ∀ c ∈ naturalDigits value.number.value.natAbs, isDigit c = true :=
        fun c member => isDigit_of_basic (isDigit_of_mem_naturalDigits member)
      have filled := naturalDigits_ne_nil value.number.value.natAbs
      rw [takeValueWord, optionalText, WrittenValue.text, takeMark?_markedText (by decide)
        value.before value.behind ((solid_integerText _).starts_append _), Option.map_some,
        integerText, String.toList_ofList]
      by_cases negative : value.number.value < 0
      · simp only [if_pos negative, List.cons_append, List.nil_append,
          takeWhile_append digits stops, dropWhile_append digits stops, if_neg filled]
      · obtain ⟨c, rest, same, digit⟩ := exists_naturalDigits_cons value.number.value.natAbs
        have notMinus : c ≠ '-' := by
          rintro rfl
          cases digit
        simp only [if_neg negative]
        split
        · rename_i minus
          rw [same] at minus
          exact absurd (List.cons.inj minus).1 notMinus
        · simp only [takeWhile_append digits stops, dropWhile_append digits stops, if_neg filled,
            List.nil_append]

/-! ## Lines and headers -/

/-- A part that may be missing stops a test that the part and what follows it stop. -/
theorem stopsAt_optionalText {Part : Type} {text : Part → List Char} {test : Char → Bool}
    {rest : List Char} (parts : ∀ part, StopsAt test (text part ++ rest))
    (stops : StopsAt test rest) (part : Option Part) :
    StopsAt test (optionalText text part ++ rest) := by
  cases part with
  | none => exact stops
  | some part => exact parts part

theorem stopsAt_markedText {test : Char → Bool}
    (blanks : ∀ c : Char, isBlank c = true → test c = false) {mark : Char}
    (marked : test mark = false) (before behind : Gap) (content : String) (rest : List Char) :
    StopsAt test (markedText before [mark] behind content ++ rest) := by
  rw [markedText, List.append_assoc]
  exact before.stopsAt blanks (stopsAt_cons marked _)

theorem ofList_getD_toList (remark : Option WrittenRemark) :
    String.ofList ((remark.map (·.content.toList)).getD []) =
      (remark.map (·.content)).getD "" := by
  cases remark with
  | none => rfl
  | some remark => exact String.ofList_toList

theorem enumLine?_text {name : String} (named : isLineName name.toList = true)
    (value : Option WrittenValue) (remark : Option WrittenRemark) :
    enumLine? (name.toList ++ (optionalText WrittenValue.text value ++
        optionalText WrittenRemark.text remark)) =
      some { name, value := value.map (·.number),
             comment := (remark.map (·.content)).getD "" } := by
  have marked (value : WrittenValue) :
      StopsAt isWord (value.text ++ optionalText WrittenRemark.text remark) :=
    stopsAt_markedText isWord_of_isBlank (by decide) _ _ _ _
  have remarkStops := stopsAt_optional_remark isWord_of_isBlank (by decide) remark
  have stops := stopsAt_optionalText marked remarkStops value
  cases letters : name.toList with
  | nil =>
      rw [letters] at named
      cases named
  | cons c rest =>
      rw [letters, isLineName, Bool.and_eq_true, List.all_eq_true] at named
      rw [List.cons_append, enumLine?, if_pos named.1]
      simp only [takeWhile_append named.2 stops, dropWhile_append named.2 stops,
        takeValueWord_text, takeRemark?_optional, ← letters, String.ofList_toList,
        ofList_getD_toList]
      cases value with
      | none => rfl
      | some value =>
          have number : Whole.ofInt? .bits64 value.number.value = some value.number :=
            Whole.ofInt?_eq_some_iff.mpr rfl
          simp only [Option.map_some, integer?_integerText, Option.bind_some, number]

theorem isHeaderName_of_isWord {c : Char} (word : isWord c = true) : isHeaderName c = true := by
  have notColon : c ≠ ':' := by
    rintro rfl
    exact absurd word (by decide)
  have notSlash : c ≠ '/' := by
    rintro rfl
    exact absurd word (by decide)
  rw [isHeaderName, isBlank_of_isWord word, decide_eq_true notColon, decide_eq_true notSlash]
  rfl

theorem isHeaderName_of_isBlank (c : Char) (blank : isBlank c = true) :
    isHeaderName c = false := by
  rw [isHeaderName, blank]
  rfl

/-- An empty description counts as none before and after it is made a string. -/
theorem filter_ne_empty (remark : Option WrittenRemark) :
    ((remark.map (·.content.toList)).bind fun text => if text = [] then none else some text).map
        String.ofList =
      (remark.map (·.content)).filter (· ≠ "") := by
  cases remark with
  | none => rfl
  | some remark =>
      by_cases empty : remark.content = "" <;> simp [empty, Option.filter]

theorem enumHeader?_text {spaces : Gap} (spaced : spaces.blanks ≠ []) {name : String}
    (named : isName name.toList = true) (kind : Option WrittenKind)
    (remark : Option WrittenRemark) :
    enumHeader? ("enum".toList ++ (spaces.blanks ++ (name.toList ++
        (optionalText WrittenKind.text kind ++ optionalText WrittenRemark.text remark)))) =
      some { name, kind := kind.map (·.word),
             description := (remark.map (·.content)).filter (· ≠ "") } := by
  have marked (kind : WrittenKind) :
      StopsAt isHeaderName (kind.text ++ optionalText WrittenRemark.text remark) :=
    stopsAt_markedText isHeaderName_of_isBlank (by decide) _ _ _ _
  have remarkStops := stopsAt_optional_remark isHeaderName_of_isBlank (by decide) remark
  have stops := stopsAt_optionalText marked remarkStops kind
  have isWords : ∀ c ∈ name.toList, isHeaderName c = true :=
    fun c member => isHeaderName_of_isWord (isWord_of_isName named c member)
  have filled := ne_nil_of_isName named
  have apart (others : List Char) : others ≠ spaces.blanks ++ others :=
    fun same => spaced (List.append_left_eq_self.mp same.symm)
  have words : (kind.map (·.word.toList)).map String.ofList = kind.map (·.word) := by
    cases kind with
    | none => rfl
    | some kind => exact congrArg some String.ofList_toList
  have enumWord : "enum".toList = ['e', 'n', 'u', 'm'] := rfl
  rw [enumWord]
  simp only [List.cons_append, List.nil_append, enumHeader?,
    trimStart_append spaces.blank (stopsAt_name named _), takeWhile_append isWords stops,
    dropWhile_append isWords stops, apart, filled, or_self, if_false, takeKindWord_text,
    takeRemark?_optional, String.ofList_toList, Option.map_some]
  rw [← filter_ne_empty, words]

end Text

namespace Definition

open Text

theorem solid_of_isLineName {name : List Char} (named : isLineName name = true) : Solid name := by
  cases name with
  | nil => cases named
  | cons c rest =>
      rw [isLineName, Bool.and_eq_true, List.all_eq_true, Bool.or_eq_true,
        decide_eq_true_eq] at named
      obtain ⟨start, rest⟩ := named
      refine solid_of_isWord (List.cons_ne_nil _ _) (List.forall_mem_cons.mpr ⟨?_, rest⟩)
      rcases start with letter | rfl
      · exact isWord_of_isNameStart letter
      · exact isWord_lowLine

theorem readEnumLine_text (enum : String) (line : WrittenEnumLine) :
    readEnumLine enum line.text = .ok line.parts := by
  have solid : Solid (line.name.toList ++ optionalText WrittenValue.text line.value) := by
    have named := solid_of_isLineName line.named
    cases line.value with
    | none => rwa [optionalText, List.append_nil]
    | some value =>
        exact named.append_marked (solid_integerText _) value.before ['='] value.behind
  obtain ⟨remark, trimmed, same⟩ :=
    exists_trim_remark line.leading line.trailing solid line.remark
  rw [List.append_assoc, List.append_assoc] at trimmed
  rw [readEnumLine, WrittenEnumLine.text, String.toList_ofList, trimmed,
    enumLine?_text line.named, same]
  rfl

theorem readEnumHeader_text (header : WrittenEnumHeader) :
    readEnumHeader header.text = .ok header.parts := by
  have word : Solid "enum".toList := solid_of_trim (by decide) (by decide)
  have solid : Solid (header.name.toList ++ optionalText WrittenKind.text header.kind) := by
    have named := solid_of_isWord (ne_nil_of_isName header.named) (isWord_of_isName header.named)
    cases header.kind with
    | none => rwa [optionalText, List.append_nil]
    | some kind => exact named.append_marked kind.solid kind.before [':'] kind.behind
  obtain ⟨remark, trimmed, same⟩ :=
    exists_trim_remark header.leading header.trailing (word.join solid header.spaces.blanks)
      header.remark
  simp only [List.append_assoc] at trimmed
  have checked : checkName header.parts.name "enum name" = .ok () :=
    (checkName_eq_ok_iff _ _).mpr header.named
  rw [readEnumHeader, WrittenEnumHeader.text, String.toList_ofList, trimmed,
    enumHeader?_text header.spaced header.named, same, ← WrittenEnumHeader.parts]
  simp only [checked]
  rfl

/-- A line and a header of an enum are read back as the parts that they are written of. -/
theorem enum_texts_are_read_back :
    (∀ (enum : String) (line : WrittenEnumLine), readEnumLine enum line.text = .ok line.parts) ∧
      ∀ header : WrittenEnumHeader, readEnumHeader header.text = .ok header.parts :=
  ⟨readEnumLine_text, readEnumHeader_text⟩

/-- One tab. -/
def tabGap : Gap where
  blanks := ['\t']
  blank := List.forall_mem_singleton.mpr (by decide)

/-- A line with a value and a remark, in which the marks of both come again. -/
def northLine : WrittenEnumLine where
  leading := .space
  name := "north"
  named := by decide +kernel
  value := some { before := .none, behind := .space, number := ⟨-7, by decide, by decide⟩ }
  remark := some
    { before := tabGap
      behind := .none
      content := "a = 2 // b"
      oneLine := by decide +kernel
      trimmed := by decide +kernel }
  trailing := .space

/-- A header with a kind and a remark, in which the marks of both come again. -/
def windHeader : WrittenEnumHeader where
  leading := .none
  spaces := tabGap
  spaced := List.cons_ne_nil _ _
  name := "Wind"
  named := by decide +kernel
  kind := some
    { before := .space
      behind := .none
      word := "int8"
      filled := by decide
      isWords := List.all_eq_true.mp (by decide +kernel) }
  remark := some
    { before := .space
      behind := tabGap
      content := "from: 1 // to: 2"
      oneLine := by decide +kernel
      trimmed := by decide +kernel }
  trailing := tabGap

theorem wind_texts_are_read_back :
    northLine.text = " north= -7\t//a = 2 // b " ∧
      windHeader.text = "enum\tWind :int8 //\tfrom: 1 // to: 2\t" ∧
      readEnumLine "Wind" northLine.text =
        .ok ⟨"north", some ⟨-7, by decide, by decide⟩, "a = 2 // b"⟩ ∧
      readEnumHeader windHeader.text =
        .ok ⟨"Wind", some "int8", some "from: 1 // to: 2"⟩ := by
  obtain ⟨lines, headers⟩ := enum_texts_are_read_back
  have header : windHeader.parts = ⟨"Wind", some "int8", some "from: 1 // to: 2"⟩ := by
    decide +kernel
  exact ⟨by decide +kernel, by decide +kernel, lines "Wind" northLine,
    header ▸ headers windHeader⟩

end Definition

end Tabula
