import Tabula.Proofs.Definition.TypeExpressions
import Tabula.Proofs.Outcome

/-!
# Types keep their texts

Whatever type is read, the text of its field is the text that it was read from, and reading
that text alone gives the type again.  Cutting the text behind a type changes nothing about
the type: each form ends where a word ends or with a bracket, so only a word, a point, or an
opening bracket behind the word `list` could go on with it.
-/

namespace Tabula

/-- A name, made a text. -/
def Identifier.ofName {name : List Char} (named : Text.isName name = true) : Identifier where
  text := String.ofList name
  named := by rwa [String.toList_ofList]

@[simp]
theorem Identifier.toList_ofName {name : List Char} (named : Text.isName name = true) :
    (ofName named).text.toList = name :=
  String.toList_ofList

namespace Text

variable {source rest : List Char}

/-! ## What the readers of single forms take -/

theorem stopsAt_dropWhile (test : Char → Bool) (source : List Char) :
    StopsAt test (source.dropWhile test) := by
  intro c first
  have fails := List.head?_dropWhile_not test source
  rw [first] at fails
  simpa using fails

theorem takeName?_eq_some_iff {name : List Char} :
    takeName? source = some (name, rest) ↔
      source = name ++ rest ∧ isName name = true ∧ StopsAt isWord rest := by
  constructor
  · intro taken
    refine ⟨(append_of_takeName? taken).symm, ?_⟩
    cases source with
    | nil => cases taken
    | cons c source =>
        rw [takeName?] at taken
        split at taken
        · rename_i start
          cases taken
          refine ⟨?_, stopsAt_dropWhile isWord source⟩
          rw [isName, start, Bool.true_and, List.all_eq_true]
          exact fun c member => List.mem_takeWhile_imp member
        · cases taken
  · rintro ⟨rfl, named, stops⟩
    exact takeName?_append named stops

/-- A lookup path is three names with a mark between each two. -/
theorem takeReference?_eq_some_iff {table keyField pickedField : List Char} :
    takeReference? source = some (table, keyField, pickedField, rest) ↔
      source = table ++ '.' :: (keyField ++ '.' :: '$' :: (pickedField ++ rest)) ∧
        isName table = true ∧ isName keyField = true ∧ isName pickedField = true ∧
        StopsAt isWord rest := by
  constructor
  · intro taken
    simp only [takeReference?, Option.bind_eq_bind, Option.bind_eq_some_iff] at taken
    obtain ⟨⟨_, behindTable⟩, tableTaken, taken⟩ := taken
    dsimp only at taken
    split at taken
    · simp only [Option.bind_eq_some_iff] at taken
      obtain ⟨⟨_, behindKey⟩, keyTaken, taken⟩ := taken
      dsimp only at taken
      split at taken
      · simp only [Option.bind_eq_some_iff] at taken
        obtain ⟨_, pickedTaken, same⟩ := taken
        cases same
        rw [takeName?_eq_some_iff] at tableTaken keyTaken pickedTaken
        obtain ⟨rfl, tableNamed, _⟩ := tableTaken
        obtain ⟨rfl, keyNamed, _⟩ := keyTaken
        obtain ⟨rfl, pickedNamed, stops⟩ := pickedTaken
        exact ⟨rfl, tableNamed, keyNamed, pickedNamed, stops⟩
      · cases taken
    · cases taken
  · rintro ⟨rfl, tableNamed, keyNamed, pickedNamed, stops⟩
    have taken := takeReference?_append (.ofName tableNamed) (.ofName keyNamed)
      (.ofName pickedNamed) stops
    simpa only [Identifier.toList_ofName] using taken

/-- A scalar word is a keyword that is a word of its own. -/
theorem takeScalar?_eq_some_iff {word : String} {kind : ScalarKind} :
    takeScalar? source = some (word, kind, rest) ↔
      source = word.toList ++ rest ∧ ScalarKind.ofKeyword? word = some kind ∧
        StopsAt isWord rest := by
  constructor
  · intro taken
    simp only [takeScalar?, Option.map_eq_some_iff, Prod.mk.injEq] at taken
    obtain ⟨_, keyword, rfl, rfl, rfl⟩ := taken
    refine ⟨?_, keyword, stopsAt_dropWhile isWord source⟩
    rw [String.toList_ofList, List.takeWhile_append_dropWhile]
  · rintro ⟨rfl, keyword, stops⟩
    have isWords := isWord_of_isName (ScalarKind.isName_of_ofKeyword? keyword)
    rw [takeScalar?_append isWords stops, String.ofList_toList, keyword]
    rfl

theorem exists_gap (source : List Char) : ∃ gap : Gap, source = gap.blanks ++ trimStart source :=
  ⟨⟨source.takeWhile isBlank, fun _ member => List.mem_takeWhile_imp member⟩,
    (takeWhile_append_trimStart source).symm⟩

/-- The word and the bracket that open a list are written with any blanks. -/
theorem listBody?_eq_some_iff {body : List Char} :
    listBody? source = some body ↔
      StopsAt isBlank body ∧ ∃ gaps, source = TypeExpression.openingText gaps ++ body := by
  constructor
  · intro opened
    unfold listBody? at opened
    split at opened
    · rename_i behindWord
      split at opened
      · rename_i inner bracket
        cases opened
        obtain ⟨afterWord, word⟩ := exists_gap behindWord
        obtain ⟨afterOpening, opening⟩ := exists_gap inner
        refine ⟨stopsAt_dropWhile isBlank inner,
          ⟨afterWord, afterOpening, .none, .none, .none⟩, ?_⟩
        rw [bracket, opening] at word
        rw [word]
        simp [TypeExpression.openingText, trimStart]
      · cases opened
    · cases opened
  · rintro ⟨stops, gaps, rfl⟩
    exact listBody?_append gaps stops

/-- A number within the limits is a count of elements. -/
theorem exists_count {digits : List Char} {number : Nat} (read : natural? digits = some number)
    (positive : number ≠ 0) (bounded : number ≤ countLimit) :
    ∃ count : WrittenCount, count.digits = digits ∧ digitsValue count.digits = number := by
  unfold natural? at read
  split at read
  · rename_i basic
    cases read
    exact ⟨⟨digits, List.all_eq_true.mp basic.2, Nat.pos_of_ne_zero positive, bounded⟩, rfl, rfl⟩
  · cases read

/-- The count and the bracket that close a list are written with any blanks. -/
theorem listClosing?_eq_some_iff {number : Nat} :
    listClosing? source = some (number, rest) ↔
      ∃ gaps count, source = TypeExpression.closingText gaps count ++ rest ∧
        digitsValue count.digits = number := by
  constructor
  · intro closed
    unfold listClosing? at closed
    split at closed
    · rename_i behindComma comma
      dsimp only at closed
      split at closed
      · rename_i behind bracket
        split at closed
        · rename_i size counted
          split at closed
          · rename_i limits
            cases closed
            obtain ⟨count, digits, value⟩ := exists_count counted limits.1 limits.2
            obtain ⟨beforeComma, first⟩ := exists_gap source
            obtain ⟨afterComma, second⟩ := exists_gap behindComma
            obtain ⟨beforeClosing, third⟩ :=
              exists_gap ((trimStart behindComma).dropWhile isDigit)
            have counted' : trimStart behindComma =
                count.digits ++ (beforeClosing.blanks ++ '>' :: rest) := by
              rw [digits, ← bracket, ← third, List.takeWhile_append_dropWhile]
            rw [counted'] at second
            rw [comma, second] at first
            refine ⟨⟨.none, .none, beforeComma, afterComma, beforeClosing⟩, count, ?_, value⟩
            rw [first]
            simp [TypeExpression.closingText]
          · cases closed
        · cases closed
      · cases closed
    · cases closed
  · rintro ⟨gaps, count, rfl, rfl⟩
    exact listClosing?_append gaps count rest

end Text

namespace Definition

open Text TypeExpression

/-! ## Reading types -/

/-- The type is read from the start of the source, which leaves the rest. -/
inductive ReadsType : List Char → WrittenType → List Char → Prop where
  | reference {source rest table keyField pickedField : List Char}
      (taken : takeReference? source = some (table, keyField, pickedField, rest)) :
      ReadsType source (.reference (.ofList table) (.ofList keyField) (.ofList pickedField)) rest
  | scalar {source rest : List Char} {word : String} {kind : ScalarKind}
      (noPath : takeReference? source = none)
      (taken : takeScalar? source = some (word, kind, rest)) :
      ReadsType source (.scalar word kind) rest
  | list {source body behind rest : List Char} {element : WrittenType} {count : Nat}
      (noPath : takeReference? source = none) (noScalar : takeScalar? source = none)
      (opened : listBody? source = some body) (inside : ReadsType body element behind)
      (closed : listClosing? behind = some (count, rest)) :
      ReadsType source
        (.list (.ofList (source.take (source.length - rest.length))) element count) rest
  | named {source candidate rest : List Char} (noPath : takeReference? source = none)
      (noScalar : takeScalar? source = none) (noList : listBody? source = none)
      (taken : takeName? source = some (candidate, rest)) :
      ReadsType source (.named (.ofList candidate)) rest

/-- The name of the field matters for refusals only. -/
theorem readTypeFrom_eq_ok_iff {field : String} {source rest : List Char} {type : WrittenType} :
    readTypeFrom field source = .ok (type, rest) ↔ ReadsType source type rest := by
  constructor
  · intro accepted
    fun_induction readTypeFrom field source generalizing type rest with
    | case1 field source _ _ _ _ taken =>
        cases accepted
        exact .reference taken
    | case2 field source noPath _ _ _ taken =>
        cases accepted
        exact .scalar noPath taken
    | case3 field source _ noPath noScalar body opened =>
        rename_i inductionHypothesis
        rw [bind_eq_ok_iff] at accepted
        obtain ⟨⟨element, behind⟩, elementRead, accepted⟩ := accepted
        dsimp only at accepted
        split at accepted
        · rename_i closed
          cases accepted
          exact .list noPath noScalar opened (inductionHypothesis elementRead) closed
        · cases accepted
    | case4 field source noPath noScalar noList _ _ taken =>
        cases accepted
        exact .named noPath noScalar noList taken
    | case5 => cases accepted
  · intro reads
    induction reads generalizing field with
    | reference taken => exact readTypeFrom_of_reference taken field
    | scalar noPath taken => exact readTypeFrom_of_scalar noPath taken field
    | list noPath noScalar opened _ closed inductionHypothesis =>
        exact readTypeFrom_of_list noPath noScalar opened inductionHypothesis closed field
    | named noPath noScalar noList taken =>
        exact readTypeFrom_of_name noPath noScalar noList taken field

end Definition

/-! ## Texts of types -/

/-- The text that a type was read from. -/
def WrittenType.text : WrittenType → List Char
  | scalar word _ => word.toList
  | reference table keyField pickedField =>
    table.toList ++ '.' :: (keyField.toList ++ '.' :: '$' :: pickedField.toList)
  | named candidate => candidate.toList
  | list written _ _ => written.toList

/-- The field of a type keeps its text. -/
theorem WrittenType.typeText_toField (type : WrittenType) (name : String) :
    (type.toField name).head.typeText.toList = type.text := by
  cases type with
  | reference table keyField pickedField =>
      simp only [toField, Field.lookup, Field.head, String.toList_append]
      simp [text, ToString.toString]
  | _ => rfl

/-- A text goes on with a type when it goes on with its last word, or when the type is the word
`list` alone and the text opens the list. -/
def WrittenType.EndsBefore (type : WrittenType) (rest : List Char) : Prop :=
  Text.StopsAt Text.continuesType rest ∧
    (type.text = ['l', 'i', 's', 't'] → Text.listBody? (type.text ++ rest) = none)

namespace Definition

open Text TypeExpression

/-- A type starts with no blank. -/
theorem ReadsType.starts {source rest : List Char} {type : WrittenType}
    (reads : ReadsType source type rest) : StopsAt isBlank source := by
  cases reads with
  | reference taken =>
      obtain ⟨rfl, named, _⟩ := takeReference?_eq_some_iff.mp taken
      exact stopsAt_name named _
  | scalar _ taken =>
      obtain ⟨rfl, keyword, _⟩ := takeScalar?_eq_some_iff.mp taken
      exact stopsAt_name (ScalarKind.isName_of_ofKeyword? keyword) _
  | list _ _ opened =>
      obtain ⟨_, gaps, rfl⟩ := listBody?_eq_some_iff.mp opened
      exact stopsAt_cons (by decide) _
  | named _ _ _ taken =>
      obtain ⟨rfl, named, _⟩ := takeName?_eq_some_iff.mp taken
      exact stopsAt_name named _

/-- A type is not empty. -/
theorem ReadsType.filled {source rest : List Char} {type : WrittenType}
    (reads : ReadsType source type rest) : source ≠ [] := by
  rintro rfl
  cases reads with
  | reference taken => cases taken
  | scalar _ taken => cases taken
  | list _ _ opened => cases opened
  | named _ _ _ taken => cases taken

/-- What closes a list does not go on with its element. -/
theorem endsBefore_closingText (element : WrittenType) (gaps : ListGaps) (count : WrittenCount)
    (rest : List Char) : element.EndsBefore (closingText gaps count ++ rest) := by
  refine ⟨stopsAt_closingText gaps count rest, fun bare => ?_⟩
  have comma : ∀ others : List Char, StopsAt isBlank (',' :: others) := stopsAt_cons (by decide)
  simp only [bare, closingText, List.append_assoc, List.cons_append, List.nil_append, listBody?,
    trimStart_append gaps.beforeComma.blank (comma _)]
  rfl

/-- A word is no keyword in front of another text either. -/
theorem takeScalar?_eq_none {word rest other : List Char} (isWords : ∀ c ∈ word, isWord c = true)
    (stops : StopsAt isWord rest) (stops' : StopsAt isWord other)
    (noScalar : takeScalar? (word ++ rest) = none) : takeScalar? (word ++ other) = none := by
  rw [takeScalar?_append isWords stops, Option.map_eq_none_iff] at noScalar
  rw [takeScalar?_append isWords stops', noScalar]
  rfl

/-- A list takes what stands in front of the rest for its text. -/
theorem take_written (written rest : List Char) :
    (written ++ rest).take ((written ++ rest).length - rest.length) = written := by
  rw [List.length_append, Nat.add_sub_cancel, List.take_left]

/-- The source is the text of the type and the rest, and the text is read in the same way in
front of every other text that does not go on with it. -/
theorem ReadsType.relocate {source rest : List Char} {type : WrittenType}
    (reads : ReadsType source type rest) :
    source = type.text ++ rest ∧
      ∀ {other : List Char}, type.EndsBefore other → ReadsType (type.text ++ other) type other := by
  induction reads with
  | reference taken =>
      obtain ⟨rfl, tableNamed, keyNamed, pickedNamed, _⟩ := takeReference?_eq_some_iff.mp taken
      simp only [WrittenType.text, String.toList_ofList, List.append_assoc, List.cons_append,
        true_and]
      intro other ends
      exact .reference (takeReference?_eq_some_iff.mpr
        ⟨rfl, tableNamed, keyNamed, pickedNamed, ends.1.word⟩)
  | scalar noPath taken =>
      obtain ⟨rfl, keyword, _⟩ := takeScalar?_eq_some_iff.mp taken
      refine ⟨rfl, fun ends => ?_⟩
      have named := ScalarKind.isName_of_ofKeyword? keyword
      exact .scalar (takeReference?_eq_none named ends.1)
        (takeScalar?_eq_some_iff.mpr ⟨rfl, keyword, ends.1.word⟩)
  | @list source body behind rest element number noPath noScalar opened inside closed
      inductionHypothesis =>
      obtain ⟨same, relocates⟩ := inductionHypothesis
      obtain ⟨_, opening, rfl⟩ := listBody?_eq_some_iff.mp opened
      obtain ⟨closing, count, rfl, rfl⟩ := listClosing?_eq_some_iff.mp closed
      have whole (other : List Char) :
          openingText opening ++ (element.text ++ (closingText closing count ++ other)) =
            openingText opening ++ (element.text ++ closingText closing count) ++ other := by
        rw [List.append_assoc, List.append_assoc]
      rw [same, whole, take_written, WrittenType.text, String.toList_ofList]
      refine ⟨rfl, fun {other} _ => ?_⟩
      have further := relocates (endsBefore_closingText element closing count other)
      have list := ReadsType.list (takeReference?_openingText opening _)
        (takeScalar?_openingText opening _) (listBody?_append opening further.starts) further
        (listClosing?_append closing count other)
      rwa [whole, take_written] at list
  | @named source candidate rest noPath noScalar noList taken =>
      obtain ⟨rfl, named, stops⟩ := takeName?_eq_some_iff.mp taken
      simp only [WrittenType.text, String.toList_ofList, true_and]
      intro other ends
      have noScalar' := takeScalar?_eq_none (isWord_of_isName named) stops ends.1.word noScalar
      have noList' : listBody? (candidate ++ other) = none := by
        by_cases bare : candidate = ['l', 'i', 's', 't']
        · have closed := ends.2
          rw [WrittenType.text, String.toList_ofList] at closed
          exact closed bare
        · have notList : (Identifier.ofName named).text ≠ "list" :=
            fun same => bare (String.ofList_inj.mp same)
          have closed := listBody?_eq_none notList ends.1.word
          rwa [Identifier.toList_ofName] at closed
      exact .named (takeReference?_eq_none named ends.1) noScalar' noList'
        (takeName?_eq_some_iff.mpr ⟨rfl, named, ends.1.word⟩)

/-- A list holds its element between its brackets. -/
theorem ReadsType.inside {source rest : List Char} {written : String} {element : WrittenType}
    {count : Nat} (reads : ReadsType source (.list written element count) rest) :
    ∃ behind, listBody? source = some (element.text ++ behind) ∧
      listClosing? behind = some (count, rest) := by
  cases reads with
  | list _ _ opened inside closed =>
      obtain ⟨rfl, _⟩ := inside.relocate
      exact ⟨_, opened, closed⟩

/-- The text of a type is read as that type. -/
theorem ReadsType.alone {source rest : List Char} {type : WrittenType}
    (reads : ReadsType source type rest) : ReadsType type.text type [] := by
  have ends : type.EndsBefore [] := by
    refine ⟨nofun, fun bare => ?_⟩
    rw [bare]
    rfl
  have again := reads.relocate.2 ends
  rwa [List.append_nil] at again

/-- A type is read back from its text. -/
theorem ReadsType.readType_text {source rest : List Char} {type : WrittenType}
    (reads : ReadsType source type rest) (field : String) :
    readType field type.text = .ok (type, []) := by
  rw [readType, trimStart_eq_self_iff.mpr reads.alone.starts, readTypeFrom_eq_ok_iff]
  exact reads.alone

/-- The field is read from the text of its type. -/
def IsReadBack (field : Field) : Prop :=
  ∃ type, readType field.name field.head.typeText.toList = .ok (type, []) ∧
    type.toField field.name = field

/-- The field is read from the text of its type.  If it is a list, the text of its elements'
type stands inside, between what opens and what closes the list, and the same holds of them. -/
def KeepsText : Field → Prop
  | .single head => IsReadBack (.single head)
  | .withElement head element =>
    IsReadBack (.withElement head element) ∧
      (∃ count behind, head.shape = .list count ∧
        listBody? head.typeText.toList = some (element.head.typeText.toList ++ behind) ∧
        listClosing? behind = some (count, [])) ∧
      KeepsText element

theorem name_toField (type : WrittenType) (name : String) : (type.toField name).name = name := by
  cases type <;> rfl

theorem ReadsType.isReadBack {source rest : List Char} {type : WrittenType}
    (reads : ReadsType source type rest) (name : String) : IsReadBack (type.toField name) := by
  rw [IsReadBack, name_toField, WrittenType.typeText_toField]
  exact ⟨type, reads.readType_text name, rfl⟩

theorem ReadsType.keepsText {source rest : List Char} {type : WrittenType}
    (reads : ReadsType source type rest) (name : String) : KeepsText (type.toField name) := by
  induction reads generalizing name with
  | reference taken => exact (ReadsType.reference taken).isReadBack name
  | scalar noPath taken => exact (ReadsType.scalar noPath taken).isReadBack name
  | named noPath noScalar noList taken =>
      exact (ReadsType.named noPath noScalar noList taken).isReadBack name
  | list noPath noScalar opened inside closed inductionHypothesis =>
      have reads := ReadsType.list noPath noScalar opened inside closed
      obtain ⟨behind, inner, outer⟩ := reads.alone.inside
      rw [WrittenType.text] at inner
      rw [← WrittenType.typeText_toField _ ""] at inner
      exact ⟨reads.isReadBack name, ⟨_, behind, rfl, inner, outer⟩, inductionHypothesis ""⟩

/-- Whatever type is read, the text of its field is exactly what was read of the source, and
each text of a type that the field holds is read back as the part that holds it. -/
theorem types_keep_their_texts {name : String} {source rest : List Char} {type : WrittenType}
    (read : readType name source = .ok (type, rest)) :
    trimStart source = (type.toField name).head.typeText.toList ++ rest ∧
      readType name (type.toField name).head.typeText.toList = .ok (type, []) ∧
      KeepsText (type.toField name) := by
  rw [readType, readTypeFrom_eq_ok_iff] at read
  rw [WrittenType.typeText_toField]
  exact ⟨read.relocate.1, read.readType_text name, read.keepsText name⟩

/-- The word `list` names a type between brackets, and a point behind them belongs to no path. -/
theorem bins_keep_their_text :
    ∃ type, readType "bins" " list <list, 02>.id".toList = .ok (type, ".id".toList) ∧
      trimStart " list <list, 02>.id".toList =
        (type.toField "bins").head.typeText.toList ++ ".id".toList ∧
      (type.toField "bins").head.typeText = "list <list, 02>" ∧
      readType "bins" (type.toField "bins").head.typeText.toList = .ok (type, []) ∧
      KeepsText (type.toField "bins") := by
  have inside : ReadsType "list, 02>.id".toList (.named "list") ", 02>.id".toList :=
    .named rfl rfl rfl rfl
  have reads : ReadsType (trimStart " list <list, 02>.id".toList)
      (.list "list <list, 02>" (.named "list") 2) ".id".toList := .list rfl rfl rfl inside rfl
  have read : readType "bins" " list <list, 02>.id".toList = .ok (_, ".id".toList) :=
    readTypeFrom_eq_ok_iff.mpr reads
  obtain ⟨kept, again, keeps⟩ := types_keep_their_texts read
  exact ⟨_, read, kept, rfl, again, keeps⟩

end Definition

end Tabula
