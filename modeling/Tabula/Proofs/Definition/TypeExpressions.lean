import Tabula.Definition.TypeText
import Tabula.Proofs.Text.Words

/-!
# Types as they are written

A type expression is a tree of the forms in which types are written, with the blanks
that its lists were written with.  Its text is read back as the type that it stands for,
and the reading stops at its end when neither a word nor a point goes on from there: a
word is taken as a whole, so no keyword is found inside a name and no name inside a path.
-/

namespace Tabula

open Text

/-! ## Type expressions -/

/-- A name of the definition language. -/
structure Identifier where
  text : String
  named : isName text.toList = true

/-- Blanks between the parts of a list. -/
structure Gap where
  blanks : List Char
  blank : ∀ c ∈ blanks, isBlank c = true

/-- Blanks stop every test that they fail. -/
theorem Gap.stopsAt (gap : Gap) {test : Char → Bool}
    (fails : ∀ c : Char, isBlank c = true → test c = false) {rest : List Char}
    (stops : StopsAt test rest) : StopsAt test (gap.blanks ++ rest) :=
  .append (fun c member => fails c (gap.blank c member)) stops

/-- A number of elements in basic digits, with or without leading zeros. -/
structure WrittenCount where
  digits : List Char
  basic : ∀ c ∈ digits, c.isDigit = true
  positive : 0 < digitsValue digits
  bounded : digitsValue digits ≤ countLimit

namespace WrittenCount

theorem filled (count : WrittenCount) : count.digits ≠ [] := by
  intro empty
  have positive := count.positive
  rw [empty] at positive
  cases positive

theorem natural?_digits (count : WrittenCount) :
    natural? count.digits = some (digitsValue count.digits) :=
  if_pos ⟨count.filled, List.all_eq_true.mpr count.basic⟩

end WrittenCount

/-- Where a list is written with blanks. -/
structure ListGaps where
  afterWord : Gap
  afterOpening : Gap
  beforeComma : Gap
  afterComma : Gap
  beforeClosing : Gap

/-- A type as an author writes it. -/
inductive TypeExpression where
  | scalar (word : String) (kind : ScalarKind)
      (keyword : ScalarKind.ofKeyword? word = some kind)
  | reference (table keyField pickedField : Identifier)
  | named (candidate : Identifier) (free : ScalarKind.ofKeyword? candidate.text = none)
      (notList : candidate.text ≠ "list")
  | list (gaps : ListGaps) (element : TypeExpression) (count : WrittenCount)

namespace TypeExpression

/-- The text of a list from its word to its element. -/
def openingText (gaps : ListGaps) : List Char :=
  ['l', 'i', 's', 't'] ++ (gaps.afterWord.blanks ++ '<' :: gaps.afterOpening.blanks)

/-- The text of a list behind its element. -/
def closingText (gaps : ListGaps) (count : WrittenCount) : List Char :=
  gaps.beforeComma.blanks ++ ',' ::
    (gaps.afterComma.blanks ++ (count.digits ++ (gaps.beforeClosing.blanks ++ ['>'])))

/-- The text of a type expression. -/
def text : TypeExpression → List Char
  | scalar word _ _ => word.toList
  | reference table keyField pickedField =>
    table.text.toList ++ '.' :: (keyField.text.toList ++ '.' :: '$' ::
      pickedField.text.toList)
  | named candidate _ _ => candidate.text.toList
  | list gaps element count => openingText gaps ++ (element.text ++ closingText gaps count)

/-- What the reader of types makes of a type expression. -/
def written : TypeExpression → WrittenType
  | scalar word kind _ => .scalar word kind
  | reference table keyField pickedField =>
    .reference table.text keyField.text pickedField.text
  | named candidate _ _ => .named candidate.text
  | list gaps element count =>
    .list (String.ofList (list gaps element count).text) element.written
      (digitsValue count.digits)

/-- The field of the given name whose type is written. -/
def toField (name : String) : TypeExpression → Field
  | scalar word kind _ => .single { name, typeText := word, shape := .scalar kind none }
  | reference table keyField pickedField =>
    .lookup name
      { table := table.text, keyField := keyField.text, pickedField := pickedField.text }
  | named candidate _ _ => .unresolved name candidate.text
  | list gaps element count =>
    .withElement
      { name
        typeText := String.ofList (list gaps element count).text
        shape := .list (digitsValue count.digits) }
      (element.toField "")

theorem toField_written (expression : TypeExpression) (name : String) :
    expression.written.toField name = expression.toField name := by
  induction expression generalizing name with
  | scalar => rfl
  | reference => rfl
  | named => rfl
  | list gaps element count inductionHypothesis =>
      rw [written, WrittenType.toField, inductionHypothesis, toField]

end TypeExpression

/-! ## The readers of single forms -/

namespace Text

open TypeExpression

/-- A type that ends with a word may go on with the character. -/
def continuesType (c : Char) : Bool :=
  isWord c || c = '.'

theorem continuesType_of_isBlank : ∀ c : Char, isBlank c = true → continuesType c = false :=
  forall_blank (by decide +kernel)

theorem StopsAt.word {rest : List Char} (ends : StopsAt continuesType rest) :
    StopsAt isWord rest := by
  intro c member
  exact (Bool.or_eq_false_iff.mp (ends c member)).1

/-- A name that no point follows starts no path. -/
theorem takeReference?_eq_none {name rest : List Char} (named : isName name = true)
    (ends : StopsAt continuesType rest) : takeReference? (name ++ rest) = none := by
  simp only [takeReference?, takeName?_append named ends.word, Option.bind_eq_bind,
    Option.bind_some]
  split
  · cases ends '.' rfl
  · rfl

/-- The path of a lookup is taken up to the end of its third name. -/
theorem takeReference?_append (table keyField pickedField : Identifier) {rest : List Char}
    (stops : StopsAt isWord rest) :
    takeReference? (table.text.toList ++ '.' :: (keyField.text.toList ++ '.' :: '$' ::
      (pickedField.text.toList ++ rest))) =
      some (table.text.toList, keyField.text.toList, pickedField.text.toList, rest) := by
  have point : ∀ others : List Char, StopsAt isWord ('.' :: others) := stopsAt_cons (by decide)
  simp only [takeReference?, takeName?_append table.named (point _),
    takeName?_append keyField.named (point _), takeName?_append pickedField.named stops,
    Option.bind_eq_bind, Option.bind_some, Option.pure_def]

/-- A word is compared with the keywords as a whole. -/
theorem takeScalar?_append {word rest : List Char} (isWords : ∀ c ∈ word, isWord c = true)
    (stops : StopsAt isWord rest) :
    takeScalar? (word ++ rest) = (ScalarKind.ofKeyword? (String.ofList word)).map
      fun kind => (String.ofList word, kind, rest) := by
  rw [takeScalar?, takeWhile_append isWords stops, dropWhile_append isWords stops]

theorem isName_list : isName ['l', 'i', 's', 't'] = true := by
  decide

/-- A list is opened by a word of its own. -/
theorem takeWhile_of_listBody? {source body : List Char}
    (opened : listBody? source = some body) :
    source.takeWhile isWord = ['l', 'i', 's', 't'] := by
  unfold listBody? at opened
  split at opened
  · rename_i rest
    split at opened
    · rename_i inner bracket
      have stops : StopsAt isWord rest := by
        rw [← takeWhile_append_trimStart rest, bracket]
        apply StopsAt.append
        · intro c member
          exact isWord_of_isBlank c (List.mem_takeWhile_imp member)
        · exact stopsAt_cons (by decide) inner
      exact takeWhile_append (isWord_of_isName isName_list) stops
    · cases opened
  · cases opened

/-- Another name than `list` opens no list. -/
theorem listBody?_eq_none {candidate : Identifier} (notList : candidate.text ≠ "list")
    {rest : List Char} (stops : StopsAt isWord rest) :
    listBody? (candidate.text.toList ++ rest) = none := by
  rw [Option.eq_none_iff_forall_ne_some]
  intro body opened
  have whole := takeWhile_of_listBody? opened
  rw [takeWhile_append (isWord_of_isName candidate.named) stops] at whole
  apply notList
  rw [← String.toList_inj, whole]
  rfl

/-- The opening of a list is the word `list` and something that does not go on with it. -/
theorem exists_openingText (gaps : ListGaps) (rest : List Char) :
    ∃ behind, openingText gaps ++ rest = ['l', 'i', 's', 't'] ++ behind ∧
      StopsAt continuesType behind := by
  refine ⟨gaps.afterWord.blanks ++ '<' :: (gaps.afterOpening.blanks ++ rest), ?_, ?_⟩
  · simp only [openingText, List.append_assoc, List.cons_append]
  · exact gaps.afterWord.stopsAt continuesType_of_isBlank (stopsAt_cons (by decide) _)

/-- A list is no path of a lookup. -/
theorem takeReference?_openingText (gaps : ListGaps) (rest : List Char) :
    takeReference? (openingText gaps ++ rest) = none := by
  rcases exists_openingText gaps rest with ⟨behind, same, ends⟩
  rw [same]
  exact takeReference?_eq_none isName_list ends

/-- The word of a list is no keyword. -/
theorem takeScalar?_openingText (gaps : ListGaps) (rest : List Char) :
    takeScalar? (openingText gaps ++ rest) = none := by
  rcases exists_openingText gaps rest with ⟨behind, same, ends⟩
  have free : ScalarKind.ofKeyword? (String.ofList ['l', 'i', 's', 't']) = none := by decide
  rw [same, takeScalar?_append (isWord_of_isName isName_list) ends.word, free]
  rfl

/-- What follows the opening of a list is found behind its blanks. -/
theorem listBody?_append (gaps : ListGaps) {rest : List Char} (stops : StopsAt isBlank rest) :
    listBody? (openingText gaps ++ rest) = some rest := by
  have bracket : StopsAt isBlank ('<' :: (gaps.afterOpening.blanks ++ rest)) :=
    stopsAt_cons (by decide) _
  simp only [openingText, List.append_assoc, List.cons_append, List.nil_append, listBody?,
    trimStart_append gaps.afterWord.blank bracket, trimStart_append gaps.afterOpening.blank stops]

theorem stopsAt_closingText (gaps : ListGaps) (count : WrittenCount) (rest : List Char) :
    StopsAt continuesType (closingText gaps count ++ rest) := by
  rw [closingText, List.append_assoc]
  exact gaps.beforeComma.stopsAt continuesType_of_isBlank (stopsAt_cons (by decide) _)

/-- The count of a list is taken up to the closing bracket. -/
theorem listClosing?_append (gaps : ListGaps) (count : WrittenCount) (rest : List Char) :
    listClosing? (closingText gaps count ++ rest) = some (digitsValue count.digits, rest) := by
  have comma : ∀ others : List Char, StopsAt isBlank (',' :: others) :=
    stopsAt_cons (by decide)
  have bracket : ∀ others : List Char, StopsAt isBlank ('>' :: others) :=
    stopsAt_cons (by decide)
  have isDigits : ∀ c ∈ count.digits, isDigit c = true :=
    fun c member => isDigit_of_basic (count.basic c member)
  have digitsEnd : StopsAt isDigit (gaps.beforeClosing.blanks ++ '>' :: rest) :=
    gaps.beforeClosing.stopsAt isDigit_of_isBlank (stopsAt_cons (by decide) rest)
  have digitsStart : StopsAt isBlank
      (count.digits ++ (gaps.beforeClosing.blanks ++ '>' :: rest)) :=
    stopsAt_word (fun c member => isWord_of_isDigit (count.basic c member)) count.filled _
  have limits : digitsValue count.digits ≠ 0 ∧ digitsValue count.digits ≤ countLimit :=
    ⟨Nat.ne_of_gt count.positive, count.bounded⟩
  simp only [closingText, List.append_assoc, List.cons_append, List.nil_append, listClosing?,
    trimStart_append gaps.beforeComma.blank (comma _),
    trimStart_append gaps.afterComma.blank digitsStart, takeWhile_append isDigits digitsEnd,
    dropWhile_append isDigits digitsEnd, trimStart_append gaps.beforeClosing.blank (bracket _),
    count.natural?_digits, if_pos limits]

end Text

theorem ScalarKind.isName_of_ofKeyword? {word : String} {kind : ScalarKind}
    (keyword : ofKeyword? word = some kind) : isName word.toList = true := by
  have checked : ∀ entry ∈ keywords, isName entry.1.toList = true := by decide
  rw [ofKeyword?, Option.map_eq_some_iff] at keyword
  rcases keyword with ⟨entry, found, _⟩
  have same := List.find?_some found
  rw [decide_eq_true_eq] at same
  rw [← same]
  exact checked entry (List.mem_of_find?_eq_some found)

/-- A type expression starts with no blank. -/
theorem TypeExpression.stopsAt_text (expression : TypeExpression) (rest : List Char) :
    StopsAt isBlank (expression.text ++ rest) := by
  cases expression with
  | scalar word kind keyword => exact stopsAt_name (ScalarKind.isName_of_ofKeyword? keyword) rest
  | reference table keyField pickedField =>
      rw [text, List.append_assoc]
      exact stopsAt_name table.named _
  | named candidate => exact stopsAt_name candidate.named rest
  | list gaps element count => exact stopsAt_cons (by decide) _

namespace Definition

open TypeExpression

/-! ## The reader of types, form by form -/

section

variable {source rest : List Char}

theorem readTypeFrom_of_reference {table keyField pickedField : List Char}
    (taken : takeReference? source = some (table, keyField, pickedField, rest))
    (field : String) :
    readTypeFrom field source =
      .ok (.reference (.ofList table) (.ofList keyField) (.ofList pickedField), rest) := by
  rw [readTypeFrom]
  simp only [taken]

theorem readTypeFrom_of_scalar (noPath : takeReference? source = none) {word : String}
    {kind : ScalarKind} (taken : takeScalar? source = some (word, kind, rest))
    (field : String) : readTypeFrom field source = .ok (.scalar word kind, rest) := by
  rw [readTypeFrom]
  simp only [noPath, taken]

theorem readTypeFrom_of_name (noPath : takeReference? source = none)
    (noScalar : takeScalar? source = none) (noList : listBody? source = none)
    {candidate : List Char} (taken : takeName? source = some (candidate, rest))
    (field : String) : readTypeFrom field source = .ok (.named (.ofList candidate), rest) := by
  rw [readTypeFrom]
  simp only [noPath, noScalar]
  split
  · rename_i opened
    rw [noList] at opened
    cases opened
  · simp only [taken]

theorem readTypeFrom_of_list (noPath : takeReference? source = none)
    (noScalar : takeScalar? source = none) {body behind : List Char}
    (opened : listBody? source = some body) {element : WrittenType}
    (elementRead : readTypeFrom "" body = .ok (element, behind)) {count : Nat}
    (closed : listClosing? behind = some (count, rest)) (field : String) :
    readTypeFrom field source =
      .ok (.list (.ofList (source.take (source.length - rest.length))) element count, rest) := by
  rw [readTypeFrom]
  simp only [noPath, noScalar]
  split
  · rename_i found same
    rw [opened, Option.some.injEq] at same
    subst same
    rw [elementRead]
    simp only [bind, Except.bind, closed]
    rfl
  · rename_i missing
    rw [opened] at missing
    cases missing

end

/-! ## Reading back -/

/-- A type expression is read back from the start of a text, unless what follows goes on
with its last word. -/
theorem readTypeFrom_text (expression : TypeExpression) (field : String) {rest : List Char}
    (ends : StopsAt continuesType rest) :
    readTypeFrom field (expression.text ++ rest) = .ok (expression.written, rest) := by
  induction expression generalizing field rest with
  | scalar word kind keyword =>
      have named := ScalarKind.isName_of_ofKeyword? keyword
      have taken : takeScalar? (word.toList ++ rest) = some (word, kind, rest) := by
        rw [takeScalar?_append (isWord_of_isName named) ends.word, String.ofList_toList, keyword]
        rfl
      exact readTypeFrom_of_scalar (takeReference?_eq_none named ends) taken field
  | reference table keyField pickedField =>
      have taken := takeReference?_append table keyField pickedField ends.word
      simp only [TypeExpression.text, List.append_assoc, List.cons_append]
      rw [readTypeFrom_of_reference taken, TypeExpression.written, String.ofList_toList,
        String.ofList_toList, String.ofList_toList]
  | named candidate free notList =>
      have noPath := takeReference?_eq_none candidate.named ends
      have noScalar : takeScalar? (candidate.text.toList ++ rest) = none := by
        rw [takeScalar?_append (isWord_of_isName candidate.named) ends.word,
          String.ofList_toList, free]
        rfl
      have noList := listBody?_eq_none notList ends.word
      have taken := takeName?_append candidate.named ends.word
      rw [TypeExpression.text, readTypeFrom_of_name noPath noScalar noList taken,
        String.ofList_toList]
      rfl
  | list gaps element count inductionHypothesis =>
      have opened := listBody?_append gaps (element.stopsAt_text (closingText gaps count ++ rest))
      have elementRead := inductionHypothesis "" (stopsAt_closingText gaps count rest)
      have closed := listClosing?_append gaps count rest
      have whole : (list gaps element count).text ++ rest =
          openingText gaps ++ (element.text ++ (closingText gaps count ++ rest)) := by
        rw [TypeExpression.text, List.append_assoc, List.append_assoc]
      -- The reader measures the text of a list by what is left behind it.
      have taken : ((list gaps element count).text ++ rest).take
          (((list gaps element count).text ++ rest).length - rest.length) =
          (list gaps element count).text := by
        rw [List.length_append, Nat.add_sub_cancel, List.take_left]
      rw [whole] at taken ⊢
      rw [readTypeFrom_of_list (takeReference?_openingText gaps _)
        (takeScalar?_openingText gaps _) opened elementRead closed, taken]
      rfl

/-- A type is read back as it was written: behind any blanks and in front of any text that
does not go on with it, with exactly that text left. -/
theorem type_expressions_are_read_back (expression : TypeExpression) (name : String)
    (leading : Gap) {rest : List Char} (follows : ∀ c ∈ rest.head?, isBlank c = true ∨ c = '/') :
    ∃ type, readType name (leading.blanks ++ (expression.text ++ rest)) = .ok (type, rest) ∧
      type.toField name = expression.toField name := by
  have ends : StopsAt continuesType rest := by
    intro c member
    rcases follows c member with blank | rfl
    · exact continuesType_of_isBlank c blank
    · decide
  refine ⟨expression.written, ?_, expression.toField_written name⟩
  rw [readType, trimStart_append leading.blank (expression.stopsAt_text rest),
    readTypeFrom_text expression name ends]

end Definition

/-! ## A concrete type -/

/-- No blank at all. -/
def Gap.none : Gap where
  blanks := []
  blank := List.forall_mem_nil _

/-- One space. -/
def Gap.space : Gap where
  blanks := [' ']
  blank := List.forall_mem_singleton.mpr (by decide)

/-- Three slots that name a field of wares by words of the grammar itself. -/
def slotExpression : TypeExpression :=
  .list ⟨.none, .none, .none, .none, .none⟩
    (.reference ⟨"Ware", by decide⟩ ⟨"int8", by decide⟩ ⟨"list", by decide⟩)
    { digits := ['3'], basic := List.forall_mem_singleton.mpr (by decide)
      positive := by decide, bounded := by decide }

/-- Two rows of slots, written with blanks and leading zeros. -/
def shelfExpression : TypeExpression :=
  .list ⟨.space, .space, .none, .space, .space⟩ slotExpression
    { digits := ['0', '0', '2'], basic := List.all_eq_true.mp (by decide)
      positive := by decide, bounded := by decide }

theorem shelfExpression_is_read_back :
    (∀ c ∈ (" // wares".toList).head?, isBlank c = true ∨ c = '/') ∧
      ∃ type, Definition.readType "shelf"
          " list < list<Ware.int8.$list,3>, 002 > // wares".toList =
          .ok (type, " // wares".toList) ∧
        type.toField "shelf" = shelfExpression.toField "shelf" := by
  have follows : ∀ c ∈ (" // wares".toList).head?, isBlank c = true ∨ c = '/' := by
    intro c member
    cases member
    exact .inl (by decide)
  exact ⟨follows,
    Definition.type_expressions_are_read_back shelfExpression "shelf" .space follows⟩

end Tabula
