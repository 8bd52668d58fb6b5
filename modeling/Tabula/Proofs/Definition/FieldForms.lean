import Tabula.Proofs.Definition.QuotedLiterals
import Tabula.Proofs.Definition.TypeTexts

/-!
# The short and the long form of a field

A field with a type, a literal and a description may be written as one text or as an object
with an entry for each.  The reader of the short form finds the parts by where they end, and
then both readers go on alike.  So they agree whenever the parts can be told apart: the type
does not go on with the literal, and the literal has no quotes that would be taken off and no
slashes that would start the description.
-/

namespace Tabula

namespace Definition

open Text

/-! ## Literals without quotes -/

/-- A text that no pair of equal quotes encloses has none to take off. -/
theorem unquote_eq_self {text : List Char}
    (unquoted : ∀ quote content, quote = '\'' ∨ quote = '"' →
      text ≠ quote :: (content ++ [quote])) : unquote text = text := by
  have enclosed {quote : Char} (long : 2 ≤ text.length) (first : text.head? = some quote)
      (last : text.getLast? = some quote) : ∃ content, text = quote :: (content ++ [quote]) := by
    obtain ⟨front, rfl⟩ := List.getLast?_eq_some_iff.mp last
    cases front with
    | nil => exact absurd long (Nat.not_succ_le_self 1)
    | cons c content =>
        cases first
        exact ⟨content, rfl⟩
  rw [unquote, if_neg]
  rintro ⟨long, ⟨first, last⟩ | ⟨first, last⟩⟩
  · obtain ⟨content, same⟩ := enclosed long first last
    exact unquoted '\'' content (.inl rfl) same
  · obtain ⟨content, same⟩ := enclosed long first last
    exact unquoted '"' content (.inr rfl) same

/-! ## The short form -/

/-- A type that is a text of its own is read in front of a literal, unless the text is the word
`list`, which a bracket in the literal would go on with. -/
theorem readType_behindType {name : String} {typeText : List Char} {type : WrittenType}
    (typeRead : readType name typeText = .ok (type, [])) (trimmed : trim typeText = typeText)
    (notList : typeText ≠ ['l', 'i', 's', 't']) (literal : List Char) {description : List Char}
    (described : Solid description) :
    readType name (trim (typeText ++ behindType literal description)) =
      .ok (type, behindType literal description) := by
  have filled : typeText ≠ [] := by
    rintro rfl
    exact (readTypeFrom_eq_ok_iff.mp typeRead).filled rfl
  have typed := solid_of_trim filled trimmed
  rw [readType, readTypeFrom_eq_ok_iff, trimStart_eq_self_iff.mpr typed.starts] at typeRead
  obtain ⟨same, relocates⟩ := typeRead.relocate
  rw [List.append_nil] at same
  subst same
  have ends : type.EndsBefore (behindType literal description) :=
    ⟨stopsAt_cons (by decide) _, fun bare => absurd bare notList⟩
  rw [(solid_behindType typed literal described).trim_eq, readType,
    trimStart_eq_self_iff.mpr (relocates ends).starts, readTypeFrom_eq_ok_iff]
  exact relocates ends

/-- The field of a type with a description. -/
def describedField (type : WrittenType) (name description : String) : Field :=
  (type.toField name).mapHead fun head => { head with description }

theorem readShortField_eq {name typeText literal description : String} {type : WrittenType}
    (typeRead : readType name typeText.toList = .ok (type, []))
    (trimmed : trim typeText.toList = typeText.toList) (notList : typeText ≠ "list")
    (solid : Solid literal.toList) (noSlashes : ¬['/', '/'] <:+: literal.toList)
    (plain : unquote literal.toList = literal.toList) (described : Solid description.toList) :
    readShortField name (typeText ++ " " ++ literal ++ " // " ++ description) =
      .ok (describedField type name description, some literal) := by
  have bare : typeText.toList ≠ ['l', 'i', 's', 't'] := by
    intro same
    exact notList (String.toList_inj.mp same)
  have whole : (typeText ++ " " ++ literal ++ " // " ++ description).toList =
      typeText.toList ++ behindType literal.toList description.toList := by
    simp [behindType]
  rw [readShortField, whole, readType_behindType typeRead trimmed bare _ described]
  have free := splitAtSlashes_snd_eq_none_iff.mpr noSlashes
  simp only [bind, Except.bind, splitLiteral_behindType solid free described, plain]
  rw [Option.map_some, Option.map_some, String.ofList_toList, String.ofList_toList]
  rfl

/-! ## The long form -/

theorem readLongField_eq (options : Options) {name typeText : String} {type : WrittenType}
    (typeRead : readType name typeText.toList = .ok (type, [])) (literal description : String) :
    readLongField options name
        [("type", .text typeText), ("default", .text literal), ("desc", .text description)] =
      .ofResult (.ok (describedField type name description, some literal)) := by
  have typed : readFieldType name
      [("type", .text typeText), ("default", .text literal), ("desc", .text description)] =
      .ok (type.toField name) := by
    have written : expectText "field type" (.text typeText) = .ok typeText := rfl
    simp only [readFieldType, List.find?_cons, decide_true, written, typeRead, bind, Except.bind]
    rfl
  rw [readLongField, typed, describedField]
  cases type.toField name <;> rfl

/-! ## Both forms -/

/-- A field is the same in its short and in its long form, and what is refused is at most the
literal, with the same message. -/
theorem short_and_long_forms_agree (options : Options) (name : String)
    {typeText literal description : String} {type : WrittenType}
    (typeRead : readType name typeText.toList = .ok (type, []))
    (trimmed : trimText typeText = typeText) (notList : typeText ≠ "list")
    (literalFilled : literal ≠ "") (literalTrimmed : trimText literal = literal)
    (noSlashes : ¬['/', '/'] <:+: literal.toList)
    (unquoted : ∀ quote content, quote = '\'' ∨ quote = '"' →
      literal.toList ≠ quote :: (content ++ [quote]))
    (described : description ≠ "") (descriptionTrimmed : trimText description = description) :
    let short := readField options name
      (.text (typeText ++ " " ++ literal ++ " // " ++ description))
    short = readField options name
        (.object [("type", .text typeText), ("default", .text literal),
          ("desc", .text description)]) ∧
      ((∃ field, short.result = .ok field) ∨
        ∃ refusal, short.result = .error (.invalidFallback name literal refusal)) := by
  have shortRead := readShortField_eq typeRead (trim_toList trimmed) notList
    (solid_of_trimText literalFilled literalTrimmed) noSlashes (unquote_eq_self unquoted)
    (solid_of_trimText described descriptionTrimmed)
  have longRead := readLongField_eq options typeRead literal description
  -- From here on the readers do the same.
  have settled : readField options name
      (.text (typeText ++ " " ++ literal ++ " // " ++ description)) =
      .ofResult (applyLiteral name (seedField options (describedField type name description))
        (some literal)) := by
    rw [readField]
    simp only [shortRead]
    rfl
  refine ⟨?_, ?_⟩
  · rw [settled, readField]
    simp only [longRead]
    rfl
  · rw [settled, Traced.result_ofResult, applyLiteral]
    cases (seedField options (describedField type name description)).setFallback
        (.text literal) with
    | error refusal => exact .inr ⟨refusal, rfl⟩
    | ok field => exact .inl ⟨field, rfl⟩

/-- A fallback for two slots, the first slash of whose literal starts no description. -/
theorem slots_have_two_forms :
    readType "slots" "list<string, 2>".toList =
        .ok (.list "list<string, 2>" (.scalar "string" .text) 2, []) ∧
      readField {} "slots" (.text "list<string, 2> 'n/ a // or // no") =
        readField {} "slots" (.object [("type", .text "list<string, 2>"),
          ("default", .text "'n/ a"), ("desc", .text "or // no")]) := by
  have inside : ReadsType "string, 2>".toList (.scalar "string" .text) ", 2>".toList :=
    .scalar rfl rfl
  have reads : ReadsType (trimStart "list<string, 2>".toList)
      (.list "list<string, 2>" (.scalar "string" .text) 2) [] := .list rfl rfl rfl inside rfl
  have typeRead : readType "slots" "list<string, 2>".toList = .ok (_, []) :=
    readTypeFrom_eq_ok_iff.mpr reads
  have unquoted : ∀ quote content, quote = '\'' ∨ quote = '"' →
      "'n/ a".toList ≠ quote :: (content ++ [quote]) := by
    intro quote content isQuote same
    have last := congrArg List.getLast? same
    rw [← List.cons_append, List.getLast?_concat] at last
    cases last
    rcases isQuote with isQuote | isQuote <;> cases isQuote
  have written : "list<string, 2>" ++ " " ++ "'n/ a" ++ " // " ++ "or // no" =
      "list<string, 2> 'n/ a // or // no" := by
    decide +kernel
  obtain ⟨same, _⟩ := short_and_long_forms_agree {} "slots" typeRead (by decide +kernel)
    (by decide) (by decide) (by decide +kernel) (by decide +kernel) unquoted
    (by decide : "or // no" ≠ "") (by decide +kernel)
  rw [written] at same
  exact ⟨typeRead, same⟩

end Definition

end Tabula
