import Tabula.Definition.Reader
import Tabula.Proofs.Definition.TypeExpressions
import Tabula.Proofs.Outcome

/-!
# Which objects are read as enums

An object is read as an enum when its first key starts with the word for an enum and a plain
space.  The header that the key holds may be written more freely: blanks may stand before the
word, and any blanks may follow it.  A key that is written plainly is never taken for anything
but an enum.  A header written otherwise is not recognised: its object is read as a schema in
which that key means nothing, so that the lines behind it are lost.
-/

namespace Tabula

open Text

namespace Text

/-- A text is what trimming leaves of it, between blanks. -/
theorem exists_blanks_around (text : List Char) :
    ∃ leading trailing : Gap, text = leading.blanks ++ (trim text ++ trailing.blanks) := by
  have behind : (trimStart text).reverse.takeWhile isBlank ++
      trimStart (trimStart text).reverse = (trimStart text).reverse :=
    takeWhile_append_trimStart _
  refine ⟨⟨text.takeWhile isBlank, fun _ => List.mem_takeWhile_imp⟩,
    ⟨((trimStart text).reverse.takeWhile isBlank).reverse, fun c member =>
      List.mem_takeWhile_imp (List.mem_reverse.mp member)⟩, ?_⟩
  rw [trim, trimEnd, ← List.reverse_append, behind, List.reverse_reverse,
    takeWhile_append_trimStart]

end Text

/-! ## Accepted headers -/

/-- How the key of an enum is written: blanks, the word for an enum, blanks again and then its
name. -/
structure HeaderSpelling (key : String) where
  leading : Gap
  spaces : Gap
  rest : List Char
  spaced : spaces.blanks ≠ []
  spells : key.toList = leading.blanks ++ (['e', 'n', 'u', 'm'] ++ (spaces.blanks ++ rest))

/-- The word stands at the very start and a plain space behind it. -/
def HeaderSpelling.IsPlain {key : String} (spelling : HeaderSpelling key) : Prop :=
  spelling.leading.blanks = [] ∧ spelling.spaces.blanks.head? = some ' '

instance {key : String} (spelling : HeaderSpelling key) : Decidable spelling.IsPlain :=
  inferInstanceAs (Decidable (_ ∧ _))

theorem exists_of_enumHeader? {source : List Char} {header : EnumHeader}
    (parsed : enumHeader? source = some header) :
    ∃ (spaces : Gap) (rest : List Char), spaces.blanks ≠ [] ∧
      source = ['e', 'n', 'u', 'm'] ++ (spaces.blanks ++ rest) := by
  unfold enumHeader? at parsed
  split at parsed
  · rename_i rest
    dsimp only at parsed
    split at parsed
    · cases parsed
    · rename_i named
      have parts : rest.takeWhile isBlank ++ trimStart rest = rest :=
        takeWhile_append_trimStart rest
      refine ⟨⟨rest.takeWhile isBlank, fun _ => List.mem_takeWhile_imp⟩, trimStart rest, ?_, ?_⟩
      · intro (none : rest.takeWhile isBlank = [])
        rw [none] at parts
        exact named (.inl parts)
      · rw [parts]
        rfl
  · cases parsed

/-- Every header that is accepted has such a spelling. -/
theorem exists_spelling {key : String} {header : EnumHeader}
    (accepted : Definition.readEnumHeader key = .ok header) : Nonempty (HeaderSpelling key) := by
  unfold Definition.readEnumHeader at accepted
  dsimp only at accepted
  split at accepted
  · cases accepted
  · rename_i parts parsed
    obtain ⟨spaces, rest, spaced, trimmed⟩ := exists_of_enumHeader? parsed
    obtain ⟨leading, trailing, whole⟩ := exists_blanks_around key.toList
    refine ⟨⟨leading, spaces, rest ++ trailing.blanks, spaced, ?_⟩⟩
    rw [whole, trimmed]
    simp only [List.append_assoc]

namespace HeaderSpelling

variable {key : String}

/-- The key announces an enum exactly when it is written plainly. -/
theorem announcesEnum_iff (spelling : HeaderSpelling key) :
    Definition.announcesEnum key = true ↔ spelling.IsPlain := by
  obtain ⟨⟨leading, leadingBlank⟩, ⟨spaces, spacesBlank⟩, rest, spaced, spells⟩ := spelling
  rw [Definition.announcesEnum, spells, IsPlain]
  cases leading with
  | cons c leading =>
      have other : c ≠ 'e' := by
        rintro rfl
        have blank := leadingBlank _ List.mem_cons_self
        revert blank
        decide
      simp [List.isPrefixOf, other.symm]
  | nil =>
      cases spaces with
      | nil => exact absurd rfl spaced
      | cons c spaces =>
          change (' ' == c && true) = true ↔ [] = [] ∧ some c = some ' '
          rw [Bool.and_true, beq_iff_eq, eq_self, true_and, Option.some.injEq, eq_comm]

/-- The key holds a blank. -/
theorem exists_blank (spelling : HeaderSpelling key) : ∃ c ∈ key.toList, isBlank c = true := by
  obtain ⟨c, others, same⟩ := List.exists_cons_of_ne_nil spelling.spaced
  have member : c ∈ spelling.spaces.blanks := by
    rw [same]
    exact List.mem_cons_self
  refine ⟨c, ?_, spelling.spaces.blank c member⟩
  rw [spelling.spells]
  simp [member]

/-- No key of a schema is written like the header of an enum. -/
theorem ne_of_solid (spelling : HeaderSpelling key) {word : String}
    (solid : word.toList.any isBlank = false) : key ≠ word := by
  rintro rfl
  obtain ⟨c, member, blank⟩ := spelling.exists_blank
  exact List.any_eq_false.mp solid c member blank

end HeaderSpelling

namespace Definition

/-! ## Readings of an object -/

/-- What the reading of an object gives as an enum: the table of its first entry or what that
is refused for, and a further key is refused by the strict reading. -/
inductive ReadsAsEnum (options : Options) (key : String) (body : Json)
    (entries : List (String × Json)) : Except DefinitionError Definition → Prop where
  | table {table : Table} (read : (readEnumTable key body).result = .ok table)
      (noFurther : options.strictKeys = true → entries = []) :
      ReadsAsEnum options key body entries (.ok (.enumTable table))
  | refused {refusal : DefinitionError} (read : (readEnumTable key body).result = .error refusal) :
      ReadsAsEnum options key body entries (.error refusal)
  | furtherKey {table : Table} {further : String} {tree : Json} {others : List (String × Json)}
      (read : (readEnumTable key body).result = .ok table) (strict : options.strictKeys = true)
      (next : entries = (further, tree) :: others) :
      ReadsAsEnum options key body entries
        (.error (.unknownKey further (enumContext table.name)))

/-- What the reading of an object gives as a schema in which the first key means nothing: the
schema of the other entries, or the refusal of that key by the strict reading. -/
inductive ReadsWithoutFirst (options : Options) (key : String) (entries : List (String × Json)) :
    Except DefinitionError Definition → Prop where
  | skipped (lenient : options.strictKeys = false) :
      ReadsWithoutFirst options key entries ((readSchema options entries).result.map .schema)
  | refused (strict : options.strictKeys = true) :
      ReadsWithoutFirst options key entries (.error (.unknownKey key (schemaContext "")))

theorem result_skipFurtherKeys (options : Options) (context : String)
    (entries : List (String × Json)) :
    (skipFurtherKeys options context entries).result =
      if options.strictKeys then
        match entries with
        | [] => .ok ()
        | (further, _) :: _ => .error (.unknownKey further context)
      else .ok () := by
  induction entries with
  | nil => simp [skipFurtherKeys]
  | cons entry entries inductionHypothesis =>
      rw [skipFurtherKeys, Traced.result_andThen, skipUnknown]
      cases strict : options.strictKeys with
      | true => rfl
      | false =>
          rw [strict] at inductionHypothesis
          exact inductionHypothesis

/-- An object whose first key announces an enum is read as one. -/
theorem readsAsEnum_of_announcesEnum {key : String} (announced : announcesEnum key = true)
    (options : Options) (body : Json) (entries : List (String × Json)) :
    ReadsAsEnum options key body entries
      (readDefinition options (.object ((key, body) :: entries))).result := by
  rw [readDefinition, if_pos announced, Traced.result_andThen]
  cases read : (readEnumTable key body).result with
  | error refusal => exact .refused read
  | ok table =>
      rw [Except.bind, Traced.result_andThen, result_skipFurtherKeys]
      cases strict : options.strictKeys with
      | false => exact .table read (by simp [strict])
      | true =>
          cases entries with
          | nil => exact .table read fun _ => rfl
          | cons entry others => exact .furtherKey read strict rfl

/-- An entry of a schema under the spelling of a header means nothing. -/
theorem readSchemaEntry_of_spelling {key : String} (spelling : HeaderSpelling key)
    (options : Options) (draft : SchemaDraft) (body : Json) :
    readSchemaEntry options draft key body =
      (skipUnknown options key (schemaContext draft.schema.name)).andThen fun _ => pure draft := by
  simp only [readSchemaEntry]
  split
  case h_8 => rfl
  all_goals exact absurd rfl (spelling.ne_of_solid (by decide))

/-- Such an entry comes first in a schema: it is refused, or skipped for the others. -/
theorem result_readSchema_of_spelling {key : String} (spelling : HeaderSpelling key)
    (options : Options) (body : Json) (entries : List (String × Json)) :
    (readSchema options ((key, body) :: entries)).result =
      if options.strictKeys then .error (.unknownKey key (schemaContext ""))
      else (readSchema options entries).result := by
  simp only [readSchema, readSchemaEntries, readSchemaEntry_of_spelling spelling, skipUnknown,
    Traced.result_andThen]
  cases options.strictKeys <;> rfl

/-- An object whose first key is the spelling of a header, but announces no enum, is read as a
schema without that entry. -/
theorem readsWithoutFirst_of_spelling {key : String} (spelling : HeaderSpelling key)
    (unannounced : announcesEnum key = false) (options : Options) (body : Json)
    (entries : List (String × Json)) :
    ReadsWithoutFirst options key entries
      (readDefinition options (.object ((key, body) :: entries))).result := by
  have reading : (readDefinition options (.object ((key, body) :: entries))).result =
      (readSchema options ((key, body) :: entries)).result.map .schema := by
    rw [readDefinition, if_neg (Bool.eq_false_iff.mp unannounced), Traced.result_andThen]
    cases (readSchema options ((key, body) :: entries)).result <;> rfl
  rw [reading, result_readSchema_of_spelling spelling]
  cases strict : options.strictKeys with
  | true => exact .refused strict
  | false => exact .skipped strict

/-- An object whose first key is an accepted header is read as an enum exactly when the header is
written plainly.  Any other accepted header is passed over, and its object is read as a schema
of the entries behind it. -/
theorem plain_headers_are_dispatched {key : String} {header : EnumHeader}
    (accepted : readEnumHeader key = .ok header) (options : Options) (body : Json)
    (entries : List (String × Json)) :
    Nonempty (HeaderSpelling key) ∧
      ∀ spelling : HeaderSpelling key,
        if spelling.IsPlain then
          ReadsAsEnum options key body entries
            (readDefinition options (.object ((key, body) :: entries))).result
        else
          ReadsWithoutFirst options key entries
            (readDefinition options (.object ((key, body) :: entries))).result := by
  refine ⟨exists_spelling accepted, fun spelling => ?_⟩
  by_cases plain : spelling.IsPlain
  · rw [if_pos plain]
    exact readsAsEnum_of_announcesEnum (spelling.announcesEnum_iff.mpr plain) options body entries
  · rw [if_neg plain]
    exact readsWithoutFirst_of_spelling spelling
      (Bool.eq_false_iff.mpr (mt spelling.announcesEnum_iff.mp plain)) options body entries

/-- The lines of an enum of colors. -/
def colorLines : Json :=
  .array [.text "RED", .text "BLUE = 4"]

theorem plainColors_are_dispatched :
    readEnumHeader "enum Color" = .ok ⟨"Color", none, none⟩ ∧
      ReadsAsEnum {} "enum Color" colorLines []
        (readDefinition {} (.object [("enum Color", colorLines)])).result := by
  have accepted : readEnumHeader "enum Color" = .ok ⟨"Color", none, none⟩ := by rfl
  obtain ⟨⟨spelling⟩, reading⟩ := plain_headers_are_dispatched accepted {} colorLines []
  have plain : spelling.IsPlain := spelling.announcesEnum_iff.mp (by decide)
  have reads := reading spelling
  rw [if_pos plain] at reads
  exact ⟨accepted, reads⟩

/-- A header with a tab behind its word is accepted, and the enum of its lines is read.  But the
object becomes a schema and no enum, and without another name it is refused. -/
theorem tabbedColors_become_schema :
    readEnumHeader "enum\tColor" = .ok ⟨"Color", none, none⟩ ∧
      (readEnumTable "enum\tColor" colorLines).result.toOption.isSome = true ∧
      (readDefinition {} (.object [("enum\tColor", colorLines)])).result = .error .missingName ∧
      (∃ schema, (readDefinition {}
        (.object [("enum\tColor", colorLines), ("name", .text "Tint")])).result =
          .ok (.schema schema)) ∧
      ¬ReadsAsEnum {} "enum\tColor" colorLines [("name", .text "Tint")]
        (readDefinition {}
          (.object [("enum\tColor", colorLines), ("name", .text "Tint")])).result := by
  have passedOver : ∃ schema, (readDefinition {}
      (.object [("enum\tColor", colorLines), ("name", .text "Tint")])).result =
        .ok (.schema schema) := ⟨_, rfl⟩
  refine ⟨rfl, by decide +kernel, rfl, passedOver, ?_⟩
  obtain ⟨schema, result⟩ := passedOver
  rw [result]
  intro reads
  cases reads

end Definition

end Tabula
