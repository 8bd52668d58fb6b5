import Tabula.Definition.Reader
import Tabula.Proofs.Definition.TypeExpressions
import Tabula.Proofs.Outcome

/-!
# Quoted literals

The short form of a field cuts what follows the type at the first pair of slashes, and only
then takes the quotes off the literal.  So a literal between quotes is read as it stands,
whatever blanks, quotes and single slashes it holds.  But a pair of slashes inside the quotes
ends it: the quotes do not protect it, and what follows goes to the description.
-/

namespace Tabula

namespace Definition

open Text

/-! ## The first pair of slashes -/

/-- A character that starts no pair of slashes stays in front of them. -/
theorem splitAtSlashes_cons {c : Char} {rest : List Char}
    (single : c = '/' → rest.head? ≠ some '/') :
    splitAtSlashes (c :: rest) = (c :: (splitAtSlashes rest).1, (splitAtSlashes rest).2) := by
  rw [splitAtSlashes]
  rintro behind slash rfl
  exact single slash rfl

theorem splitAtSlashes_cons_of_ne {c : Char} (other : c ≠ '/') (rest : List Char) :
    splitAtSlashes (c :: rest) = (c :: (splitAtSlashes rest).1, (splitAtSlashes rest).2) :=
  splitAtSlashes_cons fun slash => absurd slash other

/-- A text starts with a pair of slashes or with a character that starts none. -/
theorem pair_or_single (c : Char) (rest : List Char) :
    (∃ behind, c = '/' ∧ rest = '/' :: behind) ∨ (c = '/' → rest.head? ≠ some '/') := by
  by_cases slash : c = '/'
  · by_cases again : rest.head? = some '/'
    · obtain ⟨behind, same⟩ := List.head?_eq_some_iff.mp again
      exact .inl ⟨behind, slash, same⟩
    · exact .inr fun _ => again
  · exact .inr fun same => absurd same slash

/-- Nothing follows exactly when the text holds no pair of slashes. -/
theorem splitAtSlashes_snd_eq_none_iff {source : List Char} :
    (splitAtSlashes source).2 = none ↔ ¬['/', '/'] <:+: source := by
  induction source with
  | nil => simp [splitAtSlashes]
  | cons c source inductionHypothesis =>
      rcases pair_or_single c source with ⟨behind, rfl, rfl⟩ | single
      · simp [splitAtSlashes, List.infix_cons_iff]
      · have apart : ¬['/', '/'] <+: c :: source := by
          rintro ⟨behind, same⟩
          cases same
          exact single rfl rfl
        rw [splitAtSlashes_cons single, List.infix_cons_iff, not_or, inductionHypothesis]
        exact (and_iff_right apart).symm

/-- A pair of slashes is the first one whatever follows it. -/
theorem splitAtSlashes_append_of_some {source before after : List Char}
    (found : splitAtSlashes source = (before, some after)) (rest : List Char) :
    splitAtSlashes (source ++ rest) = (before, some (after ++ rest)) := by
  induction source generalizing before with
  | nil => cases found
  | cons c source inductionHypothesis =>
      rcases pair_or_single c source with ⟨behind, rfl, rfl⟩ | single
      · cases found
        rfl
      · rw [splitAtSlashes_cons single, Prod.mk.injEq] at found
        obtain ⟨rfl, followed⟩ := found
        have single' : c = '/' → (source ++ rest).head? ≠ some '/' := by
          intro slash
          cases source with
          | nil => cases followed
          | cons d source => exact single slash
        have further := inductionHypothesis (Prod.ext rfl followed)
        rw [List.cons_append, splitAtSlashes_cons single', further]

/-- A text without a pair of slashes stays in front of the first one, unless a slash follows
it at once. -/
theorem splitAtSlashes_append_of_none {source : List Char}
    (free : (splitAtSlashes source).2 = none) {c : Char} (other : c ≠ '/') (rest : List Char) :
    splitAtSlashes (source ++ c :: rest) =
      (source ++ c :: (splitAtSlashes rest).1, (splitAtSlashes rest).2) := by
  induction source with
  | nil => exact splitAtSlashes_cons_of_ne other rest
  | cons d source inductionHypothesis =>
      rcases pair_or_single d source with ⟨behind, rfl, rfl⟩ | single
      · cases free
      · have single' : d = '/' → (source ++ c :: rest).head? ≠ some '/' := by
          intro slash
          cases source with
          | nil => exact fun same => other (Option.some.inj same)
          | cons e source => exact single slash
        rw [splitAtSlashes_cons single] at free
        rw [List.cons_append, splitAtSlashes_cons single', inductionHypothesis free]
        rfl

/-! ## Quotes -/

/-- The quotes around a text are taken off, once. -/
theorem unquote_quoted {quote : Char} (isQuote : quote = '\'' ∨ quote = '"')
    (content : List Char) : unquote (quote :: (content ++ [quote])) = content := by
  have long : 2 ≤ (quote :: (content ++ [quote])).length := by
    rw [List.length_cons, List.length_append, List.length_singleton]
    omega
  have last : (quote :: (content ++ [quote])).getLast? = some quote := by
    rw [← List.cons_append, List.getLast?_concat]
  rw [unquote, last, if_pos]
  · rw [List.tail_cons, List.dropLast_concat]
  · rcases isQuote with rfl | rfl
    · exact ⟨long, .inl ⟨rfl, rfl⟩⟩
    · exact ⟨long, .inr ⟨rfl, rfl⟩⟩

/-! ## Fields of texts -/

/-- The field of texts with a literal and a remark, either of which may be missing. -/
def textField (name : String) (literal remark : Option (List Char)) : Field :=
  .single
    { name
      typeText := "string"
      description := (remark.map String.ofList).getD ""
      shape := .scalar .text none
      fallback := literal.map fun content => .text (String.ofList content) }

/-- A field of texts takes any literal that follows its type. -/
theorem readField_text (options : Options) (name : String) {rest : List Char}
    (ends : StopsAt continuesType rest) (solid : Solid ("string".toList ++ rest)) :
    (readField options name (.text (String.ofList ("string".toList ++ rest)))).result =
      .ok (textField name (splitLiteral rest).1 (splitLiteral rest).2) := by
  have typeRead : readType name ("string".toList ++ rest) = .ok (.scalar "string" .text, rest) := by
    rw [readType, trimStart_eq_self_iff.mpr solid.starts]
    exact readTypeFrom_text (.scalar "string" .text rfl) name ends
  have shortRead : readShortField name (String.ofList ("string".toList ++ rest)) =
      .ok (textField name none (splitLiteral rest).2, (splitLiteral rest).1.map String.ofList) := by
    rw [readShortField, String.toList_ofList, solid.trim_eq, typeRead]
    rfl
  have whole : (readField options name (.text (String.ofList ("string".toList ++ rest)))).result =
      applyLiteral name (textField name none (splitLiteral rest).2)
        ((splitLiteral rest).1.map String.ofList) := by
    rw [readField, Traced.result_bind, Traced.result_ofResult, shortRead]
    rfl
  rw [whole]
  cases (splitLiteral rest).1 with
  | none => rfl
  | some literal =>
      have converted := Value.convert_self (.text (String.ofList literal))
      rw [Value.kind_text] at converted
      simp only [Option.map_some, applyLiteral, textField, Field.setFallback, Field.shapedFallback,
        converted]
      rfl

/-! ## Literals and descriptions -/

/-- What stands behind the type of a field with a literal and a description. -/
def behindType (literal description : List Char) : List Char :=
  ' ' :: (literal ++ ' ' :: '/' :: '/' :: ' ' :: description)

section

variable {literal description : List Char}

/-- A literal without a pair of slashes is told apart from the description. -/
theorem splitLiteral_behindType (solid : Solid literal)
    (free : (splitAtSlashes literal).2 = none) (described : Solid description) :
    splitLiteral (behindType literal description) = (some (unquote literal), some description) := by
  have blank : ∀ c ∈ [' '], isBlank c = true := List.forall_mem_singleton.mpr (by decide)
  have cut : splitAtSlashes (behindType literal description) =
      ([' '] ++ (literal ++ [' ']), some ([' '] ++ (description ++ []))) := by
    rw [behindType, splitAtSlashes_cons_of_ne (by decide),
      splitAtSlashes_append_of_none free (by decide)]
    simp [splitAtSlashes]
  have before := solid.trim_append blank blank
  have after := described.trim_append blank (List.forall_mem_nil _)
  rw [splitLiteral, cut]
  simp only [before, after, Option.bind_some, nonEmpty?, if_neg solid.filled,
    if_neg described.filled, Option.map_some]

theorem solid_behindType {typeText : List Char} (typed : Solid typeText) (literal : List Char)
    (described : Solid description) : Solid (typeText ++ behindType literal description) := by
  have joined := typed.join described (' ' :: (literal ++ [' ', '/', '/', ' ']))
  rwa [List.cons_append, List.append_assoc] at joined

end

/-! ## Quoted literals -/

/-- What stands behind the type of a field with a quoted literal and a description. -/
def quotedRest (quote : Char) (content description : List Char) : List Char :=
  ' ' :: quote :: (content ++ quote :: ' ' :: '/' :: '/' :: ' ' :: description)

section

variable {quote : Char} {content description : List Char}

theorem ne_slash_of_isQuote (isQuote : quote = '\'' ∨ quote = '"') : quote ≠ '/' := by
  rcases isQuote with rfl | rfl <;> decide

theorem isBlank_of_isQuote (isQuote : quote = '\'' ∨ quote = '"') : isBlank quote = false := by
  rcases isQuote with rfl | rfl <;> decide

/-- A text between quotes has no blanks at its ends. -/
theorem solid_quoted (isQuote : quote = '\'' ∨ quote = '"') (content : List Char) :
    Solid (quote :: (content ++ [quote])) where
  filled := List.cons_ne_nil _ _
  starts := stopsAt_cons (isBlank_of_isQuote isQuote) _
  ends := by
    rw [← List.cons_append, List.reverse_append]
    exact stopsAt_cons (isBlank_of_isQuote isQuote) _

theorem quotedRest_eq (quote : Char) (content description : List Char) :
    quotedRest quote content description =
      behindType (quote :: (content ++ [quote])) description := by
  rw [quotedRest, behindType, List.cons_append, List.append_assoc, List.singleton_append]

theorem solid_declaration (quote : Char) (content : List Char) (solid : Solid description) :
    Solid ("string".toList ++ quotedRest quote content description) := by
  rw [quotedRest_eq]
  exact solid_behindType (solid_of_trim (by decide) (by decide)) _ solid

/-- A literal without a pair of slashes is read as it stands between the quotes. -/
theorem splitLiteral_quoted (isQuote : quote = '\'' ∨ quote = '"') (solid : Solid description)
    (free : (splitAtSlashes content).2 = none) :
    splitLiteral (quotedRest quote content description) = (some content, some description) := by
  have other := ne_slash_of_isQuote isQuote
  have quoted : (splitAtSlashes (quote :: (content ++ [quote]))).2 = none := by
    rw [splitAtSlashes_cons_of_ne other, splitAtSlashes_append_of_none free other]
    rfl
  rw [quotedRest_eq, splitLiteral_behindType (solid_quoted isQuote content) quoted solid,
    unquote_quoted isQuote]

/-- A pair of slashes between the quotes leaves something of the literal to the
description. -/
theorem splitLiteral_snd_ne (isQuote : quote = '\'' ∨ quote = '"') (solid : Solid description)
    {before after : List Char} (found : splitAtSlashes content = (before, some after)) :
    (splitLiteral (quotedRest quote content description)).2 ≠ some description := by
  have other := ne_slash_of_isQuote isQuote
  have cut : (splitAtSlashes (quotedRest quote content description)).2 =
      some (after ++ quote :: ([' ', '/', '/', ' '] ++ description)) := by
    rw [quotedRest, splitAtSlashes_cons_of_ne (by decide), splitAtSlashes_cons_of_ne other,
      splitAtSlashes_append_of_some found]
    rfl
  obtain ⟨front, start⟩ := exists_trimStart_append (isBlank_of_isQuote isQuote) after
    ([' ', '/', '/', ' '] ++ description)
  have remark : trim (after ++ quote :: ([' ', '/', '/', ' '] ++ description)) =
      front ++ quote :: ([' ', '/', '/', ' '] ++ description) := by
    have finish := solid.trimEnd_append (front ++ [quote, ' ', '/', '/', ' '])
    rw [List.append_assoc] at finish
    rw [trim, start]
    exact finish
  intro same
  rw [splitLiteral] at same
  simp only [cut, Option.bind_some, remark, nonEmpty?] at same
  split at same
  · cases same
  · have sizes := congrArg List.length (Option.some.inj same)
    simp only [List.length_append, List.length_cons] at sizes
    omega

end

/-- The short form of a field of texts with a quoted literal and a description. -/
def quotedDeclaration (quote : Char) (content description : String) : String :=
  String.ofList ("string".toList ++ quotedRest quote content.toList description.toList)

theorem readField_quotedDeclaration (options : Options) (name : String) (quote : Char)
    (content : String) {description : String} (solid : Solid description.toList) :
    (readField options name (.text (quotedDeclaration quote content description))).result =
      .ok (textField name (splitLiteral (quotedRest quote content.toList description.toList)).1
        (splitLiteral (quotedRest quote content.toList description.toList)).2) :=
  readField_text options name (stopsAt_cons (by decide) _) (solid_declaration _ _ solid)

/-- A description is only read back from behind a literal without a pair of slashes. -/
theorem free_of_description {quote : Char} (isQuote : quote = '\'' ∨ quote = '"')
    (content : List Char) {description : String} (solid : Solid description.toList)
    (same : ((splitLiteral (quotedRest quote content description.toList)).2.map
      String.ofList).getD "" = description) : (splitAtSlashes content).2 = none := by
  cases found : (splitAtSlashes content).2 with
  | none => rfl
  | some after =>
      exfalso
      apply splitLiteral_snd_ne isQuote solid (Prod.ext rfl found)
      cases remark : (splitLiteral (quotedRest quote content description.toList)).2 with
      | none =>
          rw [remark] at same
          rw [← same] at solid
          exact absurd rfl solid.filled
      | some text =>
          rw [remark] at same
          change String.ofList text = description at same
          rw [← same, String.toList_ofList]

/-- A quoted literal and the description behind it are always read as a field of texts.  They
are read as they were written exactly when no pair of slashes stands between the quotes. -/
theorem quoted_literals_are_read_verbatim (options : Options) (name : String) {quote : Char}
    (isQuote : quote = '\'' ∨ quote = '"') (content : String) {description : String}
    (filled : description ≠ "") (trimmed : trimText description = description) :
    ∃ head, (readField options name
        (.text (quotedDeclaration quote content description))).result = .ok (.single head) ∧
      head.name = name ∧ head.shape = .scalar .text none ∧
      (head.fallback = some (.text content) ∧ head.description = description ↔
        ¬['/', '/'] <:+: content.toList) := by
  have solid := solid_of_trimText filled trimmed
  refine ⟨_, readField_quotedDeclaration options name quote content solid, rfl, rfl, ?_⟩
  rw [← splitAtSlashes_snd_eq_none_iff]
  constructor
  · rintro ⟨_, same⟩
    exact free_of_description isQuote _ solid same
  · intro free
    rw [splitLiteral_quoted isQuote solid free]
    exact ⟨congrArg (some ∘ Value.text) String.ofList_toList, String.ofList_toList⟩

/-- Blanks, other quotes and single slashes belong to a motto. -/
theorem motto_is_read_verbatim :
    ∃ head, (readField {} "motto"
        (.text "string \" 'live' and/or let \" // what it says")).result = .ok (.single head) ∧
      head.fallback = some (.text " 'live' and/or let ") ∧
      head.description = "what it says" := by
  have written : quotedDeclaration '"' " 'live' and/or let " "what it says" =
      "string \" 'live' and/or let \" // what it says" := by
    decide +kernel
  have single : ¬['/', '/'] <:+: " 'live' and/or let ".toList := by
    decide +kernel
  obtain ⟨head, read, _, _, verbatim⟩ := quoted_literals_are_read_verbatim {} "motto"
    (.inr rfl) " 'live' and/or let " (by decide : "what it says" ≠ "") (by decide +kernel)
  rw [written] at read
  exact ⟨head, read, verbatim.mpr single⟩

/-- Quotes do not keep everything between them together: a pair of slashes ends the literal. -/
theorem slashes_end_quoted_literal :
    ¬∀ (options : Options) (name : String) (quote : Char) (content description : String),
      (quote = '\'' ∨ quote = '"') → description ≠ "" → trimText description = description →
      ∃ head, (readField options name
          (.text (quotedDeclaration quote content description))).result = .ok (.single head) ∧
        head.fallback = some (.text content) ∧ head.description = description := by
  intro claim
  have trimmed : trimText "d" = "d" := by decide +kernel
  have solid : Solid "d".toList := solid_of_trimText (by decide) trimmed
  obtain ⟨head, read, _, same⟩ := claim {} "path" '\'' "a//b" "d" (.inl rfl) (by decide) trimmed
  cases read.symm.trans (readField_quotedDeclaration {} "path" '\'' "a//b" solid)
  have free := splitAtSlashes_snd_eq_none_iff.mp
    (free_of_description (.inl rfl) "a//b".toList solid same)
  have paired : ['/', '/'] <:+: "a//b".toList := by decide +kernel
  exact free paired

end Definition

end Tabula
