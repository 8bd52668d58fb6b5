import Mathlib.Data.List.TakeWhile
import Tabula.Definition.Reader
import Tabula.Proofs.Outcome

/-!
# Documents without comments

A document that the strict reader takes has no comments, although its quoted texts may
hold their marks.  The reader and the removal of comments go through the document side by
side: outside quoted texts the reader never passes a slash, and both agree on where every
quoted text begins and ends.  So the removal copies whatever the reader has passed, and
allowing comments changes nothing about such a document.
-/

namespace Tabula

namespace Comments

/-- Removing comments copies a text up to what is left of it, from one mode to another. -/
inductive Copies : Mode → List Char → Mode → List Char → Prop where
  | done {mode : Mode} {rest : List Char} : Copies mode rest mode rest
  | plain {c : Char} {source rest : List Char} {after : Mode} (quote : c ≠ '"')
      (slash : c ≠ '/') (further : Copies .plain source after rest) :
      Copies .plain (c :: source) after rest
  | opening {source rest : List Char} {after : Mode}
      (further : Copies .quoted source after rest) : Copies .plain ('"' :: source) after rest
  | inside {c : Char} {source rest : List Char} {after : Mode} (quote : c ≠ '"')
      (backslash : c ≠ '\\') (further : Copies .quoted source after rest) :
      Copies .quoted (c :: source) after rest
  | escape {c : Char} {source rest : List Char} {after : Mode}
      (further : Copies .quoted source after rest) :
      Copies .quoted ('\\' :: c :: source) after rest
  | closing {source rest : List Char} {after : Mode}
      (further : Copies .plain source after rest) : Copies .quoted ('"' :: source) after rest

namespace Copies

theorem trans {before between after : Mode} {source middle rest : List Char}
    (first : Copies before source between middle) (second : Copies between middle after rest) :
    Copies before source after rest := by
  induction first with
  | done => exact second
  | plain quote slash _ inductionHypothesis =>
      exact .plain quote slash (inductionHypothesis second)
  | opening _ inductionHypothesis => exact .opening (inductionHypothesis second)
  | inside quote backslash _ inductionHypothesis =>
      exact .inside quote backslash (inductionHypothesis second)
  | escape _ inductionHypothesis => exact .escape (inductionHypothesis second)
  | closing _ inductionHypothesis => exact .closing (inductionHypothesis second)

/-- A text that is copied to its end is left as it is. -/
theorem stripFrom_eq {before after : Mode} {source rest : List Char}
    (copies : Copies before source after rest) (whole : rest = []) :
    stripFrom before source = source := by
  induction copies with
  | done => rw [whole, stripFrom_nil]
  | plain quote slash _ inductionHypothesis =>
      simp [stripFrom, quote, slash, inductionHypothesis whole]
  | opening _ inductionHypothesis => simp [stripFrom, inductionHypothesis whole]
  | inside quote backslash _ inductionHypothesis =>
      simp [stripFrom, quote, backslash, inductionHypothesis whole]
  | escape _ inductionHypothesis => simp [stripFrom, inductionHypothesis whole]
  | closing _ inductionHypothesis => simp [stripFrom, inductionHypothesis whole]

end Copies

end Comments

namespace Json

open Comments

/-- Outside quoted texts, what was read is copied. -/
abbrev Spared (source rest : List Char) : Prop :=
  Copies .plain source .plain rest

theorem spared_append (word : List Char) (plain : ∀ c ∈ word, c ≠ '"' ∧ c ≠ '/')
    (rest : List Char) : Spared (word ++ rest) rest := by
  induction word with
  | nil => exact .done
  | cons c word inductionHypothesis =>
      rw [List.forall_mem_cons] at plain
      exact .plain plain.1.1 plain.1.2 (inductionHypothesis plain.2)

/-- Characters of a class are copied when neither a quote nor a slash is one of them. -/
theorem spared_dropWhile {test : Char → Bool} (quote : test '"' = false)
    (slash : test '/' = false) (source : List Char) :
    Spared source (source.dropWhile test) := by
  have plain : ∀ c ∈ source.takeWhile test, c ≠ '"' ∧ c ≠ '/' := by
    intro c member
    have passes := List.mem_takeWhile_imp member
    constructor
    · rintro rfl
      rw [quote] at passes
      cases passes
    · rintro rfl
      rw [slash] at passes
      cases passes
  have copied := spared_append _ plain (source.dropWhile test)
  rwa [List.takeWhile_append_dropWhile] at copied

theorem spared_skipGaps (source : List Char) : Spared source (skipGaps source) :=
  spared_dropWhile (by decide) (by decide) source

theorem spared_digits (source : List Char) : Spared source (source.dropWhile Char.isDigit) :=
  spared_dropWhile (by decide) (by decide) source

/-! ## Quoted texts -/

/-- No hexadecimal digit ends a quoted text or starts an escape. -/
theorem ne_of_hexValue? {c : Char} {value : Nat} (read : hexValue? c = some value) :
    c ≠ '"' ∧ c ≠ '\\' := by
  constructor
  · rintro rfl
    cases read
  · rintro rfl
    cases read

theorem copies_codeUnit {a b c d : Char} {unit : Nat} (read : codeUnit? a b c d = some unit)
    (source : List Char) : Copies .quoted (a :: b :: c :: d :: source) .quoted source := by
  simp only [codeUnit?, Option.bind_eq_bind, Option.bind_eq_some_iff] at read
  rcases read with ⟨_, first, _, second, _, third, _, fourth, _⟩
  have inside : ∀ {c : Char} {value : Nat} {rest : List Char}, hexValue? c = some value →
      Copies .quoted rest .quoted source → Copies .quoted (c :: rest) .quoted source :=
    fun digit further => .inside (ne_of_hexValue? digit).1 (ne_of_hexValue? digit).2 further
  exact inside first (inside second (inside third (inside fourth .done)))

theorem exists_of_pushChar {c : Char} {read : Option (List Char × List Char)}
    {content rest : List Char} (pushed : pushChar c read = some (content, rest)) :
    ∃ tail, read = some (tail, rest) := by
  rw [pushChar, Option.map_eq_some_iff] at pushed
  rcases pushed with ⟨⟨tail, remaining⟩, same, pushed⟩
  cases pushed
  exact ⟨tail, same⟩

/-- The removal of comments leaves a quoted text where the reader does. -/
theorem copies_of_readQuoted {source content rest : List Char}
    (accepted : readQuoted source = some (content, rest)) :
    Copies .quoted source .plain rest := by
  fun_induction readQuoted source generalizing content rest with
  | case1 => cases accepted
  | case2 source =>
      cases accepted
      exact .closing .done
  | case3 => cases accepted
  | case4 => cases accepted
  | case5 a b c d unit unitRead _ e f g h source paired pair inductionHypothesis =>
      -- One character for the reader, but two escapes for the removal of comments.
      rcases exists_of_pushChar accepted with ⟨tail, further⟩
      rcases Option.bind_eq_some_iff.mp pair with ⟨low, lowRead, _⟩
      have second := (copies_codeUnit lowRead source).trans (inductionHypothesis further)
      exact .escape ((copies_codeUnit unitRead _).trans (.escape second))
  | case6 => cases accepted
  | case7 a b c d source unit unitRead _ inductionHypothesis =>
      rcases exists_of_pushChar accepted with ⟨tail, further⟩
      exact .escape ((copies_codeUnit unitRead source).trans (inductionHypothesis further))
  | case8 => cases accepted
  | case9 c source _ _ _ inductionHypothesis =>
      rcases exists_of_pushChar accepted with ⟨tail, further⟩
      exact .escape (inductionHypothesis further)
  | case10 => cases accepted
  | case11 c source quote _ _ plain inductionHypothesis =>
      rcases exists_of_pushChar accepted with ⟨tail, further⟩
      rw [not_or] at plain
      exact .inside quote plain.2 (inductionHypothesis further)

/-- A quoted text is copied from its opening quote on. -/
theorem spared_of_readQuoted {source content rest : List Char}
    (accepted : readQuoted source = some (content, rest)) : Spared ('"' :: source) rest :=
  .opening (copies_of_readQuoted accepted)

/-! ## Numbers -/

theorem spared_of_readPlaces {source rest : List Char} {places : Option (List Char)}
    (accepted : readPlaces source = some (places, rest)) : Spared source rest := by
  unfold readPlaces at accepted
  split at accepted
  · rename_i digits
    simp only at accepted
    split at accepted
    · cases accepted
    · cases accepted
      exact .plain (by decide) (by decide) (spared_digits digits)
  · cases accepted
    exact .done

theorem spared_of_readExponent {source exponent rest : List Char}
    (accepted : readExponent source = some (exponent, rest)) : Spared source rest := by
  unfold readExponent at accepted
  split at accepted
  · rename_i letter source
    split at accepted
    · rename_i announces
      split at accepted
      rename_i sign unsigned signed
      have past : Spared source unsigned := by
        split at signed
        · cases signed
          exact .plain (by decide) (by decide) .done
        · cases signed
          exact .plain (by decide) (by decide) .done
        · cases signed
          exact .done
      simp only at accepted
      split at accepted
      · cases accepted
      · cases accepted
        have further := past.trans (spared_digits unsigned)
        rcases announces with rfl | rfl
        · exact .plain (by decide) (by decide) further
        · exact .plain (by decide) (by decide) further
    · cases accepted
      exact .done
  · cases accepted
    exact .done

theorem spared_of_readNumber {source rest : List Char} {tree : Json}
    (accepted : readNumber source = some (tree, rest)) : Spared source rest := by
  unfold readNumber at accepted
  split at accepted
  rename_i negative unsigned signed
  have past : Spared source unsigned := by
    split at signed
    · cases signed
      exact .plain (by decide) (by decide) .done
    · cases signed
      exact .done
  simp only at accepted
  split at accepted
  · cases accepted
  · simp only [Option.bind_eq_bind, Option.bind_eq_some_iff, Option.pure_def,
      Option.some.injEq, Prod.mk.injEq] at accepted
    rcases accepted with ⟨⟨places, behind⟩, placesRead, ⟨exponent, ending⟩, exponentRead, _, _,
      _, rfl⟩
    have point := (spared_digits unsigned).trans (spared_of_readPlaces placesRead)
    exact past.trans (point.trans (spared_of_readExponent exponentRead))

/-! ## Values -/

theorem spared_of_readScalar {source rest : List Char} {tree : Json}
    (accepted : readScalar source = some (tree, rest)) : Spared source rest := by
  unfold readScalar at accepted
  split at accepted
  · simp only [Option.bind_eq_bind, Option.bind_eq_some_iff, Option.pure_def,
      Option.some.injEq, Prod.mk.injEq] at accepted
    rcases accepted with ⟨⟨content, behind⟩, quoted, _, rfl⟩
    exact spared_of_readQuoted quoted
  · cases accepted
    exact spared_append ['n', 'u', 'l', 'l'] (by simp) _
  · cases accepted
    exact spared_append ['t', 'r', 'u', 'e'] (by simp) _
  · cases accepted
    exact spared_append ['f', 'a', 'l', 's', 'e'] (by simp) _
  · exact spared_of_readNumber accepted

/-- Whatever a reader accepts is copied. -/
def Spares (readItem : List Char → Option (Json × List Char)) : Prop :=
  ∀ {source rest : List Char} {tree : Json}, readItem source = some (tree, rest) →
    Spared source rest

/-- What comes after blanks is not a quote or a slash: it is copied with them. -/
theorem spared_of_skipGaps {source rest : List Char} {c : Char} (quote : c ≠ '"')
    (slash : c ≠ '/') (found : skipGaps source = c :: rest) : Spared source rest := by
  have blanks := spared_skipGaps source
  rw [found] at blanks
  exact blanks.trans (.plain quote slash .done)

theorem spared_of_readItems {readItem : List Char → Option (Json × List Char)}
    (spares : Spares readItem) {fuel : Nat} {source rest : List Char} {items : List Json}
    (accepted : readItems readItem fuel source = some (items, rest)) : Spared source rest := by
  induction fuel generalizing source items with
  | zero => cases accepted
  | succ fuel inductionHypothesis =>
      unfold readItems at accepted
      simp only [Option.bind_eq_bind, Option.bind_eq_some_iff] at accepted
      rcases accepted with ⟨⟨item, behind⟩, itemRead, accepted⟩
      apply (spares itemRead).trans
      split at accepted
      · rename_i found
        cases accepted
        exact spared_of_skipGaps (by decide) (by decide) found
      · rename_i found
        simp only [Option.bind_eq_some_iff] at accepted
        rcases accepted with ⟨⟨others, ending⟩, further, same⟩
        cases same
        exact (spared_of_skipGaps (by decide) (by decide) found).trans
          (inductionHypothesis further)
      · cases accepted

theorem spared_of_readEntries {readItem : List Char → Option (Json × List Char)}
    (spares : Spares readItem) {fuel : Nat} {source rest : List Char}
    {entries : List (String × Json)}
    (accepted : readEntries readItem fuel source = some (entries, rest)) :
    Spared source rest := by
  induction fuel generalizing source entries with
  | zero => cases accepted
  | succ fuel inductionHypothesis =>
      unfold readEntries at accepted
      split at accepted
      · rename_i name found
        simp only [Option.bind_eq_bind, Option.bind_eq_some_iff] at accepted
        rcases accepted with ⟨⟨content, behindName⟩, nameRead, accepted⟩
        -- The quote is part of the blanks' rest, so that the name is copied from there on.
        have start := spared_skipGaps source
        rw [found] at start
        apply (start.trans (spared_of_readQuoted nameRead)).trans
        split at accepted
        · rename_i colon
          simp only [Option.bind_eq_some_iff] at accepted
          rcases accepted with ⟨⟨body, behind⟩, bodyRead, accepted⟩
          apply (spared_of_skipGaps (by decide) (by decide) colon).trans
          apply (spares bodyRead).trans
          split at accepted
          · rename_i brace
            cases accepted
            exact spared_of_skipGaps (by decide) (by decide) brace
          · rename_i comma
            simp only [Option.bind_eq_some_iff] at accepted
            rcases accepted with ⟨⟨others, ending⟩, further, same⟩
            cases same
            exact (spared_of_skipGaps (by decide) (by decide) comma).trans
              (inductionHypothesis further)
          · cases accepted
        · cases accepted
      · cases accepted

theorem spares_readValue (depth : Nat) : Spares (readValue depth) := by
  induction depth with
  | zero =>
      intro source rest tree accepted
      exact (spared_skipGaps source).trans (spared_of_readScalar accepted)
  | succ depth inductionHypothesis =>
      intro source rest tree accepted
      unfold readValue at accepted
      split at accepted
      · rename_i bracket
        apply (spared_of_skipGaps (by decide) (by decide) bracket).trans
        split at accepted
        · rename_i closing
          cases accepted
          exact spared_of_skipGaps (by decide) (by decide) closing
        · simp only [Option.bind_eq_bind, Option.bind_eq_some_iff] at accepted
          rcases accepted with ⟨⟨items, behind⟩, itemsRead, same⟩
          cases same
          exact (spared_skipGaps _).trans (spared_of_readItems inductionHypothesis itemsRead)
      · rename_i brace
        apply (spared_of_skipGaps (by decide) (by decide) brace).trans
        split at accepted
        · rename_i closing
          cases accepted
          exact spared_of_skipGaps (by decide) (by decide) closing
        · simp only [Option.bind_eq_bind, Option.bind_eq_some_iff] at accepted
          rcases accepted with ⟨⟨entries, behind⟩, entriesRead, same⟩
          cases same
          exact (spared_skipGaps _).trans
            (spared_of_readEntries inductionHypothesis entriesRead)
      · exact (spared_skipGaps source).trans (spared_of_readScalar accepted)

/-- A document is copied as a whole. -/
theorem spared_of_ofText? {source : String} {tree : Json}
    (accepted : ofText? source = some tree) : Spared source.toList [] := by
  unfold ofText? at accepted
  split at accepted
  · rename_i value rest valueRead
    split at accepted
    · rename_i finished
      have blanks := spared_skipGaps rest
      rw [List.isEmpty_iff.mp finished] at blanks
      exact (spares_readValue nestingLimit valueRead).trans blanks
    · cases accepted
  · cases accepted

end Json

/-- What the strict reader accepts has no comments. -/
theorem Comments.strip_of_ofText? {source : String} {tree : Json}
    (accepted : Json.ofText? source = some tree) : strip source = source := by
  rw [strip, (Json.spared_of_ofText? accepted).stripFrom_eq rfl, String.ofList_toList]

namespace Definition

/-! ## Reading trees

Whether comments are allowed matters for the text of a document only. -/

section

variable (options : Options) (allowComments : Bool)

theorem readFieldEntries_allowing :
    readFieldEntries { options with allowComments } = readFieldEntries options := by
  funext name draft entries
  induction entries generalizing draft with
  | nil => rfl
  | cons entry entries inductionHypothesis =>
      simp only [readFieldEntries, inductionHypothesis]
      rfl

theorem readField_allowing : readField { options with allowComments } = readField options := by
  funext name tree
  simp only [readField, readLongField, readFieldEntries_allowing]
  rfl

theorem readFields_allowing :
    readFields { options with allowComments } = readFields options := by
  funext schema entries
  induction entries generalizing schema with
  | nil => rfl
  | cons entry entries inductionHypothesis =>
      simp only [readFields, inductionHypothesis, readField_allowing]

theorem readSchemaEntries_allowing :
    readSchemaEntries { options with allowComments } = readSchemaEntries options := by
  funext draft entries
  induction entries generalizing draft with
  | nil => rfl
  | cons entry entries inductionHypothesis =>
      simp only [readSchemaEntries, inductionHypothesis, readSchemaEntry, readFields_allowing]
      rfl

theorem skipFurtherKeys_allowing :
    skipFurtherKeys { options with allowComments } = skipFurtherKeys options := by
  funext context entries
  induction entries with
  | nil => rfl
  | cons entry entries inductionHypothesis =>
      simp only [skipFurtherKeys, inductionHypothesis]
      rfl

theorem readDefinition_allowing :
    readDefinition { options with allowComments } = readDefinition options := by
  funext tree
  simp only [readDefinition, readSchema, readSchemaEntries_allowing, skipFurtherKeys_allowing]

end

/-- Removing comments leaves a document alone that the strict reader accepts.  So a
document that is read without comments being allowed is read in the same way, to the same
definitions or the same refusal, when they are. -/
theorem comments_spare_plain_documents (source : String) :
    (∀ tree, Json.ofText? source = some tree → Comments.strip source = source) ∧
      ∀ options : Options, options.allowComments = false → ∀ tree,
        readTree options source = .ok tree →
          readDocument { options with allowComments := true } source =
            readDocument options source := by
  constructor
  · intro tree accepted
    exact Comments.strip_of_ofText? accepted
  · intro options plain tree treeRead
    have strict : options.allowComments ≠ true := Bool.eq_false_iff.mp plain
    have allowed : readTree { options with allowComments := true } source = .ok tree := by
      rw [readTree, if_neg strict] at treeRead
      split at treeRead
      · rename_i found accepted
        cases treeRead
        rw [readTree, if_pos rfl, Comments.strip_of_ofText? accepted, accepted]
      · cases treeRead
    rw [readDocument, readDocument, allowed, treeRead, readDefinition_allowing]

/-- A link whose descriptions hold the marks of comments and escaped quotes. -/
def linkDocument : String :=
  "\x7b\"name\": \"Link\", \"desc\": \"from // to \\\\\", \"fields\":
    \x7b\"to\": \x7b\"type\": \"string\", \"desc\": \"a \\\"/* b */\"\x7d\x7d\x7d"

theorem linkDocument_is_spared :
    ∃ tree definitions, Json.ofText? linkDocument = some tree ∧
      Comments.strip linkDocument = linkDocument ∧
      readTree { allowComments := false } linkDocument = .ok tree ∧
      readDocument { allowComments := true } linkDocument =
        readDocument { allowComments := false } linkDocument ∧
      (readDocument { allowComments := true } linkDocument).result = .ok definitions := by
  have found : (Json.ofText? linkDocument).isSome = true := by decide +kernel
  have computed : (readDocument { allowComments := false } linkDocument).result.toOption.isSome =
      true := by
    decide +kernel
  rw [Option.isSome_iff_exists] at found computed
  rcases found with ⟨tree, accepted⟩
  rcases computed with ⟨definitions, read⟩
  rw [toOption_eq_some_iff] at read
  have treeRead : readTree { allowComments := false } linkDocument = .ok tree := by
    rw [readTree, if_neg Bool.false_ne_true, accepted]
  rcases comments_spare_plain_documents linkDocument with ⟨stripped, spared⟩
  have same := spared { allowComments := false } rfl tree treeRead
  exact ⟨tree, definitions, accepted, stripped tree accepted, treeRead, same,
    (congrArg Traced.result same).trans read⟩

end Definition

end Tabula
