import Tabula.Definition.Reader
import Tabula.Proofs.Outcome

/-!
# Strict and lenient reading

The strict reading refuses a key that the lenient one skips and records.  So the record of
the lenient reading tells what the strict one does: it is the lenient reading cut short at
the first key that was skipped.  Cutting a chain of computations short is cutting each of
its links short, and every reader is such a chain, down to the one place where a key is
skipped.
-/

namespace Tabula

/-- The refusal of the key that the event says was skipped. -/
def Event.refusal? : Event → Option DefinitionError
  | skippedKey key context => some (.unknownKey key context)
  | _ => none

theorem Event.refusal?_eq_some_iff {event : Event} {refusal : DefinitionError} :
    event.refusal? = some refusal ↔
      ∃ key context, event = .skippedKey key context ∧ refusal = .unknownKey key context := by
  cases event <;> simp [refusal?, eq_comm]

/-- The events before the first skipped key, and the refusal of that key. -/
def firstSkipped? : List Event → Option (List Event × DefinitionError)
  | [] => none
  | event :: events =>
    match event.refusal? with
    | some refusal => some ([], refusal)
    | none => (firstSkipped? events).map fun cut => (event :: cut.1, cut.2)

theorem firstSkipped?_append (first second : List Event) :
    firstSkipped? (first ++ second) =
      (firstSkipped? first).or
        ((firstSkipped? second).map fun cut => (first ++ cut.1, cut.2)) := by
  induction first with
  | nil => simp [firstSkipped?]
  | cons event events inductionHypothesis =>
      rw [List.cons_append, firstSkipped?, firstSkipped?, inductionHypothesis]
      cases event.refusal? with
      | some refusal => rfl
      | none => cases firstSkipped? events <;> cases firstSkipped? second <;> rfl

theorem firstSkipped?_eq_none_iff {events : List Event} :
    firstSkipped? events = none ↔ ∀ event ∈ events, event.refusal? = none := by
  induction events with
  | nil => simp [firstSkipped?]
  | cons event events inductionHypothesis =>
      rw [firstSkipped?, List.forall_mem_cons, ← inductionHypothesis]
      cases event.refusal? <;> simp

theorem exists_of_firstSkipped? {events before : List Event} {refusal : DefinitionError}
    (found : firstSkipped? events = some (before, refusal)) :
    ∃ event ∈ events, event.refusal? = some refusal := by
  induction events generalizing before with
  | nil => cases found
  | cons event events inductionHypothesis =>
      rw [firstSkipped?] at found
      split at found
      · rename_i other here
        cases found
        exact ⟨event, List.mem_cons_self, here⟩
      · rcases Option.map_eq_some_iff.mp found with ⟨cut, below, same⟩
        cases same
        obtain ⟨skipped, member, there⟩ := inductionHypothesis below
        exact ⟨skipped, List.mem_cons_of_mem _ member, there⟩

namespace Traced

variable {α β : Type}

/-- The computation cut short at the first key that it skips, with the refusal of that
key. -/
def refusingSkipped (traced : Traced DefinitionError α) : Traced DefinitionError α :=
  match firstSkipped? traced.events with
  | none => traced
  | some (before, refusal) => ⟨before, .error refusal⟩

theorem refusingSkipped_of_none {traced : Traced DefinitionError α}
    (none : firstSkipped? traced.events = none) : traced.refusingSkipped = traced := by
  rw [refusingSkipped, none]

@[simp]
theorem refusingSkipped_ofResult (result : Except DefinitionError α) :
    (ofResult result).refusingSkipped = ofResult result :=
  rfl

@[simp]
theorem refusingSkipped_fail (failure : DefinitionError) :
    (fail failure : Traced DefinitionError α).refusingSkipped = fail failure :=
  rfl

@[simp]
theorem refusingSkipped_pure (value : α) :
    (pure value : Traced DefinitionError α).refusingSkipped = pure value :=
  rfl

/-- A chain is cut short by cutting its links short. -/
@[simp]
theorem refusingSkipped_andThen (first : Traced DefinitionError α)
    (next : α → Traced DefinitionError β) :
    (first.andThen next).refusingSkipped =
      first.refusingSkipped.andThen fun value => (next value).refusingSkipped := by
  rcases first with ⟨events, result⟩
  cases result with
  | error failure =>
      simp only [andThen, refusingSkipped]
      cases firstSkipped? events <;> rfl
  | ok value =>
      simp only [andThen, refusingSkipped, firstSkipped?_append]
      cases here : firstSkipped? events with
      | some cut => rfl
      | none => cases there : firstSkipped? (next value).events <;> simp [there]

/-- Links that are cut short one by one make a chain that is cut short. -/
theorem refusingSkipped_andThen_eq {first firstCut : Traced DefinitionError α}
    {next nextCut : α → Traced DefinitionError β} (here : first.refusingSkipped = firstCut)
    (further : ∀ value, (next value).refusingSkipped = nextCut value) :
    (first.andThen next).refusingSkipped = firstCut.andThen nextCut := by
  rw [refusingSkipped_andThen, here, funext further]

@[simp]
theorem refusingSkipped_bind (first : Traced DefinitionError α)
    (next : α → Traced DefinitionError β) :
    (first >>= next).refusingSkipped =
      first.refusingSkipped >>= fun value => (next value).refusingSkipped :=
  refusingSkipped_andThen first next

theorem refusingSkipped_traverse {γ : Type} (next : γ → Traced DefinitionError β)
    (members : List γ) :
    (traverse next members).refusingSkipped =
      traverse (fun member => (next member).refusingSkipped) members := by
  induction members with
  | nil => rfl
  | cons member members inductionHypothesis =>
      simp only [traverse, refusingSkipped_andThen, inductionHypothesis,
        refusingSkipped_ofResult]

/-- A computation that skips no key is left as it is; of another, one of the skipped keys
is refused. -/
theorem result_refusingSkipped_cases (traced : Traced DefinitionError α) :
    (traced.refusingSkipped = traced ∧
      ∀ key context, .skippedKey key context ∉ traced.events) ∨
    ∃ key context, .skippedKey key context ∈ traced.events ∧
      traced.refusingSkipped.result = .error (.unknownKey key context) := by
  cases found : firstSkipped? traced.events with
  | none =>
      refine .inl ⟨refusingSkipped_of_none found, ?_⟩
      intro key context member
      cases firstSkipped?_eq_none_iff.mp found _ member
  | some cut =>
      obtain ⟨event, member, refused⟩ := exists_of_firstSkipped? found
      rcases Event.refusal?_eq_some_iff.mp refused with ⟨key, context, rfl, same⟩
      refine .inr ⟨key, context, member, ?_⟩
      rw [refusingSkipped, found, ← same]

end Traced

/-- The options with unknown keys refused. -/
def Options.strictly (options : Options) : Options :=
  { options with strictKeys := true }

/-- The options with unknown keys skipped. -/
def Options.leniently (options : Options) : Options :=
  { options with strictKeys := false }

namespace Definition

open Traced

/-! ## Readers under both options -/

variable (options : Options)

@[simp]
theorem skipUnknown_strictly (key context : String) :
    skipUnknown options.strictly key context =
      (skipUnknown options.leniently key context).refusingSkipped :=
  rfl

theorem readFieldEntry_strictly (name : String) (draft : FieldDraft) (key : String)
    (tree : Json) :
    readFieldEntry options.strictly name draft key tree =
      (readFieldEntry options.leniently name draft key tree).refusingSkipped := by
  unfold readFieldEntry
  split
  case h_2 =>
    split
    · rfl
    · split <;> rfl
  all_goals rfl

theorem readFieldEntries_strictly (name : String) (draft : FieldDraft)
    (entries : List (String × Json)) :
    readFieldEntries options.strictly name draft entries =
      (readFieldEntries options.leniently name draft entries).refusingSkipped := by
  induction entries generalizing draft with
  | nil => rfl
  | cons entry entries inductionHypothesis =>
      simp only [readFieldEntries, refusingSkipped_andThen, readFieldEntry_strictly,
        inductionHypothesis]

theorem readField_strictly (name : String) (tree : Json) :
    readField options.strictly name tree =
      (readField options.leniently name tree).refusingSkipped := by
  cases tree with
  | object entries =>
      simp only [readField, readLongField, refusingSkipped_bind, refusingSkipped_ofResult,
        refusingSkipped_pure, readFieldEntries_strictly]
      rfl
  | _ =>
      simp only [readField, refusingSkipped_bind, refusingSkipped_ofResult, refusingSkipped_fail]
      rfl

theorem readFields_strictly (schema : Schema) (entries : List (String × Json)) :
    readFields options.strictly schema entries =
      (readFields options.leniently schema entries).refusingSkipped := by
  induction entries generalizing schema with
  | nil => rfl
  | cons entry entries inductionHypothesis =>
      simp only [readFields, refusingSkipped_andThen, refusingSkipped_ofResult]
      congr 1
      funext _
      split
      · rfl
      · simp only [refusingSkipped_andThen, refusingSkipped_ofResult, readField_strictly,
          inductionHypothesis]

theorem readSchemaEntry_strictly (draft : SchemaDraft) (key : String) (tree : Json) :
    readSchemaEntry options.strictly draft key tree =
      (readSchemaEntry options.leniently draft key tree).refusingSkipped := by
  simp only [readSchemaEntry]
  split
  case h_2 =>
    split
    · simp only [refusingSkipped_andThen, readFields_strictly, refusingSkipped_pure]
    · rfl
  all_goals rfl

theorem readSchemaEntries_strictly (draft : SchemaDraft) (entries : List (String × Json)) :
    readSchemaEntries options.strictly draft entries =
      (readSchemaEntries options.leniently draft entries).refusingSkipped := by
  induction entries generalizing draft with
  | nil => rfl
  | cons entry entries inductionHypothesis =>
      simp only [readSchemaEntries, refusingSkipped_andThen, readSchemaEntry_strictly,
        inductionHypothesis]

theorem readSchema_strictly (entries : List (String × Json)) :
    readSchema options.strictly entries =
      (readSchema options.leniently entries).refusingSkipped := by
  simp only [readSchema, refusingSkipped_andThen, readSchemaEntries_strictly]
  congr 1
  funext draft
  split <;> rfl

/-- Nothing is skipped inside an enum. -/
theorem refusingSkipped_readEnumTable (header : String) (body : Json) :
    (readEnumTable header body).refusingSkipped = readEnumTable header body := by
  have stored (table : Table) (rows : List (List Cell)) :
      firstSkipped? (table.addRows rows).events = none := by
    unfold Table.addRows
    split <;> rfl
  refine refusingSkipped_andThen_eq rfl fun header => ?_
  refine refusingSkipped_andThen_eq rfl fun parts => ?_
  refine refusingSkipped_andThen_eq rfl fun table => ?_
  exact refusingSkipped_andThen_eq (refusingSkipped_of_none (stored table _)) fun _ => rfl

theorem skipFurtherKeys_strictly (context : String) (entries : List (String × Json)) :
    skipFurtherKeys options.strictly context entries =
      (skipFurtherKeys options.leniently context entries).refusingSkipped := by
  induction entries with
  | nil => rfl
  | cons entry entries inductionHypothesis =>
      simp only [skipFurtherKeys, refusingSkipped_andThen, skipUnknown_strictly,
        inductionHypothesis]

theorem readDefinition_strictly (tree : Json) :
    readDefinition options.strictly tree =
      (readDefinition options.leniently tree).refusingSkipped := by
  unfold readDefinition
  split
  · simp only [refusingSkipped_andThen, readSchema_strictly, refusingSkipped_pure]
  · split
    · simp only [refusingSkipped_andThen, refusingSkipped_readEnumTable,
        skipFurtherKeys_strictly, refusingSkipped_pure]
    · simp only [refusingSkipped_andThen, readSchema_strictly, refusingSkipped_pure]
  · rfl

/-- The strict reading of a document is the lenient one up to the first key that it
skips. -/
theorem readDocument_strictly (source : String) :
    readDocument options.strictly source =
      (readDocument options.leniently source).refusingSkipped := by
  have sameTree : readTree options.strictly source = readTree options.leniently source := rfl
  simp only [readDocument, refusingSkipped_andThen, refusingSkipped_ofResult, sameTree]
  congr 1
  funext tree
  split
  · rw [refusingSkipped_traverse]
    simp only [← readDefinition_strictly]
  · simp only [refusingSkipped_andThen, readDefinition_strictly, refusingSkipped_pure]
  · rfl

/-- The strict reading accepts the documents in which the lenient one skips no key, with
the same definitions, and refuses the others that the lenient one accepts for a key that it
skips. -/
theorem strict_reading_refuses_keys_only (source : String) (definitions : List Definition) :
    ((readDocument options.strictly source).result = .ok definitions ↔
      (readDocument options.leniently source).result = .ok definitions ∧
        ∀ key context,
          .skippedKey key context ∉ (readDocument options.leniently source).events) ∧
    ((readDocument options.leniently source).result = .ok definitions →
      (readDocument options.strictly source).result = .ok definitions ∨
      ∃ key context,
        .skippedKey key context ∈ (readDocument options.leniently source).events ∧
        (readDocument options.strictly source).result = .error (.unknownKey key context)) := by
  rw [readDocument_strictly]
  rcases result_refusingSkipped_cases (readDocument options.leniently source) with
    ⟨same, absent⟩ | ⟨key, context, member, refused⟩
  · rw [same]
    exact ⟨⟨fun accepted => ⟨accepted, absent⟩, And.left⟩, .inl⟩
  · rw [refused]
    constructor
    · constructor
      · intro accepted
        cases accepted
      · rintro ⟨_, absent⟩
        exact absurd member (absent key context)
    · intro _
      exact .inr ⟨key, context, member, rfl⟩

/-- A jar with a key without meaning, and with another one in its field. -/
def jarDocument : String :=
  "\x7b\"name\":\"Jar\",\"hue\":3,\"fields\":\x7b\"lid\":\x7b\"type\":\"bool\",\"coats\":2\x7d\x7d\x7d"

theorem jarDocument_is_refused_strictly :
    ∃ definitions key context,
      (readDocument (Options.leniently {}) jarDocument).result = .ok definitions ∧
      .skippedKey key context ∈ (readDocument (Options.leniently {}) jarDocument).events ∧
      (readDocument (Options.strictly {}) jarDocument).result =
        .error (.unknownKey key context) := by
  have computed :
      (readDocument (Options.leniently {}) jarDocument).result.toOption.isSome = true ∧
      .skippedKey "hue" "schema 'Jar'" ∈
        (readDocument (Options.leniently {}) jarDocument).events := by
    decide +kernel
  rcases Option.isSome_iff_exists.mp computed.1 with ⟨definitions, accepted⟩
  rw [toOption_eq_some_iff] at accepted
  have readings := strict_reading_refuses_keys_only {} jarDocument definitions
  rcases readings.2 accepted with same | ⟨key, context, member, refused⟩
  · exact absurd computed.2 ((readings.1.mp same).2 _ _)
  · exact ⟨definitions, key, context, accepted, member, refused⟩

end Definition

end Tabula
