import Tabula.Proofs.Catalog.Documents
import Tabula.Proofs.Catalog.Frame

/-!
# What a catalog says of its unresolved fields

Three answers tell whether some type of a catalog names nothing: a test, the list of the
fields concerned, and a check that fails for the first of them.  The test looks at every head
of a field, but the list only follows the templates of lists.  So the answers agree on fields
that carry templates on lists alone, which are all that documents make.  Below any other head
an unresolved element is counted by the test and missing from the list.  No catalog without
waiting fields is unresolved in either way.
-/

namespace Tabula

namespace Field

/-- An element without a known type stands below a head that is neither a list nor unresolved
itself. -/
def hidesUnresolved : Field → Bool
  | single _ => false
  | withElement head element =>
    match head.shape with
    | .unresolved => false
    | .list _ => element.hidesUnresolved
    | _ => element.isUnresolved

/-- An unresolved field has a candidate to show, unless it hides what is unresolved. -/
theorem isUnresolved_iff (field : Field) :
    field.isUnresolved = true ↔
      field.candidate?.isSome = true ∨ field.hidesUnresolved = true := by
  induction field with
  | single head =>
      rw [isUnresolved, candidate?, hidesUnresolved, decide_eq_true_eq]
      by_cases here : head.shape = .unresolved
      · simp [here, Shape.kind]
      · cases shape : head.shape <;> simp_all [Shape.kind]
  | withElement head element inductionHypothesis =>
      rw [isUnresolved, candidate?, hidesUnresolved, Bool.or_eq_true, decide_eq_true_eq]
      cases shape : head.shape with
      | unresolved => simp [Shape.kind]
      | list count => simpa [Shape.kind] using inductionHypothesis
      | scalar kind reference => simp [Shape.kind]
      | embedded target => simp [Shape.kind]
      | lookup reference => simp [Shape.kind]

/-- With templates on lists only, nothing is hidden. -/
theorem hidesUnresolved_of_templatesOnLists {field : Field}
    (templates : field.templatesOnLists = true) : field.hidesUnresolved = false := by
  induction field with
  | single head => rfl
  | withElement head element inductionHypothesis =>
      rw [templatesOnLists, Bool.and_eq_true, decide_eq_true_eq] at templates
      obtain ⟨count, list⟩ := Shape.exists_list_of_kind templates.1
      rw [hidesUnresolved, list]
      exact inductionHypothesis templates.2

theorem templatesOnLists_mapHead {field : Field} {change : FieldHead → FieldHead}
    (same : (change field.head).shape = field.head.shape) :
    (field.mapHead change).templatesOnLists = field.templatesOnLists := by
  cases field with
  | single head => rfl
  | withElement head element =>
      change (change head).shape = head.shape at same
      rw [mapHead, templatesOnLists, templatesOnLists, same]

theorem templatesOnLists_of_outline {before after : Field} (same : after.outline = before.outline) :
    after.templatesOnLists = before.templatesOnLists := by
  rw [← templatesOnLists_outline, same, templatesOnLists_outline]

end Field

/-! ## Fields of documents -/

theorem WrittenType.templatesOnLists_toField (type : WrittenType) (name : String) :
    (type.toField name).templatesOnLists = true := by
  induction type generalizing name with
  | scalar word kind => rfl
  | reference table keyField pickedField => rfl
  | named candidate => rfl
  | list written element count inductionHypothesis =>
      rw [toField, Field.templatesOnLists, inductionHypothesis]
      rfl

namespace Definition

theorem templatesOnLists_of_readFieldType {name : String} {entries : List (String × Json)}
    {field : Field} (accepted : readFieldType name entries = .ok field) :
    field.templatesOnLists = true := by
  unfold readFieldType at accepted
  split at accepted
  · cases accepted
  · simp only [bind_eq_ok_iff] at accepted
    rcases accepted with ⟨_, _, ⟨type, rest⟩, _, ended⟩
    split at ended
    · cases ended
      exact type.templatesOnLists_toField name
    · cases ended

/-- Neither a seed nor a fallback brings a template. -/
theorem templatesOnLists_of_applyLiteral {options : Options} {name : String}
    {field result : Field} {literal : Option String} (templates : field.templatesOnLists = true)
    (accepted : applyLiteral name (seedField options field) literal = .ok result) :
    result.templatesOnLists = true := by
  have seeded : (seedField options field).templatesOnLists = true := by
    unfold seedField
    split
    · rw [Field.templatesOnLists_mapHead (by rfl), templates]
    · exact templates
  cases literal with
  | none =>
      cases accepted
      exact seeded
  | some text =>
      rw [applyLiteral, mapError_eq_ok_iff] at accepted
      rw [Field.templatesOnLists_of_outline (Field.outline_setFallback accepted), seeded]

/-- A field that is read carries templates on lists only, however it is written. -/
theorem templatesOnLists_of_readField {options : Options} {name : String} {tree : Json}
    {field : Field} (accepted : (readField options name tree).result = .ok field) :
    field.templatesOnLists = true := by
  unfold readField at accepted
  split at accepted
  · rw [Traced.bind_eq_ok_iff] at accepted
    rcases accepted with ⟨⟨typed, literal⟩, read, filled⟩
    refine templatesOnLists_of_applyLiteral ?_ filled
    simp only [Traced.result_ofResult, readShortField, bind_eq_ok_iff, pure_eq_ok_iff] at read
    rcases read with ⟨⟨type, rest⟩, _, same⟩
    cases same
    rw [Field.templatesOnLists_mapHead (by rfl), type.templatesOnLists_toField]
  · rw [Traced.bind_eq_ok_iff] at accepted
    rcases accepted with ⟨⟨typed, literal⟩, read, filled⟩
    refine templatesOnLists_of_applyLiteral ?_ filled
    simp only [readLongField, Traced.bind_eq_ok_iff, Traced.result_ofResult, Traced.result_pure]
      at read
    rcases read with ⟨start, found, draft, entered, same⟩
    cases same
    rw [Field.templatesOnLists_mapHead (alike_of_readFieldEntries entered).2,
      templatesOnLists_of_readFieldType found]
  · cases accepted

end Definition

namespace Catalog

/-- No head but those of lists carries a template in a schema; enums have no fields of their
own. -/
def TemplatesOnLists : Definition → Prop
  | .schema schema => ∀ field ∈ schema.fields, field.templatesOnLists = true
  | .enumTable _ => True

theorem templatesOnLists_of_readDefinition {options : Options} {tree : Json}
    {definition : Definition}
    (accepted : (Definition.readDefinition options tree).result = .ok definition) :
    TemplatesOnLists definition := by
  rcases Definition.readDefinition_cases accepted with
    ⟨entries, schema, read, rfl⟩ | ⟨header, body, table, read, rfl⟩
  · exact Definition.forall_fields_of_readSchema
      (fun _ field => Definition.templatesOnLists_of_readField field) read
  · exact trivial

/-- Settling a field leaves its templates where they are. -/
theorem TemplatesOnLists.advances {catalog : Catalog} {before after : Definition}
    (follows : before.Follows catalog.Advances after) (templates : TemplatesOnLists before) :
    TemplatesOnLists after := by
  cases follows with
  | enumTable table => exact templates
  | schema follows =>
      intro field member
      obtain ⟨start, present, advances⟩ := exists_mem_of_forall₂ follows.fields member
      rcases advances with rfl | settled
      · exact templates _ present
      · rw [Field.templatesOnLists_of_outline (settlesInto_of_settleField settled).outline]
        exact templates start present

/-- The catalogs of documents carry templates on lists only. -/
theorem Documented.templatesOnLists {catalog : Catalog} (documented : catalog.Documented)
    {schema : Schema} (member : schema ∈ catalog.schemas) :
    ∀ field ∈ schema.fields, field.templatesOnLists = true :=
  documented.forall_definitions templatesOnLists_of_readDefinition TemplatesOnLists.advances
    (.schema schema) (schema_mem_definitions member)

/-! ## The three answers -/

theorem isUnresolved_eq_true_iff (catalog : Catalog) :
    catalog.isUnresolved = true ↔
      ∃ schema ∈ catalog.schemas, ∃ field ∈ schema.fields, field.isUnresolved = true := by
  simp only [isUnresolved, Schema.isUnresolved, List.any_eq_true]

theorem unresolvedFields_ne_nil_iff (catalog : Catalog) :
    catalog.unresolvedFields ≠ [] ↔
      ∃ schema ∈ catalog.schemas, ∃ field ∈ schema.fields, field.candidate?.isSome = true := by
  simp only [unresolvedFields, unresolvedOf, ne_eq, List.flatMap_eq_nil_iff,
    List.filterMap_eq_nil_iff, Option.map_eq_none_iff, not_forall, exists_prop,
    Option.isSome_iff_ne_none]

theorem ensureResolved_fails_iff (catalog : Catalog) :
    (∃ refusal, catalog.ensureResolved = .error refusal) ↔ catalog.unresolvedFields ≠ [] := by
  rw [ne_eq, ← ensureResolved_eq_ok_iff]
  cases catalog.ensureResolved with
  | ok done => simp
  | error refusal => simp

/-- A catalog hides an unresolved element in one of its fields. -/
def HidesUnresolved (catalog : Catalog) : Prop :=
  ∃ schema ∈ catalog.schemas, ∃ field ∈ schema.fields, field.hidesUnresolved = true

/-- The test counts what the list shows and what is hidden from it. -/
theorem isUnresolved_iff (catalog : Catalog) :
    catalog.isUnresolved = true ↔ catalog.unresolvedFields ≠ [] ∨ catalog.HidesUnresolved := by
  rw [isUnresolved_eq_true_iff, unresolvedFields_ne_nil_iff, HidesUnresolved]
  simp only [Field.isUnresolved_iff, and_or_left, exists_or]

theorem not_hidesUnresolved {catalog : Catalog}
    (templates : ∀ schema ∈ catalog.schemas, ∀ field ∈ schema.fields,
      field.templatesOnLists = true) : ¬catalog.HidesUnresolved := by
  rintro ⟨schema, member, field, present, hides⟩
  rw [Field.hidesUnresolved_of_templatesOnLists (templates schema member field present)] at hides
  cases hides

/-- An unresolved catalog lists the schema concerned among those that wait. -/
theorem Indexed.isPending_of_isUnresolved {catalog : Catalog} (indexed : catalog.Indexed)
    (unresolved : catalog.isUnresolved = true) : catalog.isPending = true := by
  obtain ⟨schema, member, field, present, waiting⟩ :=
    (isUnresolved_eq_true_iff catalog).mp unresolved
  obtain ⟨position, found⟩ := List.getElem?_of_mem member
  have pending : schema.isPending = true :=
    List.any_eq_true.mpr ⟨field, present, field.isPending_of_isUnresolved waiting⟩
  have listed : position ∈ catalog.pending := indexed.mem_pending_iff.mpr ⟨schema, found, pending⟩
  rw [isPending, Bool.not_eq_true', List.isEmpty_eq_false_iff_exists_mem]
  exact ⟨position, listed⟩

/-- What can be added to a reachable catalog leads to a reachable one. -/
theorem Reachable.addAll {catalog : Catalog} (reached : catalog.Reachable)
    {definitions : List Definition}
    (accepted : (Catalog.addAll addDefinition catalog definitions).result = .ok ()) :
    (Catalog.addAll addDefinition catalog definitions).state.Reachable := by
  induction definitions generalizing catalog with
  | nil => exact reached
  | cons definition definitions inductionHypothesis =>
      rcases addAll_cons_eq_ok_iff.mp accepted with ⟨here, further⟩
      rw [state_addAll_cons here]
      exact inductionHypothesis (.step reached (.add definition)) further

/-- Reading documents is adding their definitions one by one. -/
theorem Documented.reachable {catalog : Catalog} (documented : catalog.Documented) :
    catalog.Reachable := by
  induction documented with
  | empty => exact .start
  | read accepted =>
      obtain ⟨definitions, _, added, rfl⟩ := read_eq_ok_iff.mp accepted
      exact Reachable.start.addAll added
  | @absorb catalog other _ _ here _ => exact .step here (.absorb other)

/-- The list of unresolved fields and the check agree, and a catalog without waiting fields is
not unresolved.  The test agrees with them too, but for an element that a field hides: that is
the case in no catalog with templates on lists only, such as those of documents are. -/
theorem Reachable.diagnostics_agree {catalog : Catalog} (reached : catalog.Reachable) :
    (catalog.unresolvedFields ≠ [] ↔ ∃ refusal, catalog.ensureResolved = .error refusal) ∧
      (catalog.isPending = false → catalog.isUnresolved = false) ∧
      (catalog.isUnresolved = true ↔
        catalog.unresolvedFields ≠ [] ∨ catalog.HidesUnresolved) ∧
      (catalog.Documented ∨
        (∀ schema ∈ catalog.schemas, ∀ field ∈ schema.fields, field.templatesOnLists = true) →
          (catalog.isUnresolved = true ↔ catalog.unresolvedFields ≠ [])) := by
  refine ⟨(ensureResolved_fails_iff catalog).symm, ?_, catalog.isUnresolved_iff, ?_⟩
  · intro calm
    by_contra unresolved
    rw [Bool.not_eq_false] at unresolved
    rw [reached.kept.sound.indexed.isPending_of_isUnresolved unresolved] at calm
    cases calm
  · intro plain
    have shown : ¬catalog.HidesUnresolved := by
      rcases plain with documented | templates
      · exact not_hidesUnresolved fun _ member => documented.templatesOnLists member
      · exact not_hidesUnresolved templates
    rw [isUnresolved_iff, or_iff_left shown]

/-- An atlas with a place and places of a type that nothing defines. -/
def atlasDocument : String :=
  "\x7b\"name\":\"Atlas\",\"fields\":\x7b\"home\":\"Place\",\"stops\":\"list<Place, 2>\",\"scale\":\"int8\"\x7d\x7d"

theorem atlas_diagnostics_agree :
    ∃ catalog : Catalog, catalog.Reachable ∧ catalog.Documented ∧
      catalog.unresolvedFields = [⟨"Atlas", "home", "Place"⟩, ⟨"Atlas", "stops", "Place"⟩] ∧
      (catalog.isUnresolved = true ↔ catalog.unresolvedFields ≠ []) ∧
      ∃ refusal, catalog.ensureResolved = .error refusal := by
  have computed : ((read {} atlasDocument).result.toOption.map unresolvedFields) =
      some [⟨"Atlas", "home", "Place"⟩, ⟨"Atlas", "stops", "Place"⟩] := by
    decide +kernel
  rcases Option.map_eq_some_iff.mp computed with ⟨catalog, accepted, missing⟩
  rw [toOption_eq_some_iff] at accepted
  have documented : catalog.Documented := .read accepted
  have agree := Reachable.diagnostics_agree documented.reachable
  refine ⟨catalog, documented.reachable, documented, missing,
    agree.2.2.2 (.inl documented), agree.1.mp ?_⟩
  rw [missing]
  exact List.cons_ne_nil _ _

/-- A gauge with a number that carries a template of an unknown type. -/
def gaugeSchema : Schema where
  name := "Gauge"
  fields :=
    [.withElement (Field.ofKind "level" (.scalar (.integer .bits32))).head
      (.unresolved "" "Missing")]

/-- The template is one that a number may be given.  The test then finds the catalog
unresolved, but the list and the check find nothing. -/
theorem gauge_diagnostics_disagree :
    (Field.ofKind "level" (.scalar (.integer .bits32))).setElement (.unresolved "" "Missing") =
        .ok (.withElement (Field.ofKind "level" (.scalar (.integer .bits32))).head
          (.unresolved "" "Missing")) ∧
      ∃ catalog : Catalog, catalog.Reachable ∧ catalog.schemas = [gaugeSchema] ∧
        catalog.isUnresolved = true ∧ catalog.unresolvedFields = [] ∧
        catalog.ensureResolved = .ok () := by
  refine ⟨rfl, (empty.perform (.add (.schema gaugeSchema))).state, ?_, ?_, ?_, ?_, ?_⟩
  · exact .step .start _
  · rfl
  · decide +kernel
  · decide +kernel
  · decide +kernel

end Catalog

end Tabula
