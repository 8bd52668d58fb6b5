import Tabula.Definition.Reader
import Tabula.Proofs.Field.Settling
import Tabula.Proofs.Schema.Lookup
import Tabula.Proofs.Table.History

/-!
# What a document says

The type of a field is all that a document says about its shape.  A scalar field that is
read has no reference, a lookup has one, and the name of a definition stays a name: no
document embeds a schema.  The other keys of a field change its head and not its shape.
An enum that is read is a table of its own name with the columns of entries and values.
-/

namespace Tabula

/-! ## Written shapes -/

/-- The shapes that a written type has. -/
inductive Shape.Written : Shape → Prop where
  | scalar (kind : ScalarKind) : Written (.scalar kind none)
  | list (count : Nat) : Written (.list count)
  | lookup (reference : Reference) : Written (.lookup (some reference))
  | unresolved : Written .unresolved

/-- All shapes along the field are those of written types. -/
def Field.Written (field : Field) : Prop :=
  ∀ shape ∈ field.shapes, shape.Written

/-- The field goes by the name, and all shapes along it are those of written types. -/
structure Field.WrittenAs (field : Field) (name : String) : Prop where
  named : field.name = name
  written : field.Written

/-- All fields are as they were written. -/
def Schema.Written (schema : Schema) : Prop :=
  ∀ field ∈ schema.fields, field.Written

theorem WrittenType.written_toField (type : WrittenType) (name : String) :
    (type.toField name).WrittenAs name := by
  induction type generalizing name with
  | scalar word kind => exact ⟨rfl, List.forall_mem_singleton.mpr (.scalar kind)⟩
  | reference => exact ⟨rfl, List.forall_mem_singleton.mpr (.lookup _)⟩
  | named => exact ⟨rfl, List.forall_mem_singleton.mpr .unresolved⟩
  | list written element count inductionHypothesis =>
      exact ⟨rfl, List.forall_mem_cons.mpr ⟨.list count, (inductionHypothesis "").written⟩⟩

/-- The heads agree in name and shape. -/
def FieldHead.Alike (left right : FieldHead) : Prop :=
  left.name = right.name ∧ left.shape = right.shape

/-- A change of the head that leaves its name and its shape alone. -/
theorem Field.WrittenAs.mapHead {field : Field} {name : String} (written : field.WrittenAs name)
    {change : FieldHead → FieldHead} (keeps : (change field.head).Alike field.head) :
    (field.mapHead change).WrittenAs name := by
  rcases keeps with ⟨sameName, sameShape⟩
  constructor
  · rw [Field.name, Field.head_mapHead, sameName]
    exact written.named
  · rw [Field.Written, Field.shapes_mapHead, sameShape, ← Field.shapes_eq_cons]
    exact written.written

/-! ## Enums -/

/-- The table has the name of its schema, and columns for the names and the values of
entries. -/
structure Table.IsEnum (table : Table) : Prop where
  named : table.schema.name = table.name
  hasName : ∃ field, table.schema.field? Definition.enumNameField = some field
  hasValue : ∃ field, table.schema.field? Definition.enumValueField = some field

/-- Rows do not make a table an enum or keep it from being one. -/
theorem Table.IsEnum.of_flat_eq {table other : Table} (isEnum : table.IsEnum)
    (name : other.name = table.name) (flat : other.flat = table.flat) : other.IsEnum := by
  rcases isEnum with ⟨named, hasName, hasValue⟩
  have schema : other.schema = table.schema := congrArg FlatSchema.schema flat
  rw [← schema] at named hasName hasValue
  exact ⟨named.trans name.symm, hasName, hasValue⟩

namespace Definition

theorem isEnum_of_emptyEnumTable {header : EnumHeader} {width : IntegerWidth} {table : Table}
    (accepted : emptyEnumTable header width = .ok table) : table.Aligned ∧ table.IsEnum := by
  simp only [emptyEnumTable, enumSchema, Schema.ofFields, bind_eq_ok_iff, mapError_eq_ok_iff,
    pure_eq_ok_iff] at accepted
  rcases accepted with ⟨schema, added, flat, flattened, rfl⟩
  obtain ⟨same, fields⟩ := Schema.addFields_eq_ok added
  have schemaOf : (Table.ofSchema header.name flat).schema =
      { schema with description := header.description.getD "" } :=
    FlatSchema.schema_of_ofSchema flattened
  refine ⟨Table.aligned_ofSchema _ flat, ?_, ?_, ?_⟩
  · rw [schemaOf]
    exact congrArg Schema.name same
  · rw [schemaOf, Schema.field?_eq_find?, fields]
    exact ⟨_, List.find?_cons_of_pos (decide_eq_true rfl)⟩
  · have apart : NameKey.of enumNameField ≠ NameKey.of enumValueField := by decide +kernel
    rw [schemaOf, Schema.field?_eq_find?, fields]
    refine ⟨_, (List.find?_cons_of_neg ?_).trans (List.find?_cons_of_pos (decide_eq_true rfl))⟩
    rw [decide_eq_true_eq]
    exact apart

/-- The entries are added to a table that is an enum already. -/
theorem isEnum_of_readEnumTable {header : String} {body : Json} {table : Table}
    (accepted : (readEnumTable header body).result = .ok table) : table.IsEnum := by
  simp only [readEnumTable, Traced.bind_eq_ok_iff, Traced.result_ofResult,
    Traced.result_record, Traced.result_pure, Except.ok.injEq] at accepted
  rcases accepted with ⟨parts, _, ⟨entries, width⟩, _, start, made, _, _, _, _, rfl⟩
  obtain ⟨aligned, isEnum⟩ := isEnum_of_emptyEnumTable made
  obtain ⟨name, flat⟩ := Table.perform_keeps aligned (.addRows (entries.map EnumEntry.toRow))
  exact isEnum.of_flat_eq name flat

/-! ## Fields -/

theorem written_of_readFieldType {name : String} {entries : List (String × Json)}
    {field : Field} (accepted : readFieldType name entries = .ok field) :
    field.WrittenAs name := by
  unfold readFieldType at accepted
  split at accepted
  · cases accepted
  · simp only [bind_eq_ok_iff] at accepted
    rcases accepted with ⟨_, _, ⟨type, rest⟩, _, ended⟩
    split at ended
    · cases ended
      exact type.written_toField name
    · cases ended

theorem written_of_readShortField {name written : String} {field : Field}
    {literal : Option String} (accepted : readShortField name written = .ok (field, literal)) :
    field.WrittenAs name := by
  simp only [readShortField, bind_eq_ok_iff, pure_eq_ok_iff] at accepted
  rcases accepted with ⟨⟨type, rest⟩, _, same⟩
  cases same
  exact (type.written_toField name).mapHead ⟨rfl, rfl⟩

/-- An entry that sets something else leaves the name and the shape alone. -/
theorem alike_of_set {α : Type} {draft next : FieldDraft} {found : Except DefinitionError α}
    {set : α → FieldHead}
    (accepted : (Traced.ofResult
      ((found.map set).map fun head => { draft with head })).result = .ok next)
    (keeps : ∀ value, (set value).Alike draft.head) : next.head.Alike draft.head := by
  simp only [Traced.result_ofResult, map_eq_ok_iff] at accepted
  rcases accepted with ⟨_, ⟨value, _, rfl⟩, rfl⟩
  exact keeps value

theorem alike_of_readFieldEntry {options : Options} {name key : String} {tree : Json}
    {draft next : FieldDraft}
    (accepted : (readFieldEntry options name draft key tree).result = .ok next) :
    next.head.Alike draft.head := by
  unfold readFieldEntry at accepted
  split at accepted
  case h_1 =>
    cases accepted
    exact ⟨rfl, rfl⟩
  case h_2 =>
    split at accepted
    · cases accepted
      exact ⟨rfl, rfl⟩
    · split at accepted
      · cases accepted
        exact ⟨rfl, rfl⟩
      · cases accepted
  case h_13 =>
    rw [Traced.andThen_eq_ok_iff] at accepted
    rcases accepted with ⟨_, _, same⟩
    cases same
    exact ⟨rfl, rfl⟩
  -- What is left are the keys that set one attribute of the head.
  all_goals exact alike_of_set accepted fun _ => ⟨rfl, rfl⟩

theorem alike_of_readFieldEntries {options : Options} {name : String}
    {entries : List (String × Json)} {draft last : FieldDraft}
    (accepted : (readFieldEntries options name draft entries).result = .ok last) :
    last.head.Alike draft.head := by
  induction entries generalizing draft with
  | nil =>
      cases accepted
      exact ⟨rfl, rfl⟩
  | cons entry entries inductionHypothesis =>
      rw [readFieldEntries, Traced.andThen_eq_ok_iff] at accepted
      rcases accepted with ⟨next, here, further⟩
      obtain ⟨name, shape⟩ := alike_of_readFieldEntry here
      obtain ⟨sameName, sameShape⟩ := inductionHypothesis further
      exact ⟨sameName.trans name, sameShape.trans shape⟩

theorem written_of_readLongField {options : Options} {name : String}
    {entries : List (String × Json)} {field : Field} {literal : Option String}
    (accepted : (readLongField options name entries).result = .ok (field, literal)) :
    field.WrittenAs name := by
  simp only [readLongField, Traced.bind_eq_ok_iff, Traced.result_ofResult, Traced.result_pure]
    at accepted
  rcases accepted with ⟨typed, found, draft, read, same⟩
  cases same
  exact (written_of_readFieldType found).mapHead (alike_of_readFieldEntries read)

/-- A seed and a fallback leave the name and the shapes alone. -/
theorem written_of_applyLiteral {options : Options} {name : String} {field result : Field}
    {literal : Option String} (written : field.WrittenAs name)
    (accepted : applyLiteral name (seedField options field) literal = .ok result) :
    result.WrittenAs name := by
  have seeded : (seedField options field).WrittenAs name := by
    unfold seedField
    split
    · exact written.mapHead ⟨rfl, rfl⟩
    · exact written
  cases literal with
  | none =>
      cases accepted
      exact seeded
  | some text =>
      rw [applyLiteral, mapError_eq_ok_iff] at accepted
      constructor
      · exact (Field.name_setFallback accepted).trans seeded.named
      · rw [Field.Written, Field.shapes_setFallback accepted]
        exact seeded.written

/-- Whether it is written in short or at length, a field has its name and the shapes of its
type. -/
theorem written_of_readField {options : Options} {name : String} {tree : Json} {field : Field}
    (accepted : (readField options name tree).result = .ok field) : field.WrittenAs name := by
  unfold readField at accepted
  split at accepted
  · rw [Traced.bind_eq_ok_iff] at accepted
    rcases accepted with ⟨_, read, filled⟩
    exact written_of_applyLiteral (written_of_readShortField read) filled
  · rw [Traced.bind_eq_ok_iff] at accepted
    rcases accepted with ⟨_, read, filled⟩
    exact written_of_applyLiteral (written_of_readLongField read) filled
  · cases accepted

/-! ## Schemas -/

section

variable {Holds : Field → Prop} {options : Options}

/-- What holds of every field that is read under a name that fits holds of all fields. -/
theorem forall_fields_of_readFields
    (each : ∀ {name tree field}, Text.isName name.toList = true →
      (readField options name tree).result = .ok field → Holds field)
    {entries : List (String × Json)} {schema result : Schema}
    (before : ∀ field ∈ schema.fields, Holds field)
    (accepted : (readFields options schema entries).result = .ok result) :
    ∀ field ∈ result.fields, Holds field := by
  induction entries generalizing schema with
  | nil =>
      cases accepted
      exact before
  | cons entry entries inductionHypothesis =>
      rw [readFields, Traced.andThen_eq_ok_iff] at accepted
      rcases accepted with ⟨_, checked, further⟩
      rw [Traced.result_ofResult, checkName_eq_ok_iff] at checked
      split at further
      · cases further
      · simp only [Traced.andThen_eq_ok_iff, Traced.result_ofResult, mapError_eq_ok_iff]
          at further
        rcases further with ⟨field, read, grown, added, rest⟩
        apply inductionHypothesis _ rest
        rw [(Schema.addField_eq_ok added).2, List.forall_mem_append, List.forall_mem_singleton]
        exact ⟨before, each checked read⟩

theorem fields_of_addPartials {names : List String} {schema result : Schema}
    (accepted : addPartials schema names = .ok result) : result.fields = schema.fields := by
  induction names generalizing schema with
  | nil =>
      cases accepted
      rfl
  | cons name names inductionHypothesis =>
      rw [addPartials, bind_eq_ok_iff] at accepted
      rcases accepted with ⟨_, _, further⟩
      split at further
      · cases further
      · rw [inductionHypothesis further]
        rfl

theorem forall_fields_of_readSchemaEntry
    (each : ∀ {name tree field}, Text.isName name.toList = true →
      (readField options name tree).result = .ok field → Holds field)
    {key : String} {tree : Json} {draft next : SchemaDraft}
    (before : ∀ field ∈ draft.schema.fields, Holds field)
    (accepted : (readSchemaEntry options draft key tree).result = .ok next) :
    ∀ field ∈ next.schema.fields, Holds field := by
  simp only [readSchemaEntry] at accepted
  split at accepted
  case h_2 =>
    split at accepted
    · rw [Traced.andThen_eq_ok_iff] at accepted
      rcases accepted with ⟨schema, read, same⟩
      cases same
      exact forall_fields_of_readFields each before read
    · cases accepted
  case h_8 =>
    rw [Traced.andThen_eq_ok_iff] at accepted
    rcases accepted with ⟨_, _, same⟩
    cases same
    exact before
  all_goals simp only [Traced.result_ofResult, bind_eq_ok_iff, pure_eq_ok_iff] at accepted
  case h_1 =>
    rcases accepted with ⟨_, _, _, _, rfl⟩
    exact before
  case h_3 | h_4 =>
    rcases accepted with ⟨names, _, grown, added, rfl⟩
    rw [fields_of_addPartials added]
    exact before
  case h_5 | h_6 | h_7 =>
    rcases accepted with ⟨_, _, rfl⟩
    exact before

theorem forall_fields_of_readSchemaEntries
    (each : ∀ {name tree field}, Text.isName name.toList = true →
      (readField options name tree).result = .ok field → Holds field)
    {entries : List (String × Json)} {draft last : SchemaDraft}
    (before : ∀ field ∈ draft.schema.fields, Holds field)
    (accepted : (readSchemaEntries options draft entries).result = .ok last) :
    ∀ field ∈ last.schema.fields, Holds field := by
  induction entries generalizing draft with
  | nil =>
      cases accepted
      exact before
  | cons entry entries inductionHypothesis =>
      rw [readSchemaEntries, Traced.andThen_eq_ok_iff] at accepted
      rcases accepted with ⟨next, here, further⟩
      exact inductionHypothesis (forall_fields_of_readSchemaEntry each before here) further

theorem forall_fields_of_readSchema
    (each : ∀ {name tree field}, Text.isName name.toList = true →
      (readField options name tree).result = .ok field → Holds field)
    {entries : List (String × Json)} {schema : Schema}
    (accepted : (readSchema options entries).result = .ok schema) :
    ∀ field ∈ schema.fields, Holds field := by
  rw [readSchema, Traced.andThen_eq_ok_iff] at accepted
  rcases accepted with ⟨draft, read, named⟩
  have all := forall_fields_of_readSchemaEntries each (List.forall_mem_nil _) read
  split at named
  · cases named
    exact all
  · cases named

end

/-! ## Documents -/

/-- A definition is a schema that was read, or an enum that was. -/
theorem readDefinition_cases {options : Options} {tree : Json} {definition : Definition}
    (accepted : (readDefinition options tree).result = .ok definition) :
    (∃ entries schema, (readSchema options entries).result = .ok schema ∧
      definition = .schema schema) ∨
    ∃ header body table, (readEnumTable header body).result = .ok table ∧
      definition = .enumTable table := by
  unfold readDefinition at accepted
  split at accepted
  · rw [Traced.andThen_eq_ok_iff] at accepted
    rcases accepted with ⟨schema, read, same⟩
    cases same
    exact .inl ⟨_, schema, read, rfl⟩
  · split at accepted
    · simp only [Traced.andThen_eq_ok_iff] at accepted
      rcases accepted with ⟨table, read, _, _, same⟩
      cases same
      exact .inr ⟨_, _, table, read, rfl⟩
    · rw [Traced.andThen_eq_ok_iff] at accepted
      rcases accepted with ⟨schema, read, same⟩
      cases same
      exact .inl ⟨_, schema, read, rfl⟩
  · cases accepted

/-- What holds of every definition that is read holds of all definitions of a document. -/
theorem forall_of_readDocument {Holds : Definition → Prop} {options : Options}
    (each : ∀ {tree definition}, (readDefinition options tree).result = .ok definition →
      Holds definition)
    {source : String} {definitions : List Definition}
    (accepted : (readDocument options source).result = .ok definitions) :
    ∀ definition ∈ definitions, Holds definition := by
  rw [readDocument, Traced.andThen_eq_ok_iff] at accepted
  rcases accepted with ⟨tree, _, read⟩
  split at read
  · exact Traced.forall_mem_of_traverse each read
  · rw [Traced.andThen_eq_ok_iff] at read
    rcases read with ⟨definition, here, same⟩
    cases same
    exact List.forall_mem_singleton.mpr (each here)
  · cases read

/-- What a document may define: a schema whose fields are as they were written, or an
enum. -/
def Written : Definition → Prop
  | .schema added => added.Written
  | .enumTable added => added.IsEnum

theorem written_of_readDefinition {options : Options} {tree : Json} {definition : Definition}
    (accepted : (readDefinition options tree).result = .ok definition) :
    definition.Written := by
  rcases readDefinition_cases accepted with
    ⟨entries, schema, read, rfl⟩ | ⟨header, body, table, read, rfl⟩
  · exact forall_fields_of_readSchema (fun _ field => (written_of_readField field).written) read
  · exact isEnum_of_readEnumTable read

end Definition

end Tabula
