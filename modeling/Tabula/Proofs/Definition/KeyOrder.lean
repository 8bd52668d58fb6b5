import Mathlib.Data.List.Nodup
import Tabula.Definition.Reader
import Tabula.Proofs.Correspondence
import Tabula.Proofs.Independence
import Tabula.Proofs.Outcome
import Tabula.Proofs.Schema.Lookup

/-!
# The order of keys

Tools write the keys of an object in any order.  The entries of a field and those of a schema
are read one after another, each into the draft that the ones before it have left, but each
key is about one part of the draft and asks for no other.  So entries about different parts
may come in any order, and what is read from the whole object is the same: the seed and the
fallback wait until all entries have been read, and whether a schema has a name is asked at
the end, too.

Two keys are about the same part only where one is short for the other.
-/

namespace Tabula

namespace Definition

open Text

/-! ## The parts of a field -/

/-- What the keys of a field are about.  A key without meaning is about itself. -/
inductive FieldPart where
  | type
  | literal
  | description
  | disabled
  | groups
  | keys
  | nullable
  | counted
  | seed
  | unique
  | transient
  | ignored (key : String)
  deriving DecidableEq

namespace FieldPart

/-- What a key is about. -/
def ofKey (key : String) : FieldPart :=
  match key with
  | "type" => type
  | "default" => literal
  | "desc" | "description" => description
  | "disables" => disabled
  | "groups" => groups
  | "keys" => keys
  | "nullable" => nullable
  | "auto_increment" => counted
  | "auto_increment_seed" => seed
  | "unique" => unique
  | "non_serialized" => transient
  | other => ignored other

/-- A key that is about the part; of two, the shorter one. -/
def key : FieldPart → String
  | type => "type"
  | literal => "default"
  | description => "desc"
  | disabled => "disables"
  | groups => "groups"
  | keys => "keys"
  | nullable => "nullable"
  | counted => "auto_increment"
  | seed => "auto_increment_seed"
  | unique => "unique"
  | transient => "non_serialized"
  | ignored key => key

/-- Only the key for a description has a shorter form. -/
theorem key_ofKey (written : String) :
    (ofKey written).key = if written = "description" then "desc" else written := by
  unfold ofKey
  split
  case h_13 =>
    have plain : written ≠ "description" := by assumption
    rw [if_neg plain]
    rfl
  all_goals rfl

/-- What a draft has for a part. -/
def Content : FieldPart → Type
  | type => String × String × Shape × Option Value
  | literal => Option String
  | description => String
  | disabled => NameSet
  | groups => NameSet
  | keys => NameSet
  | nullable => Bool
  | counted => Bool
  | seed => Option Long
  | unique => Bool
  | transient => Bool
  | ignored _ => Unit

end FieldPart

/-- The parts of a draft. -/
def FieldDraft.read (draft : FieldDraft) : (part : FieldPart) → part.Content
  | .type => (draft.head.name, draft.head.typeText, draft.head.shape, draft.head.fallback)
  | .literal => draft.literal
  | .description => draft.head.description
  | .disabled => draft.head.disabled
  | .groups => draft.head.groups
  | .keys => draft.head.keys
  | .nullable => draft.head.nullable
  | .counted => draft.head.autoIncrement
  | .seed => draft.head.seed
  | .unique => draft.head.unique
  | .transient => draft.head.transient
  | .ignored _ => ()

namespace FieldDraft

/-- The draft with the given parts. -/
def ofParts (parts : (part : FieldPart) → part.Content) : FieldDraft where
  head :=
    { name := (parts .type).1
      typeText := (parts .type).2.1
      shape := (parts .type).2.2.1
      fallback := (parts .type).2.2.2
      description := parts .description
      disabled := parts .disabled
      groups := parts .groups
      keys := parts .keys
      nullable := parts .nullable
      autoIncrement := parts .counted
      seed := parts .seed
      unique := parts .unique
      transient := parts .transient }
  literal := parts .literal

theorem read_ofParts (parts : (part : FieldPart) → part.Content) :
    (ofParts parts).read = parts := by
  funext part
  cases part <;> rfl

/-- A draft is known by its parts. -/
theorem read_injective : Function.Injective FieldDraft.read :=
  Function.LeftInverse.injective (g := ofParts) fun _ => rfl

/-- A step that computes the content of one part. -/
theorem touchesOnly {α : Type} (part : FieldPart) (found : part.Content → Option α)
    (content : α → part.Content) :
    TouchesOnly FieldDraft.read part fun draft =>
      (found (draft.read part)).map fun value =>
        ofParts (Function.update draft.read part (content value)) :=
  .of_update read_ofParts part found content fun _ => rfl

end FieldDraft

/-- An attribute of the head that is found in an entry. -/
theorem toOption_attribute {α : Type} (draft : FieldDraft) (found : Except DefinitionError α)
    (set : α → FieldHead) :
    (Traced.ofResult ((found.map set).map fun head => { draft with head })).result.toOption =
      found.toOption.map fun value => { draft with head := set value } := by
  cases found <;> rfl

/-- A key without meaning is refused in every state, or skipped in every state. -/
theorem toOption_skipUnknown {α : Type} (options : Options) (key context : String) (state : α) :
    ((skipUnknown options key context).andThen fun _ => pure state).result.toOption =
      if !options.strictKeys then some state else none := by
  unfold skipUnknown
  cases options.strictKeys with
  | false => rfl
  | true => rfl

/-- An entry of a field touches the part that its key is about. -/
theorem touchesOnly_readFieldEntry (options : Options) (name key : String) (tree : Json) :
    TouchesOnly FieldDraft.read (.ofKey key) fun draft =>
      (readFieldEntry options name draft key tree).result.toOption := by
  unfold readFieldEntry
  split
  case h_1 => exact .of_guard true FieldPart.type
  case h_2 =>
    split
    · exact FieldDraft.touchesOnly .literal (fun _ => some none) id
    · cases tree.scalarText? with
      | some literal => exact FieldDraft.touchesOnly .literal (fun _ => some (some literal)) id
      | none => exact .of_guard false FieldPart.literal
  case h_13 =>
    simp only [toOption_skipUnknown]
    exact .of_guard _ _
  -- What is left are the keys that set one attribute of the head.
  all_goals simp only [toOption_attribute]
  case h_3 | h_4 =>
    exact FieldDraft.touchesOnly .description
      (fun _ => (expectText "field description" tree).toOption) id
  case h_5 =>
    exact FieldDraft.touchesOnly .disabled
      (fun set => (readNames "disable tag" set tree).toOption) id
  case h_6 =>
    exact FieldDraft.touchesOnly .groups
      (fun set => (readNames "group name" set tree).toOption) id
  case h_7 =>
    exact FieldDraft.touchesOnly .keys (fun set => (readNames "key name" set tree).toOption) id
  case h_8 =>
    exact FieldDraft.touchesOnly .nullable (fun _ => (expectBoolean "nullable" tree).toOption) id
  case h_9 =>
    exact FieldDraft.touchesOnly .counted
      (fun _ => (expectBoolean "auto_increment" tree).toOption) id
  case h_10 =>
    exact FieldDraft.touchesOnly .seed
      (fun _ => (expectLong "auto_increment_seed" tree).toOption) some
  case h_11 =>
    exact FieldDraft.touchesOnly .unique (fun _ => (expectBoolean "unique" tree).toOption) id
  case h_12 =>
    exact FieldDraft.touchesOnly .transient
      (fun _ => (expectBoolean "non_serialized" tree).toOption) id

/-! ## Permuted entries of a field -/

section

variable (options : Options) {entries others : List (String × Json)}

theorem toOption_readFieldEntries (name : String) (draft : FieldDraft)
    (entries : List (String × Json)) :
    (readFieldEntries options name draft entries).result.toOption =
      entries.foldlM
        (fun draft entry => (readFieldEntry options name draft entry.1 entry.2).result.toOption)
        draft := by
  induction entries generalizing draft with
  | nil => rfl
  | cons entry entries inductionHypothesis =>
      rw [readFieldEntries, Traced.toOption_andThen, List.foldlM_cons]
      apply congrArg
      funext next
      exact inductionHypothesis next

/-- Keys of a field that are about one part are equal, unless one is short for the other. -/
theorem FieldPart.eq_of_ofKey_eq {keys : List String}
    (oneDescription : ¬("desc" ∈ keys ∧ "description" ∈ keys)) :
    ∀ first ∈ keys, ∀ second ∈ keys, ofKey first = ofKey second → first = second := by
  intro first firstAmong second secondAmong same
  have sameKey := congrArg FieldPart.key same
  rw [key_ofKey, key_ofKey] at sameKey
  grind

/-- Entries are about different parts when their keys are. -/
theorem nodup_parts {ι : Type} {ofKey : String → ι} (distinct : (entries.map Prod.fst).Nodup)
    (apart : ∀ first ∈ entries.map Prod.fst, ∀ second ∈ entries.map Prod.fst,
      ofKey first = ofKey second → first = second) :
    (entries.map fun entry => ofKey entry.1).Nodup := by
  have parts := distinct.map_on apart
  rw [List.map_map] at parts
  exact parts

/-- What is found by a key does not depend on the order. -/
theorem find?_eq_of_perm (perm : entries.Perm others) (distinct : (entries.map Prod.fst).Nodup)
    (key : String) : entries.find? (·.1 = key) = others.find? (·.1 = key) := by
  cases found : entries.find? (·.1 = key) with
  | none =>
      symm
      rw [List.find?_eq_none] at found ⊢
      intro entry among
      exact found entry (perm.mem_iff.mpr among)
  | some entry =>
      have named : entry.1 = key := by simpa using List.find?_some found
      have among : entry ∈ others := perm.mem_iff.mp (List.mem_of_find?_eq_some found)
      rw [← named]
      exact (find?_of_nodup_map ((perm.map Prod.fst).nodup_iff.mp distinct) among).symm

theorem toOption_readField_object (name : String) (entries : List (String × Json)) :
    (readField options name (.object entries)).result.toOption =
      (readFieldType name entries).toOption.bind fun field =>
        (readFieldEntries options name ⟨field.head, none⟩ entries).result.toOption.bind
          fun draft =>
            (applyLiteral name (seedField options (field.mapHead fun _ => draft.head))
              draft.literal).toOption := by
  simp only [readField, readLongField, Traced.toOption_bind, Traced.result_ofResult,
    Option.bind_assoc]
  rfl

/-- A field is read the same from its entries in any order. -/
theorem toOption_readField_of_perm (perm : entries.Perm others)
    (distinct : (entries.map Prod.fst).Nodup)
    (oneDescription : ¬("desc" ∈ entries.map Prod.fst ∧ "description" ∈ entries.map Prod.fst))
    (name : String) :
    (readField options name (.object entries)).result.toOption =
      (readField options name (.object others)).result.toOption := by
  have sameType : readFieldType name entries = readFieldType name others := by
    rw [readFieldType, readFieldType, find?_eq_of_perm perm distinct]
  have apart := nodup_parts distinct (FieldPart.eq_of_ofKey_eq oneDescription)
  rw [toOption_readField_object, toOption_readField_object, sameType]
  simp only [toOption_readFieldEntries]
  apply congrArg
  funext field
  rw [foldlM_eq_of_perm FieldDraft.read_injective
    (fun entry => touchesOnly_readFieldEntry options name entry.1 entry.2) perm apart]

end

/-! ## The parts of a schema -/

/-- What the keys of a schema are about.  A key without meaning is about itself. -/
inductive SchemaPart where
  | name
  | fields
  | partials
  | embed
  | description
  | ignored (key : String)
  deriving DecidableEq

namespace SchemaPart

/-- What a key is about. -/
def ofKey (key : String) : SchemaPart :=
  match key with
  | "name" => name
  | "fields" => fields
  | "partials" | "parts" => partials
  | "embed" => embed
  | "desc" | "description" => description
  | other => ignored other

/-- A key that is about the part; of two, the one that stands for both. -/
def key : SchemaPart → String
  | name => "name"
  | fields => "fields"
  | partials => "partials"
  | embed => "embed"
  | description => "desc"
  | ignored key => key

/-- Only the keys for partial tables and for a description have two forms. -/
theorem key_ofKey (written : String) :
    (ofKey written).key =
      if written = "description" then "desc"
      else if written = "parts" then "partials" else written := by
  unfold ofKey
  split
  case h_8 =>
    have plain : written ≠ "description" ∧ written ≠ "parts" := by
      constructor <;> assumption
    rw [if_neg plain.1, if_neg plain.2]
    rfl
  all_goals rfl

/-- Keys of a schema that are about one part are equal, unless they are two forms of one. -/
theorem eq_of_ofKey_eq {keys : List String}
    (oneDescription : ¬("desc" ∈ keys ∧ "description" ∈ keys))
    (onePartials : ¬("partials" ∈ keys ∧ "parts" ∈ keys)) :
    ∀ first ∈ keys, ∀ second ∈ keys, ofKey first = ofKey second → first = second := by
  intro first firstAmong second secondAmong same
  have sameKey := congrArg key same
  rw [key_ofKey, key_ofKey] at sameKey
  grind

/-- What a draft has for a part. -/
def Content : SchemaPart → Type
  | name => String × Bool
  | fields => SoundFields
  | partials => NameSet
  | embed => Bool
  | description => String
  | ignored _ => Unit

end SchemaPart

namespace SchemaDraft

/-- The parts of a draft. -/
def read (draft : SchemaDraft) : (part : SchemaPart) → part.Content
  | .name => (draft.schema.name, draft.named)
  | .fields => draft.schema.toSoundFields
  | .partials => draft.schema.partials
  | .embed => draft.schema.embed
  | .description => draft.schema.description
  | .ignored _ => ()

/-- The draft with the given parts. -/
def ofParts (parts : (part : SchemaPart) → part.Content) : SchemaDraft where
  schema :=
    { name := (parts .name).1
      description := parts .description
      embed := parts .embed
      partials := parts .partials
      toSoundFields := parts .fields }
  named := (parts .name).2

theorem read_ofParts (parts : (part : SchemaPart) → part.Content) :
    (ofParts parts).read = parts := by
  funext part
  cases part <;> rfl

/-- A draft is known by its parts. -/
theorem read_injective : Function.Injective read :=
  Function.LeftInverse.injective (g := ofParts) fun _ => rfl

/-- A step that computes the content of one part. -/
theorem touchesOnly {α : Type} {step : SchemaDraft → Option SchemaDraft} (part : SchemaPart)
    (found : part.Content → Option α) (content : α → part.Content)
    (computes : ∀ draft, step draft =
      (found (draft.read part)).map fun value =>
        ofParts (Function.update draft.read part (content value))) :
    TouchesOnly read part step :=
  .of_update read_ofParts part found content computes

end SchemaDraft

/-! ## Entries of a schema -/

/-- A field is added unless its name is taken. -/
theorem toOption_addField (schema : Schema) (field : Field) :
    (schema.addField field).toOption =
      if fresh : schema.hasField field.name = false then
        some (.ofSound (schema.toSchemaData.insertField schema.fields.length field)
          (schema.sound.insertField _ fresh))
      else none := by
  by_cases fresh : schema.hasField field.name = false
  · rw [dif_pos fresh]
    have added := (schema.toSchemaData.addField_eq field).trans
      (if_neg (Bool.eq_false_iff.mp fresh))
    have accepted : schema.addField field = .ok (.ofSound _ (schema.sound.insertField _ fresh)) :=
      Schema.ofStep_eq_ok_iff.mpr ⟨congrArg Step.result added, congrArg Step.state added⟩
    exact congrArg Except.toOption accepted
  · rw [dif_neg fresh]
    have refused := (schema.toSchemaData.addField_eq field).trans
      (if_pos ((Bool.not_eq_false _).mp fresh))
    exact congrArg Except.toOption
      (Schema.ofStep_eq_error_iff.mpr (congrArg Step.result refused))

/-- The schema that has the fields of another, and nothing else. -/
def onlyFields (schema : Schema) : Schema :=
  { schema.toSoundFields with name := "" }

/-- The schema with the fields of another. -/
def withFieldsOf (schema other : Schema) : Schema :=
  { schema with toSoundFields := other.toSoundFields }

/-- Fields are read into a schema without a look at the rest of it, and into nothing but its
fields. -/
theorem toOption_readFields (options : Options) (schema : Schema)
    (entries : List (String × Json)) :
    (readFields options schema entries).result.toOption =
      (readFields options (onlyFields schema) entries).result.toOption.map
        (withFieldsOf schema) := by
  induction entries generalizing schema with
  | nil => rfl
  | cons entry entries inductionHypothesis =>
      have sameNames (name : String) : (onlyFields schema).hasField name = schema.hasField name :=
        rfl
      simp only [readFields, Traced.toOption_andThen, Traced.result_ofResult, sameNames]
      cases (checkName (trimText entry.1) "field name").toOption with
      | none => rfl
      | some _ =>
          simp only [Option.bind_some]
          by_cases taken : schema.hasField (trimText entry.1) = true
          · rw [if_pos taken, if_pos taken]
            rfl
          · rw [if_neg taken, if_neg taken, Traced.toOption_andThen, Traced.toOption_andThen]
            cases (readField options (trimText entry.1) entry.2).result.toOption with
            | none => rfl
            | some field =>
                simp only [Option.bind_some, Traced.toOption_andThen, Traced.result_ofResult,
                  toOption_mapError, toOption_addField]
                by_cases fresh : schema.hasField field.name = false
                · have freshThere : (onlyFields schema).hasField field.name = false := fresh
                  rw [dif_pos fresh, dif_pos freshThere]
                  exact inductionHypothesis (.ofSound _ (schema.sound.insertField _ fresh))
                · have takenThere : ¬(onlyFields schema).hasField field.name = false := fresh
                  rw [dif_neg fresh, dif_neg takenThere]
                  rfl

/-- Partial tables are added without a look at the rest of the schema. -/
theorem toOption_addPartials (schema : Schema) (names : List String) :
    (addPartials schema names).toOption =
      (addPartials { name := "", partials := schema.partials } names).toOption.map fun grown =>
        { schema with partials := grown.partials } := by
  induction names generalizing schema with
  | nil => rfl
  | cons name names inductionHypothesis =>
      simp only [addPartials, toOption_bind]
      cases (checkPartialName name).toOption with
      | none => rfl
      | some _ =>
          simp only [Option.bind_some]
          by_cases taken : schema.partials.contains name = true
          · rw [if_pos taken, if_pos taken]
            rfl
          · rw [if_neg taken, if_neg taken]
            exact inductionHypothesis (schema.addPartial name)

/-- An entry of a schema touches the part that its key is about. -/
theorem touchesOnly_readSchemaEntry (options : Options) (key : String) (tree : Json) :
    TouchesOnly SchemaDraft.read (.ofKey key) fun draft =>
      (readSchemaEntry options draft key tree).result.toOption := by
  simp only [readSchemaEntry]
  split
  case h_1 =>
    apply SchemaDraft.touchesOnly .name
      (fun _ => (expectText "schema name" tree).toOption.bind fun text =>
        (checkName (trimText text) "schema name").toOption.map fun _ => trimText text)
      (fun name => (name, true))
    intro draft
    simp only [Traced.result_ofResult, toOption_bind]
    cases (expectText "schema name" tree).toOption with
    | none => rfl
    | some text =>
        simp only [Option.bind_some]
        cases (checkName (trimText text) "schema name").toOption with
        | none => rfl
        | some _ => rfl
  case h_2 =>
    split
    · rename_i entries
      apply SchemaDraft.touchesOnly .fields
        (fun fields =>
          (readFields options { name := "", toSoundFields := fields } entries).result.toOption)
        (fun read => read.toSoundFields)
      intro draft
      rw [Traced.toOption_andThen, toOption_readFields, Option.bind_map]
      exact Option.map_eq_bind.symm
    · exact .of_guard false SchemaPart.fields
  case h_3 | h_4 =>
    apply SchemaDraft.touchesOnly .partials
      (fun partials => (readTexts "partials" tree).toOption.bind fun names =>
        (addPartials { name := "", partials } names).toOption)
      (fun grown => grown.partials)
    intro draft
    rw [Traced.result_ofResult, toOption_bind]
    cases (readTexts "partials" tree).toOption with
    | none => rfl
    | some names =>
        rw [Option.bind_some, toOption_bind, toOption_addPartials, Option.bind_map]
        exact Option.map_eq_bind.symm
  case h_5 =>
    apply SchemaDraft.touchesOnly .embed (fun _ => (expectBoolean "embed" tree).toOption) id
    intro draft
    cases expectBoolean "embed" tree with
    | error refusal => rfl
    | ok bit => rfl
  case h_6 | h_7 =>
    apply SchemaDraft.touchesOnly .description
      (fun _ => (expectText "schema description" tree).toOption) id
    intro draft
    cases expectText "schema description" tree with
    | error refusal => rfl
    | ok text => rfl
  case h_8 =>
    simp only [toOption_skipUnknown]
    exact .of_guard _ _

/-! ## Permuted entries of a schema -/

section

variable (options : Options) {entries others : List (String × Json)}

theorem toOption_readSchemaEntries (draft : SchemaDraft) (entries : List (String × Json)) :
    (readSchemaEntries options draft entries).result.toOption =
      entries.foldlM
        (fun draft entry => (readSchemaEntry options draft entry.1 entry.2).result.toOption)
        draft := by
  induction entries generalizing draft with
  | nil => rfl
  | cons entry entries inductionHypothesis =>
      rw [readSchemaEntries, Traced.toOption_andThen, List.foldlM_cons]
      apply congrArg
      funext next
      exact inductionHypothesis next

/-- A schema is read the same from its entries in any order. -/
theorem toOption_readSchema_of_perm (perm : entries.Perm others)
    (distinct : (entries.map Prod.fst).Nodup)
    (oneDescription : ¬("desc" ∈ entries.map Prod.fst ∧ "description" ∈ entries.map Prod.fst))
    (onePartials : ¬("partials" ∈ entries.map Prod.fst ∧ "parts" ∈ entries.map Prod.fst)) :
    (readSchema options entries).result.toOption =
      (readSchema options others).result.toOption := by
  have apart := nodup_parts distinct (SchemaPart.eq_of_ofKey_eq oneDescription onePartials)
  rw [readSchema, readSchema, Traced.toOption_andThen, Traced.toOption_andThen,
    toOption_readSchemaEntries, toOption_readSchemaEntries,
    foldlM_eq_of_perm SchemaDraft.read_injective
      (fun entry => touchesOnly_readSchemaEntry options entry.1 entry.2) perm apart]

/-- The order of keys is free.  When the keys of an object differ and no two of them are forms
of one, then in any order of its entries it is the same field, or no field, and the same
schema, or no schema. -/
theorem key_order_is_free (perm : entries.Perm others) (distinct : (entries.map Prod.fst).Nodup)
    (oneDescription : ¬("desc" ∈ entries.map Prod.fst ∧ "description" ∈ entries.map Prod.fst)) :
    (∀ name, (readField options name (.object entries)).result.toOption =
      (readField options name (.object others)).result.toOption) ∧
    (¬("partials" ∈ entries.map Prod.fst ∧ "parts" ∈ entries.map Prod.fst) →
      (readSchema options entries).result.toOption =
        (readSchema options others).result.toOption) :=
  ⟨toOption_readField_of_perm options perm distinct oneDescription,
    toOption_readSchema_of_perm options perm distinct oneDescription⟩

end

/-- A counted size, with its type first. -/
def sizeEntries : List (String × Json) :=
  [("type", .text "int8"), ("auto_increment", .boolean true), ("default", .text "5")]

/-- Mugs of some size, with their name first. -/
def mugEntries : List (String × Json) :=
  [("name", .text "Mug"), ("fields", .object [("size", .object sizeEntries)]),
    ("parts", .array [.text "Cups"])]

/-- Backwards, they are the same size and the same mugs. -/
theorem mugs_read_backwards :
    (readField {} "size" (.object sizeEntries)).result.toOption.isSome = true ∧
      (readField {} "size" (.object sizeEntries)).result.toOption =
        (readField {} "size" (.object sizeEntries.reverse)).result.toOption ∧
      (readSchema {} mugEntries).result.toOption.isSome = true ∧
      (readSchema {} mugEntries).result.toOption =
        (readSchema {} mugEntries.reverse).result.toOption := by
  have size := key_order_is_free {} (List.reverse_perm sizeEntries).symm (by decide) (by decide)
  have mugs := key_order_is_free {} (List.reverse_perm mugEntries).symm (by decide) (by decide)
  exact ⟨by decide +kernel, size.1 "size", by decide +kernel, mugs.2 (by decide)⟩

end Definition

end Tabula
