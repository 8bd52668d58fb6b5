import Tabula.Proofs.Catalog.Settling
import Tabula.Proofs.NameSet

/-!
# Indices and edits of schemas

One pass over the fields of a schema files their positions under their names and under their
tags.  While what is filed is that of the fields as they stand, what is found under a name is
what a search through the list finds: the one field of that name, and for a tag all fields that
carry it, in order.

An edit of a schema is refused, and then leaves everything that it stores alone, or it changes
the list of fields and files them anew.  So what is filed is never stale, whatever edits a
schema has been through.
-/

namespace Tabula

/-! ## Positions filed under tags -/

namespace SchemaIndex

/-- Files fields at positions from a start on, each under the names of its tags. -/
def fileTags (tags : FieldHead → NameSet) (filed : Registry (List Nat)) :
    Nat → List Field → Registry (List Nat)
  | _, [] => filed
  | position, field :: fields =>
    fileTags tags (((tags field.head).names.map NameKey.of).foldl (append · position) filed)
      (position + 1) fields

theorem groups_fileAll (index : SchemaIndex) (start : Nat) (fields : List Field) :
    (index.fileAll start fields).groups = fileTags (·.groups) index.groups start fields := by
  induction fields generalizing index start with
  | nil => rfl
  | cons field fields inductionHypothesis => exact inductionHypothesis _ _

theorem keys_fileAll (index : SchemaIndex) (start : Nat) (fields : List Field) :
    (index.fileAll start fields).keys = fileTags (·.keys) index.keys start fields := by
  induction fields generalizing index start with
  | nil => rfl
  | cons field fields inductionHypothesis => exact inductionHypothesis _ _

/-- A position is filed behind the others under each of the keys, which differ, and under no
other key. -/
theorem getD_find?_foldl_append (filed : Registry (List Nat)) (position : Nat)
    {keys : List NameKey} (distinct : keys.Nodup) (key : NameKey) :
    ((keys.foldl (append · position) filed).find? key).getD [] =
      (filed.find? key).getD [] ++ if key ∈ keys then [position] else [] := by
  induction keys generalizing filed with
  | nil => simp
  | cons first keys inductionHypothesis =>
      rw [List.nodup_cons] at distinct
      rw [List.foldl_cons, inductionHypothesis _ distinct.2, append, Registry.find?_insert]
      by_cases here : first = key
      · subst here
        simp [distinct.1]
      · simp [here, Ne.symm here]

/-- Under a tag the fields that carry it come behind those that were filed before, and every
position that is filed is one of a field. -/
theorem map_fileTags (tags : FieldHead → NameSet) (filed : Registry (List Nat))
    (passed : List Field) {rest fields : List Field} (split : fields = passed ++ rest)
    (name : String) :
    (((fileTags tags filed passed.length rest).find? (.of name)).getD []).map (fields[·]?) =
      ((filed.find? (.of name)).getD []).map (fields[·]?) ++
        (rest.filter fun field => (tags field.head).contains name).map some := by
  -- One more field is passed, whose position is the number of those before it.
  induction rest generalizing filed passed with
  | nil => simp [fileTags]
  | cons field rest inductionHypothesis =>
      have here : fields[passed.length]? = some field := by
        rw [split, List.getElem?_append_right (Nat.le_refl _), Nat.sub_self]
        rfl
      have further := inductionHypothesis
        (((tags field.head).names.map NameKey.of).foldl (append · passed.length) filed)
        (passed ++ [field]) (split.trans (List.append_cons _ _ _))
      rw [List.length_append, List.length_singleton] at further
      rw [fileTags, further, getD_find?_foldl_append _ _ (tags field.head).distinct,
        List.map_append, List.append_assoc, List.filter_cons]
      congr 1
      by_cases tagged : (tags field.head).contains name = true
      · rw [if_pos (NameSet.contains_iff.mp tagged), if_pos tagged]
        simp [here]
      · rw [if_neg (mt NameSet.contains_iff.mpr tagged), if_neg tagged]
        rfl

/-- Under a tag of a list of fields are filed the positions of those that carry it. -/
theorem map_fileTags_empty (tags : FieldHead → NameSet) (fields : List Field) (name : String) :
    (SchemaData.filedPositions (fileTags tags .empty 0 fields) name).map (fields[·]?) =
      (fields.filter fun field => (tags field.head).contains name).map some :=
  map_fileTags tags .empty [] rfl name

end SchemaIndex

namespace SchemaData

variable {data : SchemaData}

/-! ## Fields under their tags -/

/-- The fields under a name of a tag are exactly those that carry the tag, in order and each
once.  Every position that is filed is one of them, and the names of tags are those under which
there is a field. -/
structure Files (data : SchemaData) (tags : FieldHead → NameSet) (filed : Registry (List Nat))
    (found : String → List Field) (names : NameSet) : Prop where
  exactly : ∀ name, found name = data.fields.filter fun field => (tags field.head).contains name
  present : ∀ name, (filedPositions filed name).map (data.fields[·]?) = (found name).map some
  once : ∀ name, (found name).Nodup
  named : ∀ name, found name ≠ [] ↔ names.contains name = true

/-- Names of tags are collected from the fields. -/
theorem contains_names_iff {tags : FieldHead → NameSet} {name : String} :
    (NameSet.ofList (data.fields.flatMap (tags ·.head |>.names))).contains name = true ↔
      ∃ field ∈ data.fields, (tags field.head).contains name = true := by
  rw [NameSet.contains_ofList, List.map_flatMap, List.mem_flatMap]
  simp only [NameSet.contains_iff]

/-- A tagging is filed as it should be when one pass over the fields has filed it. -/
theorem Sound.files (sound : data.Sound) {tags : FieldHead → NameSet}
    {filed : Registry (List Nat)} (filing : filed = SchemaIndex.fileTags tags .empty 0 data.fields) :
    data.Files tags filed (data.filedFields filed)
      (.ofList (data.fields.flatMap (tags ·.head |>.names))) := by
  have present (name : String) := SchemaIndex.map_fileTags_empty tags data.fields name
  rw [← filing] at present
  have exactly (name : String) : data.filedFields filed name =
      data.fields.filter fun field => (tags field.head).contains name := by
    have read : data.filedFields filed name =
        ((filedPositions filed name).map (data.fields[·]?)).filterMap id := by
      rw [List.filterMap_map]
      rfl
    rw [read, present, List.filterMap_map, Function.id_comp, List.filterMap_some]
  constructor
  · exact exactly
  · intro name
    rw [exactly]
    exact present name
  · intro name
    rw [exactly]
    exact (List.Nodup.of_map _ sound.distinct).filter _
  · intro name
    rw [exactly, contains_names_iff, ne_eq, List.filter_eq_nil_iff]
    push Not
    rfl

theorem Sound.files_group (sound : data.Sound) :
    data.Files (·.groups) data.index.groups data.group data.groupNames := by
  apply sound.files
  rw [sound.indexed, SchemaIndex.ofFields, SchemaIndex.groups_fileAll]
  rfl

theorem Sound.files_compositeKey (sound : data.Sound) :
    data.Files (·.keys) data.index.keys data.compositeKey data.compositeKeyNames := by
  apply sound.files
  rw [sound.indexed, SchemaIndex.ofFields, SchemaIndex.keys_fileAll]
  rfl

/-! ## Fields under their names -/

/-- A position is found under the names that are its field's but for case. -/
theorem Sound.position?_eq_some_iff (sound : data.Sound) {name : String} {position : Nat} :
    data.position? name = some position ↔
      ∃ field, data.fields[position]? = some field ∧ NameKey.of field.name = NameKey.of name := by
  constructor
  · intro found
    rw [sound.position?_eq_findIdx?, List.findIdx?_eq_some_iff_getElem] at found
    rcases found with ⟨inside, named, _⟩
    exact ⟨_, List.getElem?_eq_getElem inside, of_decide_eq_true named⟩
  · rintro ⟨field, fieldAt, named⟩
    have found := sound.position?_of_getElem? fieldAt
    rw [position?, named] at found
    exact found

theorem Sound.position?_eq_none_iff (sound : data.Sound) {name : String} :
    data.position? name = none ↔ NameKey.of name ∉ data.fields.map (NameKey.of ·.name) := by
  rw [← sound.hasField_iff, hasField, Bool.not_eq_true, Option.isSome_eq_false_iff,
    Option.isNone_iff_eq_none]

/-! ## Edits -/

/-- What a caller can ask of a schema, and putting a settled field in its place. -/
inductive Edit where
  | addField (field : Field)
  | addFieldAt (position : Nat) (field : Field)
  | addPartial (name : String)
  | replaceField (position : Nat) (field : Field)

/-- The step of an edit. -/
def perform (data : SchemaData) : Edit → Step SchemaData SchemaError Unit
  | .addField field => data.addField field
  | .addFieldAt position field => data.addFieldAt position field
  | .addPartial name => ⟨data.addPartial name, [], .ok ()⟩
  | .replaceField position field => ⟨data.replaceField position field, [], .ok ()⟩

namespace Edit

/-- A field is put in the place of one of its name. -/
def KeepsName (data : SchemaData) : Edit → Prop
  | replaceField position field => data.KeepsName position field
  | _ => True

/-- The edit can be made: a new field has a new name and comes no later than at the end. -/
def Fits (data : SchemaData) : Edit → Prop
  | addField field => NameKey.of field.name ∉ data.fields.map (NameKey.of ·.name)
  | addFieldAt position field =>
    position ≤ data.fields.length ∧ NameKey.of field.name ∉ data.fields.map (NameKey.of ·.name)
  | addPartial _ => True
  | replaceField _ _ => True

/-- The fields after an edit. -/
def change (fields : List Field) : Edit → List Field
  | addField field => fields ++ [field]
  | addFieldAt position field => fields.take position ++ field :: fields.drop position
  | addPartial _ => fields
  | replaceField position field => fields.set position field

/-- Why an edit is refused: its field comes beyond the end, or else there is one of the name. -/
inductive Refuses (data : SchemaData) : Edit → SchemaError → Prop where
  | beyond {position : Nat} (field : Field) (outside : data.fields.length < position) :
      Refuses data (.addFieldAt position field)
        (.indexOutOfRange data.name position data.fields.length)
  | takenAt {position : Nat} {field : Field} (inside : position ≤ data.fields.length)
      (taken : NameKey.of field.name ∈ data.fields.map (NameKey.of ·.name)) :
      Refuses data (.addFieldAt position field) (.duplicateField data.name field.name)
  | taken {field : Field} (taken : NameKey.of field.name ∈ data.fields.map (NameKey.of ·.name)) :
      Refuses data (.addField field) (.duplicateField data.name field.name)

end Edit

/-- What comes of an edit: the fields change as it says, or it does not fit and nothing
changes. -/
structure Takes (data : SchemaData) (edit : Edit) (step : Step SchemaData SchemaError Unit) :
    Prop where
  accepted : step.result = .ok () ↔ edit.Fits data
  changed : step.result = .ok () → step.state.fields = edit.change data.fields
  refused : ∀ refusal, step.result = .error refusal → step.state = data ∧ edit.Refuses data refusal

theorem takes_of_ok {edit : Edit} {next : SchemaData} (fits : edit.Fits data)
    (changed : next.fields = edit.change data.fields) : data.Takes edit ⟨next, [], .ok ()⟩ where
  accepted := iff_of_true rfl fits
  changed _ := changed
  refused := by
    intro refusal impossible
    cases impossible

theorem takes_of_error {edit : Edit} {refusal : SchemaError} (unfit : ¬edit.Fits data)
    (refuses : edit.Refuses data refusal) : data.Takes edit ⟨data, [], .error refusal⟩ where
  accepted := by
    apply iff_of_false _ unfit
    rintro ⟨⟩
  changed := by
    rintro ⟨⟩
  refused := by
    rintro _ ⟨⟩
    exact ⟨rfl, refuses⟩

/-- A field goes in at a position that is there, under a name that is not. -/
theorem Sound.takes_addFieldAt (sound : data.Sound) (position : Nat) (field : Field) :
    data.Takes (.addFieldAt position field) (data.perform (.addFieldAt position field)) := by
  rw [perform, SchemaData.addFieldAt]
  by_cases beyond : data.fields.length < position
  · rw [if_pos beyond]
    apply takes_of_error _ (.beyond field beyond)
    rintro ⟨inside, _⟩
    exact Nat.not_lt.mpr inside beyond
  · rw [if_neg beyond]
    have inside := Nat.not_lt.mp beyond
    by_cases taken : data.hasField field.name = true
    · rw [if_pos taken]
      have present := (sound.hasField_iff field.name).mp taken
      apply takes_of_error _ (.takenAt inside present)
      rintro ⟨_, new⟩
      exact new present
    · rw [if_neg taken]
      exact takes_of_ok ⟨inside, mt (sound.hasField_iff field.name).mpr taken⟩ rfl

theorem Sound.takes_addField (sound : data.Sound) (field : Field) :
    data.Takes (.addField field) (data.perform (.addField field)) := by
  rw [perform, addField_eq]
  by_cases taken : data.hasField field.name = true
  · rw [if_pos taken]
    have present := (sound.hasField_iff field.name).mp taken
    exact takes_of_error (not_not_intro present) (.taken present)
  · rw [if_neg taken]
    exact takes_of_ok (mt (sound.hasField_iff field.name).mpr taken)
      (data.fields_insertField_length field)

/-- Every edit is taken as it says or leaves the data alone. -/
theorem Sound.takes_perform (sound : data.Sound) (edit : Edit) :
    data.Takes edit (data.perform edit) := by
  cases edit with
  | addField field => exact sound.takes_addField field
  | addFieldAt position field => exact sound.takes_addFieldAt position field
  | addPartial name =>
      have fits : (Edit.addPartial name).Fits data := trivial
      exact takes_of_ok fits rfl
  | replaceField position field =>
      have fits : (Edit.replaceField position field).Fits data := trivial
      exact takes_of_ok fits (data.fields_replaceField position field)

/-- An edit keeps data sound, if what it puts in the place of a field has the field's name. -/
theorem Sound.perform (sound : data.Sound) {edit : Edit} (keepsName : edit.KeepsName data) :
    (data.perform edit).state.Sound := by
  cases edit with
  | addField field => exact sound.addFieldAt _ field
  | addFieldAt position field => exact sound.addFieldAt position field
  | addPartial name => exact sound.addPartial name
  | replaceField position field => exact sound.replaceField keepsName

/-! ## Data of any history -/

/-- The data that schemas can come to store. -/
inductive Reachable : SchemaData → Prop where
  | named (name : String) : Reachable (named name)
  | ofFields {name : String} {fields : List Field}
      (accepted : (ofFields name fields).result = .ok ()) :
      Reachable (ofFields name fields).state
  | emptyLike {data : SchemaData} (reached : Reachable data) : Reachable data.emptyLike
  | perform {data : SchemaData} (reached : Reachable data) (edit : Edit)
      (keepsName : edit.KeepsName data) : Reachable (data.perform edit).state

theorem Reachable.sound (reached : data.Reachable) : data.Sound := by
  induction reached with
  | named name => exact sound_named name
  | @ofFields name fields _ => exact (sound_named name).addFields fields
  | emptyLike => exact sound_emptyLike _
  | perform _ edit keepsName inductionHypothesis => exact inductionHypothesis.perform keepsName

/-- Any number of edits, of which some may be refused. -/
theorem Reachable.foldl (reached : data.Reachable) {edits : List Edit}
    (keepNames : ∀ edit ∈ edits, ∀ data, edit.KeepsName data) :
    (edits.foldl (fun data edit => (data.perform edit).state) data).Reachable := by
  induction edits generalizing data with
  | nil => exact reached
  | cons edit edits inductionHypothesis =>
      rw [List.forall_mem_cons] at keepNames
      exact inductionHypothesis (reached.perform edit (keepNames.1 data)) keepNames.2

/-- What a field has settled to keeps its name, so it may be put in its place. -/
theorem Reachable.settle (reached : data.Reachable) {catalog : Catalog} {name : String}
    {position : Nat} {old settled : Field} (present : data.fields[position]? = some old)
    (accepted : catalog.settleField name old = .ok (some settled)) :
    (data.replaceField position settled).Reachable := by
  have keepsName : data.KeepsName position settled :=
    keepsName_of_name present (Catalog.settles_of_settleField accepted).name
  exact reached.perform (.replaceField position settled) keepsName

/-- Whatever edits a schema has been through, settled fields put in their places among them,
names differ and find their own field, tags find the fields that carry them, and an edit that is
refused leaves the schema as it is. -/
theorem Reachable.indices_match_fields (reached : data.Reachable) :
    (data.fields.map (NameKey.of ·.name)).Nodup ∧
    (∀ name position, data.position? name = some position ↔
      ∃ field, data.fields[position]? = some field ∧
        NameKey.of field.name = NameKey.of name) ∧
    (∀ name, data.position? name = none ↔
      NameKey.of name ∉ data.fields.map (NameKey.of ·.name)) ∧
    data.Files (·.groups) data.index.groups data.group data.groupNames ∧
    data.Files (·.keys) data.index.keys data.compositeKey data.compositeKeyNames ∧
    (∀ edit, data.Takes edit (data.perform edit)) ∧
    ∀ (catalog : Catalog) (name : String) (position : Nat) (old settled : Field),
      data.fields[position]? = some old → catalog.settleField name old = .ok (some settled) →
        (data.replaceField position settled).Reachable :=
  ⟨reached.sound.distinct, fun _ _ => reached.sound.position?_eq_some_iff,
    fun _ => reached.sound.position?_eq_none_iff, reached.sound.files_group,
    reached.sound.files_compositeKey, reached.sound.takes_perform,
    fun _ _ _ _ _ present accepted => reached.settle present accepted⟩

/-- The fields of parcels, which are known by sender and number and wait for a box, then one at
their start, two that are refused, and the name of a table. -/
def parcelEdits : List Edit :=
  [.addField (.single
    { name := "Sender", typeText := "string", keys := .ofList ["pk"], shape := .scalar .text none }),
   .addField (.single
    { name := "number", typeText := "int32", groups := .ofList ["Label"], keys := .ofList ["PK"],
      shape := .scalar (.integer .bits32) none }),
   .addField (.unresolved "box" "Crate"),
   .addFieldAt 0 (.ofKind "weight" (.scalar (.integer .bits16))),
   .addField (.ofKind "SENDER" (.scalar .text)),
   .addFieldAt 9 (.ofKind "late" (.scalar .text)),
   .addPartial "Parcels"]

/-- Parcels that wait. -/
def draftParcels : SchemaData :=
  parcelEdits.foldl (fun data edit => (data.perform edit).state) (named "Parcel")

/-- Parcels with the box that they have waited for in its place. -/
def parcels : SchemaData :=
  draftParcels.replaceField 3 ((Field.unresolved "box" "Crate").settleEmbedded "Crate")

theorem parcels_match_fields :
    parcels.Reachable ∧
      parcels.fields.map (·.name) = ["weight", "Sender", "number", "box"] ∧
      (parcels.fields[3]?).map Field.isPending = some false ∧
      parcels.position? "SENDER" = some 1 ∧ parcels.position? "late" = none ∧
      (parcels.group "label").map (·.name) = ["number"] ∧
      (parcels.compositeKey "pK").map (·.name) = ["Sender", "number"] ∧
      (∀ name, (parcels.compositeKey name).Nodup) ∧
      ∀ edit, parcels.Takes edit (parcels.perform edit) := by
  have drafted : draftParcels.Reachable := by
    apply (Reachable.named "Parcel").foldl
    simp [parcelEdits, Edit.KeepsName]
  have reached : parcels.Reachable :=
    drafted.perform (.replaceField 3 _) (by decide +kernel : draftParcels.KeepsName 3 _)
  obtain ⟨_, _, _, _, keys, takes, _⟩ := reached.indices_match_fields
  exact ⟨reached, by decide +kernel, by decide +kernel, by decide +kernel, by decide +kernel,
    by decide +kernel, by decide +kernel, keys.once, takes⟩

end SchemaData

end Tabula
