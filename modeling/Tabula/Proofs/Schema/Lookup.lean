import Mathlib.Data.List.Nodup
import Tabula.Proofs.Correspondence
import Tabula.Proofs.Outcome
import Tabula.Schema

/-!
# Finding the fields of a schema

The index of a schema finds the field that a search through the list would find.  So a
change that goes field by field and leaves the names alone changes what is found in the
same way.
-/

namespace Tabula

/-! ## The index and the list -/

namespace SchemaIndex

/-- A position filed last wins, so among fields with distinct names it is the one of the
only field with the name. -/
theorem find?_positions_fileAll (index : SchemaIndex) (start : Nat) (fields : List Field)
    (distinct : (fields.map (NameKey.of ·.name)).Nodup) (key : NameKey) :
    (index.fileAll start fields).positions.find? key =
      match fields.findIdx? (NameKey.of ·.name = key) with
      | some offset => some (start + offset)
      | none => index.positions.find? key := by
  induction fields generalizing index start with
  | nil => rfl
  | cons field fields inductionHypothesis =>
      rw [List.map_cons, List.nodup_cons] at distinct
      rw [fileAll, inductionHypothesis _ _ distinct.2, List.findIdx?_cons]
      by_cases here : NameKey.of field.name = key
      · have absent : fields.findIdx? (NameKey.of ·.name = key) = none := by
          rw [List.findIdx?_eq_none_iff]
          intro other member
          rw [decide_eq_false_iff_not]
          intro same
          exact distinct.1 (List.mem_map.mpr ⟨other, member, same.trans here.symm⟩)
        simp [absent, here, file, Registry.find?_insert]
      · cases found : fields.findIdx? (NameKey.of ·.name = key) with
        | none => simp [here, file, Registry.find?_insert]
        | some offset =>
            simp [here]
            omega

end SchemaIndex

namespace SchemaData.Sound

variable {data : SchemaData}

/-- A position is found as in a search through the list. -/
theorem position?_eq_findIdx? (sound : data.Sound) (name : String) :
    data.position? name = data.fields.findIdx? (NameKey.of ·.name = NameKey.of name) := by
  rw [position?, sound.indexed, SchemaIndex.ofFields,
    SchemaIndex.find?_positions_fileAll _ _ _ sound.distinct]
  cases data.fields.findIdx? (NameKey.of ·.name = NameKey.of name) with
  | none => rfl
  | some offset => simp

/-- A field is found at its position by its own name. -/
theorem position?_of_getElem? (sound : data.Sound) {position : Nat} {field : Field}
    (found : data.fields[position]? = some field) : data.position? field.name = some position := by
  rw [sound.position?_eq_findIdx?, List.findIdx?_eq_some_iff_getElem]
  rcases List.getElem?_eq_some_iff.mp found with ⟨inside, rfl⟩
  refine ⟨inside, decide_eq_true rfl, ?_⟩
  intro earlier before same
  rw [decide_eq_true_eq] at same
  have equal := List.inj_on_of_nodup_map sound.distinct (List.getElem_mem _)
    (List.getElem_mem _) same
  have different := List.Nodup.of_map _ sound.distinct
  exact Nat.ne_of_lt before (different.getElem_inj_iff.mp equal)

end SchemaData.Sound

namespace Schema

/-- A field is found by name as in a search through the list. -/
theorem field?_eq_find? (schema : Schema) (name : String) :
    schema.field? name = schema.fields.find? (NameKey.of ·.name = NameKey.of name) := by
  rw [SchemaData.field?, schema.sound.position?_eq_findIdx?]
  cases found : schema.fields.findIdx? (NameKey.of ·.name = NameKey.of name) with
  | none =>
      rw [List.findIdx?_eq_none_iff] at found
      symm
      rw [Option.bind_none, List.find?_eq_none]
      intro field member
      simpa using found field member
  | some offset =>
      rcases List.findIdx?_eq_some_iff_getElem.mp found with ⟨inside, hit, before⟩
      rw [Option.bind_some, List.getElem?_eq_getElem inside]
      symm
      rw [List.find?_eq_some_iff_getElem]
      refine ⟨hit, offset, inside, rfl, ?_⟩
      intro position earlier
      simpa using before position earlier

/-- A field is found by exactly the names that are its own but for case. -/
theorem field?_eq_some_iff {schema : Schema} {name : String} {field : Field} :
    schema.field? name = some field ↔
      field ∈ schema.fields ∧ NameKey.of field.name = NameKey.of name := by
  rw [field?_eq_find?]
  constructor
  · intro found
    exact ⟨List.mem_of_find?_eq_some found, by simpa using List.find?_some found⟩
  · rintro ⟨member, named⟩
    rw [← named]
    exact find?_of_nodup_map schema.distinct member

/-- A field is found at its position by its own name. -/
theorem position?_of_getElem? {schema : Schema} {position : Nat} {field : Field}
    (found : schema.fields[position]? = some field) :
    schema.position? field.name = some position :=
  schema.sound.position?_of_getElem? found

theorem exists_getElem?_of_position? {schema : Schema} {name : String} {position : Nat}
    (found : schema.position? name = some position) :
    ∃ field, schema.fields[position]? = some field := by
  rw [schema.sound.position?_eq_findIdx?, List.findIdx?_eq_some_iff_getElem] at found
  rcases found with ⟨inside, _⟩
  exact ⟨_, List.getElem?_eq_getElem inside⟩

end Schema

/-! ## Added and swapped fields -/

namespace SchemaData

theorem keepsName_of_name {data : SchemaData} {position : Nat} {old field : Field}
    (present : data.fields[position]? = some old) (name : field.name = old.name) :
    data.KeepsName position field := by
  intro other here
  rw [present, Option.mem_some_iff] at here
  rw [← here, name]

theorem fields_replaceField (data : SchemaData) (position : Nat) (field : Field) :
    (data.replaceField position field).fields = data.fields.set position field := by
  unfold replaceField
  split
  · rfl
  · rename_i outside
    exact (List.set_eq_of_length_le (Nat.not_lt.mp outside)).symm

/-- A field is added at the end if it has a name of its own. -/
theorem addField_eq (data : SchemaData) (field : Field) :
    data.addField field =
      if data.hasField field.name then
        ⟨data, [], .error (.duplicateField data.name field.name)⟩
      else ⟨data.insertField data.fields.length field, [], .ok ()⟩ := by
  rw [addField, addFieldAt, if_neg (Nat.lt_irrefl _)]

theorem fields_insertField_length (data : SchemaData) (field : Field) :
    (data.insertField data.fields.length field).fields = data.fields ++ [field] := by
  simp [insertField, reindex]

/-- An added field stands behind the others, and nothing else changes. -/
theorem addField_eq_ok {data : SchemaData} {field : Field}
    (accepted : (data.addField field).result = .ok ()) :
    (data.addField field).state.emptyLike = data.emptyLike ∧
      (data.addField field).state.fields = data.fields ++ [field] := by
  rw [addField_eq] at accepted ⊢
  split at accepted
  · cases accepted
  · rename_i fresh
    rw [if_neg fresh]
    exact ⟨rfl, data.fields_insertField_length field⟩

theorem addFields_eq_ok {data : SchemaData} {fields : List Field}
    (accepted : (data.addFields fields).result = .ok ()) :
    (data.addFields fields).state.emptyLike = data.emptyLike ∧
      (data.addFields fields).state.fields = data.fields ++ fields := by
  induction fields generalizing data with
  | nil => exact ⟨rfl, (List.append_nil _).symm⟩
  | cons field fields inductionHypothesis =>
      rw [addFields] at accepted ⊢
      cases here : (data.addField field).result with
      | error refusal =>
          rw [here] at accepted
          cases accepted
      | ok _ =>
          rw [here] at accepted
          obtain ⟨sameHere, appended⟩ := addField_eq_ok here
          obtain ⟨sameFurther, others⟩ := inductionHypothesis accepted
          refine ⟨sameFurther.trans sameHere, others.trans ?_⟩
          rw [appended, List.append_assoc, List.singleton_append]

/-- Fields with new names that differ are added. -/
theorem Sound.addFields_eq_ok {data : SchemaData} (sound : data.Sound) {fields : List Field}
    (distinct : ((data.fields ++ fields).map (NameKey.of ·.name)).Nodup) :
    (data.addFields fields).result = .ok () := by
  induction fields generalizing data with
  | nil => rfl
  | cons field fields inductionHypothesis =>
      have fresh : ¬data.hasField field.name = true := by
        rw [sound.hasField_iff]
        intro taken
        rw [List.map_append, List.map_cons, List.nodup_append] at distinct
        exact distinct.2.2 _ taken _ List.mem_cons_self rfl
      have added := (data.addField_eq field).trans (if_neg fresh)
      have here : (data.addField field).result = .ok () := congrArg Step.result added
      rw [List.append_cons, ← (addField_eq_ok here).2] at distinct
      rw [SchemaData.addFields, here]
      exact inductionHypothesis (sound.addFieldAt _ field) distinct

end SchemaData

namespace Schema

/-- A schema is what its fields and the rest of it are. -/
theorem eq_of_emptyLike {left right : Schema} (rest : left.emptyLike = right.emptyLike)
    (fields : left.fields = right.fields) : left = right := by
  have index : left.index = right.index := by
    rw [left.indexed, right.indexed, fields]
  rcases left with ⟨⟨⟨_, _⟩, _, _⟩, _, _, _, _⟩
  rcases right with ⟨⟨⟨_, _⟩, _, _⟩, _, _, _, _⟩
  cases fields
  cases index
  cases rest
  rfl

/-- An added field stands behind the others, and nothing else of the schema changes. -/
theorem addField_eq_ok {schema result : Schema} {field : Field}
    (accepted : schema.addField field = .ok result) :
    result.emptyLike = schema.emptyLike ∧ result.fields = schema.fields ++ [field] := by
  obtain ⟨done, same⟩ := ofStep_eq_ok_iff.mp accepted
  obtain ⟨rest, appended⟩ := SchemaData.addField_eq_ok done
  rw [SchemaData.addField, same] at rest appended
  exact ⟨eq_of_data rest, appended⟩

/-- Added fields stand behind the others, and nothing else of the schema changes. -/
theorem addFields_eq_ok {schema result : Schema} {fields : List Field}
    (accepted : schema.addFields fields = .ok result) :
    result.emptyLike = schema.emptyLike ∧ result.fields = schema.fields ++ fields := by
  obtain ⟨done, same⟩ := ofStep_eq_ok_iff.mp accepted
  obtain ⟨rest, appended⟩ := SchemaData.addFields_eq_ok done
  rw [same] at rest appended
  exact ⟨eq_of_data rest, appended⟩

/-- Fields with new names that differ are added. -/
theorem exists_addFields {schema : Schema} {fields : List Field}
    (distinct : ((schema.fields ++ fields).map (NameKey.of ·.name)).Nodup) :
    ∃ result, schema.addFields fields = .ok result := by
  have done := schema.sound.addFields_eq_ok distinct
  exact ⟨ofSound _ (schema.sound.addFields fields), ofStep_eq_ok_iff.mpr ⟨done, rfl⟩⟩

section

variable {schema : Schema} {position : Nat} {field : Field}
  (keepsName : schema.KeepsName position field)

/-- The field stands as it is given, and nothing but it and what is filed changes. -/
theorem fields_replaceField :
    (schema.replaceField position field keepsName).fields = schema.fields.set position field :=
  schema.toSchemaData.fields_replaceField position field

theorem emptyLike_replaceField :
    (schema.replaceField position field keepsName).emptyLike = schema.emptyLike := by
  apply eq_of_data
  change (schema.toSchemaData.replaceField position field).emptyLike = _
  unfold SchemaData.replaceField
  split <;> rfl

end

end Schema

/-! ## Changes that go field by field -/

namespace Schema

/-- A schema follows another when it differs from it in its fields only, and those
correspond one by one. -/
structure Follows (Related : Field → Field → Prop) (before after : Schema) : Prop where
  emptyLike : after.emptyLike = before.emptyLike
  fields : List.Forall₂ Related before.fields after.fields

namespace Follows

variable {Related : Field → Field → Prop} {before after : Schema}

theorem name (follows : Follows Related before after) : after.name = before.name :=
  congrArg (·.name) follows.emptyLike

/-- A schema follows itself. -/
theorem refl (reflexive : ∀ field, Related field field) (schema : Schema) :
    Follows Related schema schema :=
  ⟨rfl, List.forall₂_same.mpr fun field _ => reflexive field⟩

theorem mono {Weaker : Field → Field → Prop} (follows : Follows Related before after)
    (weaker : ∀ first second, Related first second → Weaker first second) :
    Follows Weaker before after :=
  ⟨follows.emptyLike, follows.fields.imp weaker⟩

/-- Two changes one after the other. -/
theorem trans {Further Whole : Field → Field → Prop} {last : Schema}
    (follows : Follows Related before after) (further : Follows Further after last)
    (compose : ∀ {first second third}, Related first second → Further second third →
      Whole first third) :
    Follows Whole before last := by
  constructor
  · exact further.emptyLike.trans follows.emptyLike
  · exact forall₂_trans follows.fields further.fields fun here next => compose here next

/-- A change read backwards. -/
theorem symm (follows : Follows Related before after) :
    Follows (flip Related) after before :=
  ⟨follows.emptyLike.symm, follows.fields.flip⟩

/-- A change read forwards and backwards. -/
theorem combine {Back Whole : Field → Field → Prop} (follows : Follows Related before after)
    (back : Follows Back after before)
    (compose : ∀ first second, Related first second → Back second first →
      Whole first second) : Follows Whole before after :=
  ⟨follows.emptyLike, follows.fields.mp compose back.symm.fields⟩

/-- What holds of the fields at the start may be relied on. -/
theorem relying {Known : Field → Prop} (follows : Follows Related before after)
    (known : ∀ field ∈ before.fields, Known field) :
    Follows (fun first second => Known first ∧ Related first second) before after :=
  ⟨follows.emptyLike, (List.forall₂_and_left _ _).2 ⟨known, follows.fields⟩⟩

/-- Changes that leave names alone carry over to the fields that are found. -/
theorem field? (follows : Follows Related before after)
    (keepsName : ∀ {first second}, Related first second → second.name = first.name)
    {name : String} {first : Field} (found : before.field? name = some first) :
    ∃ second, after.field? name = some second ∧ Related first second := by
  rw [field?_eq_find?] at found ⊢
  refine exists_find?_of_forall₂ follows.fields ?_ found
  intro first second related
  rw [keepsName related]

/-- A schema that follows another with the same fields is that schema. -/
theorem eq_of_eq (follows : Follows (fun first second => second = first) before after) :
    after = before := by
  apply eq_of_emptyLike follows.emptyLike
  rw [List.forall₂_eq_eq_eq.symm]
  exact follows.fields.flip

end Follows

end Schema

end Tabula
