import Tabula.Proofs.Catalog.Order

/-!
# Passes

A pass advances fields of a catalog and changes nothing else, and it takes away at least
one waiting head if it settles anything.  So the passes reach, within their budget, a
catalog where nothing is left to settle, or stop at a refusal.
-/

namespace Tabula

/-! ## Swapping one field -/

/-- A list with a member at a position, and with others there. -/
theorem exists_set_eq {α : Type} {members : List α} {position : Nat} {old : α}
    (found : members[position]? = some old) :
    ∃ first others, members = first ++ old :: others ∧
      ∀ member, members.set position member = first ++ member :: others := by
  rcases List.getElem?_eq_some_iff.mp found with ⟨inside, rfl⟩
  refine ⟨members.take position, members.drop (position + 1), ?_, ?_⟩
  · rw [List.getElem_cons_drop, List.take_append_drop]
  · intro member
    rw [List.set_eq_take_append_cons_drop, if_pos inside]

namespace Catalog

theorem pendingHeads_append (fields others : List Field) :
    pendingHeads (fields ++ others) = pendingHeads fields + pendingHeads others := by
  induction fields with
  | nil => rw [List.nil_append, pendingHeads, Nat.zero_add]
  | cons field fields inductionHypothesis =>
      rw [List.cons_append, pendingHeads, pendingHeads, inductionHypothesis, Nat.add_assoc]

/-- A field that waits shows in the number of waiting heads. -/
theorem pendingHeads_pos {fields : List Field} {field : Field} (member : field ∈ fields)
    (waiting : 0 < field.pendingCount) : 0 < pendingHeads fields := by
  induction member with
  | head => exact Nat.add_pos_left waiting _
  | tail other _ inductionHypothesis => exact Nat.add_pos_right _ inductionHypothesis

/-- Swapping a field changes the number of waiting heads by theirs. -/
theorem pendingHeads_set {fields : List Field} {position : Nat} {old : Field}
    (found : fields[position]? = some old) (field : Field) :
    pendingHeads (fields.set position field) + old.pendingCount =
      pendingHeads fields + field.pendingCount := by
  rcases exists_set_eq found with ⟨first, others, split, swapped⟩
  rw [swapped, split, pendingHeads_append, pendingHeads_append, pendingHeads, pendingHeads]
  omega

/-- Swapping a schema changes the number of waiting heads by those of its fields. -/
theorem pendingHeads_flatMap_set {schemas : List Schema} {position : Nat} {old : Schema}
    (found : schemas[position]? = some old) (schema : Schema) :
    pendingHeads ((schemas.set position schema).flatMap (·.fields)) +
        pendingHeads old.fields =
      pendingHeads (schemas.flatMap (·.fields)) + pendingHeads schema.fields := by
  rcases exists_set_eq found with ⟨first, others, split, swapped⟩
  rw [swapped, split]
  simp only [List.flatMap_append, List.flatMap_cons, pendingHeads_append]
  omega

/-- A settled field goes in, as it is, where a field of its name stands. -/
theorem Settlement.placeIn_eq {settlement : Settlement} {schema : Schema}
    (keepsName : schema.KeepsName settlement.field settlement.settled) :
    settlement.placeIn schema =
      schema.replaceField settlement.field settlement.settled keepsName :=
  dif_pos keepsName

theorem Settlement.fields_placeIn {settlement : Settlement} {schema : Schema}
    (keepsName : schema.KeepsName settlement.field settlement.settled) :
    (settlement.placeIn schema).fields =
      schema.fields.set settlement.field settlement.settled := by
  rw [placeIn_eq keepsName, Schema.fields_replaceField]

theorem schemas_place {catalog : Catalog} {settlement : Settlement} {schema : Schema}
    (found : catalog.schemas[settlement.schema]? = some schema) :
    (catalog.place settlement).schemas =
      catalog.schemas.set settlement.schema (settlement.placeIn schema) := by
  rcases List.getElem?_eq_some_iff.mp found with ⟨inside, here⟩
  rw [place, List.modify_eq_set_get _ inside, List.get_eq_getElem, here]

/-- Putting a field in its place changes the number of waiting heads by theirs. -/
theorem pendingCount_place {catalog : Catalog} {settlement : Settlement} {schema : Schema}
    {old : Field} (found : catalog.schemas[settlement.schema]? = some schema)
    (present : schema.fields[settlement.field]? = some old)
    (keepsName : schema.KeepsName settlement.field settlement.settled) :
    (catalog.place settlement).pendingCount + old.pendingCount =
      catalog.pendingCount + settlement.settled.pendingCount := by
  have inSchema := pendingHeads_set present settlement.settled
  rw [← Settlement.fields_placeIn keepsName] at inSchema
  have inCatalog := pendingHeads_flatMap_set found (settlement.placeIn schema)
  rw [← schemas_place found] at inCatalog
  rw [pendingCount, pendingCount]
  omega

/-! ## The settlements of a pass -/

/-- The settlement is of a field of the catalog. -/
def Settlement.Fits (settlement : Settlement) (catalog : Catalog) : Prop :=
  ∃ schema field, catalog.schemas[settlement.schema]? = some schema ∧
    schema.fields[settlement.field]? = some field ∧
    catalog.settleField schema.name field = .ok (some settlement.settled)

/-- Looking at fields from a position on finds the settlements of these fields, and none
only if none of them settles. -/
theorem settleFields_eq_ok {catalog : Catalog} {name : String} {schema start : Nat}
    {fields : List Field} {settlements : List Settlement}
    (accepted : catalog.settleFields name schema start fields = .ok settlements) :
    (∀ settlement ∈ settlements, settlement.schema = schema ∧
      ∃ offset field, settlement.field = start + offset ∧ fields[offset]? = some field ∧
        catalog.settleField name field = .ok (some settlement.settled)) ∧
    (settlements = [] → ∀ field ∈ fields, catalog.settleField name field = .ok none) := by
  induction fields generalizing start settlements with
  | nil =>
      cases accepted
      simp
  | cons field fields inductionHypothesis =>
      simp only [settleFields, bind_eq_ok_iff] at accepted
      rcases accepted with ⟨outcome, here, further, rest, same⟩
      obtain ⟨fit, idle⟩ := inductionHypothesis rest
      have later : ∀ settlement ∈ further, settlement.schema = schema ∧
          ∃ offset other, settlement.field = start + offset ∧
            (field :: fields)[offset]? = some other ∧
            catalog.settleField name other = .ok (some settlement.settled) := by
        intro settlement member
        obtain ⟨place, offset, other, position, found, settled⟩ := fit settlement member
        exact ⟨place, offset + 1, other, by omega, found, settled⟩
      cases outcome with
      | none =>
          rw [pure_eq_ok_iff] at same
          cases same
          constructor
          · exact later
          · intro empty other member
            rcases List.mem_cons.mp member with rfl | below
            · exact here
            · exact idle empty other below
      | some settled =>
          rw [pure_eq_ok_iff] at same
          cases same
          constructor
          · intro settlement member
            rcases List.mem_cons.mp member with rfl | below
            · exact ⟨rfl, 0, field, rfl, rfl, here⟩
            · exact later settlement below
          · intro empty
            cases empty

/-- A refusal is the refusal of a field. -/
theorem settleFields_eq_error {catalog : Catalog} {name : String} {schema start : Nat}
    {fields : List Field} {refusal : DefinitionError}
    (refused : catalog.settleFields name schema start fields = .error refusal) :
    ∃ field ∈ fields, catalog.settleField name field = .error refusal := by
  induction fields generalizing start with
  | nil => cases refused
  | cons field fields inductionHypothesis =>
      simp only [settleFields, bind_eq_error_iff] at refused
      rcases refused with here | ⟨outcome, _, rest | ⟨further, _, beyond⟩⟩
      · exact ⟨field, List.mem_cons_self, here⟩
      · obtain ⟨other, member, found⟩ := inductionHypothesis rest
        exact ⟨other, List.mem_cons_of_mem _ member, found⟩
      · cases outcome with
        | none => exact absurd beyond pure_ne_error
        | some settled => exact absurd beyond pure_ne_error

theorem settleSchemas_eq_ok {catalog : Catalog} {positions : List Nat}
    {settlements : List Settlement}
    (accepted : catalog.settleSchemas positions = .ok settlements) :
    (∀ settlement ∈ settlements, settlement.Fits catalog) ∧
    (settlements = [] → ∀ position ∈ positions, ∀ schema,
      catalog.schemas[position]? = some schema → ∀ field ∈ schema.fields,
        catalog.settleField schema.name field = .ok none) := by
  induction positions generalizing settlements with
  | nil =>
      cases accepted
      simp
  | cons position positions inductionHypothesis =>
      unfold settleSchemas at accepted
      split at accepted
      · rename_i missing
        obtain ⟨fit, idle⟩ := inductionHypothesis accepted
        constructor
        · exact fit
        · intro empty other member schema found
          rcases List.mem_cons.mp member with rfl | below
          · rw [missing] at found
            cases found
          · exact idle empty other below schema found
      · rename_i schema present
        simp only [bind_eq_ok_iff, pure_eq_ok_iff] at accepted
        rcases accepted with ⟨here, looked, further, rest, rfl⟩
        obtain ⟨fitHere, idleHere⟩ := settleFields_eq_ok looked
        obtain ⟨fit, idle⟩ := inductionHypothesis rest
        constructor
        · intro settlement member
          rcases List.mem_append.mp member with inHere | beyond
          · obtain ⟨place, offset, field, slot, found, settled⟩ := fitHere settlement inHere
            refine ⟨schema, field, place ▸ present, ?_, settled⟩
            rw [slot, Nat.zero_add, found]
          · exact fit settlement beyond
        · intro empty other member held found
          rcases List.append_eq_nil_iff.mp empty with ⟨emptyHere, emptyRest⟩
          rcases List.mem_cons.mp member with rfl | below
          · rw [present] at found
            cases found
            exact idleHere emptyHere
          · exact idle emptyRest other below held found

theorem settleSchemas_eq_error {catalog : Catalog} {positions : List Nat}
    {refusal : DefinitionError}
    (refused : catalog.settleSchemas positions = .error refusal) :
    ∃ schema ∈ catalog.schemas, ∃ field ∈ schema.fields,
      catalog.settleField schema.name field = .error refusal := by
  induction positions with
  | nil => cases refused
  | cons position positions inductionHypothesis =>
      unfold settleSchemas at refused
      split at refused
      · exact inductionHypothesis refused
      · rename_i schema present
        simp only [bind_eq_error_iff] at refused
        rcases refused with here | ⟨settlements, _, rest | ⟨further, _, beyond⟩⟩
        · exact ⟨schema, List.mem_of_getElem? present, settleFields_eq_error here⟩
        · exact inductionHypothesis rest
        · exact absurd beyond pure_ne_error

/-! ## Placing settlements -/

/-- A catalog that differs from another in fields that this one has advanced. -/
structure Passes (before after : Catalog) : Prop where
  names : after.names = before.names
  enumTables : after.enumTables = before.enumTables
  schemas : List.Forall₂
    (fun schema reached => Schema.Follows (before.Advances schema.name) schema reached)
    before.schemas after.schemas

namespace Passes

variable {before between after : Catalog}

theorem refl (catalog : Catalog) : Passes catalog catalog := by
  constructor
  · rfl
  · rfl
  · apply List.forall₂_same.mpr
    intro schema _
    exact .refl (Advances.refl catalog schema.name) schema

/-- Every settlement of a pass has the name of the field that it is for, whatever else of the
pass is in its place by then. -/
theorem keepsName (passes : Passes before between) {settlement : Settlement}
    (fits : settlement.Fits before) {reached : Schema}
    (found : between.schemas[settlement.schema]? = some reached) :
    reached.KeepsName settlement.field settlement.settled := by
  rcases fits with ⟨schema, field, first, present, settled⟩
  obtain ⟨other, there, follows⟩ := exists_getElem?_of_forall₂ passes.schemas first
  rw [found, Option.some_inj] at there
  subst there
  obtain ⟨current, presentNow, advances⟩ := exists_getElem?_of_forall₂ follows.fields present
  apply SchemaData.keepsName_of_name presentNow
  rw [(settles_of_settleField settled).name, advances.keepsKind.1]

/-- Placing a settlement keeps to fields advanced by the first catalog, and no head waits
that did not wait before. -/
theorem place (passes : Passes before between) {settlement : Settlement}
    (fits : settlement.Fits before) :
    Passes before (between.place settlement) ∧
      (between.place settlement).pendingCount ≤ between.pendingCount := by
  have ⟨schema, field, found, present, settled⟩ := fits
  obtain ⟨reached, foundNow, follows⟩ := exists_getElem?_of_forall₂ passes.schemas found
  obtain ⟨current, presentNow, advances⟩ := exists_getElem?_of_forall₂ follows.fields present
  have keepsName := passes.keepsName fits foundNow
  constructor
  · constructor
    · exact passes.names
    · exact passes.enumTables
    · rw [schemas_place foundNow]
      apply forall₂_set passes.schemas found
      rw [Settlement.placeIn_eq keepsName]
      constructor
      · exact (Schema.emptyLike_replaceField keepsName).trans follows.emptyLike
      · rw [Schema.fields_replaceField keepsName]
        exact forall₂_set follows.fields present (Or.inr settled)
  · have change := pendingCount_place foundNow presentNow keepsName
    -- The field in place is the waiting one or the settlement itself.
    have fewer : settlement.settled.pendingCount ≤ current.pendingCount := by
      rcases advances with rfl | again
      · exact Nat.le_of_lt (settles_of_settleField settled).fewer
      · rw [settled] at again
        cases again
        exact Nat.le_refl _
    omega

theorem foldl_place {settlements : List Settlement} (passes : Passes before between)
    (fit : ∀ settlement ∈ settlements, settlement.Fits before) :
    Passes before (settlements.foldl Catalog.place between) ∧
      (settlements.foldl Catalog.place between).pendingCount ≤ between.pendingCount := by
  induction settlements generalizing between with
  | nil => exact ⟨passes, Nat.le_refl _⟩
  | cons settlement settlements inductionHypothesis =>
      rw [List.forall_mem_cons] at fit
      obtain ⟨placed, fewer⟩ := passes.place fit.1
      obtain ⟨reached, fewest⟩ := inductionHypothesis placed fit.2
      exact ⟨reached, Nat.le_trans fewest fewer⟩

theorem placeAll {settlements : List Settlement}
    (fit : ∀ settlement ∈ settlements, settlement.Fits before) :
    Passes before (before.placeAll settlements) := by
  obtain ⟨⟨names, enumTables, schemas⟩, _⟩ := (Passes.refl before).foldl_place fit
  exact ⟨names, enumTables, schemas⟩

theorem meaning? (passes : Passes before after) (name : String) :
    after.meaning? name = before.meaning? name := by
  rw [Catalog.meaning?, Catalog.meaning?, passes.names]

/-- An entry of the index points at the definition that it pointed at before. -/
theorem definitionAt? (passes : Passes before after) {entry : CatalogEntry}
    {definition : Definition} (found : before.definitionAt? entry = some definition) :
    ∃ reached, after.definitionAt? entry = some reached ∧
      definition.Follows before.Advances reached := by
  cases entry with
  | schema position =>
      rcases Option.map_eq_some_iff.mp found with ⟨schema, here, rfl⟩
      obtain ⟨reached, there, follows⟩ := exists_getElem?_of_forall₂ passes.schemas here
      exact ⟨.schema reached, by rw [Catalog.definitionAt?, there]; rfl, .schema follows⟩
  | enumTable position =>
      rcases Option.map_eq_some_iff.mp found with ⟨table, here, rfl⟩
      rw [← passes.enumTables] at here
      exact ⟨.enumTable table, by rw [Catalog.definitionAt?, here]; rfl, .enumTable table⟩

theorem exists_before (passes : Passes before after) {entry : CatalogEntry}
    {reached : Definition} (found : after.definitionAt? entry = some reached) :
    ∃ definition, before.definitionAt? entry = some definition ∧
      definition.Follows before.Advances reached := by
  cases entry with
  | schema position =>
      rcases Option.map_eq_some_iff.mp found with ⟨schema, there, rfl⟩
      obtain ⟨old, here, follows⟩ := exists_getElem?_of_forall₂ passes.schemas.flip there
      exact ⟨.schema old, by rw [Catalog.definitionAt?, here]; rfl, .schema follows⟩
  | enumTable position =>
      rcases Option.map_eq_some_iff.mp found with ⟨table, there, rfl⟩
      rw [passes.enumTables] at there
      exact ⟨.enumTable table, by rw [Catalog.definitionAt?, there]; rfl, .enumTable table⟩

theorem follows (passes : Passes before after) : Follows before.Advances before after := by
  constructor
  intro name definition found
  rcases Option.bind_eq_some_iff.mp found with ⟨entry, meaning, here⟩
  obtain ⟨reached, there, follows⟩ := passes.definitionAt? here
  refine ⟨reached, ?_, follows⟩
  rw [definition?, passes.meaning?, meaning]
  exact there

/-- A pass is a step on the way. -/
theorem precedes (passes : Passes before after) : Precedes before after := by
  have informs : Informs before after := by
    constructor
    intro name definition found
    obtain ⟨reached, foundAfter, follows⟩ := passes.follows.known found
    exact ⟨reached, foundAfter, follows.mono fun _ _ _ advances => advances.keepsKind⟩
  constructor
  intro name definition found
  obtain ⟨reached, foundAfter, follows⟩ := passes.follows.known found
  exact ⟨reached, foundAfter, follows.mono fun _ _ _ advances => advances.informed informs⟩

/-- A pass never oversteps a catalog on the way to which it was and where nothing is left
to settle. -/
theorem precedes_of_isSettled {goal : Catalog} (passes : Passes before after)
    (towards : Precedes before goal) (finished : goal.IsSettled) : Precedes after goal := by
  constructor
  intro name reached found
  rcases Option.bind_eq_some_iff.mp found with ⟨entry, meaning, there⟩
  obtain ⟨definition, here, part⟩ := passes.exists_before there
  have foundBefore : before.definition? name = some definition := by
    rw [definition?, ← passes.meaning?, meaning]
    exact here
  obtain ⟨last, foundGoal, whole⟩ := towards.known foundBefore
  refine ⟨last, foundGoal, ?_⟩
  cases part with
  | @schema schema reached part =>
      cases whole with
      | @schema _ last whole =>
          have idle := finished last (mem_schemas_of_definition? foundGoal)
          rw [whole.name] at idle
          have rest := resume_fields part whole towards.informs idle
          rw [← part.name] at rest
          exact .schema rest
  | enumTable table =>
      cases whole with
      | enumTable => exact .enumTable table

end Passes

end Catalog

end Tabula
