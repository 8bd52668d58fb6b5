import Tabula.Proofs.Catalog.Frame

/-!
# Passes without a budget

Settling goes on until a pass settles nothing.  Here its passes are chained without any
bound on their number, together with all the settlements that they put in place: that
such a chain exists says that settling ends.  No two of these settlements have the same
slot, so every field is settled once at most, and their number is the number of fields
that have ceased to wait.
-/

namespace Tabula

/-- The positions of the schema and of the field. -/
def Catalog.Settlement.slot (settlement : Catalog.Settlement) : Nat × Nat :=
  (settlement.schema, settlement.field)

namespace Catalog

/-- The field in a slot. -/
def fieldAt? (catalog : Catalog) (slot : Nat × Nat) : Option Field :=
  catalog.schemas[slot.1]?.bind (·.fields[slot.2]?)

theorem fieldAt?_slot_eq_some_iff {catalog : Catalog} {settlement : Settlement}
    {field : Field} : catalog.fieldAt? settlement.slot = some field ↔
      ∃ schema, catalog.schemas[settlement.schema]? = some schema ∧
        schema.fields[settlement.field]? = some field :=
  Option.bind_eq_some_iff

/-- The field in the slot waits. -/
def WaitsAt (catalog : Catalog) (slot : Nat × Nat) : Prop :=
  ∃ field, catalog.fieldAt? slot = some field ∧ field.isPending = true

/-- How many fields wait. -/
def waitingFields (catalog : Catalog) : Nat :=
  (catalog.schemas.flatMap (·.fields)).countP Field.isPending

/-- How many fields have waited before and wait no more. -/
def settledFields (before after : Catalog) : Nat :=
  ((before.schemas.flatMap (·.fields)).zip (after.schemas.flatMap (·.fields))).countP
    fun fields => fields.1.isPending && !fields.2.isPending

/-! ## The slots of a pass -/

/-- The fields of a schema are settled in different slots. -/
theorem nodup_settleFields {catalog : Catalog} {name : String} {schema start : Nat}
    {fields : List Field} {settlements : List Settlement}
    (accepted : catalog.settleFields name schema start fields = .ok settlements) :
    (settlements.map Settlement.slot).Nodup := by
  induction fields generalizing start settlements with
  | nil =>
      cases accepted
      exact List.nodup_nil
  | cons field fields inductionHypothesis =>
      simp only [settleFields, bind_eq_ok_iff] at accepted
      rcases accepted with ⟨outcome, _, further, rest, same⟩
      cases outcome with
      | none =>
          rw [pure_eq_ok_iff] at same
          cases same
          exact inductionHypothesis rest
      | some settled =>
          rw [pure_eq_ok_iff] at same
          cases same
          rw [List.map_cons, List.nodup_cons]
          constructor
          · intro again
            rcases List.mem_map.mp again with ⟨other, among, slot⟩
            rcases (settleFields_eq_ok rest).1 other among with ⟨_, offset, _, place, _⟩
            have here : other.field = start := congrArg Prod.snd slot
            omega
          · exact inductionHypothesis rest

theorem mem_of_settleSchemas {catalog : Catalog} {positions : List Nat}
    {settlements : List Settlement}
    (accepted : catalog.settleSchemas positions = .ok settlements) :
    ∀ settlement ∈ settlements, settlement.schema ∈ positions := by
  induction positions generalizing settlements with
  | nil =>
      cases accepted
      simp
  | cons position positions inductionHypothesis =>
      intro settlement member
      unfold settleSchemas at accepted
      split at accepted
      · exact List.mem_cons_of_mem _ (inductionHypothesis accepted settlement member)
      · simp only [bind_eq_ok_iff, pure_eq_ok_iff] at accepted
        rcases accepted with ⟨here, looked, further, rest, rfl⟩
        rcases List.mem_append.mp member with inHere | beyond
        · rw [((settleFields_eq_ok looked).1 settlement inHere).1]
          exact List.mem_cons_self
        · exact List.mem_cons_of_mem _ (inductionHypothesis rest settlement beyond)

/-- Looking at every schema once settles no slot twice. -/
theorem nodup_settleSchemas {catalog : Catalog} {positions : List Nat}
    {settlements : List Settlement} (once : positions.Nodup)
    (accepted : catalog.settleSchemas positions = .ok settlements) :
    (settlements.map Settlement.slot).Nodup := by
  induction positions generalizing settlements with
  | nil =>
      cases accepted
      exact List.nodup_nil
  | cons position positions inductionHypothesis =>
      rw [List.nodup_cons] at once
      unfold settleSchemas at accepted
      split at accepted
      · exact inductionHypothesis once.2 accepted
      · simp only [bind_eq_ok_iff, pure_eq_ok_iff] at accepted
        rcases accepted with ⟨here, looked, further, rest, rfl⟩
        rw [List.map_append, List.nodup_append']
        refine ⟨nodup_settleFields looked, inductionHypothesis once.2 rest, ?_⟩
        rintro slot inHere beyond
        rcases List.mem_map.mp inHere with ⟨first, amongHere, rfl⟩
        rcases List.mem_map.mp beyond with ⟨second, amongRest, same⟩
        have schema : second.schema = position := by
          rw [← ((settleFields_eq_ok looked).1 first amongHere).1]
          exact congrArg Prod.fst same
        exact once.1 (schema ▸ mem_of_settleSchemas rest second amongRest)

/-! ## Placing a settlement -/

/-- The settlement ends the waiting of the field in its slot. -/
def Settlement.Ends (settlement : Settlement) (catalog : Catalog) : Prop :=
  ∃ old, catalog.fieldAt? settlement.slot = some old ∧
    settlement.settled.name = old.name ∧ old.isPending = true ∧
    settlement.settled.isPending = false

theorem Settlement.Fits.ends {settlement : Settlement} {catalog : Catalog}
    (fits : settlement.Fits catalog) (prepared : catalog.Prepared) :
    settlement.Ends catalog := by
  rcases fits with ⟨schema, field, found, present, accepted⟩
  have into := settlesInto_of_settleField accepted
  have templates := prepared.templates schema (List.mem_of_getElem? found) field
    (List.mem_of_getElem? present)
  exact ⟨field, fieldAt?_slot_eq_some_iff.mpr ⟨schema, found, present⟩, into.settles.name,
    Field.isPending_of_waits into.settles.waited, into.done templates⟩

/-- A settlement that is placed is found in its slot, and other slots stay as they are. -/
theorem fieldAt?_place {catalog : Catalog} {settlement : Settlement}
    (ends : settlement.Ends catalog) (slot : Nat × Nat) :
    (catalog.place settlement).fieldAt? slot =
      if settlement.slot = slot then some settlement.settled else catalog.fieldAt? slot := by
  rcases ends with ⟨old, held, name, _⟩
  rcases fieldAt?_slot_eq_some_iff.mp held with ⟨schema, found, present⟩
  rw [fieldAt?, schemas_place found]
  by_cases sameSchema : settlement.schema = slot.1
  · have inside : slot.1 < catalog.schemas.length :=
      sameSchema ▸ (List.getElem?_eq_some_iff.mp found).1
    rw [sameSchema, List.getElem?_set_self inside, Option.bind_some,
      Settlement.fields_placeIn (SchemaData.keepsName_of_name present name)]
    by_cases sameField : settlement.field = slot.2
    · have within : slot.2 < schema.fields.length :=
        sameField ▸ (List.getElem?_eq_some_iff.mp present).1
      rw [sameField, List.getElem?_set_self within, if_pos (Prod.ext sameSchema sameField)]
    · rw [List.getElem?_set_ne sameField, if_neg fun same => sameField (congrArg Prod.snd same),
        fieldAt?, ← sameSchema, found]
      rfl
  · rw [List.getElem?_set_ne sameSchema, if_neg fun same => sameSchema (congrArg Prod.fst same)]
    rfl

/-- One field less waits after a settlement. -/
theorem waitingFields_place {catalog : Catalog} {settlement : Settlement}
    (ends : settlement.Ends catalog) :
    (catalog.place settlement).waitingFields + 1 = catalog.waitingFields := by
  rcases ends with ⟨old, held, name, waited, done⟩
  rcases fieldAt?_slot_eq_some_iff.mp held with ⟨schema, found, present⟩
  rcases exists_set_eq found with ⟨schemas, others, split, swapped⟩
  rcases exists_set_eq present with ⟨fields, rest, here, placed⟩
  have inSchema :
      (settlement.placeIn schema).fields.countP Field.isPending + 1 =
        schema.fields.countP Field.isPending := by
    rw [Settlement.fields_placeIn (SchemaData.keepsName_of_name present name), placed, here,
      List.countP_append, List.countP_append, List.countP_cons_of_pos waited,
      List.countP_cons_of_neg (Bool.eq_false_iff.mp done)]
    rfl
  rw [waitingFields, waitingFields, schemas_place found, swapped, split]
  simp only [List.flatMap_append, List.flatMap_cons, List.countP_append]
  omega

/-! ## Placing all settlements of a pass -/

section Placing

variable {catalog : Catalog} {settlements : List Settlement}

/-- Settlements for other slots still end the waiting of their fields. -/
theorem Settlement.Ends.place {first other : Settlement} (ends : other.Ends catalog)
    (here : first.Ends catalog) (apart : first.slot ≠ other.slot) :
    other.Ends (catalog.place first) := by
  rcases ends with ⟨old, held, rest⟩
  refine ⟨old, ?_, rest⟩
  rw [fieldAt?_place here, if_neg apart, held]

/-- Settlements of different slots, each of which ends the waiting of its field. -/
structure Settlement.Apart (settlements : List Settlement) (catalog : Catalog) : Prop where
  once : (settlements.map Settlement.slot).Nodup
  ends : ∀ settlement ∈ settlements, settlement.Ends catalog

theorem Settlement.Apart.place {first : Settlement}
    (apart : Settlement.Apart (first :: settlements) catalog) :
    Settlement.Apart settlements (catalog.place first) := by
  rcases apart with ⟨once, ends⟩
  rw [List.map_cons, List.nodup_cons] at once
  rw [List.forall_mem_cons] at ends
  constructor
  · exact once.2
  · intro other member
    apply (ends.2 other member).place ends.1
    intro same
    exact once.1 (List.mem_map.mpr ⟨other, member, same.symm⟩)

/-- As many fields less wait as are settled. -/
theorem waitingFields_foldl_place (apart : Settlement.Apart settlements catalog) :
    (settlements.foldl place catalog).waitingFields + settlements.length =
      catalog.waitingFields := by
  induction settlements generalizing catalog with
  | nil => rfl
  | cons first settlements inductionHypothesis =>
      have further := inductionHypothesis apart.place
      have here := waitingFields_place (apart.ends first List.mem_cons_self)
      rw [List.foldl_cons, List.length_cons]
      omega

theorem fieldAt?_foldl_place_of_not_mem (apart : Settlement.Apart settlements catalog)
    {slot : Nat × Nat} (absent : slot ∉ settlements.map Settlement.slot) :
    (settlements.foldl place catalog).fieldAt? slot = catalog.fieldAt? slot := by
  induction settlements generalizing catalog with
  | nil => rfl
  | cons first settlements inductionHypothesis =>
      rw [List.map_cons, List.mem_cons, not_or] at absent
      rw [List.foldl_cons, inductionHypothesis apart.place absent.2,
        fieldAt?_place (apart.ends first List.mem_cons_self), if_neg (Ne.symm absent.1)]

theorem fieldAt?_foldl_place (apart : Settlement.Apart settlements catalog)
    {settlement : Settlement} (member : settlement ∈ settlements) :
    (settlements.foldl place catalog).fieldAt? settlement.slot = some settlement.settled := by
  induction settlements generalizing catalog with
  | nil => cases member
  | cons first settlements inductionHypothesis =>
      have absent := (List.nodup_cons.mp apart.once).1
      rw [List.foldl_cons]
      rcases List.mem_cons.mp member with rfl | below
      · rw [fieldAt?_foldl_place_of_not_mem apart.place absent,
          fieldAt?_place (apart.ends _ List.mem_cons_self), if_pos rfl]
      · exact inductionHypothesis apart.place below

end Placing

/-! ## What has settled -/

theorem countP_zip_add {left right : List Field}
    (fields : List.Forall₂ Field.KeptOrSettled left right) :
    (left.zip right).countP (fun fields => fields.1.isPending && !fields.2.isPending) +
      right.countP Field.isPending = left.countP Field.isPending := by
  induction fields with
  | nil => rfl
  | @cons field reached left right kept _ inductionHypothesis =>
      rw [List.zip_cons_cons, List.countP_cons, List.countP_cons, List.countP_cons]
      cases kept with
      | same => cases field.isPending <;> simp <;> omega
      | settled waited done _ =>
          simp only [waited, done]
          simp
          omega

namespace OnlySettles

variable {before after : Catalog}

/-- What waits in the end has waited at the start. -/
theorem waitsAt (settles : OnlySettles before after) {slot : Nat × Nat}
    (waits : after.WaitsAt slot) : before.WaitsAt slot := by
  rcases waits with ⟨field, held, waiting⟩
  rcases Option.bind_eq_some_iff.mp held with ⟨reached, found, present⟩
  rcases exists_getElem?_of_forall₂ settles.schemas.flip found with ⟨schema, here, follows⟩
  rcases exists_getElem?_of_forall₂ follows.fields.flip present with ⟨old, there, kept⟩
  exact ⟨old, Option.bind_eq_some_iff.mpr ⟨schema, here, there⟩, kept.isPending waiting⟩

/-- The fields that have waited wait still or have settled. -/
theorem settledFields_add (settles : OnlySettles before after) :
    settledFields before after + after.waitingFields = before.waitingFields := by
  apply countP_zip_add
  exact List.rel_flatMap settles.schemas fun _ _ follows => follows.fields

end OnlySettles

/-! ## All passes -/

/-- Passes one after another, as many as there are until one settles nothing or is
refused: from a catalog and the numbers of passes and settled fields so far, to the
settlements that the passes put in place, in order, and the step as a whole. -/
inductive Settling : Catalog → Nat → Nat → List Settlement →
    Step Catalog DefinitionError Nat → Prop where
  | refused {catalog : Catalog} {passes settled : Nat} {refusal : DefinitionError}
      (found : catalog.settleSchemas catalog.pending = .error refusal) :
      Settling catalog passes settled [] ⟨catalog, [], .error refusal⟩
  | finished {catalog : Catalog} {passes settled : Nat}
      (found : catalog.settleSchemas catalog.pending = .ok []) :
      Settling catalog passes settled [] ⟨catalog, [], .ok settled⟩
  | pass {catalog : Catalog} {passes settled : Nat} {here further : List Settlement}
      {step : Step Catalog DefinitionError Nat}
      (found : catalog.settleSchemas catalog.pending = .ok here) (progress : here ≠ [])
      (rest : Settling (catalog.placeAll here) (passes + 1) (settled + here.length) further
        step) :
      Settling catalog passes settled (here ++ further)
        { step with events := .passSettled (passes + 1) here.length :: step.events }

/-- The settlements of a pass over a prepared catalog are of different slots. -/
theorem Prepared.apart {catalog : Catalog} (prepared : catalog.Prepared)
    {settlements : List Settlement}
    (found : catalog.settleSchemas catalog.pending = .ok settlements) :
    Settlement.Apart settlements catalog := by
  constructor
  · exact nodup_settleSchemas prepared.once found
  · intro settlement member
    exact ((settleSchemas_eq_ok found).1 settlement member).ends prepared

theorem Prepared.onlySettles {catalog : Catalog} (prepared : catalog.Prepared)
    {settlements : List Settlement}
    (found : catalog.settleSchemas catalog.pending = .ok settlements) :
    OnlySettles catalog (catalog.placeAll settlements) :=
  prepared.placeAll (settleSchemas_eq_ok found).1

/-- The budget of waiting heads never runs out before the passes have come to an end. -/
theorem exists_settling_of_settleWithin {catalog : Catalog} {budget : Nat}
    (enough : catalog.pendingCount ≤ budget) (passes settled : Nat) :
    ∃ settlements, Settling catalog passes settled settlements
      (catalog.settleWithin budget passes settled) := by
  induction budget generalizing catalog passes settled with
  | zero =>
      have idle := isSettled_of_pendingCount (Nat.le_zero.mp enough)
      exact ⟨[], .finished (settleSchemas_of_isSettled idle _)⟩
  | succ budget inductionHypothesis =>
      unfold settleWithin
      split
      · rename_i refusal found
        exact ⟨[], .refused found⟩
      · rename_i found
        exact ⟨[], .finished found⟩
      · rename_i first others found
        have fewer := pendingCount_placeAll_lt (settleSchemas_eq_ok found).1
        have enoughNext : (catalog.placeAll (first :: others)).pendingCount ≤ budget := by
          omega
        rcases inductionHypothesis enoughNext (passes + 1) (settled + (others.length + 1)) with
          ⟨further, rest⟩
        exact ⟨(first :: others) ++ further, .pass found (by simp) rest⟩

namespace Settling

variable {catalog : Catalog} {passes settled : Nat} {settlements : List Settlement}
  {step : Step Catalog DefinitionError Nat}

theorem onlySettles (settling : Settling catalog passes settled settlements step)
    (prepared : catalog.Prepared) : OnlySettles catalog step.state := by
  induction settling with
  | refused => exact .refl prepared
  | finished => exact .refl prepared
  | pass found _ _ inductionHypothesis =>
      have here := prepared.onlySettles found
      exact here.trans (inductionHypothesis (here.prepared prepared))

/-- What is settled has waited at the start. -/
theorem waitsAt (settling : Settling catalog passes settled settlements step)
    (prepared : catalog.Prepared) :
    ∀ settlement ∈ settlements, catalog.WaitsAt settlement.slot := by
  induction settling with
  | refused => simp
  | finished => simp
  | pass found _ _ inductionHypothesis =>
      intro settlement member
      rcases List.mem_append.mp member with inHere | beyond
      · rcases (prepared.apart found).ends settlement inHere with
          ⟨old, held, _, waited, _⟩
        exact ⟨old, held, waited⟩
      · have here := prepared.onlySettles found
        exact here.waitsAt (inductionHypothesis (here.prepared prepared) settlement beyond)

/-- No field is settled twice. -/
theorem nodup (settling : Settling catalog passes settled settlements step)
    (prepared : catalog.Prepared) : (settlements.map Settlement.slot).Nodup := by
  induction settling with
  | refused => exact List.nodup_nil
  | finished => exact List.nodup_nil
  | @pass catalog passes settled here further step found _ rest inductionHypothesis =>
      have apart := prepared.apart found
      have preparedNext := (prepared.onlySettles found).prepared prepared
      rw [List.map_append, List.nodup_append']
      refine ⟨apart.once, inductionHypothesis preparedNext, ?_⟩
      rintro slot inHere beyond
      rcases List.mem_map.mp inHere with ⟨first, amongHere, rfl⟩
      rcases List.mem_map.mp beyond with ⟨second, amongRest, same⟩
      -- What the pass has settled does not wait, so no later pass settles it.
      have placed : (catalog.placeAll here).fieldAt? first.slot = some first.settled :=
        fieldAt?_foldl_place apart amongHere
      rcases apart.ends first amongHere with ⟨_, _, _, _, done⟩
      rcases rest.waitsAt preparedNext second amongRest with ⟨field, held, waits⟩
      rw [same, placed] at held
      cases held
      rw [done] at waits
      cases waits

theorem total_eq (settling : Settling catalog passes settled settlements step) {total : Nat}
    (accepted : step.result = .ok total) : total = settled + settlements.length := by
  induction settling with
  | refused => cases accepted
  | finished =>
      cases accepted
      rfl
  | pass _ _ _ inductionHypothesis =>
      rw [inductionHypothesis accepted, List.length_append, Nat.add_assoc]

theorem waitingFields_add (settling : Settling catalog passes settled settlements step)
    (prepared : catalog.Prepared) :
    step.state.waitingFields + settlements.length = catalog.waitingFields := by
  induction settling with
  | refused => rfl
  | finished => rfl
  | @pass catalog passes settled here further step found _ rest inductionHypothesis =>
      have next := (prepared.onlySettles found).prepared prepared
      have later := inductionHypothesis next
      have first : (catalog.placeAll here).waitingFields + here.length =
          catalog.waitingFields :=
        waitingFields_foldl_place (prepared.apart found)
      change step.state.waitingFields + (here ++ further).length = _
      rw [List.length_append]
      omega

end Settling

/-- Settling a prepared catalog comes to an end.  It settles no field twice, leaves all
but the settled fields and all but their shapes and fallbacks as they were, and when it
succeeds it answers how many fields have ceased to wait. -/
theorem settling_ends_and_counts {catalog : Catalog} (prepared : catalog.Prepared) :
    ∃ settlements, Settling catalog 0 0 settlements catalog.settle ∧
      (settlements.map Settlement.slot).Nodup ∧
      OnlySettles catalog catalog.settle.state ∧
      catalog.settle.state.schemas.map (·.index) = catalog.schemas.map (·.index) ∧
      ∀ total, catalog.settle.result = .ok total →
        total = settlements.length ∧ total = settledFields catalog catalog.settle.state := by
  have ends : ∃ settlements, Settling catalog 0 0 settlements catalog.settle :=
    exists_settling_of_settleWithin (Nat.le_refl _) 0 0
  rcases ends with ⟨settlements, settling⟩
  have settles := settling.onlySettles prepared
  refine ⟨settlements, settling, settling.nodup prepared, settles, settles.indices, ?_⟩
  intro total accepted
  have number := settling.total_eq accepted
  have ceased := settles.settledFields_add
  have left := settling.waitingFields_add prepared
  constructor <;> omega

/-- Loot takes its kind from an item, which waits for a crate as the shelf of an item
does; the ghost of an item waits for ever. -/
def lootSchemas : List Definition :=
  [.schema
    { name := "Loot"
      fields := [.lookup "worn" { table := "Item", keyField := "id", pickedField := "box" }] },
  .schema
    { name := "Item"
      fields :=
        [.ofKind "id" (.scalar (.integer .bits32)), .unresolved "box" "crate",
          .list "shelf" (.unresolved "slot" "Crate") 2, .unresolved "ghost" "Ghost"]
      distinct := by decide +kernel }]

/-- Loot and items with the crates they have waited for, before anything is settled. -/
def crateLoot : Catalog :=
  (addAll addDefinition empty lootSchemas).state.grown
    (.schema { name := "Crate", fields := [.ofKind "depth" (.scalar .text)] })

theorem prepared_crateLoot : crateLoot.Prepared := by
  have accepted : (addAll addDefinition empty lootSchemas).result = .ok () := by
    decide +kernel
  have vacant :
      (addAll addDefinition empty lootSchemas).state.contains "Crate" = false := by
    decide +kernel
  have indexed : crateLoot.Indexed :=
    (kept_empty.addAll accepted).sound.indexed.grown vacant
  exact indexed.prepared (by decide +kernel)

theorem crateLoot_settles_three :
    crateLoot.Prepared ∧ crateLoot.settle.result = .ok 3 ∧
      crateLoot.settle.events = [.passSettled 1 2, .passSettled 2 1] ∧
      settledFields crateLoot crateLoot.settle.state = 3 ∧
      OnlySettles crateLoot crateLoot.settle.state := by
  have accepted : crateLoot.settle.result = .ok 3 := by decide +kernel
  rcases settling_ends_and_counts prepared_crateLoot with
    ⟨settlements, _, _, settles, _, counted⟩
  exact ⟨prepared_crateLoot, accepted, by decide +kernel, (counted 3 accepted).2.symm, settles⟩

end Catalog

end Tabula
