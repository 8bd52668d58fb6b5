import Tabula.Proofs.Linkage.Embedding
import Tabula.Proofs.Linkage.LookupWalks
import Tabula.Proofs.Table.Adoption

/-!
# Flattening compatible schemas

Compatibility knows nothing of names, descriptions, fallbacks and remembered kinds.  What a
field expands to depends on none of them either: compatible fields have the same number of
leaves, and these are compatible in pairs and optional in pairs.  Lookups of one target settle
to one kind, since the keys of names are all that a chain of lookups goes by.  So schemas that
are compatible become flat schemas that are.

An embedded field that names no schema is left aside.  It is compatible with every embedded
field, but stands for the schema of the empty name.
-/

namespace Tabula

/-- The leaves are compatible as fields, and both are optional or neither is. -/
def Leaf.Agrees (left right : Leaf) : Prop :=
  left.optional = right.optional ∧ Field.compatibleHeads left.field right.field = true

namespace Linkage

variable {linkage : Linkage}

/-! ## Leaves of compatible fields -/

/-- The leaves of a list are those of its element, once for each slot. -/
theorem Expands.exists_slots {field element : Field} {count : Nat} {leaves : List Leaf}
    (expands : Expands linkage field leaves) (shape : field.head.shape = .list count)
    (elementFound : field.element? = some element) :
    ∃ below, leaves = ((List.range count).flatMap fun position => below.map (.inSlot position)) ∧
      ∀ position < count, Expands linkage element below := by
  cases expands with
  | scalar otherShape => cases shape.symm.trans otherShape
  | lookup otherShape => cases shape.symm.trans otherShape
  | bareList _ bare => cases bare.symm.trans elementFound
  | list otherShape otherFound slots =>
      cases shape.symm.trans otherShape
      cases elementFound.symm.trans otherFound
      exact ⟨_, rfl, slots⟩
  | embedded otherShape => cases shape.symm.trans otherShape

theorem agrees_self (leaf : Leaf) : leaf.Agrees leaf :=
  ⟨rfl, Field.compatibleHeads_self leaf.field⟩

/-- Compatible fields expand to leaves that agree, one after another. -/
theorem Expands.agrees {left right : Field} {leaves others : List Leaf}
    (expands : Expands linkage left leaves) (otherExpands : Expands linkage right others)
    (agree : left.compatible right = true) (leftNamed : left.NamesTarget)
    (rightNamed : right.NamesTarget) : List.Forall₂ Leaf.Agrees leaves others := by
  induction expands generalizing right others with
  | scalar shape =>
      have heads := Field.compatibleHeads_of_compatible agree
      have sameKind := (Field.compatibleHeads_iff.mp heads).1
      rw [Field.kind, shape] at sameKind
      obtain ⟨_, otherShape⟩ := Shape.exists_scalar_of_kind sameKind.symm
      cases otherExpands.unique (.scalar otherShape)
      exact .cons ⟨rfl, heads⟩ .nil
  | lookup shape =>
      have heads := Field.compatibleHeads_of_compatible agree
      have sameKind := (Field.compatibleHeads_iff.mp heads).1
      rw [Field.kind, shape] at sameKind
      obtain ⟨_, otherShape⟩ := Shape.exists_lookup_of_kind sameKind.symm
      cases otherExpands.unique (.lookup otherShape)
      exact .cons ⟨rfl, heads⟩ .nil
  | bareList shape bare =>
      obtain ⟨_, _, _, elementFound, _⟩ := Field.exists_elements_of_compatible agree shape
      cases bare.symm.trans elementFound
  | @list field element count leaves shape elementFound slots inductionHypothesis =>
      obtain ⟨otherShape, _, other, found, otherFound, elementsAgree⟩ :=
        Field.exists_elements_of_compatible agree shape
      cases elementFound.symm.trans found
      obtain ⟨below, same, otherSlots⟩ := otherExpands.exists_slots otherShape otherFound
      subst same
      rw [List.flatMap_def, List.flatMap_def]
      apply List.rel_flatten
      rw [List.forall₂_map_left_iff, List.forall₂_map_right_iff, List.forall₂_same]
      intro position member
      have inside := List.mem_range.mp member
      rw [List.forall₂_map_left_iff, List.forall₂_map_right_iff]
      have inElement := inductionHypothesis position inside (otherSlots position inside)
        elementsAgree (leftNamed.element shape elementFound)
        (rightNamed.element otherShape otherFound)
      exact inElement.imp fun _ _ agrees => ⟨rfl, agrees.2⟩
  | @embedded field target schema leavesOf shape schemaFound children _ =>
      obtain ⟨sameKind, _, sameTarget, _⟩ :=
        Field.compatibleHeads_iff.mp (Field.compatibleHeads_of_compatible agree)
      have embedded : field.kind = .embedded := congrArg Shape.kind shape
      obtain ⟨name, leftShape⟩ := leftNamed.exists_target embedded
      obtain ⟨other, otherShape⟩ := rightNamed.exists_target (sameKind.symm.trans embedded)
      cases shape.symm.trans leftShape
      have sameSchema : linkage.schema? other = some schema := by
        simp only [Field.sameTarget, Field.target?, leftShape, otherShape, Shape.target?,
          decide_eq_true_eq] at sameTarget
        rw [schema?, ← sameTarget]
        exact schemaFound
      -- Both inline one schema, so their leaves are the same but for names above them.
      cases otherExpands.unique (.embedded otherShape sameSchema children)
      rw [Field.nullable_eq_of_compatible agree]
      exact List.forall₂_same.mpr fun leaf _ => agrees_self leaf

/-! ## Columns of leaves that agree -/

/-- Where a chain of lookups ends depends on the keys of the names only. -/
theorem LeadsTo.congr {table field other otherField : String} {kind : ScalarKind}
    (leads : LeadsTo linkage table field kind)
    (same : place table field = place other otherField) :
    LeadsTo linkage other otherField kind := by
  cases leads with
  | scalar schemaFound fieldFound shape =>
      have found := fieldAt?_eq schemaFound fieldFound
      rw [fieldAt?_congr same] at found
      obtain ⟨_, otherSchema, otherFound⟩ := Option.bind_eq_some_iff.mp found
      exact .scalar otherSchema otherFound shape
  | lookup schemaFound fieldFound shape further =>
      have found := fieldAt?_eq schemaFound fieldFound
      rw [fieldAt?_congr same] at found
      obtain ⟨_, otherSchema, otherFound⟩ := Option.bind_eq_some_iff.mp found
      exact .lookup otherSchema otherFound shape further

/-- Compatible heads settle to compatible heads: lookups of one target lead to one kind. -/
theorem SettlesHead.compatible {left right settled other : FieldHead}
    (settles : SettlesHead linkage left settled) (otherSettles : SettlesHead linkage right other)
    (agree : Field.compatibleHeads (.single left) (.single right) = true) :
    Field.compatibleHeads (.single settled) (.single other) = true := by
  obtain ⟨sameKind, _, sameTarget, flags⟩ := Field.compatibleHeads_iff.mp agree
  have kinds : left.shape.kind = right.shape.kind := sameKind
  cases settles with
  | scalar shape =>
      cases otherSettles with
      | scalar => exact agree
      | lookup otherShape =>
          rw [shape, otherShape] at kinds
          cases kinds
  | @lookup reference keyKind _ _ shape key =>
      cases otherSettles with
      | scalar otherShape =>
          rw [shape, otherShape] at kinds
          cases kinds
      | @lookup otherReference otherKind _ _ otherShape otherKey =>
          have inlinesNothing : (Field.single left).target? = none := congrArg Shape.target? shape
          have refers : (Field.single left).reference? = some reference :=
            congrArg Shape.reference? shape
          have otherRefers : (Field.single right).reference? = some otherReference :=
            congrArg Shape.reference? otherShape
          have target : reference.sameTarget otherReference = true := by
            rw [← Field.sameTarget_of_references inlinesNothing refers otherRefers]
            exact sameTarget
          obtain ⟨sameTable, sameField, _⟩ := Reference.sameTarget_iff.mp target
          have one : keyKind = otherKind := by
            apply key.unique
            apply otherKey.congr
            rw [place, place, ← sameTable, ← sameField]
          subst one
          exact Field.compatibleHeads_iff.mpr ⟨rfl, rfl, target, flags⟩

theorem SettlesHead.exists_kind {head settled : FieldHead}
    (settles : SettlesHead linkage head settled) : ∃ kind, settled.shape.kind = .scalar kind := by
  cases settles with
  | scalar shape => exact ⟨_, congrArg Shape.kind shape⟩
  | lookup => exact ⟨_, rfl⟩

/-- The columns of leaves that agree are compatible. -/
theorem IsColumn.compatible {root otherRoot : String} {leaf other : Leaf}
    {column otherColumn : Field} (isColumn : IsColumn linkage root leaf column)
    (otherIsColumn : IsColumn linkage otherRoot other otherColumn) (agrees : leaf.Agrees other) :
    column.compatible otherColumn = true := by
  obtain ⟨settled, settles, same⟩ := isColumn
  obtain ⟨otherSettled, otherSettles, otherSame⟩ := otherIsColumn
  obtain ⟨kinds, counts, targets, flags⟩ :=
    Field.compatibleHeads_iff.mp (settles.compatible otherSettles agrees.2)
  have shapes : column.head.shape = settled.shape := by rw [same]
  have otherShapes : otherColumn.head.shape = otherSettled.shape := by rw [otherSame]
  have notList : column.kind ≠ .list := by
    obtain ⟨kind, scalar⟩ := settles.exists_kind
    rw [Field.kind, shapes, scalar]
    exact Kind.noConfusion
  rw [Field.compatible_iff_of_kind_ne_list notList, Field.compatibleHeads_iff]
  refine ⟨?_, ?_, ?_, ?_⟩
  · rw [Field.kind, Field.kind, shapes, otherShapes]
    exact kinds
  · rw [shapes, otherShapes]
    exact counts
  · rw [Field.sameTarget, Field.target?, Field.target?, Field.reference?, Field.reference?, shapes,
      otherShapes]
    exact targets
  · obtain ⟨counters, uniques, transients, nullables, tags⟩ := Field.sameFlags_iff.mp flags
    rw [same, otherSame, Field.sameFlags_iff]
    refine ⟨counters, uniques, transients, ?_, tags⟩
    exact congrArg₂ or nullables agrees.1

/-! ## Flat forms -/

/-- The lists of fields have leaves that agree, one after another. -/
theorem ExpandsAll.agrees {fields others : List Field} {leaves otherLeaves : List (String × Leaf)}
    (expands : ExpandsAll linkage fields leaves) (otherExpands : ExpandsAll linkage others otherLeaves)
    (agree : compatibleFields fields others = true) (named : ∀ field ∈ fields, field.NamesTarget)
    (otherNamed : ∀ field ∈ others, field.NamesTarget) :
    List.Forall₂ (fun leaf other => leaf.2.Agrees other.2) leaves otherLeaves := by
  obtain ⟨leavesOf, each, rfl⟩ := expands
  obtain ⟨othersOf, otherEach, rfl⟩ := otherExpands
  rw [compatibleFields_iff] at agree
  induction agree with
  | nil => exact .nil
  | cons here _ inductionHypothesis =>
      rw [List.forall_mem_cons] at each otherEach named otherNamed
      rw [List.flatMap_cons, List.flatMap_cons]
      apply List.rel_append _ (inductionHypothesis named.2 otherNamed.2 each.2 otherEach.2)
      rw [List.forall₂_map_left_iff, List.forall₂_map_right_iff]
      exact each.1.agrees otherEach.1 here named.1 otherNamed.1

/-- Compatible schemas whose embedded fields name what they inline have compatible flat
forms, whenever both become flat. -/
theorem compatible_schemas_become_compatible {left right : Schema} {leftFlat rightFlat : FlatSchema}
    (leftNamed : ∀ field ∈ left.fields, field.NamesTarget)
    (rightNamed : ∀ field ∈ right.fields, field.NamesTarget)
    (agree : left.compatible right = true)
    (leftFlattened : linkage.flatten left = .ok leftFlat)
    (rightFlattened : linkage.flatten right = .ok rightFlat) :
    leftFlat.schema.compatible rightFlat.schema = true := by
  obtain ⟨leaves, expands, columns⟩ := haveColumns_of_flatten leftFlattened
  obtain ⟨otherLeaves, otherExpands, otherColumns⟩ := haveColumns_of_flatten rightFlattened
  have agrees := expands.agrees otherExpands agree leftNamed rightNamed
  rw [Schema.compatible, compatibleFields_iff]
  -- Each column is that of a leaf, which agrees with the leaf of its counterpart.
  have fromLeaves : List.Forall₂ (fun column (other : String × Leaf) =>
      ∃ root leaf, IsColumn linkage root leaf column ∧ leaf.Agrees other.2)
      leftFlat.fields otherLeaves :=
    forall₂_trans columns.flip agrees fun isColumn here => ⟨_, _, isColumn, here⟩
  exact forall₂_trans fromLeaves otherColumns fun ⟨_, _, isColumn, here⟩ otherIsColumn =>
    isColumn.compatible otherIsColumn here

/-! ## Two schemas of trips -/

/-- A trip in other words: no name is that of a trip, and no target is spelled alike. -/
def voyageSchema : Schema where
  name := "Voyage"
  description := "A trip by sea."
  fields :=
    [.embedded "port" "PLACE", .list "calls" (.embedded "call" "Place") 2,
    .single
      { name := "quarters", typeText := "place", nullable := true
        shape := .embedded (some "place") }]
  distinct := by decide +kernel

theorem voyage_becomes_compatible_with_trip :
    (∀ field ∈ tripSchema.fields, field.NamesTarget) ∧
    (∀ field ∈ voyageSchema.fields, field.NamesTarget) ∧
    ∃ flat other, tripLinkage.flatten tripSchema = .ok flat ∧
      tripLinkage.flatten voyageSchema = .ok other ∧
      other.fields.map Field.name =
        ["port.city", "port.zone", "calls[0].city", "calls[0].zone", "calls[1].city",
          "calls[1].zone", "quarters.city", "quarters.zone"] ∧
      tripSchema.compatible voyageSchema = true ∧ flat.schema.compatible other.schema = true := by
  have computed : (do
      let _ ← tripLinkage.flatten tripSchema
      let other ← tripLinkage.flatten voyageSchema
      return other.fields.map Field.name) =
      .ok ["port.city", "port.zone", "calls[0].city", "calls[0].zone", "calls[1].city",
        "calls[1].zone", "quarters.city", "quarters.zone"] := by
    decide +kernel
  simp only [bind_eq_ok_iff, pure_eq_ok_iff] at computed
  obtain ⟨flat, flattened, other, otherFlattened, names⟩ := computed
  have named : ∀ field ∈ tripSchema.fields, field.NamesTarget := by
    simp [tripSchema, Field.NamesTarget, Field.embedded, Field.list]
  have otherNamed : ∀ field ∈ voyageSchema.fields, field.NamesTarget := by
    simp [voyageSchema, Field.NamesTarget, Field.embedded, Field.list]
  have agree : tripSchema.compatible voyageSchema = true := by
    decide +kernel
  exact ⟨named, otherNamed, flat, other, flattened, otherFlattened, names, agree,
    compatible_schemas_become_compatible named otherNamed agree flattened otherFlattened⟩

end Linkage

end Tabula
