import Tabula.Proofs.Catalog.Names
import Tabula.Proofs.Field.Settling

/-!
# Settling a field against a catalog

What a field settles to depends on its catalog only through the definitions that its
names stand for.  A later catalog that still knows those, with kinds that have only
settled further, gives the same settlement or the same refusal.  Only a field that
nothing has settled yet can see a difference between the two.
-/

namespace Tabula

namespace Catalog

/-! ## What a field settles to -/

/-- What a field settles to when its type is the name of the definition. -/
def settleAs (schema : String) (field : Field) :
    Definition → Except DefinitionError (Option Field)
  | .schema target => .ok (some (field.settleEmbedded target.name))
  | .enumTable table =>
    ((field.settleLookup (enumReference table).1 (enumReference table).2).mapError
      (fallbackRefusal schema field)).map some

theorem settleCandidate_of_definition? {catalog : Catalog} {schema : String} {field : Field}
    {definition : Definition}
    (found : catalog.definition? field.head.typeText = some definition) :
    catalog.settleCandidate schema field = settleAs schema field definition := by
  rcases Option.bind_eq_some_iff.mp found with ⟨entry, meaning, here⟩
  unfold settleCandidate
  cases entry with
  | schema position =>
      rcases Option.map_eq_some_iff.mp here with ⟨target, present, rfl⟩
      simp only [meaning, schema?, present, settleAs]
  | enumTable position =>
      rcases Option.map_eq_some_iff.mp here with ⟨table, present, rfl⟩
      simp only [meaning, enumTable?, present, settleAs]

theorem settleCandidate_of_none {catalog : Catalog} {schema : String} {field : Field}
    (unknown : catalog.definition? field.head.typeText = none) :
    catalog.settleCandidate schema field = .ok none := by
  unfold settleCandidate
  split
  · rfl
  · rw [schema?_eq_bind, unknown]
    rfl
  · rw [enumTable?_eq_bind, unknown]
    rfl

/-- The rows that the reference points at are known, their key has the scalar kind, and the
field that is picked has a kind that waits for nothing. -/
inductive Refers (catalog : Catalog) (reference : Reference) (keyKind : ScalarKind)
    (pickedKind : Kind) : Prop where
  | intro {target : Schema} {key picked : Field}
      (rows : catalog.rowSchema? reference.table = some target)
      (keyFound : target.field? reference.keyField = some key)
      (pickedFound : target.field? reference.pickedField = some picked)
      (scalar : key.kind = .scalar keyKind) (kind : picked.kind = pickedKind)
      (calm : pickedKind.isPending = false)

/-- A lookup whose key is scalar and whose picked field waits for nothing settles. -/
theorem settleReference_of_refers {catalog : Catalog} {schema : String} {field : Field}
    {reference : Reference} {keyKind : ScalarKind} {pickedKind : Kind}
    (refers : catalog.Refers reference keyKind pickedKind) :
    catalog.settleReference schema field reference =
      ((field.settleLookup { reference with pickedKind := some pickedKind } keyKind).mapError
        (fallbackRefusal schema field)).map some := by
  rcases refers with ⟨rows, keyFound, pickedFound, scalar, rfl, calm⟩
  unfold settleReference
  simp only [rows, keyFound, pickedFound, scalar, calm, Bool.false_eq_true, if_false]

/-- A lookup that settles, or is refused, has a scalar key and a picked field that waits
for nothing. -/
theorem refers_of_settleReference {catalog : Catalog} {schema : String} {field : Field}
    {reference : Reference}
    (decided : catalog.settleReference schema field reference ≠ .ok none) :
    ∃ keyKind pickedKind, catalog.Refers reference keyKind pickedKind := by
  unfold settleReference at decided
  split at decided
  · exact absurd rfl decided
  · rename_i target rows
    split at decided
    · rename_i key picked keyFound pickedFound
      split at decided
      · rename_i keyKind scalar
        split at decided
        · exact absurd rfl decided
        · rename_i calm
          exact ⟨keyKind, picked.kind, rows, keyFound, pickedFound, scalar, rfl,
            Bool.eq_false_iff.mpr calm⟩
      · exact absurd rfl decided
    · exact absurd rfl decided

/-! ## What settles and what does not -/

theorem settlesInto_of_settleCandidate {catalog : Catalog} {schema : String}
    {field settled : Field} (waiting : field.kind.isPending = true)
    (accepted : catalog.settleCandidate schema field = .ok (some settled)) :
    field.SettlesInto settled := by
  cases found : catalog.definition? field.head.typeText with
  | none =>
      rw [settleCandidate_of_none found] at accepted
      cases accepted
  | some definition =>
      rw [settleCandidate_of_definition? found] at accepted
      cases definition with
      | schema target =>
          cases accepted
          exact .embedded waiting target.name
      | enumTable table =>
          rw [settleAs, map_some_eq_ok_iff, mapError_eq_ok_iff] at accepted
          exact .lookup waiting accepted

theorem settlesInto_of_settleReference {catalog : Catalog} {schema : String}
    {field settled : Field} {reference : Reference} (waiting : field.kind.isPending = true)
    (accepted : catalog.settleReference schema field reference = .ok (some settled)) :
    field.SettlesInto settled := by
  have decided : catalog.settleReference schema field reference ≠ .ok none := by
    simp [accepted]
  obtain ⟨keyKind, pickedKind, refers⟩ := refers_of_settleReference decided
  rw [settleReference_of_refers refers, map_some_eq_ok_iff, mapError_eq_ok_iff] at accepted
  exact .lookup waiting accepted

theorem settlesInto_of_settleHead {catalog : Catalog} {schema : String} {field settled : Field}
    (accepted : catalog.settleHead schema field = .ok (some settled)) :
    field.SettlesInto settled := by
  unfold settleHead at accepted
  split at accepted
  · rename_i shape
    have waiting : field.kind.isPending = true := by
      rw [Field.kind, shape]
      rfl
    exact settlesInto_of_settleCandidate waiting accepted
  · rename_i reference shape
    have waiting : field.kind.isPending = true := by
      rw [Field.kind, shape]
      rfl
    exact settlesInto_of_settleReference waiting accepted
  · cases accepted

/-- A field that is settled is settled in one of the ways. -/
theorem settlesInto_of_settleField {catalog : Catalog} {schema : String} {field settled : Field}
    (accepted : catalog.settleField schema field = .ok (some settled)) :
    field.SettlesInto settled := by
  induction field generalizing settled with
  | single head => exact settlesInto_of_settleHead accepted
  | withElement head element inductionHypothesis =>
      unfold settleField at accepted
      split at accepted
      · rename_i count list
        split at accepted
        · cases accepted
        · cases accepted
        · rename_i below here
          rw [map_some_eq_ok_iff, mapError_eq_ok_iff] at accepted
          exact .element list (inductionHypothesis here) accepted
      · exact settlesInto_of_settleHead accepted

/-- Settling a field is a settlement. -/
theorem settles_of_settleField {catalog : Catalog} {schema : String} {field settled : Field}
    (accepted : catalog.settleField schema field = .ok (some settled)) :
    field.Settles settled :=
  (settlesInto_of_settleField accepted).settles

theorem settleHead_of_calm (catalog : Catalog) (schema : String) {field : Field}
    (calm : field.kind.isPending = false) : catalog.settleHead schema field = .ok none := by
  unfold settleHead
  split
  · rename_i shape
    rw [Field.kind, shape] at calm
    cases calm
  · rename_i reference shape
    rw [Field.kind, shape] at calm
    cases calm
  · rfl

/-- A field that does not wait settles nowhere. -/
theorem settleField_of_calm (catalog : Catalog) (schema : String) {field : Field}
    (calm : field.waits = false) : catalog.settleField schema field = .ok none := by
  induction field with
  | single head => exact settleHead_of_calm catalog schema calm
  | withElement head element inductionHypothesis =>
      unfold settleField
      split
      · rename_i count list
        have below : element.waits = false := by simpa [Field.waits, list] using calm
        rw [inductionHypothesis below]
      · rename_i notList
        apply settleHead_of_calm catalog schema
        rw [← Field.waits_of_kind, calm]
        intro list
        obtain ⟨count, shape⟩ := Shape.exists_list_of_kind list
        exact notList count shape

/-- A settled field settles in no catalog any more. -/
theorem settleField_of_settles (catalog : Catalog) (schema : String) {before after : Field}
    (settles : before.Settles after) : catalog.settleField schema after = .ok none :=
  settleField_of_calm catalog schema settles.done

/-! ## Later catalogs -/

/-- A later catalog knows what an earlier one knows, up to a change of fields. -/
structure Follows (Related : String → Field → Field → Prop) (earlier later : Catalog) :
    Prop where
  known {name : String} {definition : Definition} :
    earlier.definition? name = some definition →
      ∃ reached, later.definition? name = some reached ∧ definition.Follows Related reached

/-- The fields have one name, and one kind unless the first still waits for its own. -/
def KeepsKind (before after : Field) : Prop :=
  after.name = before.name ∧ (before.kind.isPending = true ∨ after.kind = before.kind)

theorem KeepsKind.refl (field : Field) : KeepsKind field field :=
  ⟨rfl, Or.inr rfl⟩

theorem KeepsKind.kind_eq {before after : Field} (keeps : KeepsKind before after)
    (calm : before.kind.isPending = false) : after.kind = before.kind := by
  rcases keeps.2 with pending | same
  · rw [calm] at pending
    cases pending
  · exact same

/-- A later catalog knows at least what an earlier one has settled. -/
abbrev Informs (earlier later : Catalog) : Prop :=
  Follows (fun _ => KeepsKind) earlier later

namespace Informs

variable {earlier later : Catalog}

theorem rowSchema? (informs : Informs earlier later) {name : String} {target : Schema}
    (rows : earlier.rowSchema? name = some target) :
    ∃ reached, later.rowSchema? name = some reached ∧
      Schema.Follows KeepsKind target reached := by
  rw [rowSchema?_eq_map] at rows ⊢
  rcases Option.map_eq_some_iff.mp rows with ⟨definition, found, rfl⟩
  obtain ⟨reached, foundLater, follows⟩ := informs.known found
  rw [foundLater]
  cases follows with
  | schema follows => exact ⟨_, rfl, follows⟩
  | enumTable table => exact ⟨_, rfl, .refl KeepsKind.refl table.schema⟩

theorem settleCandidate (informs : Informs earlier later) {schema : String} {field : Field}
    (decided : earlier.settleCandidate schema field ≠ .ok none) :
    later.settleCandidate schema field = earlier.settleCandidate schema field := by
  cases found : earlier.definition? field.head.typeText with
  | none => exact absurd (settleCandidate_of_none found) decided
  | some definition =>
      obtain ⟨reached, foundLater, follows⟩ := informs.known found
      rw [settleCandidate_of_definition? found, settleCandidate_of_definition? foundLater]
      cases follows with
      | schema follows => rw [settleAs, settleAs, follows.name]
      | enumTable table => rfl

/-- The kinds that a reference leads to stay what they are. -/
theorem refers (informs : Informs earlier later) {reference : Reference}
    {keyKind : ScalarKind} {pickedKind : Kind}
    (refers : earlier.Refers reference keyKind pickedKind) :
    later.Refers reference keyKind pickedKind := by
  rcases refers with ⟨rows, keyFound, pickedFound, scalar, rfl, calm⟩
  obtain ⟨reached, rowsLater, follows⟩ := informs.rowSchema? rows
  obtain ⟨laterKey, keyLater, keyKept⟩ := follows.field? And.left keyFound
  obtain ⟨laterPicked, pickedLater, pickedKept⟩ := follows.field? And.left pickedFound
  refine ⟨rowsLater, keyLater, pickedLater, ?_, pickedKept.kind_eq calm, calm⟩
  rw [← scalar]
  apply keyKept.kind_eq
  rw [scalar]
  rfl

theorem settleReference (informs : Informs earlier later) {schema : String} {field : Field}
    {reference : Reference}
    (decided : earlier.settleReference schema field reference ≠ .ok none) :
    later.settleReference schema field reference =
      earlier.settleReference schema field reference := by
  obtain ⟨keyKind, pickedKind, refers⟩ := refers_of_settleReference decided
  rw [settleReference_of_refers refers, settleReference_of_refers (informs.refers refers)]

theorem settleHead (informs : Informs earlier later) {schema : String} {field : Field}
    (decided : earlier.settleHead schema field ≠ .ok none) :
    later.settleHead schema field = earlier.settleHead schema field := by
  unfold Catalog.settleHead at decided ⊢
  split
  · rename_i shape
    rw [shape] at decided
    exact informs.settleCandidate decided
  · rename_i reference shape
    rw [shape] at decided
    exact informs.settleReference decided
  · rfl

/-- A field that settles, or is refused, does the same later. -/
theorem settleField (informs : Informs earlier later) {schema : String} {field : Field}
    (decided : earlier.settleField schema field ≠ .ok none) :
    later.settleField schema field = earlier.settleField schema field := by
  induction field with
  | single head => exact informs.settleHead decided
  | withElement head element inductionHypothesis =>
      unfold Catalog.settleField at decided ⊢
      split
      · rename_i count list
        have below : earlier.settleField schema element ≠ .ok none := by
          intro undecided
          simp only [list, undecided] at decided
          exact decided rfl
        rw [inductionHypothesis below]
      · rename_i notList
        split at decided
        · rename_i count list
          exact absurd list (notList count)
        · exact informs.settleHead decided

/-- A settlement or a refusal carries over to later catalogs. -/
theorem settleField_eq (informs : Informs earlier later) {schema : String} {field : Field}
    {outcome : Except DefinitionError (Option Field)}
    (reached : earlier.settleField schema field = outcome) (decided : outcome ≠ .ok none) :
    later.settleField schema field = outcome := by
  subst reached
  exact informs.settleField decided

end Informs

end Catalog

end Tabula
