import Tabula.Proofs.Field.Settling
import Tabula.Proofs.NameSet
import Tabula.Schema.Compatibility

/-!
# Compatible fields

What compatibility of two fields says about their heads and, for lists, about their elements.
Every head is compatible with itself, and so is every field that holds one value.
-/

namespace Tabula

/-- The field names the schema that it inlines if it embeds one, and so does its element if it
is a list. -/
def Field.NamesTarget : Field → Prop
  | .single head => head.shape ≠ .embedded none
  | .withElement head element =>
    head.shape ≠ .embedded none ∧ (head.shape.kind = .list → element.NamesTarget)

theorem Reference.sameTarget_iff {left right : Reference} :
    left.sameTarget right = true ↔
      NameKey.of left.table = NameKey.of right.table ∧
        NameKey.of left.keyField = NameKey.of right.keyField ∧
          NameKey.of left.pickedField = NameKey.of right.pickedField := by
  simp [sameTarget, and_assoc]

namespace Field

variable {left right : Field}

/-! ## Heads -/

theorem sameFlags_iff {left right : FieldHead} :
    sameFlags left right = true ↔
      left.autoIncrement = right.autoIncrement ∧ left.unique = right.unique ∧
        left.transient = right.transient ∧ left.nullable = right.nullable ∧
          left.groups.same right.groups = true ∧ left.disabled.same right.disabled = true ∧
            left.keys.same right.keys = true := by
  simp only [sameFlags, Bool.and_eq_true, decide_eq_true_eq, and_assoc]

theorem compatibleHeads_iff :
    compatibleHeads left right = true ↔
      left.kind = right.kind ∧ left.head.shape.count = right.head.shape.count ∧
        left.sameTarget right = true ∧ sameFlags left.head right.head = true := by
  simp [compatibleHeads, and_assoc]

theorem compatibleHeads_of_compatible (agree : left.compatible right = true) :
    compatibleHeads left right = true := by
  cases left <;> simp_all [compatible]

theorem sameFlags_of_compatible (agree : left.compatible right = true) :
    sameFlags left.head right.head = true :=
  (compatibleHeads_iff.mp (compatibleHeads_of_compatible agree)).2.2.2

/-- Compatible columns are both filled from counters, or neither is. -/
theorem autoIncrement_eq_of_compatible (agree : left.compatible right = true) :
    left.head.autoIncrement = right.head.autoIncrement :=
  (sameFlags_iff.mp (sameFlags_of_compatible agree)).1

/-- Compatible columns may both be empty, or neither may. -/
theorem nullable_eq_of_compatible (agree : left.compatible right = true) :
    left.head.nullable = right.head.nullable :=
  (sameFlags_iff.mp (sameFlags_of_compatible agree)).2.2.2.1

theorem sameTarget_of_references (inlinesNothing : left.target? = none)
    {reference other : Reference} (refers : left.reference? = some reference)
    (otherRefers : right.reference? = some other) :
    left.sameTarget right = reference.sameTarget other := by
  simp [sameTarget, inlinesNothing, refers, otherRefers]

theorem sameTarget_self (field : Field) : field.sameTarget field = true := by
  unfold sameTarget
  cases field.target? with
  | some target => simp
  | none => cases field.reference? <;> simp [Reference.sameTarget]

theorem compatibleHeads_self (field : Field) : compatibleHeads field field = true := by
  simp [compatibleHeads, sameFlags, sameTarget_self, NameSet.same_self]

/-! ## Elements -/

/-- Templates of elements matter to lists only. -/
theorem compatible_iff_of_kind_ne_list (notList : left.kind ≠ .list) :
    left.compatible right = true ↔ compatibleHeads left right = true := by
  cases left with
  | single head =>
      have bare : head.shape.kind ≠ .list := notList
      simp [compatible, bare]
  | withElement head element =>
      have bare : head.shape.kind ≠ .list := notList
      simp [compatible, bare]

/-- Lists are compatible when their heads and their elements are. -/
theorem compatible_withElement_iff {head otherHead : FieldHead} {element other : Field}
    (list : head.shape.kind = .list) :
    (withElement head element).compatible (withElement otherHead other) = true ↔
      compatibleHeads (withElement head element) (withElement otherHead other) = true ∧
        element.compatible other = true := by
  simp [compatible, list]

/-- Compatible lists have the same number of elements, and the elements are compatible. -/
theorem exists_elements_of_compatible (agree : left.compatible right = true) {count : Nat}
    (shape : left.head.shape = .list count) :
    right.head.shape = .list count ∧ ∃ element other, left.element? = some element ∧
      right.element? = some other ∧ element.compatible other = true := by
  obtain ⟨sameKind, sameCount, _⟩ := compatibleHeads_iff.mp (compatibleHeads_of_compatible agree)
  rw [Field.kind, Field.kind, shape] at sameKind
  rw [shape] at sameCount
  constructor
  · obtain ⟨others, otherShape⟩ := Shape.exists_list_of_kind sameKind.symm
    rw [otherShape] at sameCount
    rw [otherShape]
    exact congrArg Shape.list sameCount.symm
  · cases left with
    | single head =>
        have list : head.shape.kind = .list := congrArg Shape.kind shape
        simp [compatible, list] at agree
    | withElement head element =>
        have list : head.shape.kind = .list := congrArg Shape.kind shape
        cases right with
        | single _ => simp [compatible, list] at agree
        | withElement otherHead other =>
            exact ⟨element, other, rfl, rfl, ((compatible_withElement_iff list).mp agree).2⟩

theorem NamesTarget.head (named : left.NamesTarget) : left.head.shape ≠ .embedded none := by
  cases left with
  | single _ => exact named
  | withElement _ _ => exact named.1

theorem NamesTarget.element (named : left.NamesTarget) {count : Nat}
    (shape : left.head.shape = .list count) {element : Field}
    (elementFound : left.element? = some element) : element.NamesTarget := by
  cases left with
  | single _ => cases elementFound
  | withElement head other =>
      cases elementFound
      apply named.2
      have kind := congrArg Shape.kind shape
      exact kind

/-- An embedded field names the schema that it inlines, if all along its chain do. -/
theorem NamesTarget.exists_target (named : left.NamesTarget) (embedded : left.kind = .embedded) :
    ∃ target, left.head.shape = .embedded (some target) := by
  cases shape : left.head.shape with
  | embedded target =>
      cases target with
      | none => exact absurd shape named.head
      | some target => exact ⟨target, rfl⟩
  | scalar | list | lookup | unresolved =>
      rw [Field.kind, shape] at embedded
      cases embedded

/-! ## Fields that hold one value -/

/-- A field that holds one value is compatible with itself. -/
theorem compatible_self {field : Field} (flat : field.isFlat = true) :
    field.compatible field = true := by
  have notList : field.kind ≠ .list := by
    obtain ⟨kind, reference, shape, _⟩ := exists_scalar_of_isFlat flat
    simp [Field.kind, shape, Shape.kind]
  exact (compatible_iff_of_kind_ne_list notList).mpr field.compatibleHeads_self

end Field

theorem compatibleFields_iff {lefts rights : List Field} :
    compatibleFields lefts rights = true ↔
      List.Forall₂ (fun left right => left.compatible right = true) lefts rights := by
  induction lefts generalizing rights with
  | nil => cases rights <;> simp [compatibleFields]
  | cons left lefts inductionHypothesis =>
      cases rights with
      | nil => simp [compatibleFields]
      | cons right rights =>
          rw [compatibleFields, Bool.and_eq_true, inductionHypothesis, List.forall₂_cons]

theorem compatibleFields_self {fields : List Field} (flat : fields.all Field.isFlat = true) :
    compatibleFields fields fields = true := by
  rw [compatibleFields_iff, List.forall₂_same]
  intro field member
  exact field.compatible_self (List.all_eq_true.mp flat field member)

end Tabula
