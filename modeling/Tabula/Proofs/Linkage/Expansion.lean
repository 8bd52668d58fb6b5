import Mathlib.Data.List.Forall2
import Tabula.Linkage.Flattening

/-!
# The leaves of a schema

A field expands to leaves.  A scalar field and a lookup are leaves themselves, a list
expands to the leaves of its element once for each slot, and an embedded field expands
to the leaves of the fields of its target.  The path of a leaf says how to get to it
from a field of the schema, and a leaf is optional when a list or an embedded field that
may be empty lies on its path.

The leaves come in the order of a depth-first walk through the declarations, and there
is at most one list of them.
-/

namespace Tabula

/-- One step on the way from a field to a leaf. -/
inductive PathStep where
  /-- Into the element of a list at a position. -/
  | slot (position : Nat)
  /-- Into a field of the embedded schema. -/
  | child (name : String)

/-- The text of a step. -/
def PathStep.text : PathStep → String
  | slot position =>
    let number := Text.naturalText position
    s!"[{number}]"
  | child name => s!".{name}"

@[simp]
theorem PathStep.text_slot (position : Nat) :
    (slot position).text = "[" ++ Text.naturalText position ++ "]" :=
  rfl

/-- The text of a path that starts at a field of the given name. -/
def pathName (root : String) : List PathStep → String
  | [] => root
  | step :: steps => pathName (root ++ step.text) steps

/-- A leaf below a field. -/
structure Leaf where
  steps : List PathStep
  /-- A list or an embedded field that may be empty lies on the path. -/
  optional : Bool
  field : Field

namespace Leaf

/-- A field that is a leaf itself. -/
def here (field : Field) : Leaf :=
  ⟨[], false, field⟩

/-- A leaf of an element, seen from its list. -/
def inSlot (position : Nat) (leaf : Leaf) : Leaf :=
  { leaf with steps := .slot position :: leaf.steps, optional := true }

/-- A leaf below a field of a schema, seen from a field that embeds the schema. -/
def inChild (name : String) (nullable : Bool) (leaf : Leaf) : Leaf :=
  { leaf with steps := .child name :: leaf.steps, optional := leaf.optional || nullable }

end Leaf

namespace Linkage

/-- The field expands to the leaves. -/
inductive Expands (linkage : Linkage) : Field → List Leaf → Prop where
  | scalar {field : Field} {kind : ScalarKind} {reference : Option Reference}
      (shape : field.head.shape = .scalar kind reference) :
      Expands linkage field [.here field]
  | lookup {field : Field} {reference : Option Reference}
      (shape : field.head.shape = .lookup reference) : Expands linkage field [.here field]
  | bareList {field : Field} {count : Nat} (shape : field.head.shape = .list count)
      (bare : field.element? = none) : Expands linkage field []
  | list {field element : Field} {count : Nat} {leaves : List Leaf}
      (shape : field.head.shape = .list count) (elementFound : field.element? = some element)
      (slots : ∀ position < count, Expands linkage element leaves) :
      Expands linkage field ((List.range count).flatMap fun position =>
        leaves.map (.inSlot position))
  | embedded {field : Field} {target : Option String} {schema : Schema}
      {leavesOf : Field → List Leaf} (shape : field.head.shape = .embedded target)
      (schemaFound : linkage.schema? (target.getD "") = some schema)
      (children : ∀ child ∈ schema.fields, Expands linkage child (leavesOf child)) :
      Expands linkage field (schema.fields.flatMap fun child =>
        (leavesOf child).map (.inChild child.name field.head.nullable))

/-- The list of fields expands to the leaves, each with the name of the field that it
lies below. -/
def ExpandsAll (linkage : Linkage) (fields : List Field) (leaves : List (String × Leaf)) :
    Prop :=
  ∃ leavesOf : Field → List Leaf, (∀ field ∈ fields, Expands linkage field (leavesOf field)) ∧
    leaves = fields.flatMap fun field => (leavesOf field).map (field.name, ·)

/-- A field expands in one way. -/
theorem Expands.unique {linkage : Linkage} {field : Field} {leaves others : List Leaf}
    (first : Expands linkage field leaves) (second : Expands linkage field others) :
    leaves = others := by
  induction first generalizing others with
  | scalar shape =>
      cases second with
      | scalar => rfl
      | lookup otherShape => cases shape.symm.trans otherShape
      | bareList otherShape => cases shape.symm.trans otherShape
      | list otherShape => cases shape.symm.trans otherShape
      | embedded otherShape => cases shape.symm.trans otherShape
  | lookup shape =>
      cases second with
      | scalar otherShape => cases shape.symm.trans otherShape
      | lookup => rfl
      | bareList otherShape => cases shape.symm.trans otherShape
      | list otherShape => cases shape.symm.trans otherShape
      | embedded otherShape => cases shape.symm.trans otherShape
  | bareList shape bare =>
      cases second with
      | scalar otherShape => cases shape.symm.trans otherShape
      | lookup otherShape => cases shape.symm.trans otherShape
      | bareList => rfl
      | list _ elementFound => cases bare.symm.trans elementFound
      | embedded otherShape => cases shape.symm.trans otherShape
  | @list field element count leaves shape elementFound slots inductionHypothesis =>
      cases second with
      | scalar otherShape => cases shape.symm.trans otherShape
      | lookup otherShape => cases shape.symm.trans otherShape
      | bareList _ bare => cases bare.symm.trans elementFound
      | list otherShape otherFound otherSlots =>
          cases shape.symm.trans otherShape
          cases elementFound.symm.trans otherFound
          apply List.flatMap_congr
          intro position member
          have bound := List.mem_range.mp member
          rw [inductionHypothesis position bound (otherSlots position bound)]
      | embedded otherShape => cases shape.symm.trans otherShape
  | @embedded field target schema leavesOf shape schemaFound children inductionHypothesis =>
      cases second with
      | scalar otherShape => cases shape.symm.trans otherShape
      | lookup otherShape => cases shape.symm.trans otherShape
      | bareList otherShape => cases shape.symm.trans otherShape
      | list otherShape => cases shape.symm.trans otherShape
      | embedded otherShape otherFound otherChildren =>
          cases shape.symm.trans otherShape
          cases schemaFound.symm.trans otherFound
          apply List.flatMap_congr
          intro child member
          rw [inductionHypothesis child member (otherChildren child member)]

/-- A list of fields expands in one way. -/
theorem ExpandsAll.unique {linkage : Linkage} {fields : List Field}
    {leaves others : List (String × Leaf)} (first : ExpandsAll linkage fields leaves)
    (second : ExpandsAll linkage fields others) : leaves = others := by
  rcases first with ⟨leavesOf, expands, rfl⟩
  rcases second with ⟨othersOf, otherExpands, rfl⟩
  apply List.flatMap_congr
  intro field member
  rw [(expands field member).unique (otherExpands field member)]

end Linkage

end Tabula
