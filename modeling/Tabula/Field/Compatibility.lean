import Tabula.Field

/-!
# Structural compatibility of fields

Two fields are compatible when rows may pass from one to the other: their kinds,
targets, counts, flags and tag sets agree.  Names, descriptions, written types and
fallbacks take no part.
-/

namespace Tabula

namespace Field

/-- The fields inline the same schema, or look up the same row, or neither does
either. -/
def sameTarget (left right : Field) : Bool :=
  match left.target?, right.target? with
  | some first, some second => NameKey.of first = NameKey.of second
  | _, _ =>
    match left.reference?, right.reference? with
    | some first, some second => first.sameTarget second
    | none, none => true
    | _, _ => false

/-- The flags and tag sets of two heads agree. -/
def sameFlags (left right : FieldHead) : Bool :=
  left.autoIncrement = right.autoIncrement && left.unique = right.unique &&
    left.transient = right.transient && left.nullable = right.nullable &&
    left.groups.same right.groups && left.disabled.same right.disabled &&
    left.keys.same right.keys

/-- The fields are compatible as far as their heads tell. -/
def compatibleHeads (left right : Field) : Bool :=
  left.kind = right.kind && left.head.shape.count = right.head.shape.count &&
    left.sameTarget right && sameFlags left.head right.head

/-- The fields are compatible: their heads are and, for lists, their templates are.  A
list without a template is compatible with nothing. -/
def compatible : Field → Field → Bool
  | single head, right => compatibleHeads (single head) right && head.shape.kind ≠ .list
  | withElement head element, right =>
    compatibleHeads (withElement head element) right &&
      (head.shape.kind ≠ .list ||
        match right with
        | single _ => false
        | withElement _ other => element.compatible other)

@[simp]
theorem kind_eq_of_compatible {left right : Field} (agree : left.compatible right = true) :
    left.kind = right.kind := by
  cases left <;> simp_all [compatible, compatibleHeads]

end Field

end Tabula
