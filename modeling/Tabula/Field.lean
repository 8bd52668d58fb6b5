import Tabula.Name
import Tabula.Value

/-!
# Fields

A field has a name, a kind and a number of attributes.  What a kind needs to know
beyond its name is part of the field's shape: an embedded field may know the schema it
inlines, a lookup may know the row it points at, a list knows how many elements it has.
A scalar field that came from a lookup keeps its reference.

A field may carry the template of its elements, which is a field again; only lists make
use of it.  So a field is a chain of heads, and everything about fields is recursion
along that chain.
-/

namespace Tabula

/-- The row a lookup points at, and what it takes from there. -/
structure Reference where
  /-- The table or schema that holds the row. -/
  table : String
  /-- The field whose value the cell repeats. -/
  keyField : String
  /-- The field that the lookup yields. -/
  pickedField : String
  /-- The kind of the picked field, once it is known. -/
  pickedKind : Option Kind := none

/-- The references address the same table, key and picked field. -/
def Reference.sameTarget (left right : Reference) : Bool :=
  NameKey.of left.table = NameKey.of right.table &&
    NameKey.of left.keyField = NameKey.of right.keyField &&
    NameKey.of left.pickedField = NameKey.of right.pickedField

/-- What a field is, with what its kind knows. -/
inductive Shape where
  | scalar (kind : ScalarKind) (reference : Option Reference)
  | list (count : Nat)
  | embedded (target : Option String)
  | lookup (reference : Option Reference)
  | unresolved

namespace Shape

/-- The kind of a shape. -/
def kind : Shape → Kind
  | scalar kind _ => .scalar kind
  | list _ => .list
  | embedded _ => .embedded
  | lookup _ => .lookup
  | unresolved => .unresolved

/-- The shape of a kind that knows nothing yet. -/
def ofKind : Kind → Shape
  | .scalar kind => scalar kind none
  | .list => list 0
  | .embedded => embedded none
  | .lookup => lookup none
  | .unresolved => unresolved

/-- The row that a lookup, settled or not, points at. -/
def reference? : Shape → Option Reference
  | scalar _ reference => reference
  | lookup reference => reference
  | _ => none

/-- The schema that an embedded field inlines. -/
def target? : Shape → Option String
  | embedded target => target
  | _ => none

/-- The number of elements of a list. -/
def count : Shape → Nat
  | list count => count
  | _ => 0

end Shape

/-- One link of a field: all of it but the template of its elements. -/
structure FieldHead where
  name : String
  /-- The type as it was written, by which an unresolved field names its candidate. -/
  typeText : String
  description : String := ""
  nullable : Bool := false
  /-- Empty cells are filled from a counter. -/
  autoIncrement : Bool := false
  /-- Where the counter starts. -/
  seed : Option Long := none
  /-- No two rows hold equal values. -/
  unique : Bool := false
  /-- The field is left out when rows are written elsewhere. -/
  transient : Bool := false
  groups : NameSet := .empty
  disabled : NameSet := .empty
  /-- The composite keys that the field belongs to. -/
  keys : NameSet := .empty
  shape : Shape
  /-- What stands for an empty cell. -/
  fallback : Option Value := none

/-- A field, with the template of its elements if it carries one. -/
inductive Field where
  | single (head : FieldHead)
  | withElement (head : FieldHead) (element : Field)

namespace Field

/-- The field without its element template. -/
def head : Field → FieldHead
  | single head => head
  | withElement head _ => head

/-- The template of the elements. -/
def element? : Field → Option Field
  | single _ => none
  | withElement _ element => some element

/-- Changes the head of a field and nothing below it. -/
def mapHead (change : FieldHead → FieldHead) : Field → Field
  | single head => single (change head)
  | withElement head element => withElement (change head) element

/-- The name of a field. -/
def name (field : Field) : String :=
  field.head.name

/-- The kind of a field. -/
def kind (field : Field) : Kind :=
  field.head.shape.kind

/-- The row a lookup field points at. -/
def reference? (field : Field) : Option Reference :=
  field.head.shape.reference?

/-- The schema an embedded field inlines. -/
def target? (field : Field) : Option String :=
  field.head.shape.target?

/-- The text of what stands for an empty cell. -/
def fallbackText (field : Field) : String :=
  (field.head.fallback.map Value.toText).getD ""

/-! ## Building fields -/

/-- A field of a kind that knows nothing about its targets. -/
def ofKind (name : String) (kind : Kind) : Field :=
  single { name, typeText := kind.name, shape := .ofKind kind }

theorem name_ofKind (name : String) (kind : Kind) : (ofKind name kind).name = name :=
  rfl

/-- A list of a fixed number of elements. -/
def list (name : String) (element : Field) (count : Nat) : Field :=
  withElement { name, typeText := Kind.list.name, shape := .list count } element

/-- A field that inlines a schema. -/
def embedded (name target : String) : Field :=
  single { name, typeText := target, shape := .embedded (some target) }

/-- A lookup whose own kind is not known yet. -/
def lookup (name : String) (reference : Reference) : Field :=
  single
    { name
      typeText := s!"{reference.table}.{reference.keyField}.${reference.pickedField}"
      shape := .lookup (some reference) }

/-- A field whose type is a name that nothing has claimed yet. -/
def unresolved (name candidate : String) : Field :=
  single { name, typeText := candidate, shape := .unresolved }

/-- The field under another name. -/
def renamed (field : Field) (name : String) : Field :=
  field.mapHead fun head => { head with name }

/-! ## Properties along the chain -/

/-- The field holds one value and, if it is a lookup, yields one value. -/
def isFlat (field : Field) : Bool :=
  match field.head.shape with
  | .scalar _ reference => ((reference.bind (·.pickedKind)).map Kind.isScalar).getD true
  | _ => false

/-- The field or an element below it still waits for a definition or a key field. -/
def isPending : Field → Bool
  | single head => head.shape.kind.isPending
  | withElement head element => head.shape.kind.isPending || element.isPending

/-- The field or an element below it has a type that nothing has claimed. -/
def isUnresolved : Field → Bool
  | single head => head.shape.kind = .unresolved
  | withElement head element => head.shape.kind = .unresolved || element.isUnresolved

/-- How many heads of the chain wait for a definition or a key field. -/
def pendingCount : Field → Nat
  | single head => if head.shape.kind.isPending then 1 else 0
  | withElement head element =>
    (if head.shape.kind.isPending then 1 else 0) + element.pendingCount

/-- The type name that an unresolved field, or an element of a list, waits for. -/
def candidate? : Field → Option String
  | single head => if head.shape.kind = .unresolved then some head.typeText else none
  | withElement head element =>
    match head.shape with
    | .unresolved => some head.typeText
    | .list _ => element.candidate?
    | _ => none

/-- The elements of a list, all made after its template. -/
def elements (field : Field) : List Field :=
  match field.head.shape, field.element? with
  | .list count, some element => List.replicate count element
  | _, _ => []

@[simp]
theorem head_mapHead (change : FieldHead → FieldHead) (field : Field) :
    (field.mapHead change).head = change field.head := by
  cases field <;> rfl

@[simp]
theorem element?_mapHead (change : FieldHead → FieldHead) (field : Field) :
    (field.mapHead change).element? = field.element? := by
  cases field <;> rfl

@[simp]
theorem name_renamed (field : Field) (name : String) : (field.renamed name).name = name := by
  simp [renamed, Field.name]

/-- A flat field is scalar, and so is what it picks, as far as that is known. -/
theorem exists_scalar_of_isFlat {field : Field} (flat : field.isFlat = true) :
    ∃ kind reference, field.head.shape = .scalar kind reference ∧
      ∀ picked, reference.bind (·.pickedKind) = some picked → picked.isScalar = true := by
  unfold isFlat at flat
  split at flat
  · rename_i kind reference shape
    refine ⟨kind, reference, shape, ?_⟩
    intro picked remembers
    simpa [remembers] using flat
  · cases flat

/-- A field that waits for something has a head that does. -/
theorem pendingCount_pos_iff (field : Field) :
    0 < field.pendingCount ↔ field.isPending = true := by
  induction field with
  | single head =>
      cases pending : head.shape.kind.isPending <;> simp [pendingCount, isPending, pending]
  | withElement head element inductionHypothesis =>
      rw [pendingCount, isPending, Bool.or_eq_true, ← inductionHypothesis]
      by_cases waiting : head.shape.kind.isPending = true
      · rw [if_pos waiting]
        simp only [waiting, true_or, iff_true]
        omega
      · rw [if_neg waiting, Nat.zero_add, or_iff_right waiting]

/-- An unresolved field waits for something. -/
theorem isPending_of_isUnresolved (field : Field) (waiting : field.isUnresolved = true) :
    field.isPending = true := by
  induction field with
  | single head =>
      simp only [isUnresolved, decide_eq_true_eq] at waiting
      simp [isPending, waiting, Kind.isPending]
  | withElement head element inductionHypothesis =>
      simp only [isUnresolved, Bool.or_eq_true, decide_eq_true_eq] at waiting
      rcases waiting with here | below
      · simp [isPending, here, Kind.isPending]
      · simp [isPending, inductionHypothesis below]

end Field

end Tabula
