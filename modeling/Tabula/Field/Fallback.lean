import Tabula.Field
import Tabula.Traced
import Tabula.Value.Coercion

/-!
# Fallback values and settling

The fallback of a field stands for its empty cells.  A scalar field coerces it to its
kind, a list hands it to its elements as well, a field that still waits keeps it as it
is, and an embedded field has none.  Settling a field gives it its final kind and puts
its fallback to the test of that kind.
-/

namespace Tabula

/-- Replaces the fallback of a head. -/
def FieldHead.withFallback (head : FieldHead) (fallback : Option Value) : FieldHead :=
  { head with fallback }

namespace Field

/-- The field without a fallback, down to its last element. -/
def clearFallback : Field → Field
  | single head => single (head.withFallback none)
  | withElement head element => withElement (head.withFallback none) element.clearFallback

/-- What a fallback becomes in a head of the given shape. -/
def shapedFallback (shape : Shape) (value : Value) : Except ValueError (Option Value) :=
  match shape with
  | .scalar kind _ => (value.convert kind).map some
  | .embedded _ => .ok none
  | _ => .ok (some value)

/-- The field with a fallback.  Only a list hands it on to its elements. -/
def setFallback (value : Value) : Field → Except ValueError Field
  | single head => do
    let fallback ← shapedFallback head.shape value
    return single (head.withFallback fallback)
  | withElement head element =>
    match head.shape with
    | .list _ => do
      let element ← setFallback value element
      return withElement (head.withFallback (some value)) element
    | shape => do
      let fallback ← shapedFallback shape value
      return withElement (head.withFallback fallback) element

/-- Sets a fallback, or takes it away. -/
def assignFallback (field : Field) : Option Value → Except ValueError Field
  | none => .ok field.clearFallback
  | some value => field.setFallback value

/-- The field with another template of its elements, which receives the field's
fallback. -/
def setElement (field element : Field) : Except ValueError Field := do
  let element ←
    match field.head.fallback with
    | none => pure element
    | some value => element.setFallback value
  return withElement field.head element

/-- The field turned into one that inlines a schema. -/
def settleEmbedded (field : Field) (target : String) : Field :=
  field.mapHead fun head =>
    { head with shape := .embedded (some target), fallback := none }

/-- The field turned into a scalar field that refers to a row.  Its fallback has to
become a value of the kind; without one, the elements lose theirs too. -/
def settleLookup (field : Field) (reference : Reference) (kind : ScalarKind) :
    Except ValueError Field :=
  let settled := field.mapHead fun head =>
    { head with shape := .scalar kind (some reference) }
  settled.assignFallback field.head.fallback

/-- The field with empty cells allowed and nothing to fill them, down to its last
element. -/
def makeOptional : Field → Field
  | single head => single { head with nullable := true, fallback := none }
  | withElement head element =>
    withElement { head with nullable := true, fallback := none } element.makeOptional

/-! ## Steps in place -/

/-- Keeps a fallback.  A list hands it to its elements first. -/
def storeFallback (value : Value) : Field → Step Field ValueError Unit
  | single head =>
    match shapedFallback head.shape value with
    | .ok fallback => ⟨single (head.withFallback fallback), [], .ok ()⟩
    | .error refusal => ⟨single head, [], .error refusal⟩
  | withElement head element =>
    match head.shape with
    | .list _ =>
      let handed := storeFallback value element
      match handed.result with
      | .ok () => ⟨withElement (head.withFallback (some value)) handed.state, [], .ok ()⟩
      | .error refusal => ⟨withElement head handed.state, [], .error refusal⟩
    | shape =>
      match shapedFallback shape value with
      | .ok fallback => ⟨withElement (head.withFallback fallback) element, [], .ok ()⟩
      | .error refusal => ⟨withElement head element, [], .error refusal⟩

/-- Keeps a fallback or takes it away. -/
def changeFallback (field : Field) : Option Value → Step Field ValueError Unit
  | none => ⟨field.clearFallback, [], .ok ()⟩
  | some value => field.storeFallback value

/-- Puts a template in place once it has received the fallback. -/
def changeElement (field element : Field) : Step Field ValueError Unit :=
  match field.head.fallback with
  | none => ⟨withElement field.head element, [], .ok ()⟩
  | some value =>
    let handed := element.storeFallback value
    match handed.result with
    | .ok () => ⟨withElement field.head handed.state, [], .ok ()⟩
    | .error refusal => ⟨field, [], .error refusal⟩

/-- The field as a scalar one that refers to a row, its fallback taken away for the time
being. -/
def referring (field : Field) (reference : Reference) (kind : ScalarKind) : Field :=
  field.mapHead fun head => { head with shape := .scalar kind (some reference), fallback := none }

/-- Settles a lookup and then gives its fallback back to it. -/
def settleReference (field : Field) (reference : Reference) (kind : ScalarKind) :
    Step Field ValueError Unit :=
  (field.referring reference kind).changeFallback field.head.fallback

/-! ## What stays -/

/-- A fallback leaves the name of a field alone. -/
theorem name_setFallback {field result : Field} {value : Value}
    (accepted : field.setFallback value = .ok result) : result.name = field.name := by
  cases field with
  | single head =>
      simp only [setFallback] at accepted
      cases shaped : shapedFallback head.shape value with
      | error refusal =>
          rw [shaped] at accepted
          cases accepted
      | ok fallback =>
          rw [shaped] at accepted
          cases accepted
          rfl
  | withElement head element =>
      unfold setFallback at accepted
      split at accepted
      · cases below : setFallback value element with
        | error refusal =>
            rw [below] at accepted
            cases accepted
        | ok settled =>
            rw [below] at accepted
            cases accepted
            rfl
      · cases shaped : shapedFallback head.shape value with
        | error refusal =>
            rw [shaped] at accepted
            cases accepted
        | ok fallback =>
            rw [shaped] at accepted
            cases accepted
            rfl

end Field

end Tabula
