import Tabula.Proofs.Field.Settling

/-!
# Fallbacks along the chain of a field

A field is changed in place, step by step, and some of the steps are refused.  A list hands
its fallback to its elements before it keeps it itself, and a lookup takes its new shape
before its fallback is put to the test.  So a refusal could leave a field between two states.
It does not: a fallback that is refused at any depth changes nothing at any depth, and a
refused settlement leaves a scalar field without a fallback.

In whatever way a field was made, then, the fallback of each head along its chain is one that
the head could store, and the elements of a list carry what the list hands to them.
-/

namespace Tabula

namespace Field

/-! ## Steps in place -/

/-- A list hands its fallback on. -/
theorem setFallback_of_list {head : FieldHead} {count : Nat} (list : head.shape = .list count)
    (value : Value) (element : Field) :
    setFallback value (withElement head element) =
      (setFallback value element).map (withElement (head.withFallback (some value))) := by
  simp only [setFallback, list]
  rfl

/-- No other field does. -/
theorem setFallback_of_not_list {head : FieldHead} (notList : ¬∃ count, head.shape = .list count)
    (value : Value) (element : Field) :
    setFallback value (withElement head element) =
      (shapedFallback head.shape value).map fun fallback =>
        withElement (head.withFallback fallback) element := by
  unfold setFallback
  split
  · rename_i count list
    exact absurd ⟨count, list⟩ notList
  · rfl

/-- A fallback that is refused below leaves everything above as it is, too. -/
theorem storeFallback_eq (value : Value) (field : Field) :
    field.storeFallback value = .replace field (field.setFallback value) := by
  induction field with
  | single head =>
      rw [storeFallback, setFallback]
      cases shapedFallback head.shape value with
      | error refusal => rfl
      | ok fallback => rfl
  | withElement head element inductionHypothesis =>
      by_cases list : ∃ count, head.shape = .list count
      · rcases list with ⟨count, list⟩
        rw [setFallback_of_list list]
        simp only [storeFallback, list, inductionHypothesis]
        cases setFallback value element with
        | error refusal => rfl
        | ok handed => rfl
      · rw [setFallback_of_not_list list]
        unfold storeFallback
        split
        · rename_i count here
          exact absurd ⟨count, here⟩ list
        · cases shapedFallback head.shape value with
          | error refusal => rfl
          | ok fallback => rfl

theorem changeFallback_eq (field : Field) (fallback : Option Value) :
    field.changeFallback fallback = .replace field (field.assignFallback fallback) := by
  cases fallback with
  | none => rfl
  | some value => exact storeFallback_eq value field

theorem changeElement_eq (field element : Field) :
    field.changeElement element = .replace field (field.setElement element) := by
  unfold changeElement setElement
  cases field.head.fallback with
  | none => rfl
  | some value =>
      simp only [storeFallback_eq]
      cases element.setFallback value with
      | error refusal => rfl
      | ok handed => rfl

/-- What a field has for a fallback makes no difference to the next one. -/
theorem assignFallback_referring (field : Field) (reference : Reference) (kind : ScalarKind)
    (fallback : Option Value) :
    (field.referring reference kind).assignFallback fallback =
      (field.mapHead fun head =>
        { head with shape := .scalar kind (some reference) }).assignFallback fallback := by
  cases field with
  | single head =>
      cases fallback with
      | none => rfl
      | some value => rfl
  | withElement head element =>
      cases fallback with
      | none => rfl
      | some value => rfl

/-- A lookup that does not settle is left as a scalar field without a fallback. -/
theorem settleReference_eq (field : Field) (reference : Reference) (kind : ScalarKind) :
    field.settleReference reference kind =
      .replace (field.referring reference kind) (field.settleLookup reference kind) := by
  rw [settleReference, changeFallback_eq, assignFallback_referring]
  rfl

/-! ## Fallbacks that agree with their fields -/

end Field

/-- The fallback of a scalar head has the kind of the head. -/
def FieldHead.FallbackFits (head : FieldHead) : Prop :=
  ∀ kind reference value, head.shape = .scalar kind reference →
    head.fallback = some value → value.kind = kind

theorem FieldHead.fallbackFits_of_none {head : FieldHead} (absent : head.fallback = none) :
    head.FallbackFits := by
  intro kind reference value _ present
  rw [absent] at present
  cases present

namespace Field

/-- A fallback takes the form of its head. -/
theorem fallbackFits_of_shapedFallback {head : FieldHead} {value : Value}
    {fallback : Option Value} (shaped : shapedFallback head.shape value = .ok fallback) :
    (head.withFallback fallback).FallbackFits := by
  intro kind reference converted scalar present
  change head.shape = .scalar kind reference at scalar
  change fallback = some converted at present
  rw [scalar, shapedFallback, map_eq_ok_iff] at shaped
  rcases shaped with ⟨result, accepted, same⟩
  rw [present, Option.some.injEq] at same
  rw [← same]
  exact Value.kind_of_convert accepted

/-- The fallback of a field is one that the field can store, and the elements of a list have
what becomes of it there. -/
structure FallbackAgrees (field : Field) : Prop where
  scalar : field.head.FallbackFits
  embedded : ∀ target, field.head.shape = .embedded target → field.head.fallback = none
  list : ∀ count value element, field.head.shape = .list count →
    field.head.fallback = some value → field.element? = some element →
      element.setFallback value = .ok element

/-- The fallbacks agree all along the chain. -/
def FallbacksAgree : Field → Prop
  | single head => (single head).FallbackAgrees
  | withElement head element => (withElement head element).FallbackAgrees ∧ element.FallbacksAgree

theorem fallbackAgrees_of_none {field : Field} (absent : field.head.fallback = none) :
    field.FallbackAgrees where
  scalar := FieldHead.fallbackFits_of_none absent
  embedded _ _ := absent
  list count value element _ present := by
    rw [absent] at present
    cases present

/-- Only the shape, the fallback and the elements count. -/
theorem FallbackAgrees.transfer {field other : Field} (agrees : field.FallbackAgrees)
    (shape : other.head.shape = field.head.shape)
    (fallback : other.head.fallback = field.head.fallback)
    (element : other.element? = field.element?) : other.FallbackAgrees where
  scalar := by
    rw [FieldHead.FallbackFits, shape, fallback]
    exact agrees.scalar
  embedded := by
    rw [shape, fallback]
    exact agrees.embedded
  list := by
    rw [shape, fallback, element]
    exact agrees.list

namespace FallbacksAgree

theorem here {field : Field} (agree : field.FallbacksAgree) : field.FallbackAgrees := by
  cases field with
  | single head => exact agree
  | withElement head element => exact agree.1

theorem below {field element : Field} (agree : field.FallbacksAgree)
    (present : field.element? = some element) : element.FallbacksAgree := by
  cases field with
  | single head => cases present
  | withElement head inner =>
      cases present
      exact agree.2

theorem mapHead {change : FieldHead → FieldHead} {field : Field}
    (agrees : (field.mapHead change).FallbackAgrees) (agree : field.FallbacksAgree) :
    (field.mapHead change).FallbacksAgree := by
  cases field with
  | single head => exact agrees
  | withElement head element => exact ⟨agrees, agree.2⟩

end FallbacksAgree

theorem fallbacksAgree_clearFallback (field : Field) : field.clearFallback.FallbacksAgree := by
  induction field with
  | single head => exact fallbackAgrees_of_none rfl
  | withElement head element inductionHypothesis =>
      exact ⟨fallbackAgrees_of_none rfl, inductionHypothesis⟩

theorem fallbacksAgree_makeOptional (field : Field) : field.makeOptional.FallbacksAgree := by
  induction field with
  | single head => exact fallbackAgrees_of_none rfl
  | withElement head element inductionHypothesis =>
      exact ⟨fallbackAgrees_of_none rfl, inductionHypothesis⟩

/-- A fallback that was taken is taken again and changes nothing. -/
theorem setFallback_idempotent {field result : Field} {value : Value}
    (accepted : field.setFallback value = .ok result) : result.setFallback value = .ok result := by
  induction field generalizing result with
  | single head =>
      simp only [setFallback, bind_eq_ok_iff, pure_eq_ok_iff] at accepted
      rcases accepted with ⟨fallback, shaped, rfl⟩
      simp only [setFallback, bind_eq_ok_iff, pure_eq_ok_iff]
      exact ⟨fallback, shaped, rfl⟩
  | withElement head element inductionHypothesis =>
      by_cases list : ∃ count, head.shape = .list count
      · rcases list with ⟨count, list⟩
        rw [setFallback_of_list list, map_eq_ok_iff] at accepted
        rcases accepted with ⟨handed, acceptedBelow, rfl⟩
        have shape : (head.withFallback (some value)).shape = .list count := list
        rw [setFallback_of_list shape, inductionHypothesis acceptedBelow]
        rfl
      · rw [setFallback_of_not_list list, map_eq_ok_iff] at accepted
        rcases accepted with ⟨fallback, shaped, rfl⟩
        have shape : ¬∃ count, (head.withFallback fallback).shape = .list count := list
        rw [setFallback_of_not_list shape, map_eq_ok_iff]
        exact ⟨fallback, shaped, rfl⟩

/-- A fallback that has taken the form of its head agrees with it, if there are no elements to
hand it to. -/
theorem fallbackAgrees_of_shapedFallback (field : Field) {value : Value}
    {fallback : Option Value} (shaped : shapedFallback field.head.shape value = .ok fallback)
    (noElements : ∀ count, field.head.shape = .list count → field.element? = none) :
    (field.mapHead (·.withFallback fallback)).FallbackAgrees where
  scalar := by
    rw [head_mapHead]
    exact fallbackFits_of_shapedFallback shaped
  embedded target embedded := by
    rw [head_mapHead] at embedded ⊢
    change field.head.shape = .embedded target at embedded
    rw [embedded, shapedFallback, Except.ok.injEq] at shaped
    exact shaped.symm
  list count _ element list _ present := by
    rw [head_mapHead] at list
    rw [element?_mapHead, noElements count list] at present
    cases present

theorem fallbacksAgree_of_setFallback {field result : Field} {value : Value}
    (agree : ∀ element, field.element? = some element → element.FallbacksAgree)
    (accepted : field.setFallback value = .ok result) : result.FallbacksAgree := by
  induction field generalizing result with
  | single head =>
      simp only [setFallback, bind_eq_ok_iff, pure_eq_ok_iff] at accepted
      rcases accepted with ⟨fallback, shaped, rfl⟩
      exact fallbackAgrees_of_shapedFallback (single head) shaped fun _ _ => rfl
  | withElement head element inductionHypothesis =>
      have agreeBelow : element.FallbacksAgree := agree element rfl
      by_cases list : ∃ count, head.shape = .list count
      · rcases list with ⟨count, list⟩
        rw [setFallback_of_list list, map_eq_ok_iff] at accepted
        rcases accepted with ⟨handed, acceptedBelow, rfl⟩
        constructor
        · constructor
          · intro kind reference stored scalar
            cases list.symm.trans scalar
          · intro target embedded
            cases list.symm.trans embedded
          · rintro _ _ _ _ ⟨⟩ ⟨⟩
            exact setFallback_idempotent acceptedBelow
        · exact inductionHypothesis (fun _ => agreeBelow.below) acceptedBelow
      · rw [setFallback_of_not_list list, map_eq_ok_iff] at accepted
        rcases accepted with ⟨fallback, shaped, rfl⟩
        have here := fallbackAgrees_of_shapedFallback (withElement head element) shaped
          fun count there => absurd ⟨count, there⟩ list
        exact ⟨here, agreeBelow⟩

theorem fallbacksAgree_of_assignFallback {field result : Field} {fallback : Option Value}
    (agree : ∀ element, field.element? = some element → element.FallbacksAgree)
    (accepted : field.assignFallback fallback = .ok result) : result.FallbacksAgree := by
  cases fallback with
  | none =>
      cases accepted
      exact fallbacksAgree_clearFallback field
  | some value => exact fallbacksAgree_of_setFallback agree accepted

/-- A template takes the fallback of its list before it becomes one. -/
theorem fallbacksAgree_of_setElement {field element result : Field}
    (agree : field.FallbacksAgree) (elementAgrees : element.FallbacksAgree)
    (accepted : field.setElement element = .ok result) : result.FallbacksAgree := by
  unfold setElement at accepted
  split at accepted
  · rename_i absent
    cases accepted
    exact ⟨fallbackAgrees_of_none absent, elementAgrees⟩
  · rename_i value present
    simp only [bind_eq_ok_iff, pure_eq_ok_iff] at accepted
    rcases accepted with ⟨handed, acceptedBelow, rfl⟩
    constructor
    · constructor
      · exact agree.here.scalar
      · exact agree.here.embedded
      · rintro count stored _ _ here ⟨⟩
        cases present.symm.trans here
        exact setFallback_idempotent acceptedBelow
    · exact fallbacksAgree_of_setFallback (fun _ => elementAgrees.below) acceptedBelow

theorem FallbacksAgree.settleReference {field : Field} (agree : field.FallbacksAgree)
    (reference : Reference) (kind : ScalarKind) :
    (field.settleReference reference kind).state.FallbacksAgree := by
  have referring : (field.referring reference kind).FallbacksAgree := by
    apply FallbacksAgree.mapHead _ agree
    apply fallbackAgrees_of_none
    rw [head_mapHead]
  rw [Field.settleReference, changeFallback_eq]
  exact Step.state_replace_of_each referring fun _ =>
    fallbacksAgree_of_assignFallback fun _ => referring.below

/-! ## Fields of any history -/

/-- The fields that can be made, by steps that were accepted or refused.  Traits are all of a
head but its shape and its fallback, so a new name is a change of traits. -/
inductive Made : Field → Prop where
  | ofKind (name : String) (kind : Kind) : Made (.ofKind name kind)
  | list (name : String) (count : Nat) {element : Field} (made : Made element) :
      Made (.list name element count)
  | embedded (name target : String) : Made (.embedded name target)
  | lookup (name : String) (reference : Reference) : Made (.lookup name reference)
  | unresolved (name candidate : String) : Made (.unresolved name candidate)
  | traits {field : Field} (made : Made field) (change : FieldHead → FieldHead)
      (shape : (change field.head).shape = field.head.shape)
      (fallback : (change field.head).fallback = field.head.fallback) :
      Made (field.mapHead change)
  | fallback {field : Field} (made : Made field) (fallback : Option Value) :
      Made (field.changeFallback fallback).state
  | template {field element : Field} (made : Made field) (elementMade : Made element) :
      Made (field.changeElement element).state
  | inlined {field : Field} (made : Made field) (target : String) :
      Made (field.settleEmbedded target)
  | settled {field : Field} (made : Made field) (reference : Reference) (kind : ScalarKind) :
      Made (field.settleReference reference kind).state
  | optional {field : Field} (made : Made field) : Made field.makeOptional
  | element {field element : Field} (made : Made field)
      (below : field.element? = some element) : Made element

/-- The fallbacks of a field that was made in any way agree with it. -/
theorem Made.fallbacksAgree {field : Field} (made : field.Made) : field.FallbacksAgree := by
  induction made with
  | ofKind name kind => exact fallbackAgrees_of_none rfl
  | list name count _ inductionHypothesis =>
      exact ⟨fallbackAgrees_of_none rfl, inductionHypothesis⟩
  | embedded name target => exact fallbackAgrees_of_none rfl
  | lookup name reference => exact fallbackAgrees_of_none rfl
  | unresolved name candidate => exact fallbackAgrees_of_none rfl
  | traits _ change shape fallback inductionHypothesis =>
      apply FallbacksAgree.mapHead _ inductionHypothesis
      apply inductionHypothesis.here.transfer
      · rw [head_mapHead, shape]
      · rw [head_mapHead, fallback]
      · exact element?_mapHead _ _
  | @fallback field _ fallback inductionHypothesis =>
      rw [changeFallback_eq]
      exact Step.state_replace_of_each inductionHypothesis fun _ =>
        fallbacksAgree_of_assignFallback fun _ => inductionHypothesis.below
  | @template field element _ _ inductionHypothesis elementHypothesis =>
      rw [changeElement_eq]
      exact Step.state_replace_of_each inductionHypothesis fun _ =>
        fallbacksAgree_of_setElement inductionHypothesis elementHypothesis
  | inlined _ target inductionHypothesis =>
      apply FallbacksAgree.mapHead _ inductionHypothesis
      apply fallbackAgrees_of_none
      rw [head_mapHead]
  | settled _ reference kind inductionHypothesis =>
      exact inductionHypothesis.settleReference reference kind
  | optional _ _ => exact fallbacksAgree_makeOptional _
  | element _ below inductionHypothesis => exact inductionHypothesis.below below

end Field

end Tabula
