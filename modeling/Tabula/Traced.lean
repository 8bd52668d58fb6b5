import Tabula.Event

/-!
# Traced results

A traced result is a result together with the events on the way to it.  Chaining two
traced computations appends their events; a failure ends the chain and keeps what was
recorded before.  An operation that changes a state also says which state it leaves
behind, since it leaves one even when it fails.
-/

namespace Tabula

/-- A result, or a failure, and the events on the way. -/
structure Traced (ε α : Type) where
  events : List Event
  result : Except ε α

namespace Traced

variable {ε α β : Type}

/-- A result reached without events. -/
def ofResult (result : Except ε α) : Traced ε α :=
  ⟨[], result⟩

/-- A failure without events. -/
def fail (failure : ε) : Traced ε α :=
  ofResult (.error failure)

/-- A single event. -/
def record (event : Event) : Traced ε Unit :=
  ⟨[event], .ok ()⟩

/-- Goes on after a success. -/
def andThen (first : Traced ε α) (next : α → Traced ε β) : Traced ε β :=
  match first.result with
  | .error failure => ⟨first.events, .error failure⟩
  | .ok value => ⟨first.events ++ (next value).events, (next value).result⟩

instance : Monad (Traced ε) where
  pure value := ofResult (.ok value)
  bind := andThen

/-- The results of a traced function on all members of a list, in order. -/
def traverse {γ : Type} (next : γ → Traced ε β) : List γ → Traced ε (List β)
  | [] => ofResult (.ok [])
  | member :: members =>
    andThen (next member) fun value =>
      andThen (traverse next members) fun values => ofResult (.ok (value :: values))

@[simp]
theorem result_ofResult (result : Except ε α) : (ofResult result).result = result :=
  rfl

@[simp]
theorem result_pure (value : α) : (pure value : Traced ε α).result = .ok value :=
  rfl

@[simp]
theorem result_record (event : Event) : (record event : Traced ε Unit).result = .ok () :=
  rfl

/-- The result of a chain is the chain of the results. -/
@[simp]
theorem result_andThen (first : Traced ε α) (next : α → Traced ε β) :
    (andThen first next).result = first.result.bind fun value => (next value).result := by
  unfold andThen
  cases first.result <;> rfl

@[simp]
theorem result_bind (first : Traced ε α) (next : α → Traced ε β) :
    (first >>= next).result = first.result.bind fun value => (next value).result :=
  result_andThen first next

end Traced

/-- What an operation on a state leaves behind: the state, the events and the result. -/
structure Step (σ ε α : Type) where
  state : σ
  events : List Event
  result : Except ε α

/-- The step that puts an accepted state in the place of another. -/
def Step.replace {σ ε : Type} (state : σ) : Except ε σ → Step σ ε Unit
  | .ok next => ⟨next, [], .ok ()⟩
  | .error refusal => ⟨state, [], .error refusal⟩

end Tabula
