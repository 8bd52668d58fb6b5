import Mathlib.Data.List.Forall2
import Tabula.Traced

/-!
# Results of chained computations

A chain of computations that may fail succeeds exactly when each of its links does.
These equivalences take such chains apart, so that no proof about a chain has to look
inside the monad.
-/

namespace Tabula

universe u v w

variable {ε : Type u} {δ : Type v} {α β : Type w}

theorem bind_eq_ok_iff {first : Except ε α} {next : α → Except ε β} {result : β} :
    first >>= next = .ok result ↔ ∃ value, first = .ok value ∧ next value = .ok result := by
  cases first with
  | error failure => simp [bind, Except.bind]
  | ok value => simp [bind, Except.bind]

theorem bind_eq_error_iff {first : Except ε α} {next : α → Except ε β} {failure : ε} :
    first >>= next = .error failure ↔
      first = .error failure ∨ ∃ value, first = .ok value ∧ next value = .error failure := by
  cases first with
  | error other => simp [bind, Except.bind]
  | ok value => simp [bind, Except.bind]

@[simp]
theorem pure_eq_ok_iff {value result : α} :
    (pure value : Except ε α) = .ok result ↔ value = result := by
  simp [pure, Except.pure]

@[simp]
theorem pure_ne_error {value : α} {failure : ε} :
    (pure value : Except ε α) ≠ .error failure := by
  simp [pure, Except.pure]

@[simp]
theorem map_eq_ok_iff {change : α → β} {outcome : Except ε α} {result : β} :
    outcome.map change = .ok result ↔ ∃ value, outcome = .ok value ∧ change value = result := by
  cases outcome <;> simp [Except.map]

theorem map_some_eq_ok_iff {outcome : Except ε α} {result : α} :
    outcome.map some = .ok (some result) ↔ outcome = .ok result := by
  cases outcome <;> simp [Except.map]

@[simp]
theorem map_eq_error_iff {change : α → β} {outcome : Except ε α} {failure : ε} :
    outcome.map change = .error failure ↔ outcome = .error failure := by
  cases outcome <;> simp [Except.map]

@[simp]
theorem mapError_eq_ok_iff {change : ε → δ} {outcome : Except ε α} {result : α} :
    outcome.mapError change = .ok result ↔ outcome = .ok result := by
  cases outcome <;> simp [Except.mapError]

theorem mapError_eq_error_iff {change : ε → δ} {outcome : Except ε α} {failure : δ} :
    outcome.mapError change = .error failure ↔
      ∃ cause, outcome = .error cause ∧ change cause = failure := by
  cases outcome <;> simp [Except.mapError]

@[simp]
theorem toOption_eq_some_iff {outcome : Except ε α} {result : α} :
    outcome.toOption = some result ↔ outcome = .ok result := by
  cases outcome <;> simp [Except.toOption]

/-- The chain of the results, with all failures alike. -/
theorem toOption_bind (first : Except ε α) (next : α → Except ε β) :
    (first >>= next).toOption = first.toOption.bind fun value => (next value).toOption := by
  cases first <;> rfl

theorem toOption_mapError (change : ε → δ) (outcome : Except ε α) :
    (outcome.mapError change).toOption = outcome.toOption := by
  cases outcome <;> rfl

/-- A list is mapped successfully exactly when each of its members is. -/
theorem mapM_eq_ok_iff {change : α → Except ε β} {members : List α} {results : List β} :
    members.mapM change = .ok results ↔
      List.Forall₂ (fun member result => change member = .ok result) members results := by
  induction members generalizing results with
  | nil =>
      rw [List.mapM_nil, pure_eq_ok_iff, List.forall₂_nil_left_iff]
      exact eq_comm
  | cons member members inductionHypothesis =>
      rw [List.mapM_cons, bind_eq_ok_iff, List.forall₂_cons_left_iff]
      constructor
      · rintro ⟨result, here, further⟩
        rw [bind_eq_ok_iff] at further
        rcases further with ⟨others, mapped, same⟩
        rw [pure_eq_ok_iff] at same
        exact ⟨result, others, here, inductionHypothesis.1 mapped, same.symm⟩
      · rintro ⟨result, others, here, further, rfl⟩
        refine ⟨result, here, ?_⟩
        rw [inductionHypothesis.2 further]
        rfl

/-- A list is mapped to results of its members. -/
theorem exists_of_mem_mapM {change : α → Except ε β} {members : List α} {results : List β}
    (mapped : members.mapM change = .ok results) {result : β} (among : result ∈ results) :
    ∃ member ∈ members, change member = .ok result := by
  rw [mapM_eq_ok_iff] at mapped
  induction mapped with
  | nil => cases among
  | cons here _ inductionHypothesis =>
      rcases List.mem_cons.mp among with rfl | later
      · exact ⟨_, List.mem_cons_self, here⟩
      · rcases inductionHypothesis later with ⟨member, further, accepted⟩
        exact ⟨member, List.mem_cons_of_mem _ further, accepted⟩

/-- A list that is not mapped has a member that is not. -/
theorem exists_of_mapM_eq_error {change : α → Except ε β} {members : List α} {failure : ε}
    (refused : members.mapM change = .error failure) :
    ∃ member ∈ members, change member = .error failure := by
  induction members with
  | nil => exact absurd refused pure_ne_error
  | cons member members inductionHypothesis =>
      rw [List.mapM_cons, bind_eq_error_iff] at refused
      rcases refused with here | ⟨result, _, further⟩
      · exact ⟨member, List.mem_cons_self, here⟩
      · rw [bind_eq_error_iff] at further
        rcases further with later | ⟨_, _, impossible⟩
        · rcases inductionHypothesis later with ⟨other, among, there⟩
          exact ⟨other, List.mem_cons_of_mem _ among, there⟩
        · exact absurd impossible pure_ne_error

namespace Traced

variable {ε α β : Type}

/-- A traced chain succeeds when its links do, whatever they record. -/
theorem andThen_eq_ok_iff {first : Traced ε α} {next : α → Traced ε β} {result : β} :
    (andThen first next).result = .ok result ↔
      ∃ value, first.result = .ok value ∧ (next value).result = .ok result := by
  rw [result_andThen]
  exact Tabula.bind_eq_ok_iff

theorem bind_eq_ok_iff {first : Traced ε α} {next : α → Traced ε β} {result : β} :
    (first >>= next).result = .ok result ↔
      ∃ value, first.result = .ok value ∧ (next value).result = .ok result :=
  andThen_eq_ok_iff

theorem toOption_andThen (first : Traced ε α) (next : α → Traced ε β) :
    (andThen first next).result.toOption =
      first.result.toOption.bind fun value => (next value).result.toOption := by
  rw [result_andThen]
  exact Tabula.toOption_bind first.result fun value => (next value).result

theorem toOption_bind (first : Traced ε α) (next : α → Traced ε β) :
    (first >>= next).result.toOption =
      first.result.toOption.bind fun value => (next value).result.toOption :=
  toOption_andThen first next

/-- What holds of every result of a function holds of all results on a list. -/
theorem forall_mem_of_traverse {γ : Type} {next : γ → Traced ε β} {Holds : β → Prop}
    (each : ∀ {member result}, (next member).result = .ok result → Holds result)
    {members : List γ} {results : List β}
    (traversed : (traverse next members).result = .ok results) :
    ∀ result ∈ results, Holds result := by
  induction members generalizing results with
  | nil =>
      cases traversed
      exact List.forall_mem_nil _
  | cons member members inductionHypothesis =>
      simp only [traverse, andThen_eq_ok_iff] at traversed
      rcases traversed with ⟨result, here, others, further, same⟩
      cases same
      rw [List.forall_mem_cons]
      exact ⟨each here, inductionHypothesis further⟩

end Traced

namespace Step

variable {σ ε : Type}

/-- What holds of a state and of every state that may take its place holds afterwards. -/
theorem state_replace_of_each {Holds : σ → Prop} {state : σ} {outcome : Except ε σ}
    (here : Holds state) (each : ∀ next, outcome = .ok next → Holds next) :
    Holds (replace state outcome).state := by
  cases outcome with
  | error _ => exact here
  | ok next => exact each next rfl

theorem state_replace_of_error {state : σ} {outcome : Except ε σ} {refusal : ε}
    (refused : (replace state outcome).result = .error refusal) :
    (replace state outcome).state = state := by
  cases outcome with
  | error _ => rfl
  | ok next => cases refused

end Step

end Tabula
