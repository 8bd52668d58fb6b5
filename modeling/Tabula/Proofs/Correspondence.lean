import Mathlib.Data.List.Forall2

/-!
# Lists that correspond member by member

What stands at a position of one list, or is found by a search through it, has its
counterpart at the same place of the other.
-/

namespace Tabula

universe u v

/-- A list whose members all have a counterpart has a list of counterparts. -/
theorem exists_forall₂ {α : Type u} {β : Type v} {Related : α → β → Prop} {left : List α}
    (each : ∀ first ∈ left, ∃ second, Related first second) :
    ∃ right, List.Forall₂ Related left right := by
  induction left with
  | nil => exact ⟨[], .nil⟩
  | cons first left inductionHypothesis =>
      rw [List.forall_mem_cons] at each
      rcases each.1 with ⟨second, here⟩
      rcases inductionHypothesis each.2 with ⟨right, further⟩
      exact ⟨second :: right, .cons here further⟩

/-- Members at one position of corresponding lists correspond. -/
theorem exists_getElem?_of_forall₂ {α : Type u} {β : Type v} {Related : α → β → Prop}
    {left : List α} {right : List β} (related : List.Forall₂ Related left right)
    {position : Nat} {first : α} (found : left[position]? = some first) :
    ∃ second, right[position]? = some second ∧ Related first second := by
  induction related generalizing position with
  | nil => cases found
  | cons here _ inductionHypothesis =>
      cases position with
      | zero =>
          cases found
          exact ⟨_, rfl, here⟩
      | succ position => exact inductionHypothesis found

/-- Every member of a list corresponds to one of the other. -/
theorem exists_mem_of_forall₂ {α : Type u} {β : Type v} {Related : α → β → Prop}
    {left : List α} {right : List β} (related : List.Forall₂ Related left right) {second : β}
    (member : second ∈ right) : ∃ first ∈ left, Related first second := by
  rcases List.getElem?_of_mem member with ⟨position, found⟩
  rcases exists_getElem?_of_forall₂ related.flip found with ⟨first, here, matched⟩
  exact ⟨first, List.mem_of_getElem? here, matched⟩

/-- Lists go on corresponding when a member is swapped for one that corresponds. -/
theorem forall₂_set {α : Type u} {β : Type v} {Related : α → β → Prop} {left : List α}
    {right : List β} (related : List.Forall₂ Related left right) {position : Nat} {first : α}
    {second : β} (found : left[position]? = some first) (here : Related first second) :
    List.Forall₂ Related left (right.set position second) := by
  induction related generalizing position with
  | nil => cases found
  | cons matched further inductionHypothesis =>
      cases position with
      | zero =>
          cases found
          exact .cons here further
      | succ position => exact .cons matched (inductionHypothesis found)

/-- Searches through lists that correspond member by member find members that
correspond. -/
theorem exists_find?_of_forall₂ {α : Type u} {β : Type v} {Related : α → β → Prop}
    {left : List α} {right : List β} {wanted : α → Bool} {sought : β → Bool}
    (related : List.Forall₂ Related left right)
    (agree : ∀ {first second}, Related first second → sought second = wanted first)
    {first : α} (found : left.find? wanted = some first) :
    ∃ second, right.find? sought = some second ∧ Related first second := by
  induction related with
  | nil => cases found
  | cons here _ inductionHypothesis =>
      rw [List.find?_cons] at found ⊢
      rw [agree here]
      split at found
      · cases found
        exact ⟨_, rfl, here⟩
      · exact inductionHypothesis found

/-- Correspondences of three lists compose member by member. -/
theorem forall₂_trans {α β γ : Type u} {First : α → β → Prop} {Second : β → γ → Prop}
    {Whole : α → γ → Prop} {left : List α} {middle : List β} {right : List γ}
    (first : List.Forall₂ First left middle) (second : List.Forall₂ Second middle right)
    (compose : ∀ {one two three}, First one two → Second two three → Whole one three) :
    List.Forall₂ Whole left right := by
  induction first generalizing right with
  | nil =>
      cases second
      exact .nil
  | cons here _ inductionHypothesis =>
      cases second with
      | cons next further => exact .cons (compose here next) (inductionHypothesis further)

end Tabula
