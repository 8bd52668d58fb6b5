/-!
# What is left to visit

A walk over finitely many places carries the places that it has not come to.  Visiting
one of them leaves a shorter list, which is why such walks end.
-/

namespace Tabula

/-- The places left once one of them has been visited. -/
def without {α : Type} [DecidableEq α] (places : List α) (visited : α) : List α :=
  places.filter (· ≠ visited)

section

variable {α : Type} [DecidableEq α]

@[simp]
theorem mem_without {places : List α} {visited place : α} :
    place ∈ without places visited ↔ place ∈ places ∧ place ≠ visited := by
  simp [without]

/-- Visiting one of the places leaves fewer. -/
theorem length_without_lt {places : List α} {visited : α} (member : visited ∈ places) :
    (without places visited).length < places.length :=
  List.length_filter_lt_length_iff_exists.2 ⟨visited, member, by simp⟩

end

end Tabula
