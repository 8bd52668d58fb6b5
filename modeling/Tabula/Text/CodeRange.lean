/-!
# Ranges of code points

Character properties are given as ascending lists of closed ranges of code points.
Membership stops at the first range that starts above the code point, which is right
because the ranges ascend.
-/

namespace Tabula.Text

/-- The code point lies in one of the ranges, which ascend. -/
def inRanges (code : Nat) : List (Nat × Nat) → Bool
  | [] => false
  | (first, last) :: rest =>
    if code < first then false else if code ≤ last then true else inRanges code rest

@[simp]
theorem inRanges_nil (code : Nat) : inRanges code [] = false :=
  rfl

/-- A code point in a range lies between the ends of one of the ranges. -/
theorem exists_range_of_inRanges {code : Nat} {ranges : List (Nat × Nat)}
    (inside : inRanges code ranges = true) :
    ∃ range ∈ ranges, range.1 ≤ code ∧ code ≤ range.2 := by
  induction ranges with
  | nil => simp at inside
  | cons range rest inductionHypothesis =>
      obtain ⟨first, last⟩ := range
      simp only [inRanges] at inside
      split at inside
      · simp at inside
      · split at inside
        · exact ⟨(first, last), by simp, by simp; omega⟩
        · obtain ⟨range, member, bounds⟩ := inductionHypothesis inside
          exact ⟨range, List.mem_cons_of_mem _ member, bounds⟩

end Tabula.Text
