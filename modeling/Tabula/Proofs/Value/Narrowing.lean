import Tabula.Value.Coercion

/-!
# Whole numbers in other widths

Whole numbers are kept in 64 bits on their way into a column.  A number goes into a narrower
width exactly when there is a number of that width of the same size, and it becomes that
number.
-/

namespace Tabula

namespace Value

/-- An integer of 64 bits goes back to the width that it came from. -/
theorem convert_widen (width : IntegerWidth) (number : Whole width) :
    (integer .bits64 number.widen).convert (.integer width) = .ok (integer width number) := by
  by_cases widest : width = .bits64
  · subst widest
    exact convert_self (integer .bits64 number)
  · have other : (integer .bits64 number.widen).kind ≠ .integer width := by
      rw [kind_integer, ne_eq, ScalarKind.integer.injEq]
      exact Ne.symm widest
    have fits : Whole.ofInt? width number.widen.widen.value = some number :=
      Whole.ofInt?_eq_some_iff.mpr rfl
    rw [convert, if_neg other]
    simp only [toLong, bind, Except.bind, ofLong, fits]

/-- A number of 64 bits becomes the number of a width that has its size. -/
theorem convert_long_eq_ok_iff {long : Long} {width : IntegerWidth} {result : Value} :
    (integer .bits64 long).convert (.integer width) = .ok result ↔
      ∃ number : Whole width, number.value = long.value ∧ result = .integer width number := by
  constructor
  · intro accepted
    rw [convert] at accepted
    split at accepted
    · rename_i same
      cases same
      cases accepted
      exact ⟨long, rfl, rfl⟩
    · change ofLong width long.widen = .ok result at accepted
      rw [ofLong] at accepted
      split at accepted
      · rename_i number found
        cases accepted
        exact ⟨number, Whole.ofInt?_eq_some_iff.mp found, rfl⟩
      · cases accepted
  · rintro ⟨number, same, rfl⟩
    have widened : number.widen = long := Whole.ext same
    rw [← widened]
    exact convert_widen width number

end Value

end Tabula
