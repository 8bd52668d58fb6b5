/-!
# Powers of ten

Decimal numbers are scaled by powers of ten; powers of two are shifts.
-/

namespace Tabula

/-- Ten to a power. -/
def powerOfTen (exponent : Nat) : Nat :=
  Nat.pow 10 exponent

@[simp]
theorem powerOfTen_succ (exponent : Nat) :
    powerOfTen (exponent + 1) = powerOfTen exponent * 10 :=
  rfl

theorem powerOfTen_pos (exponent : Nat) : 0 < powerOfTen exponent := by
  induction exponent with
  | zero => decide
  | succ exponent inductionHypothesis =>
      rw [powerOfTen_succ]
      exact Nat.mul_pos inductionHypothesis (by decide)

end Tabula
