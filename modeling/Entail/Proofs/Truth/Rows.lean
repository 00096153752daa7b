import Mathlib.Data.Nat.Bitwise
import Entail.Truth.Table

/-!
# Rows of truth tables

The values in a row of a truth table are the bits of its number, inverted and
read from the highest one on, so that each choice of values has a row.
-/

namespace Entail

theorem rowBit_eq_not_testBit (n row i : Nat) : rowBit n row i = !row.testBit (n - 1 - i) := by
  have shifted : (row : Int) >>> (n - 1 - i) = ((row >>> (n - 1 - i) : Nat) : Int) := rfl
  rw [rowBit, shifted, Nat.testBit_eq_decide_div_mod_eq, ← Nat.shiftRight_eq_div_pow]
  rcases Nat.mod_two_eq_zero_or_one (row >>> (n - 1 - i)) with even | odd
  · have evenInt : ((row >>> (n - 1 - i) : Nat) : Int) % 2 = 0 := by exact_mod_cast even
    rw [even, evenInt]
    rfl
  · have oddInt : ((row >>> (n - 1 - i) : Nat) : Int) % 2 = 1 := by exact_mod_cast odd
    rw [odd, oddInt]
    rfl

/-- Every choice of values for the columns is made in some row. -/
theorem exists_rowBit (n : Nat) (values : Nat → Bool) :
    ∃ row : Nat, row < 2 ^ n ∧ ∀ i < n, rowBit n row i = values i := by
  refine ⟨Nat.ofBits fun i : Fin n => !values (n - 1 - i), Nat.ofBits_lt_two_pow _, ?_⟩
  intro i inRange
  have position : n - 1 - i < n := by omega
  have back : n - 1 - (n - 1 - i) = i := by omega
  rw [rowBit_eq_not_testBit, Nat.testBit_ofBits_lt _ _ position]
  simp [back]

/-- No two rows of a table have the same values in all columns. -/
theorem eq_of_rowBit {n row other : Nat} (inRange : row < 2 ^ n) (inRange' : other < 2 ^ n)
    (same : ∀ i < n, rowBit n row i = rowBit n other i) : row = other := by
  apply Nat.eq_of_testBit_eq
  intro i
  by_cases low : i < n
  · have position : n - 1 - i < n := by omega
    have back : n - 1 - (n - 1 - i) = i := by omega
    have values := same (n - 1 - i) position
    rw [rowBit_eq_not_testBit, rowBit_eq_not_testBit, back] at values
    exact Bool.not_inj values
  · have larger : 2 ^ n ≤ 2 ^ i := Nat.pow_le_pow_right Nat.two_pos (Nat.le_of_not_lt low)
    rw [Nat.testBit_lt_two_pow (Nat.lt_of_lt_of_le inRange larger),
      Nat.testBit_lt_two_pow (Nat.lt_of_lt_of_le inRange' larger)]

@[simp]
theorem length_truthRow (n : Nat) (row : Int) : (truthRow n row).length = n := by
  simp [truthRow]

end Entail
