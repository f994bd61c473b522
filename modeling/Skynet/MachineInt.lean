import Mathlib

/-! # The type `int`

The conversion of an integer to a signed type of 32 bits. -/

namespace MachineInt

/-- The conversion to `int`. -/
@[irreducible] def toInt (n : ℤ) : ℤ := n.bmod (2 ^ 32)

theorem toInt_of_lt {n : ℕ} (h : n < 2 ^ 31) : toInt n = n := by
  rw [toInt, Int.bmod_eq_of_le] <;> omega

theorem toInt_lt (n : ℤ) : toInt n < 2 ^ 31 := by
  rw [toInt, Int.bmod]
  omega

theorem toInt_neg {n : ℕ} (h : 2 ^ 31 ≤ n) (h' : n < 2 ^ 32) : toInt n < 0 := by
  rw [toInt, Int.bmod]
  omega

end MachineInt
