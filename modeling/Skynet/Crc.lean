import Mathlib

/-! # Cyclic redundancy checks

The remainder of a polynomial division over two elements, in a register of `w` bits and without
reflection.  One step shifts the register and subtracts the divisor if a bit falls out of it
(`shift`).  A step is linear, so what comes in below the highest bits only moves until it gets
there (`iterate_shift_of_lt`). -/

namespace Crc

variable {w : ℕ} {poly : BitVec w}

/-- One step of the division by `x ^ w + poly`. -/
def shift (poly c : BitVec w) : BitVec w := if c.msb then c <<< 1 ^^^ poly else c <<< 1

theorem shift_xor (a b : BitVec w) : shift poly (a ^^^ b) = shift poly a ^^^ shift poly b := by
  simp only [shift, BitVec.msb_xor, BitVec.shiftLeft_xor_distrib]
  cases a.msb <;> cases b.msb <;> simp only [Bool.xor_false, Bool.xor_true, Bool.not_true,
    Bool.not_false, Bool.false_eq_true, if_true, if_false]
  · ac_rfl
  · ac_rfl
  · rw [BitVec.xor_comm (b <<< 1), BitVec.xor_assoc, ← BitVec.xor_assoc poly, BitVec.xor_self,
      BitVec.zero_xor]

theorem iterate_shift_xor (n : ℕ) (a b : BitVec w) :
    (shift poly)^[n] (a ^^^ b) = (shift poly)^[n] a ^^^ (shift poly)^[n] b := by
  induction n generalizing a b with
  | zero => rfl
  | succ n ih => simp only [Function.iterate_succ_apply, shift_xor, ih]

/-- A number with room for `n` more bits only moves in `n` steps. -/
theorem iterate_shift_of_lt {n : ℕ} {c : BitVec w} (h : c.toNat * 2 ^ n < 2 ^ w) :
    (shift poly)^[n] c = c <<< n := by
  induction n generalizing c with
  | zero => simp
  | succ n ih =>
    rw [pow_succ', ← mul_assoc, mul_comm c.toNat] at h
    have hlt : 2 * c.toNat < 2 ^ w := (Nat.le_mul_of_pos_right _ (Nat.two_pow_pos n)).trans_lt h
    have hshift : (c <<< 1).toNat = 2 * c.toNat := by
      rw [BitVec.toNat_shiftLeft, Nat.shiftLeft_eq, pow_one, mul_comm,
        Nat.mod_eq_of_lt hlt]
    rw [Function.iterate_succ_apply, shift, BitVec.msb_eq_false_iff_two_mul_lt.mpr hlt,
      if_neg Bool.false_ne_true, ih (by rwa [hshift]), ← BitVec.shiftLeft_add, add_comm]

end Crc
