import Mathlib

/-! # Masks and blocks of binary digits

Comparing two numbers after filling their low `k` digits with ones compares the numbers
without these digits; masking with `2 ^ k - 1` keeps exactly these digits.  The statements
are for 32-bit words and for the literal masks a program writes. -/

namespace MaskArith

theorem or_low_eq_iff (a b k : ℕ) :
    a ||| (2 ^ k - 1) = b ||| (2 ^ k - 1) ↔ a / 2 ^ k = b / 2 ^ k := by
  have hlow : ∀ x : ℕ, (x ||| (2 ^ k - 1)) >>> k = x / 2 ^ k := by
    intro x
    have hone : (2 ^ k - 1) / 2 ^ k = 0 := Nat.div_eq_of_lt (Nat.sub_lt (by positivity) one_pos)
    rw [Nat.shiftRight_or_distrib, Nat.shiftRight_eq_div_pow, Nat.shiftRight_eq_div_pow, hone,
      Nat.or_zero]
  constructor
  · intro h
    rw [← hlow a, ← hlow b, h]
  · intro h
    apply Nat.eq_of_testBit_eq
    intro i
    rw [Nat.testBit_or, Nat.testBit_or, Nat.testBit_two_pow_sub_one]
    rcases lt_or_ge i k with hi | hi
    · simp [hi]
    · have hd := congrArg (fun x => x.testBit (i - k)) h
      simp only [Nat.testBit_div_two_pow] at hd
      rw [Nat.sub_add_cancel hi] at hd
      rw [hd]

variable {a m : UInt32} {k : ℕ}

theorem uint32_or_eq_iff {b : UInt32} (hm : m.toNat = 2 ^ k - 1) :
    a ||| m = b ||| m ↔ a.toNat / 2 ^ k = b.toNat / 2 ^ k := by
  rw [← UInt32.toNat_inj, UInt32.toNat_or, UInt32.toNat_or, hm, or_low_eq_iff]

theorem uint32_toNat_and (hm : m.toNat = 2 ^ k - 1) : (a &&& m).toNat = a.toNat % 2 ^ k := by
  rw [UInt32.toNat_and, hm, Nat.and_two_pow_sub_one_eq_mod]

theorem uint32_toNat_shiftRight {s : UInt32} (hs : s.toNat = k) (hk : k < 32) :
    (a >>> s).toNat = a.toNat / 2 ^ k := by
  rw [UInt32.toNat_shiftRight, hs, Nat.mod_eq_of_lt hk, Nat.shiftRight_eq_div_pow]

theorem uint32_eq_zero_iff : a = 0 ↔ a.toNat = 0 := by
  rw [← UInt32.toNat_inj]; rfl

theorem uint32_and_eq_zero_iff (hm : m.toNat = 2 ^ k - 1) : a &&& m = 0 ↔ a.toNat % 2 ^ k = 0 := by
  rw [uint32_eq_zero_iff, uint32_toNat_and hm]

theorem uint32_toNat_add_one (a : UInt32) : (a + 1).toNat = (a.toNat + 1) % 2 ^ 32 := by
  rw [UInt32.toNat_add]; rfl

/-- A positive `int` converted to an unsigned word. -/
theorem int32_toUInt32_of_pos {d : Int32} (h : ¬ d ≤ 0) :
    1 ≤ d.toUInt32.toNat ∧ d.toUInt32.toNat < 2 ^ 31 := by
  have hd : d.toInt = d.toUInt32.toBitVec.toInt := rfl
  have h0 : (0 : Int32).toInt = 0 := rfl
  have hv : d.toUInt32.toBitVec.toNat = d.toUInt32.toNat := rfl
  rw [Int32.not_le, Int32.lt_iff_toInt_lt, hd, h0, BitVec.toInt_eq_toNat_cond] at h
  split_ifs at h <;> omega

/-- Any `n` consecutive numbers have all the residues modulo `n`. -/
theorem exists_add_mod_eq (a : ℕ) {n : ℕ} (hk : k < n) : ∃ i < n, (a + i) % n = k := by
  have ha : a % n < n := Nat.mod_lt _ (by omega)
  refine ⟨(k + (n - a % n)) % n, Nat.mod_lt _ (by omega), ?_⟩
  rw [Nat.add_mod_mod, ← Nat.mod_add_mod, show a % n + (k + (n - a % n)) = k + n by omega,
    Nat.add_mod_right, Nat.mod_eq_of_lt hk]

end MaskArith
