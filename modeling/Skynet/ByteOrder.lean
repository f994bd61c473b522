import Mathlib

/-! # Numbers as bytes

`toLE k n` are the `k` low bytes of `n`, least significant first, and `ofLE` is the number a
list of bytes spells out; `toBE` and `ofBE` are the same most significant byte first.  Writing
`n` in `k` bytes and reading it back gives `n % 256 ^ k`. -/

namespace ByteOrder

open List

/-- The `k` low bytes of `n`, least significant first. -/
def toLE : ℕ → ℕ → List UInt8
  | 0, _ => []
  | k + 1, n => UInt8.ofNat n :: toLE k (n / 256)

/-- The number whose bytes are given least significant first. -/
def ofLE : List UInt8 → ℕ
  | [] => 0
  | b :: bs => b.toNat + 256 * ofLE bs

/-- The `k` low bytes of `n`, most significant first. -/
def toBE (k n : ℕ) : List UInt8 := (toLE k n).reverse

/-- The number whose bytes are given most significant first. -/
def ofBE (bs : List UInt8) : ℕ := ofLE bs.reverse

@[simp] theorem length_toLE (k n : ℕ) : (toLE k n).length = k := by
  induction k generalizing n with
  | zero => rfl
  | succ k ih => rw [toLE, length_cons, ih]

@[simp] theorem length_toBE (k n : ℕ) : (toBE k n).length = k := by
  rw [toBE, length_reverse, length_toLE]

theorem ofLE_lt (bs : List UInt8) : ofLE bs < 256 ^ bs.length := by
  induction bs with
  | nil => exact Nat.one_pos
  | cons b bs ih =>
    have hb : b.toNat < 256 := b.toNat_lt
    rw [ofLE, length_cons, pow_succ]
    omega

theorem ofLE_toLE (k n : ℕ) : ofLE (toLE k n) = n % 256 ^ k := by
  induction k generalizing n with
  | zero => rw [toLE, ofLE, pow_zero, Nat.mod_one]
  | succ k ih =>
    rw [toLE, ofLE, ih, pow_succ', Nat.mod_mul]
    rfl

theorem ofBE_toBE (k n : ℕ) : ofBE (toBE k n) = n % 256 ^ k := by
  rw [ofBE, toBE, reverse_reverse, ofLE_toLE]

theorem ofLE_append (a b : List UInt8) : ofLE (a ++ b) = ofLE a + 256 ^ a.length * ofLE b := by
  induction a with
  | nil => rw [nil_append, ofLE, length_nil, pow_zero, one_mul, zero_add]
  | cons c a ih =>
    rw [cons_append, ofLE, ih, ofLE, length_cons, pow_succ]
    ring

theorem ofBE_append (a b : List UInt8) : ofBE (a ++ b) = 256 ^ b.length * ofBE a + ofBE b := by
  rw [ofBE, reverse_append, ofLE_append, length_reverse, add_comm]
  rfl

theorem ofBE_lt (bs : List UInt8) : ofBE bs < 256 ^ bs.length := by
  rw [ofBE, ← length_reverse]
  exact ofLE_lt _

end ByteOrder
