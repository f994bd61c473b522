import Skynet.ByteOrder

/-! # Bytes in memory

A piece of memory is a function from offsets to bytes.  `store` copies a list of bytes to an
offset and `load` reads bytes from one; a load sees the last store if it is of the same bytes
(`load_store_same`), what was there before if it is of other bytes (`load_store_of_disjoint`).
The fields of a C struct are little-endian numbers at fixed offsets. -/

namespace ByteMemory

open List ByteOrder

/-- The byte at each offset. -/
def Memory : Type := ℕ → UInt8

namespace Memory

/-- Memory that is all zero. -/
def zero : Memory := fun _ => 0

/-- Copy `bs` to the offset `off`. -/
def store (m : Memory) (off : ℕ) (bs : List UInt8) : Memory := fun i =>
  if off ≤ i ∧ i < off + bs.length then bs.getD (i - off) 0 else m i

/-- The `n` bytes at the offset `off`. -/
def load (m : Memory) (off n : ℕ) : List UInt8 := (List.range n).map fun i => m (off + i)

variable (m : Memory)

@[simp] theorem length_load (off n : ℕ) : (m.load off n).length = n := by
  rw [load, length_map, length_range]

theorem getElem_load (off n : ℕ) {i : ℕ} (h : i < (m.load off n).length) :
    (m.load off n)[i] = m (off + i) := by
  simp [load]

variable {off off' : ℕ}

theorem load_congr {m m' : Memory} {n : ℕ} (h : ∀ i, i < n → m (off + i) = m' (off' + i)) :
    m.load off n = m'.load off' n :=
  map_congr_left fun i hi => h i (mem_range.mp hi)

theorem load_add (off a b : ℕ) : m.load off (a + b) = m.load off a ++ m.load (off + a) b := by
  rw [load, range_add, map_append, map_map]
  refine congrArg (m.load off a ++ ·) (map_congr_left fun i _ => ?_)
  rw [Function.comp_apply, add_assoc]

theorem store_inside (off : ℕ) (bs : List UInt8) {i : ℕ} (h : i < bs.length) :
    m.store off bs (off + i) = bs.getD i 0 := by
  rw [store, if_pos (by omega), Nat.add_sub_cancel_left]

theorem store_outside {i : ℕ} (bs : List UInt8) (h : i < off ∨ off + bs.length ≤ i) :
    m.store off bs i = m i := by
  rw [store, if_neg (by omega)]

theorem load_store_same (off : ℕ) (bs : List UInt8) : (m.store off bs).load off bs.length = bs := by
  apply ext_getElem
  · rw [length_load]
  · intro i hi hi'
    rw [getElem_load, store_inside m off bs hi', getD_eq_getElem bs 0 hi']

theorem load_store_of_disjoint {n : ℕ} (bs : List UInt8)
    (h : off + n ≤ off' ∨ off' + bs.length ≤ off) : (m.store off' bs).load off n = m.load off n :=
  load_congr fun i hi => store_outside m bs (by omega)

/-- Memory that the first `len` bytes of `m` were copied to looks like `m` there. -/
theorem load_copy (m' : Memory) {n len : ℕ} (h : off + n ≤ len) :
    (m'.store 0 (m.load 0 len)).load off n = m.load off n := by
  refine load_congr fun i hi => ?_
  have hin : off + i < (m.load 0 len).length := by rw [length_load]; omega
  have hval := store_inside m' 0 (m.load 0 len) hin
  rw [zero_add] at hval
  rw [hval, getD_eq_getElem _ 0 hin, getElem_load, zero_add]

/-! ### Fields -/

/-- The number in the `k` bytes at `off`. -/
def field (k : ℕ) (m : Memory) (off : ℕ) : ℕ := ofLE (m.load off k)

/-- Write a number to the `k` bytes at `off`. -/
def setField (k : ℕ) (m : Memory) (off n : ℕ) : Memory := m.store off (toLE k n)

theorem field_setField_same (k : ℕ) (m : Memory) (off n : ℕ) :
    field k (setField k m off n) off = n % 256 ^ k := by
  have h := load_store_same m off (toLE k n)
  rw [length_toLE] at h
  rw [field, setField, h, ofLE_toLE]

theorem field_store_of_disjoint (k : ℕ) (m : Memory) (bs : List UInt8)
    (h : off + k ≤ off' ∨ off' + bs.length ≤ off) :
    field k (m.store off' bs) off = field k m off := by
  rw [field, load_store_of_disjoint m bs h, field]

theorem field_setField_of_disjoint (k : ℕ) {k' : ℕ} (m : Memory) {n : ℕ}
    (h : off + k ≤ off' ∨ off' + k' ≤ off) : field k (setField k' m off' n) off = field k m off :=
  field_store_of_disjoint k m _ (by rwa [length_toLE])

end Memory

end ByteMemory
