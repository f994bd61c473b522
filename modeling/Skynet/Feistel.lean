import Mathlib

/-! # Feistel networks and exchanges of bits

A Feistel network runs a list of round keys over a pair of halves.  Whatever the round function
is, the network undoes itself when it is run on the exchanged halves with the keys in reverse
order (`network_reverse`); of the operation that mixes the halves only that a second use undoes
the first is needed.

`exchange n m` swaps the bits of one word that `m` selects with those of another word `n`
positions higher, as permutations of bits are programmed; it is its own inverse as long as no
selected bit is shifted out (`exchange_exchange`). -/

namespace Feistel

open BitVec

section Network

variable {α κ : Type} (op : α → α → α) (F : κ → α → α)

/-- One round: the halves change places, and the left one is mixed with a function of the right
one. -/
def round (s : α × α) (k : κ) : α × α := (s.2, op s.1 (F k s.2))

/-- The rounds of a list of keys. -/
def network (ks : List κ) (s : α × α) : α × α := ks.foldl (round op F) s

variable {op F}

theorem round_swap_round (hop : ∀ a b, op (op a b) b = a) (s : α × α) (k : κ) :
    round op F (round op F s k).swap k = s.swap := by
  simp only [round, Prod.swap, hop]

/-- **A Feistel network undoes itself**, with the keys in reverse order. -/
theorem network_reverse (hop : ∀ a b, op (op a b) b = a) (ks : List κ) (s : α × α) :
    network op F ks.reverse (network op F ks s).swap = s.swap := by
  induction ks generalizing s with
  | nil => rfl
  | cons k ks ih =>
    have hrest : network op F ks.reverse (network op F ks (round op F s k)).swap =
        (round op F s k).swap := ih _
    simp only [network, List.reverse_cons, List.foldl_append, List.foldl_cons, List.foldl_nil]
      at hrest ⊢
    rw [hrest, round_swap_round hop]

end Network

section Exchange

variable {w : ℕ}

theorem xor_xor_cancel (a b : BitVec w) : a ^^^ b ^^^ b = a := by
  rw [BitVec.xor_assoc, BitVec.xor_self, BitVec.xor_zero]

/-- The bits of `y` selected by `m` and the bits of `x` that lie `n` places higher change
places. -/
def exchange (n : ℕ) (m x y : BitVec w) : BitVec w × BitVec w :=
  let t := ((x >>> n) ^^^ y) &&& m
  (x ^^^ (t <<< n), y ^^^ t)

theorem shift_back {n : ℕ} {m : BitVec w} (hm : m <<< n >>> n = m) (a : BitVec w) :
    (a &&& m) <<< n >>> n = a &&& m := by
  refine eq_of_getLsbD_eq fun i hi => ?_
  grind

theorem exchange_exchange {n : ℕ} {m : BitVec w} (hm : m <<< n >>> n = m) (x y : BitVec w) :
    exchange n m (exchange n m x y).1 (exchange n m x y).2 = (x, y) := by
  have hback := shift_back hm ((x >>> n) ^^^ y)
  -- the second exchange moves the same bits as the first
  have ht : (((x ^^^ ((((x >>> n) ^^^ y) &&& m) <<< n)) >>> n) ^^^
      (y ^^^ (((x >>> n) ^^^ y) &&& m))) &&& m = ((x >>> n) ^^^ y) &&& m := by
    rw [ushiftRight_xor_distrib, hback]
    ext i hi
    grind
  simp only [exchange, ht, xor_xor_cancel]

end Exchange

end Feistel
