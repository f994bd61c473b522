import Mathlib

/-! # Reading a stream that arrives in pieces

What a peer sends arrives in pieces, and nothing says how it is cut.  The unread part of a stream
is the list of its pieces: a read without a size returns the next piece, and a read of `n` bytes
returns that many bytes, from as many pieces as it takes.  A reader is right when what it returns
depends on `pieces.flatten` alone. -/

namespace ByteReader

open List

variable {α : Type}

/-- A read of `n` bytes; `none` when the stream is closed before. -/
def readExact : ℕ → List (List α) → Option (List α × List (List α))
  | n, [] => if n = 0 then some ([], []) else none
  | n, piece :: pieces =>
    if n < piece.length then some (piece.take n, piece.drop n :: pieces)
    else if n = piece.length then some (piece, pieces)
    else (readExact (n - piece.length) pieces).map fun r => (piece ++ r.1, r.2)

variable {n : ℕ} {pieces pieces' : List (List α)} {a b : List α}

theorem readExact_eq_some (h : readExact n pieces = some (a, pieces')) :
    a.length = n ∧ a ++ pieces'.flatten = pieces.flatten := by
  induction pieces generalizing n a with unfold readExact at h
  | nil =>
    split_ifs at h with hn
    cases h
    simp [hn]
  | cons piece pieces ih =>
    split_ifs at h with hlt heq
    · cases h
      refine ⟨length_take_of_le (Nat.le_of_lt hlt), ?_⟩
      rw [flatten_cons, ← append_assoc, take_append_drop, flatten_cons]
    · cases h
      exact ⟨heq.symm, rfl⟩
    · obtain ⟨⟨c, rest⟩, hr, hcr⟩ := Option.map_eq_some_iff.mp h
      obtain ⟨rfl, rfl⟩ := Prod.mk.inj hcr
      obtain ⟨hlen, hflat⟩ := ih hr
      refine ⟨?_, ?_⟩
      · rw [length_append, hlen]
        omega
      · rw [append_assoc, hflat, flatten_cons]

/-- **Reads do not depend on the cut**: the next `n` bytes are read, and the rest is left. -/
theorem readExact_of_flatten (h : pieces.flatten = a ++ b) (hn : a.length = n) :
    ∃ rest, readExact n pieces = some (a, rest) ∧ rest.flatten = b := by
  induction pieces generalizing n a with
  | nil =>
    obtain ⟨rfl, rfl⟩ : a = [] ∧ b = [] := by simpa using h.symm
    exact ⟨[], by simp [readExact, ← hn], rfl⟩
  | cons piece pieces ih =>
    rw [flatten_cons] at h
    unfold readExact
    split_ifs with hlt heq
    · -- the piece is longer than what is wanted
      have htake : piece.take n = a := by
        have := congrArg (List.take n) h
        rwa [take_append_of_le_length (Nat.le_of_lt hlt), ← hn,
          take_left' rfl, hn] at this
      have hdrop : piece.drop n ++ pieces.flatten = b := by
        have := congrArg (List.drop n) h
        rwa [drop_append_of_le_length (Nat.le_of_lt hlt), ← hn,
          drop_left' rfl, hn] at this
      exact ⟨piece.drop n :: pieces, by rw [htake], hdrop⟩
    · obtain ⟨rfl, hb⟩ := append_inj h (by omega)
      exact ⟨pieces, rfl, hb⟩
    · obtain ⟨c, hc⟩ : ∃ c, a = piece ++ c := by
        have hp : piece <+: a :=
          prefix_of_prefix_length_le ⟨pieces.flatten, h⟩ (prefix_append a b) (by omega)
        obtain ⟨c, hc⟩ := hp
        exact ⟨c, hc.symm⟩
      subst hc
      rw [append_assoc, append_cancel_left_eq] at h
      rw [length_append] at hn
      obtain ⟨rest, hrest, hflat⟩ := ih (n := n - piece.length) h (by omega)
      exact ⟨rest, by rw [hrest]; rfl, hflat⟩

theorem readExact_ne_nil (hp : ∀ x ∈ pieces, x ≠ []) (h : readExact n pieces = some (a, pieces')) :
    ∀ x ∈ pieces', x ≠ [] := by
  induction pieces generalizing n a with
  | nil =>
    unfold readExact at h
    split_ifs at h
    cases h
    exact hp
  | cons piece pieces ih =>
    obtain ⟨-, hp⟩ := forall_mem_cons.mp hp
    unfold readExact at h
    split_ifs at h with hlt heq
    · cases h
      refine forall_mem_cons.mpr ⟨fun hnil => ?_, hp⟩
      rw [drop_eq_nil_iff] at hnil
      omega
    · cases h
      exact hp
    · obtain ⟨⟨c, rest⟩, hr, hcr⟩ := Option.map_eq_some_iff.mp h
      obtain ⟨-, rfl⟩ := Prod.mk.inj hcr
      exact ih hp hr

end ByteReader
