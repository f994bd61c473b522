import Mathlib

/-! # Packets of many items on one connection

Items are sent as one or more packets each.  Every item has a key, and the packets of items with
different keys may be mixed in any way; those of one item come in order.  `Pending` says what of
each item is still to come.  `start` takes the first packet of a new item and `next` another packet
of an item that was started; both say whether the item is complete.

A receiver keeps something for each key.  Since a packet only changes what is pending for its own
key, a relation between the two that holds key by key is kept by every packet when it is kept at
the key of the packet (`Step.forall_key`). -/

namespace Multiplex

open Function

/-- How items are sent. -/
structure Source (κ ι π : Type) where
  key : ι → κ
  packets : ι → List π

/-- The items that are not complete, with the packets to come. -/
def Pending (κ ι π : Type) : Type := κ → Option (ι × List π)

/-- The packet, the item if it is complete, and what is pending. -/
structure Sent (κ ι π : Type) where
  packet : π
  complete : Option ι
  pending : Pending κ ι π

variable {κ ι π τ : Type} [DecidableEq κ]

/-- One packet of an item is taken; the others are pending. -/
def Pending.take (p : Pending κ ι π) (k : κ) (i : ι) : List π → Option (Sent κ ι π)
  | [] => none
  | [a] => some ⟨a, some i, update p k none⟩
  | a :: b :: l => some ⟨a, none, update p k (some (i, b :: l))⟩

/-- The first packet of a new item. -/
def Source.start (S : Source κ ι π) (p : Pending κ ι π) (i : ι) : Option (Sent κ ι π) :=
  if (p (S.key i)).isNone then p.take (S.key i) i (S.packets i) else none

/-- Another packet of the item with key `k`. -/
def Pending.next (p : Pending κ ι π) (k : κ) : Option (Sent κ ι π) :=
  (p k).bind fun x => p.take k x.1 x.2

/-- A packet of item `i` with key `k` is sent, of those in `l`. -/
structure Step (p : Pending κ ι π) (k : κ) (i : ι) (l : List π) (s : Sent κ ι π) : Prop where
  packets : ∃ rest, l = s.packet :: rest ∧
    (rest = [] ∧ s.complete = some i ∧ s.pending k = none ∨
      rest ≠ [] ∧ s.complete = none ∧ s.pending k = some (i, rest))
  others : ∀ k', k' ≠ k → s.pending k' = p k'

variable {p : Pending κ ι π} {i : ι} {l : List π} {s : Sent κ ι π}

variable {k : κ}

theorem Pending.take_step (h : p.take k i l = some s) : Step p k i l s := by
  unfold Pending.take at h
  split at h
  · cases h
  · cases h
    exact ⟨⟨[], rfl, .inl ⟨rfl, rfl, update_self ..⟩⟩,
      fun k' hk => update_of_ne hk _ _⟩
  · cases h
    exact ⟨⟨_, rfl, .inr ⟨List.cons_ne_nil _ _, rfl, update_self ..⟩⟩,
      fun k' hk => update_of_ne hk _ _⟩

theorem Source.start_step {S : Source κ ι π} (h : S.start p i = some s) :
    p (S.key i) = none ∧ Step p (S.key i) i (S.packets i) s := by
  unfold Source.start at h
  split_ifs at h with hnone
  exact ⟨Option.isNone_iff_eq_none.mp hnone, Pending.take_step h⟩

theorem Pending.next_step (h : p.next k = some s) : ∃ i l, p k = some (i, l) ∧ Step p k i l s := by
  obtain ⟨⟨i, l⟩, hk, hs⟩ := Option.bind_eq_some_iff.mp h
  exact ⟨i, l, hk, Pending.take_step hs⟩

theorem Pending.exists_take (p : Pending κ ι π) (k : κ) (i : ι) (hl : l ≠ []) :
    ∃ s, p.take k i l = some s ∧ Step p k i l s := by
  match l with
  | [] => exact absurd rfl hl
  | [a] => exact ⟨_, rfl, take_step rfl⟩
  | a :: b :: l => exact ⟨_, rfl, take_step rfl⟩

theorem Source.exists_start {S : Source κ ι π} (h : p (S.key i) = none) (hl : S.packets i ≠ []) :
    ∃ s, S.start p i = some s ∧ Step p (S.key i) i (S.packets i) s := by
  rw [Source.start, h, if_pos Option.isNone_none]
  exact p.exists_take _ i hl

theorem Pending.exists_next (h : p k = some (i, l)) (hl : l ≠ []) :
    ∃ s, p.next k = some s ∧ Step p k i l s := by
  rw [Pending.next, h, Option.bind_some]
  exact p.exists_take k i hl

omit [DecidableEq κ] in
theorem Step.last {a : π} (h : Step p k i [a] s) :
    s.packet = a ∧ s.complete = some i ∧ s.pending k = none := by
  obtain ⟨rest, hl, hrest⟩ := h.packets
  obtain ⟨rfl, rfl⟩ := List.cons.inj hl
  exact ⟨rfl, (hrest.resolve_right fun hr => hr.1 rfl).2⟩

omit [DecidableEq κ] in
theorem Step.middle {a : π} (h : Step p k i (a :: l) s) (hl : l ≠ []) :
    s.packet = a ∧ s.complete = none ∧ s.pending k = some (i, l) := by
  obtain ⟨rest, hal, hrest⟩ := h.packets
  obtain ⟨rfl, rfl⟩ := List.cons.inj hal
  exact ⟨rfl, (hrest.resolve_left fun hr => hl hr.1).2⟩

theorem Step.forall_key (h : Step p k i l s) {R : κ → Option (ι × List π) → τ → Prop} {f g : κ → τ}
    (hR : ∀ k', R k' (p k') (f k')) (hother : ∀ k', k' ≠ k → g k' = f k')
    (hk : R k (s.pending k) (g k)) (k' : κ) : R k' (s.pending k') (g k') := by
  by_cases heq : k' = k
  · rw [heq]
    exact hk
  · rw [h.others k' heq, hother k' heq]
    exact hR k'

end Multiplex
