import Mathlib

/-! # Intrusive singly linked queues

A FIFO queue of nodes that carry their own link: a head, a tail, and one `next` pointer for
every node, linked or not.  `push` and `pop` are the pointer operations; each checks an
assertion and returns `none` when it fails.

`Represents g l` says that the pointers of `g` spell out the list `l`: the chain from the
head is `l`, the tail is its last node, and every node outside `l` has a null link.  Under it
`push` of a node outside `l` appends and `pop` takes the first node, and neither assertion
fails.  (`push` of the last node would go unnoticed by the assertion, since its link is null
as well.) -/

/-- Head, tail and the `next` pointers of all nodes. -/
structure IntrusiveQueue (ι : Type) where
  head : Option ι
  tail : Option ι
  next : ι → Option ι

namespace IntrusiveQueue

open List Function

variable {ι : Type}

/-- No node is linked. -/
def empty : IntrusiveQueue ι := ⟨none, none, fun _ => none⟩

section

variable [DecidableEq ι]

/-- Link `x` at the tail; asserts that its link is null. -/
def push (g : IntrusiveQueue ι) (x : ι) : Option (IntrusiveQueue ι) :=
  if g.next x ≠ none then none
  else
    match g.tail with
    | some t => some { g with tail := some x, next := update g.next t (some x) }
    | none => some { g with head := some x, tail := some x }

/-- Unlink the first node, if there is one; asserts that the last node is the tail. -/
def pop (g : IntrusiveQueue ι) : Option (IntrusiveQueue ι × Option ι) :=
  match g.head with
  | none => some (g, none)
  | some x =>
    match g.next x with
    | some y => some ({ g with head := some y, next := update g.next x none }, some x)
    | none =>
      if g.tail ≠ some x then none
      else
        let next := update g.next x none
        some ({ head := none, tail := none, next := next }, some x)

end

/-! ### Chains -/

/-- The links from `p` spell out `l`. -/
def Chain (next : ι → Option ι) : Option ι → List ι → Prop
  | p, [] => p = none
  | p, x :: l => p = some x ∧ Chain next (next x) l

theorem Chain.update [DecidableEq ι] {next : ι → Option ι} {y : ι} {v : Option ι} :
    ∀ {l : List ι} {p : Option ι}, Chain next p l → y ∉ l →
      Chain (update next y v) p l
  | [], _, h, _ => h
  | x :: l, _, h, hy => by
      rw [mem_cons, not_or] at hy
      refine ⟨h.1, ?_⟩
      rw [update_of_ne (Ne.symm hy.1)]
      exact Chain.update h.2 hy.2

theorem Chain.snoc [DecidableEq ι] {next : ι → Option ι} {t x : ι} : ∀ {l : List ι} {p : Option ι},
    Chain next p (l ++ [t]) → (l ++ [t]).Nodup → x ∉ l ++ [t] → next x = none →
      Chain (Function.update next t (some x)) p (l ++ [t, x])
  | [], p, h, _, hx, hnx => by
      have hne : x ≠ t := by simpa using hx
      refine ⟨h.1, ?_, ?_⟩
      · rw [Function.update_self]
      · rw [Function.update_of_ne hne]
        exact hnx
  | y :: l, p, h, hnd, hx, hnx => by
      rw [cons_append, nodup_cons] at hnd
      rw [cons_append, mem_cons, not_or] at hx
      have hyt : y ≠ t := fun he => hnd.1 (by simp [he])
      refine ⟨h.1, ?_⟩
      rw [Function.update_of_ne hyt]
      exact Chain.snoc h.2 hnd.2 hx.2 hnx

/-! ### Representation -/

/-- The pointers of `g` represent the list `l`. -/
structure Represents (g : IntrusiveQueue ι) (l : List ι) : Prop where
  chain : Chain g.next g.head l
  tail : g.tail = l.getLast?
  nodup : l.Nodup
  outside : ∀ x, x ∉ l → g.next x = none

theorem represents_empty : Represents (empty : IntrusiveQueue ι) [] :=
  ⟨rfl, rfl, nodup_nil, fun _ _ => rfl⟩

namespace Represents

variable [DecidableEq ι] {g : IntrusiveQueue ι} {l : List ι} {x : ι}

/-- **Push** appends a node that is not linked. -/
theorem push (h : Represents g l) (hx : x ∉ l) :
    ∃ g', g.push x = some g' ∧ Represents g' (l ++ [x]) := by
  have hnx := h.outside x hx
  have hnd : (l ++ [x]).Nodup := by
    rw [nodup_append]
    exact ⟨h.nodup, nodup_singleton x, by
      intro a ha b hb
      rw [mem_singleton] at hb
      exact fun he => hx (hb ▸ he ▸ ha)⟩
  rcases eq_nil_or_concat l with rfl | ⟨l₀, t, rfl⟩
  · have htail : g.tail = none := by simpa using h.tail
    refine ⟨{ g with head := some x, tail := some x }, ?_, ⟨⟨rfl, hnx⟩, rfl, hnd, ?_⟩⟩
    · simp [IntrusiveQueue.push, hnx, htail]
    · exact fun y _ => h.outside y (by simp)
  · rw [concat_eq_append] at h hx hnd ⊢
    have htail : g.tail = some t := by simpa using h.tail
    refine ⟨{ g with tail := some x, next := Function.update g.next t (some x) }, ?_,
      ⟨?_, by simp, hnd, ?_⟩⟩
    · simp [IntrusiveQueue.push, hnx, htail]
    · rw [append_assoc]
      exact h.chain.snoc h.nodup hx hnx
    · intro y hy
      rw [mem_append, not_or] at hy
      have hyt : y ≠ t := fun he => hy.1 (by simp [he])
      show Function.update g.next t (some x) y = none
      rw [Function.update_of_ne hyt]
      exact h.outside y hy.1

/-- **Pop** of an empty queue. -/
theorem pop_nil (h : Represents g []) : g.pop = some (g, none) := by
  have hhead : g.head = none := h.chain
  simp [IntrusiveQueue.pop, hhead]

/-- **Pop** takes the first node. -/
theorem pop_cons (h : Represents g (x :: l)) :
    ∃ g', g.pop = some (g', some x) ∧ Represents g' l := by
  obtain ⟨hhead, hchain⟩ := h.chain
  obtain ⟨hxl, hnd⟩ := nodup_cons.mp h.nodup
  have hout : ∀ y, y ∉ l → update g.next x none y = none := by
    intro y hy
    by_cases hyx : y = x
    · rw [hyx, update_self]
    · rw [update_of_ne hyx]
      exact h.outside y (by simp [hyx, hy])
  cases l with
  | nil =>
    have hnx : g.next x = none := hchain
    have htail : g.tail = some x := by simpa using h.tail
    refine ⟨⟨none, none, update g.next x none⟩, ?_, ⟨rfl, rfl, hnd, hout⟩⟩
    simp [IntrusiveQueue.pop, hhead, hnx, htail]
  | cons y l =>
    have hnx : g.next x = some y := hchain.1
    refine ⟨{ g with head := some y, next := update g.next x none }, ?_,
      ⟨⟨rfl, ?_⟩, ?_, hnd, hout⟩⟩
    · simp [IntrusiveQueue.pop, hhead, hnx]
    · have hyx : y ≠ x := fun he => hxl (by simp [he])
      show Chain (update g.next x none) (update g.next x none y) l
      rw [update_of_ne hyx]
      exact hchain.2.update (fun hm => hxl (mem_cons_of_mem _ hm))
    · rw [h.tail]
      simp

end Represents

end IntrusiveQueue
