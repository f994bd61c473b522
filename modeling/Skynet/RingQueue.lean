import Mathlib

/-! # Ring queues that grow

A FIFO queue in a circular array: `head` is the slot of the first element, `tail` the slot
behind the last one, and the two are equal when the queue is empty.  `push` that would make them
equal moves the elements to a larger array, starting at slot `0`.  `contents` is the queue as a
list; `push` appends to it and `pop` takes its first element, whether or not the array grows. -/

/-- A circular array with the slots of its first and behind its last element. -/
structure RingQueue (α : Type) where
  cap : ℕ
  head : ℕ
  tail : ℕ
  slot : ℕ → α
  head_lt : head < cap
  tail_lt : tail < cap

namespace RingQueue

open List Function

variable {α : Type}

/-- An empty queue with `cap` slots; what stands in them is never read. -/
def empty (cap : ℕ) (h : 0 < cap) (fill : α) : RingQueue α := ⟨cap, 0, 0, fun _ => fill, h, h⟩

/-- How many elements are queued. -/
def count (q : RingQueue α) : ℕ :=
  if q.head ≤ q.tail then q.tail - q.head else q.tail + q.cap - q.head

/-- The queued elements, first in first. -/
def contents (q : RingQueue α) : List α :=
  (List.range q.count).map fun i => q.slot ((q.head + i) % q.cap)

/-- The slot behind the tail. -/
def nextTail (q : RingQueue α) : ℕ :=
  if q.cap ≤ q.tail + 1 then q.tail + 1 - q.cap else q.tail + 1

variable (q : RingQueue α)

theorem nextTail_lt : q.nextTail < q.cap := by
  have := q.tail_lt
  unfold nextTail
  split_ifs <;> omega

/-- Move the elements of a full array to slot `0` of one with `grow` slots more. -/
def expand (grow : ℕ) (h : 0 < grow) (q : RingQueue α) : RingQueue α where
  cap := q.cap + grow
  head := 0
  tail := q.cap
  slot i := q.slot ((q.head + i) % q.cap)
  head_lt := by omega
  tail_lt := by omega

/-- Write `x` behind the last element, and expand the array if that makes it full. -/
def push (grow : ℕ) (h : 0 < grow) (q : RingQueue α) (x : α) : RingQueue α :=
  let pushed :=
    { q with slot := update q.slot q.tail x, tail := q.nextTail, tail_lt := q.nextTail_lt }
  if q.head = q.nextTail then expand grow h pushed else pushed

/-- The slot behind the head. -/
def nextHead (q : RingQueue α) : ℕ := if q.cap ≤ q.head + 1 then 0 else q.head + 1

theorem nextHead_lt : q.nextHead < q.cap := by
  have := q.head_lt
  unfold nextHead
  split_ifs <;> omega

/-- Take the first element, if there is one. -/
def pop (q : RingQueue α) : Option (α × RingQueue α) :=
  if q.head = q.tail then none
  else some (q.slot q.head, { q with head := q.nextHead, head_lt := q.nextHead_lt })

theorem count_lt : q.count < q.cap := by
  have := q.tail_lt
  unfold count
  split_ifs <;> omega

theorem length_contents : q.contents.length = q.count := by
  rw [contents, length_map, length_range]

theorem cap_push {grow : ℕ} (h : 0 < grow) (x : α) :
    (q.push grow h x).cap = if q.head = q.nextTail then q.cap + grow else q.cap := by
  rw [push]
  split_ifs <;> rfl

theorem cap_pop {q : RingQueue α} {out : α × RingQueue α} (h : q.pop = some out) :
    out.2.cap = q.cap := by
  unfold pop at h
  split_ifs at h
  cases h
  rfl

/-- The slot `i` places behind the head. -/
theorem index_eq {i : ℕ} (hi : i < q.cap) :
    (q.head + i) % q.cap = if q.head + i < q.cap then q.head + i else q.head + i - q.cap := by
  have := q.head_lt
  split_ifs with h
  · exact Nat.mod_eq_of_lt h
  · rw [Nat.mod_eq_sub_mod (by omega), Nat.mod_eq_of_lt (by omega)]

theorem index_count : (q.head + q.count) % q.cap = q.tail := by
  have := q.head_lt
  have := q.tail_lt
  rw [q.index_eq q.count_lt, count]
  split_ifs <;> omega

theorem index_ne_tail {i : ℕ} (hi : i < q.count) : (q.head + i) % q.cap ≠ q.tail := by
  rw [q.index_eq (Nat.lt_trans hi q.count_lt)]
  unfold count at hi
  split_ifs at hi ⊢ <;> omega

/-- The elements behind the head once `x` is written to the tail. -/
theorem map_update (x : α) : (List.range (q.count + 1)).map
      (fun i => update q.slot q.tail x ((q.head + i) % q.cap)) = q.contents ++ [x] := by
  rw [range_succ, map_append, map_singleton, q.index_count, update_self,
    contents]
  refine congrArg (· ++ [x]) (map_congr_left fun i hi => ?_)
  exact update_of_ne (q.index_ne_tail (mem_range.mp hi)) ..

theorem count_of_full (h : q.head = q.nextTail) : q.count + 1 = q.cap := by
  have := q.tail_lt
  unfold nextTail at h
  unfold count
  split_ifs at h ⊢ <;> omega

theorem count_nextTail (h : q.head ≠ q.nextTail) :
    (if q.head ≤ q.nextTail then q.nextTail - q.head else q.nextTail + q.cap - q.head) =
      q.count + 1 := by
  have := q.head_lt
  have := q.tail_lt
  unfold nextTail at h ⊢
  unfold count
  split_ifs at h ⊢ <;> omega

/-- **First in**: `push` appends, also when the array grows. -/
theorem contents_push {grow : ℕ} (h : 0 < grow) (x : α) :
    (q.push grow h x).contents = q.contents ++ [x] := by
  rw [← map_update, contents, push]
  by_cases hfull : q.head = q.nextTail
  · -- the whole array is moved, so the elements are those of all its slots
    rw [if_pos hfull, q.count_of_full hfull]
    refine map_congr_left fun i hi => ?_
    have hi : i < q.cap := mem_range.mp hi
    change update q.slot q.tail x ((q.head + (0 + i) % (q.cap + grow)) % q.cap) = _
    rw [Nat.zero_add, Nat.mod_eq_of_lt (by omega : i < q.cap + grow)]
  · rw [if_neg hfull, ← q.count_nextTail hfull]
    rfl

theorem pop_eq_none {q : RingQueue α} : q.pop = none ↔ q.contents = [] := by
  have := q.head_lt
  rw [← length_eq_zero_iff, length_contents, pop, count]
  split_ifs <;> simp <;> omega

theorem count_nextHead (h : q.head ≠ q.tail) :
    (if q.nextHead ≤ q.tail then q.tail - q.nextHead else q.tail + q.cap - q.nextHead) + 1 =
      q.count := by
  have := q.head_lt
  have := q.tail_lt
  unfold nextHead count
  split_ifs <;> omega

theorem index_nextHead (i : ℕ) : (q.nextHead + i) % q.cap = (q.head + (i + 1)) % q.cap := by
  have := q.head_lt
  rw [Nat.add_comm i 1, ← Nat.add_assoc, nextHead]
  split_ifs with hle
  · rw [(by omega : q.head + 1 = q.cap), Nat.zero_add, Nat.add_mod_left]
  · rfl

/-- **First out**: `pop` takes the first element. -/
theorem contents_pop {q r : RingQueue α} {x : α} (h : q.pop = some (x, r)) :
    q.contents = x :: r.contents := by
  unfold pop at h
  split at h
  · cases h
  · rename_i hne
    cases h
    have hfirst : q.slot ((q.head + 0) % q.cap) = q.slot q.head := by
      rw [Nat.add_zero, Nat.mod_eq_of_lt q.head_lt]
    rw [contents, ← q.count_nextHead hne, range_succ_eq_map, map_cons, hfirst,
      map_map]
    refine congrArg (q.slot q.head :: ·) (map_congr_left fun i _ => ?_)
    exact congrArg q.slot (q.index_nextHead i).symm

/-- Pop `fuel` times, or until the queue is empty. -/
def drain : ℕ → RingQueue α → List α × RingQueue α
  | 0, q => ([], q)
  | fuel + 1, q =>
    match q.pop with
    | none => ([], q)
    | some (x, r) => (x :: (drain fuel r).1, (drain fuel r).2)

/-- **All out**: with enough fuel everything is popped, in order. -/
theorem drain_eq {fuel : ℕ} {q : RingQueue α} (h : q.contents.length ≤ fuel) :
    (drain fuel q).1 = q.contents ∧ (drain fuel q).2.contents = [] := by
  induction fuel generalizing q with
  | zero =>
    have hnil := length_eq_zero_iff.mp (Nat.le_zero.mp h)
    exact ⟨hnil.symm, hnil⟩
  | succ fuel ih =>
    cases hpop : q.pop with
    | none =>
      rw [drain, hpop]
      exact ⟨(pop_eq_none.mp hpop).symm, pop_eq_none.mp hpop⟩
    | some out =>
      obtain ⟨x, r⟩ := out
      have hcons := contents_pop hpop
      rw [hcons, length_cons] at h
      obtain ⟨hall, hnil⟩ := ih (Nat.le_of_succ_le_succ h)
      rw [drain, hpop, hcons]
      exact ⟨congrArg (x :: ·) hall, hnil⟩

end RingQueue
