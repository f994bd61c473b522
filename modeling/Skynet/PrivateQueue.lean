import Skynet.RingQueue
import Skynet.Transition

/-! # The queue of a service

`mq_private` is a ring queue that doubles when it is full, with an overload warning: `pop` compares
the length it leaves with a threshold that doubles until it is not below, and `overload` reports the
length once.  A run of calls is that of a list, and the report is the last length that was above the
threshold (`private_queue_refines`).  This is not always the largest one: when the queue was found
empty before the report, the threshold starts over (`smaller_overload_reported`).

Capacities and lengths are natural numbers; a `push` whose new capacity is no `int` is no call of a
run, and as long as there are less than 2³⁰ messages there is none.  `pushed`, `popped`, `exceeded`
and `emptied` record the history; no call reads them.  The flags `is_in_global_` and `is_release_`
are those of `Node`. -/

namespace Skynet.PrivateQueue

open List Transition RingQueue

def DEFAULT_QUEUE_CAPACITY : ℕ := 64
def DEFAULT_OVERLOAD_THRESHOLD : ℕ := 1024

structure Queue (α : Type) where
  ring : RingQueue α
  /-- `overload_` -/
  load : ℕ
  threshold : ℕ
  pushed : List α
  popped : List α
  /-- the lengths above the threshold since the last call of `overload` -/
  exceeded : List ℕ
  /-- `pop` has found the queue empty since the last call of `overload` -/
  emptied : Bool

/-- The loop of `pop`.  The threshold is positive, so that it makes fewer rounds than the length
says. -/
def raise (length : ℕ) : ℕ → ℕ → ℕ → ℕ × ℕ
  | 0, load, threshold => (load, threshold)
  | rounds + 1, load, threshold =>
    if threshold < length then raise length rounds length (threshold * 2) else (load, threshold)

namespace Queue

variable {α : Type}

def create (fill : α) : Queue α where
  ring := .empty DEFAULT_QUEUE_CAPACITY (by decide) fill
  load := 0
  threshold := DEFAULT_OVERLOAD_THRESHOLD
  pushed := []
  popped := []
  exceeded := []
  emptied := false

/-- `push`, unless `cap_ * 2` overflows -/
def push (q : Queue α) (x : α) : Option (Queue α) :=
  let ring := q.ring.push q.ring.cap (Nat.zero_lt_of_lt q.ring.head_lt) x
  if ring.cap < 2 ^ 31 then some { q with ring, pushed := q.pushed ++ [x] } else none

/-- `pop`: the message, unless the queue is empty -/
def pop (q : Queue α) : Option α × Queue α :=
  match q.ring.pop with
  | none => (none, { q with threshold := DEFAULT_OVERLOAD_THRESHOLD, emptied := true })
  | some (x, ring) =>
    let raised := raise ring.count ring.count q.load q.threshold
    (some x, { q with
      ring, load := raised.1, threshold := raised.2, popped := q.popped ++ [x]
      exceeded := if q.threshold < ring.count then q.exceeded ++ [ring.count] else q.exceeded })

def length (q : Queue α) : ℕ := q.ring.count

def overload (q : Queue α) : ℕ × Queue α :=
  if q.load ≠ 0 then (q.load, { q with load := 0, exceeded := [], emptied := false })
  else (0, { q with exceeded := [], emptied := false })

theorem overload_eq (q : Queue α) :
    q.overload = (q.load, { q with load := 0, exceeded := [], emptied := false }) := by
  unfold overload
  split_ifs with hload
  · rfl
  · rw [Nat.eq_zero_of_not_pos (by omega : ¬ 0 < q.load)]

end Queue

inductive Call (α : Type) where
  | push (x : α)
  | pop
  | length
  | overload

def queue {α : Type} (fill : α) : System (Queue α) (Call α) where
  init := .create fill
  step q
    | .push x => q.push x
    | .pop => some q.pop.2
    | .length => some q
    | .overload => some q.overload.2

/-! ### The threshold -/

theorem raise_spec {n rounds t : ℕ} (load : ℕ) (ht : 0 < t) (hn : n ≤ t + rounds) :
    (∃ k, (raise n rounds load t).2 = t * 2 ^ k) ∧ n ≤ (raise n rounds load t).2 ∧
      (raise n rounds load t).1 = (if t < n then n else load) ∧
      ((raise n rounds load t).2 ≤ t ∨ (raise n rounds load t).2 < 2 * n) := by
  induction rounds generalizing load t with
  | zero =>
    exact ⟨⟨0, by rw [raise, pow_zero, mul_one]⟩, hn, by rw [raise, if_neg (by omega)], .inl le_rfl⟩
  | succ rounds ih =>
    unfold raise
    split_ifs with hlt
    · obtain ⟨⟨k, hk⟩, hle, hload, hbound⟩ := ih n (t := t * 2) (by omega) (by omega)
      exact ⟨⟨k + 1, by rw [hk, pow_succ', mul_assoc]⟩, hle, by rw [hload, ite_self], .inr (by omega)⟩
    · exact ⟨⟨0, by rw [pow_zero, mul_one]⟩, not_lt.mp hlt, rfl, .inl le_rfl⟩

/-! ### All runs -/

variable {α : Type} {fill : α} {q : Queue α}

structure Sound (q : Queue α) : Prop where
  cap : ∃ k, q.ring.cap = DEFAULT_QUEUE_CAPACITY * 2 ^ k
  cap_lt : q.ring.cap < 2 ^ 31
  threshold_lt : q.threshold < 2 ^ 31
  fifo : q.pushed = q.popped ++ q.ring.contents
  power : ∃ k, q.threshold = DEFAULT_OVERLOAD_THRESHOLD * 2 ^ k
  last : q.load = q.exceeded.getLastD 0
  pos : ∀ n ∈ q.exceeded, 0 < n
  largest : q.emptied = false → q.load ≤ q.threshold ∧ ∀ n ∈ q.exceeded, n ≤ q.load

theorem Sound.threshold_pos (h : Sound q) : 0 < q.threshold := by
  obtain ⟨k, hk⟩ := h.power
  rw [hk]
  exact Nat.mul_pos (by decide) (Nat.two_pow_pos k)

theorem threshold_default_lt : DEFAULT_OVERLOAD_THRESHOLD < 2 ^ 31 := by decide

/-- A capacity that is an `int` is at most 2³⁰. -/
theorem Sound.cap_le (h : Sound q) : q.ring.cap ≤ 2 ^ 30 := by
  obtain ⟨k, hk⟩ := h.cap
  have hlt := h.cap_lt
  rw [hk, DEFAULT_QUEUE_CAPACITY, show 64 = 2 ^ 6 from rfl, ← pow_add] at hlt ⊢
  have := (Nat.pow_lt_pow_iff_right (by decide)).mp hlt
  exact Nat.pow_le_pow_right (by decide) (by omega)

theorem Sound.push {x : α} {q' : Queue α} (h : Sound q) (hpush : q.push x = some q') :
    Sound q' := by
  simp only [Queue.push] at hpush
  split_ifs at hpush with hcap
  cases hpush
  refine { h with cap := ?_, cap_lt := hcap, fifo := ?_ }
  · obtain ⟨k, hk⟩ := h.cap
    simp only [cap_push]
    split_ifs
    · exact ⟨k + 1, by rw [pow_succ, ← mul_assoc, ← hk, Nat.mul_two]⟩
    · exact ⟨k, hk⟩
  · simp only [h.fifo, contents_push, append_assoc]

theorem pushed_of_push {x : α} {q' : Queue α} (hpush : q.push x = some q') :
    q'.pushed = q.pushed ++ [x] := by
  simp only [Queue.push] at hpush
  split_ifs at hpush
  cases hpush
  rfl

/-- With less than 2³⁰ messages the capacity of the queue stays an `int`. -/
theorem Sound.exists_push (h : Sound q) (hlen : q.length + 1 < 2 ^ 30) (x : α) :
    ∃ q', q.push x = some q' := by
  simp only [Queue.push]
  refine ⟨_, if_pos ?_⟩
  have hle := h.cap_le
  rw [cap_push]
  split_ifs with hfull
  · have := q.ring.count_of_full hfull
    rw [Queue.length] at hlen
    omega
  · exact h.cap_lt

theorem Sound.pop (h : Sound q) : Sound q.pop.2 := by
  unfold Queue.pop
  cases hpop : q.ring.pop with
  | none => exact ⟨h.cap, h.cap_lt, threshold_default_lt, h.fifo, ⟨0, rfl⟩, h.last, h.pos, nofun⟩
  | some out =>
    obtain ⟨⟨k, hk⟩, hle, hload, hbound⟩ := raise_spec q.load h.threshold_pos
      (Nat.le_add_left out.2.count _)
    obtain ⟨j, hj⟩ := h.power
    have hcap := cap_pop hpop
    refine ⟨hcap ▸ h.cap, hcap ▸ h.cap_lt, ?_, ?_, ⟨j + k, ?_⟩, ?_, ?_, fun hempty => ?_⟩
    · have := h.cap_le
      have := h.threshold_lt
      have := count_lt out.2
      change (raise out.2.count out.2.count q.load q.threshold).2 < 2 ^ 31
      omega
    · simp only [h.fifo, contents_pop hpop, append_assoc, singleton_append]
    · rw [pow_add, ← mul_assoc, ← hj]
      exact hk
    · simp only [hload]
      split_ifs
      · rw [getLastD_concat]
      · exact h.last
    · simp only
      split_ifs with hlt
      · exact forall_mem_append.mpr ⟨h.pos, forall_mem_singleton.mpr (by omega)⟩
      · exact h.pos
    · obtain ⟨hlow, hall⟩ := h.largest hempty
      simp only [hload]
      split_ifs with hlt
      · refine ⟨hle, forall_mem_append.mpr ⟨fun n hn => ?_, forall_mem_singleton.mpr le_rfl⟩⟩
        have := hall n hn
        omega
      · have : q.threshold ≤ q.threshold * 2 ^ k := Nat.le_mul_of_pos_right _ (Nat.two_pow_pos k)
        exact ⟨by omega, hall⟩

theorem Sound.of_reachable (h : (queue fill).Reachable q) : Sound q := by
  have hcap : DEFAULT_QUEUE_CAPACITY < 2 ^ 31 := by decide
  refine h.invariant ⟨⟨0, rfl⟩, hcap, threshold_default_lt, rfl, ⟨0, rfl⟩, rfl, by simp [queue,
    Queue.create], fun _ => ⟨Nat.zero_le _, by simp [queue, Queue.create]⟩⟩
    fun q call q' hq _ hstep => ?_
  cases call with
  | push x => exact hq.push hstep
  | pop =>
    cases hstep
    exact hq.pop
  | length =>
    cases hstep
    exact hq
  | overload =>
    cases hstep
    rw [q.overload_eq]
    exact ⟨hq.cap, hq.cap_lt, hq.threshold_lt, hq.fifo, hq.power, rfl, by simp,
      fun _ => ⟨Nat.zero_le _, by simp⟩⟩

/-- **The queue is a list**: capacity and threshold are `int`s, and a message can be pushed while
there are less than 2³⁰.  What was pushed is what was popped and the contents, in this order.
The length that `pop` leaves is not above the threshold, `overload` returns the last length since
its last call that was above the threshold in force, and this is the largest one unless the queue
was found empty in between. -/
theorem private_queue_refines (h : (queue fill).Reachable q) :
    (q.ring.cap < 2 ^ 31 ∧ q.threshold < 2 ^ 31) ∧
    (q.length + 1 < 2 ^ 30 → ∀ x, ∃ q', q.push x = some q' ∧ q'.pushed = q.pushed ++ [x]) ∧
    q.pushed = q.popped ++ q.ring.contents ∧ q.length = q.pushed.length - q.popped.length ∧
    (∃ k, q.threshold = DEFAULT_OVERLOAD_THRESHOLD * 2 ^ k) ∧
    (match q.pop with
      | (some x, q') => q'.popped = q.popped ++ [x] ∧ q'.length ≤ q'.threshold ∧
        q'.exceeded = if q.threshold < q'.length then q.exceeded ++ [q'.length] else q.exceeded
      | (none, q') => q.length = 0 ∧ q'.popped = q.popped ∧ q'.exceeded = q.exceeded ∧
        q'.threshold = DEFAULT_OVERLOAD_THRESHOLD) ∧
    q.overload.1 = q.exceeded.getLastD 0 ∧ (q.overload.1 = 0 ↔ q.exceeded = []) ∧
    q.overload.2.exceeded = [] ∧ (q.emptied = false → ∀ n ∈ q.exceeded, n ≤ q.overload.1) := by
  have hq := Sound.of_reachable h
  rw [q.overload_eq]
  refine ⟨⟨hq.cap_lt, hq.threshold_lt⟩, fun hlen x => ?_, hq.fifo, ?_, hq.power, ?_, hq.last, ?_, rfl,
    fun he => (hq.largest he).2⟩
  · obtain ⟨q', hpush⟩ := hq.exists_push hlen x
    exact ⟨q', hpush, pushed_of_push hpush⟩
  · rw [hq.fifo, length_append, Nat.add_sub_cancel_left, length_contents]
    rfl
  · unfold Queue.pop
    cases hpop : q.ring.pop with
    | none =>
      refine ⟨?_, rfl, rfl, rfl⟩
      rw [Queue.length, ← length_contents, pop_eq_none.mp hpop, length_nil]
    | some out => exact ⟨rfl, (raise_spec _ hq.threshold_pos (Nat.le_add_left _ _)).2.1, rfl⟩
  · rw [hq.last]
    constructor
    · intro hzero
      by_contra hne
      have hpos := hq.pos _ (getLast_mem hne)
      rw [getLastD_eq_getLast?, getLast?_eq_some_getLast hne, Option.getD_some] at hzero
      omega
    · rintro hnil
      rw [hnil]
      rfl

/-! ### A report that is not the largest length -/

/-- What `pop` changes besides the messages. -/
abbrev Meter := ℕ × ℕ × List ℕ × Bool

def Queue.meter (q : Queue α) : Meter := (q.load, q.threshold, q.exceeded, q.emptied)

/-- A message is popped and `n` are left. -/
def Meter.left (n : ℕ) (m : Meter) : Meter :=
  ((raise n n m.1 m.2.1).1, (raise n n m.1 m.2.1).2,
    if m.2.1 < n then m.2.2.1 ++ [n] else m.2.2.1, m.2.2.2)

theorem pop_of_length {n : ℕ} (h : q.length = n + 1) :
    q.pop.2.length = n ∧ q.pop.2.meter = q.meter.left n := by
  rw [Queue.length, ← length_contents] at h
  unfold Queue.pop
  cases hpop : q.ring.pop with
  | none =>
    rw [pop_eq_none.mp hpop] at h
    cases h
  | some out =>
    rw [contents_pop hpop, length_cons, length_contents] at h
    obtain rfl := Nat.succ.inj h
    exact ⟨rfl, rfl⟩

theorem exists_push (h : (queue fill).Reachable q) {n : ℕ} (hn : q.length + n < 2 ^ 30) :
    ∃ q', (queue fill).Reachable q' ∧ q'.length = q.length + n ∧ q'.meter = q.meter := by
  induction n with
  | zero => exact ⟨q, h, rfl, rfl⟩
  | succ n ih =>
    obtain ⟨q', h', hlen, hmeter⟩ := ih (by omega)
    obtain ⟨q'', hpush⟩ := (Sound.of_reachable h').exists_push (by omega) fill
    refine ⟨q'', h'.next (.push fill) trivial hpush, ?_⟩
    simp only [Queue.push] at hpush
    split_ifs at hpush
    cases hpush
    refine ⟨?_, hmeter⟩
    rw [Queue.length, ← length_contents] at hlen ⊢
    rw [contents_push, length_append, hlen]
    rfl

/-- The queue has grown three times when it holds 300 messages. -/
theorem private_queue_refines_of_many : ∃ q, (queue 0).Reachable q ∧ q.length = 300 ∧
    q.pushed = q.popped ++ q.ring.contents ∧ q.pushed.length = q.popped.length + 300 := by
  obtain ⟨q, h, hlen, -⟩ := exists_push (.init (M := queue 0)) (n := 300) (by decide)
  have hlen : q.length = 300 := hlen
  obtain ⟨-, -, hfifo, -⟩ := private_queue_refines h
  refine ⟨q, h, hlen, hfifo, ?_⟩
  rw [hfifo, length_append, length_contents]
  exact congrArg _ hlen

theorem exists_empty (h : (queue fill).Reachable q) (ht : q.length ≤ q.threshold) :
    ∃ q', (queue fill).Reachable q' ∧ q'.length = 0 ∧
      q'.meter = (q.load, DEFAULT_OVERLOAD_THRESHOLD, q.exceeded, true) := by
  induction hlen : q.length generalizing q with
  | zero =>
    have hpop : q.ring.pop = none := by
      rwa [pop_eq_none, ← length_eq_zero_iff, length_contents]
    refine ⟨q.pop.2, h.next .pop trivial rfl, ?_, ?_⟩ <;> rw [Queue.pop, hpop]
    · exact hlen
    · rfl
  | succ n ih =>
    obtain ⟨hlen', hmeter⟩ := pop_of_length hlen
    have hraise : raise n n q.load q.threshold = (q.load, q.threshold) := by
      cases n <;> rw [raise]
      rw [if_neg (by omega)]
    have hlow : ¬ q.threshold < n := by omega
    simp only [Queue.meter, Meter.left, hraise, hlow, if_false, Prod.mk.injEq] at hmeter
    rw [← hmeter.1, ← hmeter.2.2.1]
    exact ih (h.next .pop trivial rfl) (by omega) hlen'

/-- The queue is filled, emptied and filled again to a lower level before the report. -/
theorem smaller_overload_reported : ∃ q, (queue ()).Reachable q ∧
    q.exceeded = [1026, 1025] ∧ q.overload.1 = 1025 := by
  obtain ⟨q₁, h₁, hlen₁, hmeter₁⟩ := exists_push (.init (M := queue ())) (n := 1027) (by decide)
  obtain ⟨hlen₂, hmeter₂⟩ := pop_of_length hlen₁
  rw [hmeter₁] at hmeter₂
  have hfull : q₁.pop.2.meter = (1026, 2048, [1026], false) := hmeter₂.trans (by decide +kernel)
  simp only [Queue.meter, Prod.mk.injEq] at hfull
  obtain ⟨q₃, h₃, hlen₃, hmeter₃⟩ := exists_empty (h₁.next .pop trivial rfl)
    (by rw [hlen₂, hfull.2.1]; decide)
  obtain ⟨q₄, h₄, hlen₄, hmeter₄⟩ := exists_push h₃ (n := 1026) (by rw [hlen₃]; decide)
  obtain ⟨-, hmeter₅⟩ := pop_of_length (hlen₄.trans (congrArg (· + 1026) hlen₃))
  rw [hmeter₄, hmeter₃, hfull.1, hfull.2.2.1] at hmeter₅
  have hlast : q₄.pop.2.meter = (1025, 2048, [1026, 1025], true) :=
    hmeter₅.trans (by decide +kernel)
  simp only [Queue.meter, Prod.mk.injEq] at hlast
  exact ⟨q₄.pop.2, h₄.next .pop trivial rfl, hlast.2.2.1, by rw [Queue.overload_eq]; exact hlast.1⟩

end Skynet.PrivateQueue
