import Skynet.TimerPlacement

/-! # The timer wheel refines a flat list of timers

`flat` is what the wheel is for: one list of pending timers in the order they were added; a
tick advances the clock and takes the timers whose expiry is the new time.  The wheel runs
in lockstep with it (`agree_step`): on every list of actions both are enabled or neither is,
and they deliver the same timers in the same order.

For the flat list the dispatch history is computed in closed form (`Flat.exact_step`): the
timers delivered in tick `k` are those added in tick `j` with a delay `d` and `j + d = k`, in
the order they were added.  Tick numbers do not wrap, so this covers the runs in which the
32-bit time does. -/

namespace Skynet.TimerWheel

open List Function Transition State

/-! ### The flat list -/

/-- Pending timers in the order they were added, and those being delivered. -/
structure Flat where
  now : UInt32
  pending : List TimerNode
  current : Option (List TimerNode)
  ticks : ℕ
  added : List Added
  dispatched : List (ℕ × TimerNode)

namespace Flat

def init : Flat := ⟨0, [], none, 0, [], []⟩

/-- The timers in `l` that expire at `e`. -/
def expiring (e : UInt32) (l : List TimerNode) : List TimerNode := l.filter fun n => n.expire = e

def tick (f : Flat) : Flat :=
  let now := f.now + 1
  let due := expiring now f.pending
  { f with
    now := now
    ticks := f.ticks + 1
    pending := f.pending.filter fun n => n.expire ≠ now
    current := if due = [] then none else some due }

def step (f : Flat) : Action → Option Flat
  | .timeout svcHandle time session =>
    if time ≤ 0 then some f
    else
      let node : TimerNode := ⟨time.toUInt32 + f.now, ⟨svcHandle, session⟩⟩
      some { f with
        pending := f.pending ++ [node]
        added := f.added ++ [⟨f.ticks, time.toUInt32.toNat, node⟩] }
  | .update => if f.current = none then some f.tick else none
  | .dispatch =>
    match f.current with
    | some (node :: rest) =>
      some { f with current := some rest, dispatched := f.dispatched ++ [(f.ticks, node)] }
    | _ => none
  | .relock => if f.current = some [] then some { f with current := none } else none

end Flat

/-- The specification of the wheel. -/
def flat : System Flat Action := ⟨Flat.init, Flat.step⟩

/-! ### Lists of the wheel and pending timers -/

/-- The wheel holds exactly the pending timers: every node is in its place, and the nodes of
one expiry stand in the order they were added. -/
structure Holds (T : Timer) (pending : List TimerNode) : Prop where
  placed : ∀ l, ∀ n ∈ T.slot l, place n.expire T.time = l
  content : ∀ e, Flat.expiring e (T.slot (place e T.time)) = Flat.expiring e pending

open Flat (expiring)

variable {l : List TimerNode}

variable {e : UInt32}

theorem mem_expiring {n : TimerNode} : n ∈ expiring e l ↔ n ∈ l ∧ n.expire = e := by
  simp [expiring]

theorem expiring_append (e : UInt32) (l₁ l₂ : List TimerNode) :
    expiring e (l₁ ++ l₂) = expiring e l₁ ++ expiring e l₂ := filter_append ..

theorem expiring_eq_nil (h : ∀ n ∈ l, n.expire ≠ e) : expiring e l = [] := by
  simpa [expiring] using h

theorem expiring_eq_self (h : ∀ n ∈ l, n.expire = e) : expiring e l = l := by
  simpa [expiring] using h

theorem expiring_filter_of_imp {p : TimerNode → Bool}
    (h : ∀ n : TimerNode, n.expire = e → p n = true) : expiring e (l.filter p) = expiring e l := by
  unfold expiring
  rw [filter_filter]
  apply filter_congr
  intro n _
  by_cases hn : n.expire = e
  · simp [hn, h n hn]
  · simp [hn]

theorem createTimer_holds : Holds createTimer [] :=
  ⟨fun _ _ h => by simp [createTimer] at h, fun _ => by simp [createTimer]⟩

namespace Holds

variable {T : Timer} {pending : List TimerNode}

variable (h : Holds T pending)

include h

/-- The nodes that expire at `e` are all in one list. -/
theorem eq_place_of_mem {l : Loc} {n : TimerNode} (hn : n ∈ T.slot l) :
    l = place n.expire T.time := (h.placed l n hn).symm

theorem expiring_of_ne {l : Loc} {e : UInt32} (hl : l ≠ place e T.time) :
    expiring e (T.slot l) = [] := by
  apply expiring_eq_nil
  rintro n hn rfl
  exact hl (h.eq_place_of_mem hn)

theorem addNode (n : TimerNode) : Holds (T.addNode n) (pending ++ [n]) := by
  have hslot (l : Loc) : (T.addNode n).slot l =
      if l = place n.expire T.time then T.slot l ++ [n] else T.slot l := by
    by_cases hl : l = place n.expire T.time
    · subst hl
      simp [Timer.addNode, Timer.link]
    · simp [Timer.addNode, Timer.link, hl]
  constructor
  · intro l m hm
    rw [hslot] at hm
    change place m.expire T.time = l
    split_ifs at hm with hl
    · rcases mem_append.mp hm with hm | hm
      · exact h.placed l m hm
      · rw [mem_singleton.mp hm, hl]
    · exact h.placed l m hm
  · intro e
    change expiring e ((T.addNode n).slot (place e T.time)) = _
    rw [hslot, expiring_append]
    split_ifs with hl
    · rw [expiring_append, h.content e]
    · have hne : n.expire ≠ e := fun he => hl (by rw [he])
      rw [h.content e, expiring_eq_nil (l := [n]) (by simpa using hne), append_nil]

theorem near_eq : T.slot (.near (nearIdx T.time)) = expiring T.time pending := by
  rw [← h.content T.time, (place_eq_near_self_iff T.time T.time).mpr rfl, expiring_eq_self]
  intro n hn
  exact (place_eq_near_self_iff _ _).mp (h.placed _ n hn)

theorem linkClear : Holds (T.linkClear (.near (nearIdx T.time)))
    (pending.filter fun n => n.expire ≠ T.time) := by
  constructor
  · intro l n hn
    change n ∈ update T.slot _ [] l at hn
    by_cases hl : l = .near (nearIdx T.time)
    · subst hl
      simp at hn
    · rw [update_of_ne hl] at hn
      exact h.placed l n hn
  · intro e
    change expiring e (update T.slot _ [] (place e T.time)) = _
    by_cases he : e = T.time
    · subst he
      rw [(place_eq_near_self_iff T.time T.time).mpr rfl, update_self]
      exact (expiring_eq_nil (by simp)).symm
    · rw [update_of_ne (mt (place_eq_near_self_iff e T.time).mp he), h.content e]
      refine (expiring_filter_of_imp ?_).symm
      rintro n rfl
      simpa using he

omit h

end Holds

/-! ### Moving a list -/

theorem foldl_addNode (L : List TimerNode) : ∀ T : Timer,
    (L.foldl Timer.addNode T).time = T.time ∧
      ∀ l, (L.foldl Timer.addNode T).slot l =
        T.slot l ++ L.filter fun n => place n.expire T.time = l := by
  induction L with
  | nil => intro T; simp
  | cons n L ih =>
    intro T
    obtain ⟨ht, hs⟩ := ih (T.addNode n)
    refine ⟨ht, fun l => ?_⟩
    rw [foldl_cons, hs l]
    change update T.slot _ _ l ++ L.filter (fun m => place m.expire T.time = l) = _
    by_cases hl : place n.expire T.time = l
    · subst hl
      simp
    · rw [update_of_ne (Ne.symm hl), filter_cons_of_neg (by simpa using hl)]

/-- Advancing the clock and moving one list, or none. -/
def shifted (T : Timer) (target : Option (Fin 4 × Fin 64)) : Timer :=
  match target with
  | none => { T with time := T.time + 1 }
  | some (i, j) => Timer.moveList { T with time := T.time + 1 } i j

theorem shifted_time (T : Timer) (target : Option (Fin 4 × Fin 64)) :
    (shifted T target).time = T.time + 1 := by
  cases target with
  | none => rfl
  | some p => exact (foldl_addNode _ _).1

/-- The list that a shift empties. -/
def sourceOf : Option (Fin 4 × Fin 64) → Option Loc := Option.map fun p => .level p.1 p.2

theorem shifted_slot (T : Timer) (target : Option (Fin 4 × Fin 64)) (l : Loc) :
    (shifted T target).slot l =
      (if sourceOf target = some l then [] else T.slot l) ++
        (match sourceOf target with
          | none => []
          | some l₀ => (T.slot l₀).filter fun n => place n.expire (T.time + 1) = l) := by
  cases target with
  | none => simp [shifted, sourceOf]
  | some p =>
    obtain ⟨i, j⟩ := p
    simp only [shifted, Timer.moveList, sourceOf, Option.map_some, Option.some.injEq]
    rw [(foldl_addNode _ _).2 l]
    congr 1
    by_cases hl : Loc.level i j = l
    · subst hl
      simp [Timer.linkClear]
    · simp [Timer.linkClear, hl, update_of_ne (Ne.symm hl)]

/-- **One tick of the wheel**: the shift keeps all pending timers, each in its new place. -/
theorem Holds.shift {T : Timer} {pending : List TimerNode} (h : Holds T pending)
    (hahead : ∀ n ∈ pending, Ahead n.expire T.time) :
    ∃ T', timerShift T = some T' ∧ T'.time = T.time + 1 ∧ Holds T' pending := by
  have hmem (l : Loc) (n : TimerNode) (hn : n ∈ T.slot l) : n ∈ pending := by
    have := h.content n.expire
    rw [h.placed l n hn] at this
    exact (mem_expiring.mp (this ▸ mem_expiring.mpr ⟨hn, rfl⟩)).1
  have hkeep (l : Loc) (n : TimerNode) (hn : n ∈ T.slot l)
      (hl : sourceOf (shiftTarget (T.time + 1)) ≠ some l) : place n.expire (T.time + 1) = l := by
    rcases (hahead n (hmem l n hn)).place_next with heq | ⟨i, j, ht, hp⟩
    · rw [heq, h.placed l n hn]
    · rw [h.placed l n hn] at hp
      exact absurd (by rw [ht, hp]; rfl) hl
  refine ⟨shifted T (shiftTarget (T.time + 1)), timerShift_eq T, shifted_time _ _, ?_, ?_⟩
  · intro l n hn
    rw [shifted_time]
    rw [shifted_slot] at hn
    rcases mem_append.mp hn with hn | hn
    · split_ifs at hn with hl
      · cases hn
      · exact hkeep l n hn hl
    · cases hs : sourceOf (shiftTarget (T.time + 1)) with
      | none => rw [hs] at hn; cases hn
      | some l₀ =>
        rw [hs] at hn
        simpa using (mem_filter.mp hn).2
  · intro e
    rw [shifted_time, shifted_slot, expiring_append, ← h.content e]
    have hmoved (l₀ : Loc) : expiring e ((T.slot l₀).filter fun n =>
        place n.expire (T.time + 1) = place e (T.time + 1)) = expiring e (T.slot l₀) :=
      expiring_filter_of_imp (by rintro n rfl; simp)
    by_cases hsrc : sourceOf (shiftTarget (T.time + 1)) = some (place e T.time)
    · rw [hsrc]
      rw [hmoved]
      split_ifs with hl
      · rfl
      · rw [h.expiring_of_ne fun hpl => hl (by rw [hpl]), nil_append]
    · have hrest : expiring e (match sourceOf (shiftTarget (T.time + 1)) with
          | none => []
          | some l₀ => (T.slot l₀).filter fun n =>
            place n.expire (T.time + 1) = place e (T.time + 1)) = [] := by
        cases hs : sourceOf (shiftTarget (T.time + 1)) with
        | none => rfl
        | some l₀ =>
          rw [hmoved]
          exact h.expiring_of_ne fun hl => hsrc (by rw [hs, hl])
      rw [hrest, append_nil]
      by_cases hpl : place e (T.time + 1) = place e T.time
      · rw [hpl, if_neg hsrc]
      · have hnone : expiring e (T.slot (place e T.time)) = [] := by
          apply expiring_eq_nil
          rintro n hn rfl
          exact hpl (hkeep _ n hn hsrc)
        rw [hnone]
        split_ifs
        · rfl
        · exact h.expiring_of_ne hpl

/-! ### Lockstep -/

namespace Ahead

variable {t : UInt32}

theorem ne {e : UInt32} (h : Ahead e t) : e ≠ t := by
  rintro rfl
  have := h.pos
  simp at this

theorem next {e : UInt32} (h : Ahead e t) (hne : e ≠ t + 1) : Ahead e (t + 1) := by
  have hb := h.bounds
  have he := e.toNat_lt
  have hne' : e.toNat ≠ (t.toNat + 1) % 2 ^ 32 := by
    rw [← MaskArith.uint32_toNat_add_one]
    exact fun h => hne (UInt32.toNat_inj.mp h)
  have hsub : (e - (t + 1)).toNat = (2 ^ 32 - (t.toNat + 1) % 2 ^ 32 + e.toNat) % 2 ^ 32 := by
    rw [UInt32.toNat_sub, MaskArith.uint32_toNat_add_one]
  constructor <;> omega

theorem add {d : UInt32} (h1 : 1 ≤ d.toNat) (h2 : d.toNat < 2 ^ 31) : Ahead (d + t) t := by
  constructor <;> rwa [UInt32.add_sub_cancel]

end Ahead

/-- The running wheel and the flat list agree. -/
structure Agree (s : State) (f : Flat) : Prop where
  time : s.T.time = f.now
  phase : (s.phase = .idle ∧ f.current = none) ∨
    ∃ current, s.phase = .second (nearIdx f.now) current ∧ f.current = some current
  ticks : s.ticks = f.ticks
  added : s.added = f.added
  dispatched : s.dispatched = f.dispatched
  holds : Holds s.T f.pending
  ahead : ∀ n ∈ f.pending, Ahead n.expire f.now

theorem agree_init : Agree State.init Flat.init :=
  ⟨rfl, .inl ⟨rfl, rfl⟩, rfl, rfl, rfl, createTimer_holds, fun _ h => by simp [Flat.init] at h⟩

namespace Agree

variable {s : State} {f : Flat}

theorem near_eq_nil (h : Agree s f) : s.T.slot (.near (nearIdx f.now)) = [] := by
  rw [← h.time, h.holds.near_eq, h.time]
  exact expiring_eq_nil fun n hn => (h.ahead n hn).ne

theorem timeout (h : Agree s f) (svcHandle : UInt32) (time session : Int32) :
    Option.Rel Agree (s.step (.timeout svcHandle time session))
      (f.step (.timeout svcHandle time session)) := by
  simp only [State.step, State.timeout, Flat.step]
  by_cases ht : time ≤ 0
  · simp only [if_pos ht]
    exact .some { h with }
  · simp only [if_neg ht]
    obtain ⟨h1, h2⟩ := MaskArith.int32_toUInt32_of_pos ht
    refine .some ⟨h.time, h.phase, h.ticks, ?_, h.dispatched, ?_, ?_⟩
    · simp only [h.added, h.ticks, h.time]
    · simpa only [h.time] using h.holds.addNode _
    · intro n hn
      rcases mem_append.mp hn with hn | hn
      · exact h.ahead n hn
      · rw [mem_singleton.mp hn]
        exact Ahead.add h1 h2

theorem tick (h : Agree s f) : Option.Rel Agree s.shift (some f.tick) := by
  have hahead : ∀ n ∈ f.pending, Ahead n.expire s.T.time := by
    rw [h.time]
    exact h.ahead
  obtain ⟨T', hT, htime, hholds⟩ := h.holds.shift hahead
  rw [h.time] at htime
  have hnear := hholds.near_eq
  have hlater : ∀ n ∈ f.tick.pending, Ahead n.expire f.tick.now := by
    intro n hn
    obtain ⟨hn, hne⟩ := mem_filter.mp hn
    exact (h.ahead n hn).next (by simpa using hne)
  simp only [shift, hT, Option.map_some, executeSecond, hnear]
  rw [htime]
  by_cases hdue : expiring (f.now + 1) f.pending = []
  · have hpend : f.tick.pending = f.pending := by
      rw [Flat.tick, filter_eq_self]
      intro n hn
      have hne : n.expire ≠ f.now + 1 := fun he => by
        have := mem_expiring.mpr ⟨hn, he⟩
        rw [hdue] at this
        cases this
      simpa using hne
    simp only [hdue]
    refine .some ⟨htime, .inl ⟨rfl, ?_⟩, ?_, h.added, h.dispatched, ?_, hlater⟩
    · simp [Flat.tick, hdue]
    · simp [Flat.tick, h.ticks]
    · rw [hpend]
      exact hholds
  · obtain ⟨n, rest, hcons⟩ := exists_cons_of_ne_nil hdue
    have hclear := hholds.linkClear
    rw [htime] at hclear
    simp only [hcons]
    refine .some ⟨htime, .inr ⟨n :: rest, rfl, ?_⟩, ?_, h.added, h.dispatched, hclear, hlater⟩
    · simp [Flat.tick, hcons]
    · simp [Flat.tick, h.ticks]

end Agree

/-- **Lockstep**: in agreeing states the same actions are enabled and keep the agreement. -/
theorem agree_step (s : State) (f : Flat) (a : Action) (h : Agree s f) :
    Option.Rel Agree (s.step a) (f.step a) := by
  cases a with simp only [step, Flat.step]
  | timeout svcHandle time session => exact h.timeout svcHandle time session
  | update =>
    rcases h.phase with ⟨hs, hf⟩ | ⟨current, hs, hf⟩
    · simp only [hs, hf, if_true, executeFirst, h.time, h.near_eq_nil]
      exact h.tick
    · simp only [hs, hf, reduceCtorEq, if_false]
      exact .none
  | dispatch =>
    rcases h.phase with ⟨hs, hf⟩ | ⟨current, hs, hf⟩
    · simp only [hs, hf]
      exact .none
    · cases current with
      | nil => simp only [hs, hf]; exact .none
      | cons n rest =>
        simp only [hs, hf, deliver]
        refine .some ⟨h.time, .inr ⟨rest, rfl, rfl⟩, h.ticks, h.added, ?_, h.holds, h.ahead⟩
        simp only [h.dispatched, h.ticks]
  | relock =>
    rcases h.phase with ⟨hs, hf⟩ | ⟨current, hs, hf⟩
    · simp only [hs, hf, reduceCtorEq, if_false]
      exact .none
    · cases current with
      | nil =>
        simp only [hs, hf, if_true, executeSecond, h.near_eq_nil]
        exact .some ⟨h.time, .inl ⟨rfl, rfl⟩, h.ticks, h.added, h.dispatched, h.holds, h.ahead⟩
      | cons n rest =>
        simp only [hs, hf, Option.some.injEq, reduceCtorEq, if_false]
        exact .none

/-! ### The dispatch history -/

/-- The timers whose delay ends in tick `k`, in the order they were added. -/
def due (k : ℕ) (added : List Added) : List TimerNode :=
  (added.filter fun a => a.tick + a.delay = k).map (·.node)

/-- The timers delivered in tick `k`, in the order of their delivery. -/
def dispatchedIn (k : ℕ) (dispatched : List (ℕ × TimerNode)) : List TimerNode :=
  (dispatched.filter fun d => d.1 = k).map (·.2)

/-- An addition that keeps the delay within the range of a positive `int`. -/
structure Added.Timely (a : Added) (ticks : ℕ) : Prop where
  past : a.tick ≤ ticks
  pos : 1 ≤ a.delay
  lt : a.delay < 2 ^ 31
  expire : a.node.expire = UInt32.ofNat (a.tick + a.delay)

/-- The state of the flat list in terms of what was added. -/
structure Flat.Exact (f : Flat) : Prop where
  now : f.now = UInt32.ofNat f.ticks
  timely : ∀ a ∈ f.added, a.Timely f.ticks
  pending : f.pending = (f.added.filter fun a => f.ticks < a.tick + a.delay).map (·.node)
  fired : ∀ k, dispatchedIn k f.dispatched ++ (if k = f.ticks then f.current.getD [] else []) =
    if k ≤ f.ticks then due k f.added else []

theorem due_append (k : ℕ) (l₁ l₂ : List Added) : due k (l₁ ++ l₂) = due k l₁ ++ due k l₂ := by
  simp [due]

theorem dispatchedIn_concat (k j : ℕ) (n : TimerNode) (l : List (ℕ × TimerNode)) :
    dispatchedIn k (l ++ [(j, n)]) = dispatchedIn k l ++ if k = j then [n] else [] := by
  by_cases h : k = j
  · simp [dispatchedIn, h]
  · simp [dispatchedIn, h, Ne.symm h]

/-- A later timer expires at the new time exactly when its delay ends in the new tick: its
delay is too short for the 32-bit time to come round. -/
theorem Added.Timely.expire_eq_iff {a : Added} {ticks : ℕ} (h : a.Timely ticks)
    (hlater : ticks < a.tick + a.delay) :
    a.node.expire = UInt32.ofNat (ticks + 1) ↔ a.tick + a.delay = ticks + 1 := by
  have hpast := h.past
  have hlt := h.lt
  rw [h.expire, ← UInt32.toNat_inj, UInt32.toNat_ofNat', UInt32.toNat_ofNat']
  omega

namespace Flat.Exact

variable {f : Flat}

theorem init : Flat.init.Exact :=
  ⟨rfl, fun _ h => by simp [Flat.init] at h, rfl, fun k => by
    split_ifs <;> rfl⟩

theorem now_succ (h : f.Exact) : f.now + 1 = UInt32.ofNat (f.ticks + 1) := by
  rw [h.now, UInt32.ofNat_add]
  rfl

theorem expire_eq_now_succ (h : f.Exact) {a : Added} (ha : a ∈ f.added)
    (hlater : f.ticks < a.tick + a.delay) :
    a.node.expire = f.now + 1 ↔ a.tick + a.delay = f.ticks + 1 := by
  rw [h.now_succ]
  exact (h.timely a ha).expire_eq_iff hlater

theorem expiring_now_succ (h : f.Exact) :
    expiring (f.now + 1) f.pending = due (f.ticks + 1) f.added := by
  rw [expiring, h.pending, filter_map, filter_filter, due]
  congr 1
  apply filter_congr
  intro a ha
  by_cases hlater : f.ticks < a.tick + a.delay
  · simp [hlater, h.expire_eq_now_succ ha hlater]
  · have : a.tick + a.delay ≠ f.ticks + 1 := by omega
    simp [hlater, this]

theorem pending_now_succ (h : f.Exact) : (f.pending.filter fun n => n.expire ≠ f.now + 1) =
      (f.added.filter fun a => f.ticks + 1 < a.tick + a.delay).map (·.node) := by
  rw [h.pending, filter_map, filter_filter]
  congr 1
  apply filter_congr
  intro a ha
  by_cases hlater : f.ticks < a.tick + a.delay
  · have : f.ticks + 1 < a.tick + a.delay ↔ a.tick + a.delay ≠ f.ticks + 1 := by omega
    simp [hlater, h.expire_eq_now_succ ha hlater, this]
  · have : ¬ f.ticks + 1 < a.tick + a.delay := by omega
    simp [hlater, this]

theorem tick (h : f.Exact) (hidle : f.current = none) : f.tick.Exact := by
  refine ⟨h.now_succ, fun a ha => ?_, h.pending_now_succ, fun k => ?_⟩
  · obtain ⟨hpast, hpos, hlt, he⟩ := h.timely a ha
    exact ⟨Nat.le_succ_of_le hpast, hpos, hlt, he⟩
  · have hk := h.fired k
    simp only [hidle, Option.getD_none, ite_self, append_nil] at hk
    have hcur : f.tick.current.getD [] = due (f.ticks + 1) f.added := by
      rw [← h.expiring_now_succ]
      simp only [Flat.tick]
      split_ifs with hnil
      · rw [hnil, Option.getD_none]
      · rfl
    rw [hcur, show f.tick.ticks = f.ticks + 1 from rfl, show f.tick.added = f.added from rfl,
      show f.tick.dispatched = f.dispatched from rfl, hk]
    rcases Nat.lt_trichotomy k (f.ticks + 1) with hlt | rfl | hgt
    · rw [if_pos (by omega : k ≤ f.ticks), if_neg (by omega), if_pos (by omega), append_nil]
    · rw [if_neg (by omega), if_pos rfl, if_pos le_rfl, nil_append]
    · rw [if_neg (by omega : ¬ k ≤ f.ticks), if_neg (by omega), if_neg (by omega)]
      rfl

theorem timeout (h : f.Exact) {d : UInt32} (h1 : 1 ≤ d.toNat) (h2 : d.toNat < 2 ^ 31)
    (event : TimerEvent) : Flat.Exact { f with
      pending := f.pending ++ [⟨d + f.now, event⟩]
      added := f.added ++ [⟨f.ticks, d.toNat, ⟨d + f.now, event⟩⟩] } := by
  refine ⟨h.now, fun a ha => ?_, ?_, fun k => ?_⟩
  · rcases mem_append.mp ha with ha | ha
    · exact h.timely a ha
    · rw [mem_singleton.mp ha]
      refine ⟨le_rfl, h1, h2, ?_⟩
      rw [UInt32.ofNat_add, UInt32.ofNat_toNat, h.now, UInt32.add_comm]
  · have : f.ticks < f.ticks + d.toNat := by omega
    simp [h.pending, this]
  · have hk := h.fired k
    rw [hk, due_append]
    by_cases hle : k ≤ f.ticks
    · have : f.ticks + d.toNat ≠ k := by omega
      simp [hle, due, this]
    · simp [hle]

/-- **Exactness**: the flat list delivers in tick `k` what is due in tick `k`. -/
theorem step (f : Flat) (a : Action) (g : Flat) (h : f.Exact) (hs : f.step a = some g) :
    g.Exact := by
  cases a with simp only [Flat.step] at hs
  | timeout svcHandle time session =>
    split_ifs at hs with ht
    · cases hs
      exact h
    · cases hs
      obtain ⟨h1, h2⟩ := MaskArith.int32_toUInt32_of_pos ht
      exact h.timeout h1 h2 _
  | update =>
    split_ifs at hs with hidle
    cases hs
    exact h.tick hidle
  | dispatch =>
    split at hs
    · rename_i node rest hcur
      cases hs
      refine ⟨h.now, h.timely, h.pending, fun k => ?_⟩
      have hk := h.fired k
      simp only [hcur, Option.getD_some] at hk ⊢
      rw [← hk, dispatchedIn_concat]
      split_ifs <;> simp
    · cases hs
  | relock =>
    split_ifs at hs with hcur
    cases hs
    refine ⟨h.now, h.timely, h.pending, fun k => ?_⟩
    have hk := h.fired k
    simpa only [hcur, Option.getD_some, Option.getD_none] using hk

end Flat.Exact

theorem Agree.current {s : State} {f : Flat} (h : Agree s f) :
    s.phase.current = f.current.getD [] := by
  rcases h.phase with ⟨hs, hf⟩ | ⟨current, hs, hf⟩ <;> rw [hs, hf] <;> rfl

theorem exists_agree {as : List Action} {s : State} (hs : wheel.exec init as = some s) :
    ∃ f, flat.exec Flat.init as = some f ∧ Agree s f := by
  have hrel := System.exec_lockstep (M := wheel) (N := flat) agree_step as _ _ agree_init
  rw [hs] at hrel
  cases hf : flat.exec Flat.init as <;> rw [hf] at hrel <;> cases hrel
  exact ⟨_, rfl, ‹_›⟩

/-- **Refinement of the flat list.**  On every list of actions the wheel and the flat list are
enabled together and have delivered the same timers in the same order.  In the state reached,
the delivered timers of a past tick `k` are those whose delay ends in tick `k`, each once and
in the order they were added; of the current tick the ones still to deliver are missing, and
of a later tick there are none. -/
theorem wheel_refines_flat (as : List Action) :
    Option.Rel (fun s f => s.dispatched = f.dispatched ∧ s.phase.current = f.current.getD [] ∧
        s.added = f.added ∧ s.T.time = f.now)
      (wheel.exec init as) (flat.exec Flat.init as) ∧
    ∀ s, wheel.exec init as = some s →
      s.T.time = UInt32.ofNat s.ticks ∧ (∀ a ∈ s.added, a.Timely s.ticks) ∧
      ∀ k, dispatchedIn k s.dispatched ++ (if k = s.ticks then s.phase.current else []) =
        if k ≤ s.ticks then due k s.added else [] := by
  have hrel := System.exec_lockstep (M := wheel) (N := flat) agree_step as _ _ agree_init
  constructor
  · generalize wheel.exec init as = s, flat.exec Flat.init as = f at hrel
    cases hrel with
    | none => exact .none
    | some h => exact .some ⟨h.dispatched, h.current, h.added, h.time⟩
  · intro s hs
    obtain ⟨f, hf, h⟩ := exists_agree hs
    have he := System.exec_invariant Flat.Exact.step as _ f Flat.Exact.init hf
    rw [h.time, h.ticks, h.added, h.dispatched, h.current]
    exact ⟨he.now, he.timely, he.fired⟩

/-- Two timers set for the same tick, the second one later than the first. -/
theorem wheel_refines_flat_two_timers :
    ∃ s, wheel.exec init [.timeout 1 2 7, .update, .timeout 2 1 8, .update, .dispatch] =
        some s ∧ s.phase.current = [⟨2, ⟨2, 8⟩⟩] ∧
      dispatchedIn 2 s.dispatched ++ s.phase.current = [⟨2, ⟨1, 7⟩⟩, ⟨2, ⟨2, 8⟩⟩] :=
  ⟨_, rfl, rfl, ((wheel_refines_flat
    [.timeout 1 2 7, .update, .timeout 2 1 8, .update, .dispatch]).2 _ rfl).2.2 2⟩

end Skynet.TimerWheel
