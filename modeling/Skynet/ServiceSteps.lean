import Skynet.Service

/-! # The steps of a Lua service

What a step of a service does to the scheduler, said once: `Calls` for the calls of the running
coroutine and `Receives` for the messages.  On top of it, what holds in every run, whatever the
coroutines do (`Sane`): the thread that runs is the one `handle_service_message` has resumed,
the threads of `thread_pool` are parked there (`Threads`), and `fork_queue` is empty when
`handle_service_message` returns. -/

namespace Skynet.Service

open List Function Transition State Option

/-- The coroutine has no function to run. -/
def Pc.Parked : Pc → Prop
  | pooled | poisoned | dead => True
  | _ => False

/-- The coroutine that runs. -/
def Control.runner : Control → Option ℕ
  | run i => some i
  | _ => none

theorem nextPc_eq (s : Sched) : s.nextPc = .fresh none ∨ s.nextPc = .dead := by
  unfold Sched.nextPc; split <;> simp

section Frames

variable (s : State) (i : ℕ)

/-! ### Calls that leave the scheduler alone -/

@[simp] theorem reportError_toSched : (s.reportError i).toSched = s.toSched := by
  unfold reportError; split <;> rfl

@[simp] theorem forget_toSched : (s.forget i).toSched = s.toSched := by
  unfold forget; split <;> rfl

@[simp] theorem ignoreret_toSched : (s.ignoreret i).toSched = s.toSched :=
  forget_toSched s i

@[simp] theorem ret_toSched (r : SendResult) : (s.ret i r).toSched = s.toSched := by
  unfold ret; split
  · split <;> rfl
  · rfl

@[simp] theorem response_toSched : (s.response i).toSched = s.toSched := by
  unfold response; split <;> rfl

@[simp] theorem fire_toSched (c : ℕ) (ok : Bool) (r : SendResult) :
    (s.fire c ok r).toSched = s.toSched := by
  unfold fire; split_ifs
  · rfl
  · rfl
  · split <;> rfl

/-- What `fail` does to the scheduler. -/
theorem fail_toSched : (s.fail i).toSched =
      { s.toSched with
        pcs := update (update s.pcs i .dead) s.nextThread
          { s.toSched with pcs := update s.pcs i .dead }.nextPc
        nthreads := if s.threadPool = [] then s.nthreads + 1 else s.nthreads
        threadPool := s.threadPool.dropLast
        forkQueue := s.forkQueue ++ [s.nextThread]
        control := .forks
        pending := 0 } := by
  simp only [fail, raise, fork, coCreate, setPc, clear,
    reportError_toSched]
  rfl

theorem finish_toSched : (s.finish i).toSched =
      { s.toSched with
        pcs := update s.pcs i .pooled
        threadPool := s.threadPool ++ [i]
        control := .dispatchWakeup } := by
  unfold finish
  split_ifs <;> simp [setPc, clear]

end Frames

/-! ### What a call of the running coroutine does -/

/-- What call `o` of coroutine `i` makes of the scheduler. -/
inductive Calls (s : State) (i : ℕ) : Op → Sched → Prop
  | quiet {o : Op} (hwake : ∀ token, o = .wakeup token → s.sleepSessionMap token = none) :
      Calls s i o s.toSched
  | newSession {o : Op} : Calls s i o s.newSession.toSched
  | wakeup {token : Token} (h : s.sleepSessionMap token ≠ none) :
      Calls s i (.wakeup token) (s.wakeup token).toSched
  | fork : Calls s i .fork s.fork.toSched
  | timeout : Calls s i .timeout s.timeout.toSched
  | wait {token : Option Token} :
      Calls s i (.wait token) (s.suspendSleep i false (token.getD (.thread i))).toSched
  | sleep {token : Option Token} :
      Calls s i (.sleep token) (s.suspendSleep i true (token.getD (.thread i))).toSched
  | call {addr : Addr} :
      Calls s i (.call addr .accepted)
        (s.newSession.yieldCall i (.id s.nextSession) addr).toSched
  | callTooLarge {addr : Addr} :
      Calls s i (.call addr .tooLarge) (s.yieldCall i .tooLarge addr).toSched
  | term {addr : Addr} {order : List Key} (h : order.Perm (s.watchedBy addr)) :
      Calls s i (.term addr order) { s.toSched with errorQueue := s.errorQueue ++ order }
  | exit : Calls s i .exit (s.exit i).toSched
  | finish : Calls s i .finish (s.finish i).toSched
  | fail : Calls s i .error (s.fail i).toSched

variable {s t : State}

theorem exec_calls {i : ℕ} {o : Op} (h : s.exec i o = some t) : Calls s i o t.toSched := by
  cases o with
  | newSession => obtain rfl := some.inj h; exact .newSession
  | wakeup token =>
    cases h
    by_cases htok : s.sleepSessionMap token = none
    · rw [wakeup, if_pos htok]
      exact .quiet fun _ he => by cases he; exact htok
    · exact .wakeup htok
  | fork => obtain rfl := some.inj h; exact .fork
  | timeout => obtain rfl := some.inj h; exact .timeout
  | wait token => obtain rfl := some.inj h; exact .wait
  | sleep token => obtain rfl := some.inj h; exact .sleep
  | call addr r =>
    cases h
    cases r with
    | accepted => exact .call
    | tooLarge => exact .callTooLarge
    | invalid => exact .newSession
    | unknownName | raised => exact .quiet nofun
  | ret r => obtain rfl := some.inj h; rw [ret_toSched]; exact .quiet nofun
  | ignoreret => obtain rfl := some.inj h; rw [ignoreret_toSched]; exact .quiet nofun
  | response => obtain rfl := some.inj h; rw [response_toSched]; exact .quiet nofun
  | fire c ok r =>
    simp only [exec] at h
    split_ifs at h
    cases h
    rw [fire_toSched]
    exact .quiet nofun
  | term addr order =>
    simp only [exec, errorDispatch, if_true, ignoreret_toSched] at h
    split_ifs at h with hperm
    cases h
    exact .term hperm
  | exit => obtain rfl := some.inj h; exact .exit
  | finish => obtain rfl := some.inj h; exact .finish
  | error => obtain rfl := some.inj h; exact .fail

/-! ### What a message does -/

/-- What `_error_dispatch` appends to `error_queue`. -/
def Sched.Fails (s : Sched) (session src : ℕ) (order q : List Key) : Prop :=
  (session = 0 ∧ q = order ∧ q.Perm (s.watchedBy (.handle src))) ∨
  (session ≠ 0 ∧ q = [.id session] ∧ .id session ∈ s.watchingSessionMap.map (·.1)) ∨
  (session ≠ 0 ∧ q = [] ∧ .id session ∉ s.watchingSessionMap.map (·.1))

/-- What message `m` makes of the scheduler. -/
inductive Receives (s : State) : Message → Sched → Prop
  | broken {n : ℕ} (h : s.sessionThreadMap (.id n) = some .BREAK) :
      Receives s (.response n) { s.setEntry (.id n) none with control := .forks }.toSched
  | resumed {n i b : ℕ} (h : s.sessionThreadMap (.id n) = some (.thread i b)) :
      Receives s (.response n) ((s.setEntry (.id n) none).resume i true).toSched
  | started {session src : ℕ} :
      Receives s (.request session src true) (s.coCreate.resume s.nextThread true).toSched
  | notUnpacked {session src : ℕ} :
      Receives s (.request session src false) s.coCreate.raise.toSched
  | errors {session src : ℕ} {order q : List Key} (hq : s.Fails session src order q)
      (hfresh : s.nextPc = .fresh none) :
      Receives s (.error session src order)
        ({ s.coCreate with errorQueue := s.errorQueue ++ q }.finish s.nextThread).toSched
  | errorsFail {session src : ℕ} {order : List Key} (hdead : s.nextPc = .dead) :
      Receives s (.error session src order) (s.coCreate.fail s.nextThread).toSched
  | unknown {m : Message} (hm : ∀ session src order, m ≠ .error session src order) :
      Receives s m s.raise.toSched

theorem resume_toSched_congr (h : s.toSched = t.toSched) (i : ℕ) (succ : Bool) :
    (s.resume i succ).toSched = (t.resume i succ).toSched := by
  obtain ⟨s', _⟩ := s
  obtain ⟨t', _⟩ := t
  obtain rfl : s' = t' := h
  cases hpc : s'.pcs i with
  | poisoned | dead | running => simp only [resume, hpc, fail_toSched]
  | fresh _ | asleep _ _ _ _ | calling _ _ | pooled | quit => simp only [resume, hpc]; rfl

theorem finish_toSched_congr (h : s.toSched = t.toSched) (i : ℕ) :
    (s.finish i).toSched = (t.finish i).toSched := by
  simp only [finish_toSched, h]

theorem fail_toSched_congr (h : s.toSched = t.toSched) (i : ℕ) :
    (s.fail i).toSched = (t.fail i).toSched := by
  simp only [fail_toSched, h]

theorem errorDispatch_fails {session src : ℕ} {order : List Key}
    (h : s.errorDispatch session (.handle src) order = some t) : ∃ q, s.Fails session src order q ∧
      t.toSched = { s.toSched with errorQueue := s.errorQueue ++ q } := by
  unfold errorDispatch at h
  split_ifs at h with h0 hperm hmem
  · cases h
    exact ⟨order, .inl ⟨h0, rfl, hperm⟩, rfl⟩
  · cases h
    exact ⟨[.id session], .inr (.inl ⟨h0, rfl, hmem⟩), rfl⟩
  · cases h
    exact ⟨[], .inr (.inr ⟨h0, rfl, hmem⟩), by simp⟩

theorem rawDispatchMessage_receives {m : Message} (h : s.rawDispatchMessage m = some t) :
    Receives s m t.toSched := by
  cases m with simp only [rawDispatchMessage] at h
  | response n =>
    split at h <;> rename_i he <;> cases h
    · exact .broken he
    · exact .resumed he
    · exact .unknown nofun
  | request session src unpacks =>
    split_ifs at h with hu <;> cases h
    · subst hu
      rw [resume_toSched_congr (s := s.accept session src) (t := s.coCreate) rfl]
      exact .started
    · obtain rfl : unpacks = false := by simpa using hu
      exact .notUnpacked
  | error session src order =>
    have hnext : (s.accept session src).pcs s.nextThread = s.nextPc := by
      simp [accept, coCreate]
    split at h <;> rename_i hpc
    · obtain ⟨u, hu, rfl⟩ := map_eq_some_iff.mp h
      obtain ⟨q, hq, huq⟩ := errorDispatch_fails hu
      rw [ignoreret_toSched] at huq hq
      rw [finish_toSched_congr (t := { s.coCreate with errorQueue := s.errorQueue ++ q }) huq]
      exact .errors hq (by rcases nextPc_eq s.toSched with h' | h' <;> simp_all)
    · cases h
      rw [fail_toSched_congr (s := s.accept session src) (t := s.coCreate) rfl]
      exact .errorsFail (by rcases nextPc_eq s.toSched with h' | h' <;> simp_all)
  | unhandled session src =>
    split_ifs at h <;> obtain rfl := some.inj h <;> exact .unknown nofun

/-! ### What a step does -/

/-- What a step with label `a` makes of the scheduler. -/
inductive Step (s : State) : Label → Sched → Prop
  | message {m : Message} {t : Sched} (hc : s.control = .idle)
      (h : Receives { s with failed := [] } m t) : Step s (.message m) t
  | op {o : Op} {i : ℕ} {t : Sched} (hc : s.control = .run i) (h : Calls s i o t) :
      Step s (.op o) t
  -- dispatch_wakeup
  | noWakeup (hc : s.control = .dispatchWakeup) (hq : s.wakeupQueue = []) :
      Step s .next { s.toSched with control := .dispatchErrorQueue }
  | staleWakeup {token : Token} {rest : List Token} (hc : s.control = .dispatchWakeup)
      (hq : s.wakeupQueue = token :: rest) (htok : s.sleepSessionMap token = none) :
      Step s .next { s.toSched with wakeupQueue := rest, control := .dispatchErrorQueue }
  | wakes {token : Token} {rest : List Token} {n i b : ℕ} (hc : s.control = .dispatchWakeup)
      (hq : s.wakeupQueue = token :: rest) (htok : s.sleepSessionMap token = some n)
      (he : s.sessionThreadMap (.id n) = some (.thread i b)) :
      Step s .next ({ s.setEntry (.id n) (some .BREAK) with
        wakeupQueue := rest, pending := s.pending + 1 }.resume i false).toSched
  | wakeupRaises {token : Token} {rest : List Token} {n : ℕ} (hc : s.control = .dispatchWakeup)
      (hq : s.wakeupQueue = token :: rest) (htok : s.sleepSessionMap token = some n)
      (he : ∀ i b, s.sessionThreadMap (.id n) ≠ some (.thread i b)) :
      Step s .next { s.setEntry (.id n) (some .BREAK) with wakeupQueue := rest }.raise.toSched
  -- dispatch_error_queue
  | noError (hc : s.control = .dispatchErrorQueue) (hq : s.errorQueue = []) :
      Step s .next s.suspendReturn.toSched
  | tooLarge {rest : List Key} (hc : s.control = .dispatchErrorQueue)
      (hq : s.errorQueue = .tooLarge :: rest) :
      Step s .next { s with errorQueue := rest }.suspendReturn.toSched
  | fails {rest : List Key} {n i b : ℕ} (hc : s.control = .dispatchErrorQueue)
      (hq : s.errorQueue = .id n :: rest) (he : s.sessionThreadMap (.id n) = some (.thread i b)) :
      Step s .next ({ s.setEntry (.id n) none with errorQueue := rest }.resume i false).toSched
  | errorRaises {rest : List Key} {n : ℕ} (hc : s.control = .dispatchErrorQueue)
      (hq : s.errorQueue = .id n :: rest)
      (he : ∀ i b, s.sessionThreadMap (.id n) ≠ some (.thread i b)) :
      Step s .next { s.setEntry (.id n) none with errorQueue := rest }.raise.toSched
  -- the loop over fork_queue
  | done (hc : s.control = .forks) (hq : s.forkQueue = []) :
      Step s .next { s.toSched with control := .idle }
  | forked {i : ℕ} {rest : List ℕ} (hc : s.control = .forks) (hq : s.forkQueue = i :: rest) :
      Step s .next ({ s with forkQueue := rest }.resume i false).toSched
  | collect {i : ℕ} : Step s (.collect i) { s.toSched with threadPool := s.threadPool.erase i }

theorem dispatchWakeup_step (hc : s.control = .dispatchWakeup) :
    Step s .next s.dispatchWakeup.toSched := by
  unfold dispatchWakeup
  split
  · exact .noWakeup hc ‹_›
  · split
    · exact .staleWakeup hc ‹_› ‹_›
    · split
      · exact .wakes hc ‹_› ‹_› ‹_›
      · exact .wakeupRaises hc ‹_› ‹_› (by simpa using ‹_›)

theorem dispatchErrorQueue_step (hc : s.control = .dispatchErrorQueue) :
    Step s .next s.dispatchErrorQueue.toSched := by
  unfold dispatchErrorQueue
  split
  · exact .noError hc ‹_›
  · exact .tooLarge hc ‹_›
  · split
    · exact .fails hc ‹_› ‹_›
    · exact .errorRaises hc ‹_› (by simpa using ‹_›)

theorem runFork_step (hc : s.control = .forks) : Step s .next s.runFork.toSched := by
  unfold runFork
  split
  · exact .done hc ‹_›
  · exact .forked hc ‹_›

theorem step_cases {a : Label} (h : s.step a = some t) : Step s a t.toSched := by
  cases a with simp only [step] at h
  | message m =>
    split_ifs at h with hc
    exact .message hc (rawDispatchMessage_receives h)
  | op o =>
    split at h
    · exact .op ‹_› (exec_calls h)
    · cases h
  | next =>
    split at h <;> cases h
    · exact dispatchWakeup_step ‹_›
    · exact dispatchErrorQueue_step ‹_›
    · exact runFork_step ‹_›
  | collect i =>
    split_ifs at h
    cases h
    exact .collect

/-! ### Threads -/

/-- `r` is the thread that runs. -/
structure Threads (r : Option ℕ) (s : Sched) : Prop where
  running : ∀ i, s.pcs i = .running ↔ r = some i
  pool : ∀ i ∈ s.threadPool, i < s.nthreads ∧ (s.pcs i).Parked
  nodup : s.threadPool.Nodup
  unborn : ∀ i, s.nthreads ≤ i → s.pcs i = .dead

theorem nextThread_of_nil {s : Sched} (h : s.threadPool = []) : s.nextThread = s.nthreads := by
  simp [Sched.nextThread, h]

theorem nextThread_of_cons {s : Sched} (h : s.threadPool ≠ []) :
    s.threadPool = s.threadPool.dropLast ++ [s.nextThread] := by
  rw [Sched.nextThread, getLast?_eq_getLast_of_ne_nil h]
  exact (dropLast_append_getLast h).symm

namespace Threads

variable {r : Option ℕ} {s : Sched} {i : ℕ}

theorem running_lt (h : Threads r s) (hi : s.pcs i = .running) : i < s.nthreads := by
  by_contra hlt
  rw [h.unborn i (by omega)] at hi
  cases hi

theorem not_mem_pool (h : Threads r s) (hi : ¬ (s.pcs i).Parked) : i ∉ s.threadPool :=
  fun hmem => hi (h.pool i hmem).2

/-- The thread of `co_create` had nothing to do. -/
theorem next_parked (h : Threads r s) : (s.pcs s.nextThread).Parked := by
  by_cases hp : s.threadPool = []
  · rw [nextThread_of_nil hp, h.unborn _ (Nat.le_refl _)]
    trivial
  · refine (h.pool _ ?_).2
    rw [nextThread_of_cons hp]
    simp

theorem ne_next (h : Threads r s) (hi : ¬ (s.pcs i).Parked) : i ≠ s.nextThread := by
  rintro rfl
  exact hi h.next_parked

theorem next_not_mem (h : Threads r s) : s.nextThread ∉ s.threadPool.dropLast := by
  by_cases hp : s.threadPool = []
  · simp [hp]
  · have hn := h.nodup
    rw [nextThread_of_cons hp] at hn
    intro hmem
    exact (disjoint_of_nodup_append hn) hmem (mem_singleton_self _)

/-- `co_create` -/
theorem coCreate {s : State} (h : Threads r s.toSched) : Threads r s.coCreate.toSched where
  running j := by
    by_cases hj : j = s.nextThread
    · subst hj
      have hnext := h.next_parked
      have hr : r ≠ some s.nextThread := by
        intro hr
        rw [(h.running _).mpr hr] at hnext
        exact hnext
      rcases nextPc_eq s.toSched with hp | hp <;> simp [State.coCreate, hp, hr]
    · simpa [State.coCreate, hj] using h.running j
  pool j hj := by
    have hne : j ≠ s.nextThread := fun he => h.next_not_mem (he ▸ hj)
    obtain ⟨hlt, hpc⟩ := h.pool j ((dropLast_sublist _).subset hj)
    refine ⟨?_, by simpa [State.coCreate, hne] using hpc⟩
    simp only [State.coCreate]
    split_ifs <;> omega
  nodup := h.nodup.sublist (dropLast_sublist _)
  unborn j hj := by
    have hlt : s.nthreads ≤ j ∧ j ≠ s.nextThread := by
      simp only [State.coCreate] at hj
      split_ifs at hj with hp
      · rw [nextThread_of_nil hp]
        omega
      · refine ⟨hj, fun he => ?_⟩
        have := (h.pool j (by rw [nextThread_of_cons hp, he]; simp)).1
        omega
    simpa [State.coCreate, hlt.2] using h.unborn j hlt.1

theorem set (h : Threads r s) {p : Pc} (hpc : p ≠ .running) (hi : i < s.nthreads ∨ p = .dead)
    (hpool : i ∈ s.threadPool → p.Parked) :
    Threads (if r = some i then none else r) { s with pcs := update s.pcs i p } where
  running j := by
    by_cases hj : j = i
    · subst hj
      by_cases hr : r = some j <;> simp [hpc, hr]
    · have := h.running j
      by_cases hr : r = some i
      · subst hr
        simpa [hj, Ne.symm hj] using this
      · simpa [hj, hr] using this
  pool j hj := by
    by_cases hji : j = i
    · subst hji
      exact ⟨(h.pool j hj).1, by simpa using hpool hj⟩
    · simpa [hji] using h.pool j hj
  nodup := h.nodup
  unborn j hj := by
    by_cases hji : j = i
    · subst hji
      rcases hi with hi | rfl
      · exact absurd hi (by simpa using hj)
      · simp
    · simpa [hji] using h.unborn j hj

theorem stop (h : Threads r s) (hr : r = some i ∨ r = none) {p : Pc} (hpc : p ≠ .running)
    (hi : i < s.nthreads ∨ p = .dead) (hpool : i ∈ s.threadPool → p.Parked) :
    Threads none { s with pcs := update s.pcs i p } := by
  have := h.set hpc hi hpool
  rcases hr with rfl | rfl <;> simpa using this

theorem yield (h : Threads (some i) s) {p : Pc} (hpc : p ≠ .running) :
    Threads none { s with pcs := update s.pcs i p } := by
  have hi : s.pcs i = .running := (h.running i).mpr rfl
  exact h.stop (.inl rfl) hpc (.inl (h.running_lt hi))
    fun hmem => absurd hmem (h.not_mem_pool (by simp [hi, Pc.Parked]))

theorem start (h : Threads none s) (hi : ¬ (s.pcs i).Parked) :
    Threads (some i) { s with pcs := update s.pcs i .running } where
  running j := by
    by_cases hj : j = i
    · simp [hj]
    · simpa [hj, Ne.symm hj] using h.running j
  pool j hj := by
    have hji : j ≠ i := by
      rintro rfl
      exact h.not_mem_pool hi hj
    simpa [hji] using h.pool j hj
  nodup := h.nodup
  unborn j hj := by
    have hji : j ≠ i := by
      rintro rfl
      rw [h.unborn j hj] at hi
      exact hi trivial
    simpa [hji] using h.unborn j hj

/-- `suspend` of a coroutine that has failed. -/
theorem fail {s : State} (h : Threads r s.toSched) (hr : r = some i ∨ r = none) :
    Threads none (s.fail i).toSched := by
  have hstop : Threads none ((s.reportError i).clear i |>.setPc i .dead).toSched := by
    have := h.stop hr (p := .dead) nofun (.inr rfl) fun _ => trivial
    simpa [setPc, clear] using this
  have := hstop.coCreate
  exact { this with }

theorem resume {s : State} (h : Threads none s.toSched) (i : ℕ) (succ : Bool) :
    Threads (s.resume i succ).control.runner (s.resume i succ).toSched := by
  have hstart := fun hi => h.start (i := i) hi
  cases hpc : s.pcs i with
  | fresh _ | quit | asleep _ _ _ _ | calling _ _ =>
    have := hstart (by simp [hpc, Pc.Parked])
    simp only [State.resume, hpc]
    exact { this with }
  | pooled =>
    have hlt : i < s.nthreads := by
      by_contra hlt
      rw [h.unborn i (by omega)] at hpc
      cases hpc
    have := h.stop (.inr rfl) (p := .poisoned) nofun (.inl hlt) fun _ => trivial
    have hrun : (s.resume i succ).control.runner = none := by
      simp only [State.resume, hpc, State.suspendReturn]
      split <;> rfl
    rw [hrun]
    simp only [State.resume, hpc]
    exact { this with }
  | poisoned | dead | running =>
    simp only [State.resume, hpc]
    exact h.fail (.inr rfl)

theorem finish {s : State} (h : Threads r s.toSched) (hr : r = some i ∨ r = none)
    (hi : i < s.nthreads) (hmem : i ∉ s.threadPool) : Threads none (s.finish i).toSched := by
  have hy := h.stop hr (p := .pooled) nofun (.inl hi) fun _ => trivial
  rw [finish_toSched]
  refine ⟨hy.running, fun j hj => ?_, ?_, hy.unborn⟩
  · rcases mem_append.mp hj with hj | hj
    · exact hy.pool j hj
    · obtain rfl := mem_singleton.mp hj
      exact ⟨hi, by simp [Pc.Parked]⟩
  · exact nodup_append.mpr ⟨h.nodup, nodup_singleton i, by
      rintro j hj _ hk rfl
      exact hmem (mem_singleton.mp hk ▸ hj)⟩

theorem wakeup {s : State} (h : Threads r s.toSched) (token : Token) :
    Threads r (s.wakeup token).toSched := by
  have hwake : ∀ p : Pc, (p.wake token = .running ↔ p = .running) ∧
      (p.Parked → (p.wake token).Parked) ∧ (p = .dead → p.wake token = .dead) := by
    intro p
    cases p <;> simp [Pc.wake, Pc.Parked]
  unfold State.wakeup
  split_ifs
  · exact h
  · exact ⟨fun j => (hwake _).1.trans (h.running j),
      fun j hj => ⟨(h.pool j hj).1, (hwake _).2.1 (h.pool j hj).2⟩, h.nodup,
      fun j hj => (hwake _).2.2 (h.unborn j hj)⟩

theorem next_lt {s : State} (h : Threads r s.toSched) : s.nextThread < s.coCreate.nthreads := by
  by_cases hp : s.threadPool = []
  · simp [nextThread_of_nil hp, State.coCreate, hp]
  · have := (h.pool s.nextThread (by rw [nextThread_of_cons hp]; simp)).1
    simpa [State.coCreate, hp] using this

theorem ne_some_next (h : Threads r s) : r ≠ some s.nextThread := by
  intro hr
  have := h.next_parked
  rw [(h.running _).mpr hr] at this
  exact this

theorem timeout {s : State} (h : Threads r s.toSched) : Threads r s.timeout.toSched := by
  have hn : Threads r s.newSession.toSched := { h with }
  have hc := hn.coCreate
  unfold State.timeout
  split_ifs
  · have htimed : s.nextPc.timed s.nextSession ≠ .running := by
      rcases nextPc_eq s.toSched with hp | hp <;> simp [hp, Pc.timed]
    have hset := hc.set (i := s.nextThread) htimed (.inl hn.next_lt)
      fun hmem => absurd hmem h.next_not_mem
    rw [if_neg h.ne_some_next] at hset
    have hpcs : update s.newSession.coCreate.pcs s.nextThread
        (s.nextPc.timed s.nextSession) = update s.pcs s.nextThread
        (s.nextPc.timed s.nextSession) := update_idem ..
    rw [hpcs] at hset
    exact { hset with }
  · exact hc

theorem suspendSleep {s : State} (h : Threads (some i) s.toSched) (hc : s.control = .run i)
    (timer : Bool) (token : Token) : Threads (s.suspendSleep i timer token).control.runner
      (s.suspendSleep i timer token).toSched := by
  unfold State.suspendSleep
  split_ifs
  · have := h.yield (p := .asleep timer token s.nextSession false) nofun
    exact { this with }
  · show Threads s.control.runner _
    rw [hc]
    exact { h with }

theorem yieldCall {s : State} (h : Threads (some i) s.toSched) (k : Key) (addr : Addr) :
    Threads none (s.yieldCall i k addr).toSched := by
  have := h.yield (p := .calling k s.nalloc) nofun
  exact { this with }

theorem calls {s : State} {o : Op} {t : Sched} (h : Threads s.control.runner s.toSched)
    (hc : s.control = .run i) (ho : Calls s i o t) : Threads t.control.runner t := by
  have hi : Threads (some i) s.toSched := by simpa [hc, Control.runner] using h
  cases ho with
  | quiet => exact h
  | newSession | term => exact { h with }
  | wakeup htok =>
    have := h.wakeup ‹_›
    simpa [State.wakeup, htok] using this
  | fork =>
    have := h.coCreate
    exact { this with }
  | timeout =>
    have hcontrol : s.timeout.control = s.control := by
      unfold State.timeout
      split_ifs <;> rfl
    rw [hcontrol]
    exact h.timeout
  | wait | sleep => exact hi.suspendSleep hc _ _
  | call => exact yieldCall (s := s.newSession) { hi with } _ _
  | callTooLarge => exact hi.yieldCall _ _
  | exit =>
    have := hi.yield (p := .quit) nofun
    have hrun : (s.exit i).control.runner = none := by
      simp only [State.exit, State.suspendReturn]
      split <;> rfl
    rw [hrun]
    exact { this with }
  | finish =>
    have hpc : s.pcs i = .running := (hi.running i).mpr rfl
    have := hi.finish (.inl rfl) (hi.running_lt hpc) (hi.not_mem_pool (by simp [hpc, Pc.Parked]))
    rw [finish_toSched] at this ⊢
    exact this
  | fail => exact hi.fail (.inl rfl)

theorem receives {s : State} {m : Message} {t : Sched} (h : Threads none s.toSched)
    (hm : Receives s m t) : Threads t.control.runner t := by
  cases hm with
  | broken | unknown => exact { h with }
  | resumed =>
    exact resume (s := s.setEntry _ none) { h with } _ _
  | started => exact h.coCreate.resume _ _
  | notUnpacked =>
    have := h.coCreate
    exact { this with }
  | @errors session src order q hq hfresh =>
    have hc := h.coCreate
    have hq : Threads none { s.coCreate with errorQueue := s.errorQueue ++ q }.toSched :=
      { hc with }
    have := hq.finish (.inr rfl) h.next_lt h.next_not_mem
    rw [finish_toSched] at this ⊢
    exact this
  | errorsFail => exact h.coCreate.fail (.inr rfl)

end Threads

/-! ### Every run -/

theorem suspendReturn_control (s : State) :
    s.suspendReturn.control ≠ .idle ∧ s.suspendReturn.control.runner = none := by
  unfold suspendReturn
  by_cases h : s.pending = 0 <;> simp [h, Control.runner]

theorem resume_control (s : State) (i : ℕ) (succ : Bool) : (s.resume i succ).control ≠ .idle := by
  unfold resume
  split
  all_goals first
    | exact (suspendReturn_control _).1
    | simp [fail, raise]

/-- What holds of the scheduler in every run. -/
structure Sane (s : Sched) : Prop where
  threads : Threads s.control.runner s
  idle : s.control = .idle → s.forkQueue = []

namespace Sane

theorem init : Sane State.init.toSched where
  threads :=
    Threads.timeout (r := none)
      ⟨fun _ => by simp [empty], nofun, nodup_nil, fun _ _ => rfl⟩
  idle _ := rfl

theorem running {s : Sched} (h : Sane s) {i : ℕ} (hc : s.control = .run i) :
    s.pcs i = .running := by
  have := (h.threads.running i).mpr
  rw [hc] at this
  exact this rfl

theorem threads_of {s : Sched} (h : Sane s) {c : Control} (hc : s.control = c) :
    Threads c.runner s :=
  hc ▸ h.threads

theorem threads_step {a : Label} {t : Sched} (h : Sane s.toSched) (ha : Step s a t) :
    Threads t.control.runner t := by
  have hnone (hc : s.control.runner = none) : Threads none s.toSched := hc ▸ h.threads
  cases ha with
  | message hc hm =>
    have := hnone (by rw [hc]; rfl)
    exact Threads.receives (s := { s with failed := [] })
      { this with } hm
  | op hc ho => exact h.threads.calls hc ho
  | noWakeup hc | staleWakeup hc | wakeupRaises hc | errorRaises hc | done hc =>
    have := hnone (by rw [hc]; rfl)
    exact { this with }
  | noError hc | tooLarge hc =>
    have := hnone (by rw [hc]; rfl)
    rw [(suspendReturn_control _).2]
    exact { this with }
  | wakes hc | fails hc | forked hc =>
    have := hnone (by rw [hc]; rfl)
    refine Threads.resume ?_ _ _
    exact { this with }
  | collect =>
    exact ⟨h.threads.running, fun j hj => h.threads.pool j (mem_of_mem_erase hj),
      h.threads.nodup.erase _, h.threads.unborn⟩

theorem calls_control {i : ℕ} {o : Op} {t : Sched} (hc : s.control = .run i) (ho : Calls s i o t) :
    t.control ≠ .idle := by
  cases ho with
  | quiet | newSession | fork | term =>
    simp [newSession, fork, coCreate, hc]
  | wakeup h => simp [wakeup, h, hc]
  | timeout => unfold timeout; split_ifs <;> simp [coCreate, newSession, hc]
  | wait | sleep =>
    unfold suspendSleep
    split_ifs <;> simp [setEntry, newSession, hc]
  | call | callTooLarge => simp [yieldCall]
  | exit => exact (suspendReturn_control _).1
  | finish => simp [finish_toSched]
  | fail => simp [fail_toSched]

theorem receives_control {m : Message} {t : Sched} (hm : Receives s m t) : t.control ≠ .idle := by
  cases hm with
  | broken | unknown | notUnpacked => simp [raise]
  | resumed | started => exact resume_control _ _ _
  | errors => simp [finish_toSched]
  | errorsFail => simp [fail_toSched]

theorem step {t : State} {a : Label} (h : Sane s.toSched) (hs : s.step a = some t) :
    Sane t.toSched := by
  have ha := step_cases hs
  refine ⟨h.threads_step ha, ?_⟩
  generalize t.toSched = t' at ha ⊢
  cases ha with
  | message _ hm => exact fun hidle => absurd hidle (receives_control hm)
  | op hc ho => exact fun hidle => absurd hidle (calls_control hc ho)
  | noWakeup | staleWakeup | wakeupRaises | errorRaises => simp [raise]
  | noError | tooLarge => exact fun hidle => absurd hidle (suspendReturn_control _).1
  | wakes | fails | forked => exact fun hidle => absurd hidle (resume_control _ _ _)
  | done _ hq => exact fun _ => hq
  | collect => exact h.idle

end Sane

end Skynet.Service
