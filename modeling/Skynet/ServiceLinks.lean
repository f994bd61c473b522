import Skynet.ServiceSessions

/-! # The tables of the scheduler

The tables `session_thread_map`, `sleep_session_map`, `watching_session_map`, the queue of forked
coroutines and the pool agree with the coroutines (`Linked`) in the runs in which no session is
issued while it is in use and no coroutine sleeps on a token that is slept on (`Orderly`).  The
latter fails an assertion in `suspend_sleep`, but only after the entry in `session_thread_map`
was made; the coroutine can then be resumed through that entry wherever it is. -/

namespace Skynet.Service

open List Function Transition State Pc

namespace Pc

/-- The token and the session of a coroutine that sleeps. -/
def sleep : Pc → Option (Token × ℕ)
  | asleep _ token n _ => some (token, n)
  | _ => none

/-- The session of a coroutine in `skynet.call`. -/
def call : Pc → Option ℕ
  | calling (.id n) _ => some n
  | _ => none

theorem session_of_sleep {p : Pc} {token : Token} {n : ℕ} (h : p.sleep = some (token, n)) :
    p.session = some n := by
  cases p <;> cases h
  rfl

theorem session_of_call {p : Pc} {n : ℕ} (h : p.call = some n) : p.session = some n := by
  cases p with
  | calling k b => cases k <;> cases h; rfl
  | _ => cases h

@[simp] theorem sleep_wake (p : Pc) (token : Token) : (p.wake token).sleep = p.sleep := by
  cases p <;> rfl

@[simp] theorem call_wake (p : Pc) (token : Token) : (p.wake token).call = p.call := by
  cases p <;> rfl

end Pc

/-- The tables agree with the coroutines. -/
structure Linked (s : Sched) : Prop where
  stored : ∀ n i b, s.sessionThreadMap (.id n) = some (.thread i b) → (s.pcs i).session = some n
  asleep : ∀ token n, s.sleepSessionMap token = some n ↔ ∃ i, (s.pcs i).sleep = some (token, n)
  watching : ∀ n addr, (.id n, addr) ∈ s.watchingSessionMap → ∃ i, (s.pcs i).call = some n
  keys : (s.watchingSessionMap.map (·.1)).Nodup
  forks : ∀ i ∈ s.forkQueue, s.pcs i = .fresh none
  forkNodup : s.forkQueue.Nodup
  pool : ∀ i ∈ s.threadPool, s.pcs i = .pooled

namespace Linked

variable {s t : Sched} {i : ℕ}

theorem unlinked (h : Linked s) {p : Pc} (hi : (s.pcs i).session = none)
    (hpc : p.session = none) (hpcs : t.pcs = update s.pcs i p)
    (hm : ∀ n, t.sessionThreadMap (.id n) = s.sessionThreadMap (.id n))
    (hsleep : t.sleepSessionMap = s.sleepSessionMap)
    (hwatch : ∀ n addr, (.id n, addr) ∈ t.watchingSessionMap → (.id n, addr) ∈ s.watchingSessionMap)
    (hkeys : (t.watchingSessionMap.map (·.1)).Nodup)
    (hforks : ∀ j ∈ t.forkQueue, t.pcs j = .fresh none) (hnodup : t.forkQueue.Nodup)
    (hpool : ∀ j ∈ t.threadPool, t.pcs j = .pooled) : Linked t where
  stored n j b he := by
    rw [hm] at he
    have hj := h.stored n j b he
    have hji : j ≠ i := by
      rintro rfl
      rw [hi] at hj
      cases hj
    rwa [hpcs, update_of_ne hji]
  asleep token n := by
    rw [hsleep, h.asleep, hpcs]
    constructor
    · rintro ⟨j, hj⟩
      have hji : j ≠ i := by
        rintro rfl
        rw [session_of_sleep hj] at hi
        cases hi
      exact ⟨j, by rwa [update_of_ne hji]⟩
    · rintro ⟨j, hj⟩
      have hji : j ≠ i := by
        rintro rfl
        rw [update_self] at hj
        rw [session_of_sleep hj] at hpc
        cases hpc
      exact ⟨j, by rwa [update_of_ne hji] at hj⟩
  watching n addr hmem := by
    obtain ⟨j, hj⟩ := h.watching n addr (hwatch n addr hmem)
    have hji : j ≠ i := by
      rintro rfl
      rw [session_of_call hj] at hi
      cases hi
    exact ⟨j, by rwa [hpcs, update_of_ne hji]⟩
  keys := hkeys
  forks := hforks
  forkNodup := hnodup
  pool := hpool

/-- A coroutine that is in no table begins to wait for session `n`. -/
theorem link (h : Linked s) {p : Pc} {n b : ℕ} (hi : (s.pcs i).session = none)
    (hpc : p.session = some n) (hpcs : t.pcs = update s.pcs i p)
    (hm : t.sessionThreadMap = update s.sessionThreadMap (.id n) (some (.thread i b)))
    (hsleep : ∀ token m, t.sleepSessionMap token = some m ↔
      s.sleepSessionMap token = some m ∨ p.sleep = some (token, m))
    (hwatch : ∀ m addr, (.id m, addr) ∈ t.watchingSessionMap →
      (.id m, addr) ∈ s.watchingSessionMap ∨ p.call = some m)
    (hkeys : (t.watchingSessionMap.map (·.1)).Nodup)
    (hforks : t.forkQueue = s.forkQueue) (hfork : i ∉ s.forkQueue)
    (hpool : t.threadPool.Sublist s.threadPool) (hmem : i ∉ t.threadPool) : Linked t where
  stored m j b' he := by
    rcases update_cases (hm ▸ he) with ⟨⟨⟩, ⟨⟩⟩ | ⟨-, he⟩
    · rw [hpcs, update_self, hpc]
    · have hj := h.stored m j b' he
      have hji : j ≠ i := by
        rintro rfl
        rw [hi] at hj
        cases hj
      rwa [hpcs, update_of_ne hji]
  asleep token m := by
    rw [hsleep, h.asleep, hpcs]
    constructor
    · rintro (⟨j, hj⟩ | hsl)
      · have hji : j ≠ i := by
          rintro rfl
          rw [session_of_sleep hj] at hi
          cases hi
        exact ⟨j, by rwa [update_of_ne hji]⟩
      · exact ⟨i, by rwa [update_self]⟩
    · rintro ⟨j, hj⟩
      by_cases hji : j = i
      · subst hji
        rw [update_self] at hj
        exact .inr hj
      · rw [update_of_ne hji] at hj
        exact .inl ⟨j, hj⟩
  watching m addr hw := by
    rcases hwatch m addr hw with hw | hcall
    · obtain ⟨j, hj⟩ := h.watching m addr hw
      have hji : j ≠ i := by
        rintro rfl
        rw [session_of_call hj] at hi
        cases hi
      exact ⟨j, by rwa [hpcs, update_of_ne hji]⟩
    · exact ⟨i, by rwa [hpcs, update_self]⟩
  keys := hkeys
  forks j hj := by
    rw [hforks] at hj
    have hji : j ≠ i := by
      rintro rfl
      exact hfork hj
    rw [hpcs, update_of_ne hji]
    exact h.forks j hj
  forkNodup := hforks ▸ h.forkNodup
  pool j hj := by
    have hji : j ≠ i := by
      rintro rfl
      exact hmem hj
    rw [hpcs, update_of_ne hji]
    exact h.pool j (hpool.subset hj)

/-! ### New coroutines -/

section Create

variable {s : State} {r : Option ℕ}

theorem next_session (ht : Threads r s.toSched) : (s.pcs s.nextThread).session = none := by
  have := ht.next_parked
  cases hpc : s.pcs s.nextThread <;> rw [hpc] at this <;> simp_all [Pc.Parked, session]

variable (h : Linked s.toSched)

include h

theorem nextPc_fresh : s.nextPc = .fresh none := by
  unfold Sched.nextPc
  by_cases hp : s.threadPool = []
  · rw [if_pos (.inl hp)]
  · rw [if_pos (.inr (h.pool _ (by rw [nextThread_of_cons hp]; simp)))]

theorem coCreate_next : s.coCreate.pcs s.nextThread = .fresh none := by
  simpa [State.coCreate] using h.nextPc_fresh

theorem next_not_forked (ht : Threads r s.toSched) : s.nextThread ∉ s.forkQueue := by
  intro hmem
  have := ht.next_parked
  rw [h.forks _ hmem] at this
  exact this

theorem coCreate (ht : Threads r s.toSched) : Linked s.coCreate.toSched := by
  refine h.unlinked (next_session ht) (session_nextPc s.toSched) rfl
    (fun _ => rfl) rfl (fun _ _ => id) h.keys (fun j hj => ?_) h.forkNodup fun j hj => ?_
  · have : j ≠ s.nextThread := fun he => h.next_not_forked ht (he ▸ hj)
    simpa [State.coCreate, this] using h.forks j hj
  · have : j ≠ s.nextThread := fun he => ht.next_not_mem (he ▸ hj)
    simpa [State.coCreate, this] using h.pool j ((dropLast_sublist _).subset hj)

theorem fork (ht : Threads r s.toSched) : Linked s.fork.toSched := by
  have hc := h.coCreate ht
  refine ⟨hc.stored, hc.asleep, hc.watching, hc.keys, fun j hj => ?_, ?_, hc.pool⟩
  · rcases mem_append.mp hj with hj | hj
    · exact hc.forks j hj
    · obtain rfl := mem_singleton.mp hj
      simpa [State.fork, State.coCreate] using h.nextPc_fresh
  · refine nodup_append.mpr ⟨h.forkNodup, nodup_singleton _, ?_⟩
    rintro j hj k hk rfl
    exact h.next_not_forked ht (mem_singleton.mp hk ▸ hj)

theorem timeout (ht : Threads r s.toSched) : Linked s.timeout.toSched := by
  unfold State.timeout
  split_ifs
  · refine h.link (next_session ht) ?_ rfl rfl
      (fun token m => ?_) (fun m addr hw => .inl hw) h.keys rfl (h.next_not_forked ht)
      (dropLast_sublist _) ht.next_not_mem
    · rw [h.nextPc_fresh]
      rfl
    · rw [h.nextPc_fresh]
      simp [timed, sleep, State.coCreate, State.newSession]
  · exact coCreate
      { h with }
      { ht with }

omit h

end Create

/-! ### Coroutines that yield and return -/

section Yield

variable {s : State}

variable (h : Linked s.toSched)

include h

theorem not_forked (hi : s.pcs i = .running) : i ∉ s.forkQueue := by
  intro hmem
  rw [h.forks i hmem] at hi
  cases hi

theorem not_pooled (hi : s.pcs i = .running) : i ∉ s.threadPool := by
  intro hmem
  rw [h.pool i hmem] at hi
  cases hi

theorem leave (hi : s.pcs i = .running) {p : Pc} (hpc : p.session = none) :
    Linked { s.toSched with pcs := update s.pcs i p } := by
  refine h.unlinked (by rw [hi]; rfl) hpc rfl (fun _ => rfl) rfl (fun _ _ => id) h.keys
    (fun j hj => ?_) h.forkNodup fun j hj => ?_
  · have : j ≠ i := fun he => h.not_forked hi (he ▸ hj)
    simpa [this] using h.forks j hj
  · have : j ≠ i := fun he => h.not_pooled hi (he ▸ hj)
    simpa [this] using h.pool j hj

theorem suspendSleep (hi : s.pcs i = .running) {token : Token}
    (hfree : s.sleepSessionMap token = none) (timer : Bool) :
    Linked (s.suspendSleep i timer token).toSched := by
  rw [State.suspendSleep, if_pos hfree]
  refine h.link (by rw [hi]; rfl) rfl rfl rfl
    (fun token' m => ?_) (fun m addr hw => .inl hw) h.keys rfl (h.not_forked hi)
    (List.Sublist.refl _) (h.not_pooled hi)
  by_cases htok : token' = token
  · subst htok
    simp [sleep, hfree]
  · simp [sleep, htok, Ne.symm htok]

/-- What `yield_call` does to `watching_session_map`. -/
theorem keys_watch (k : Key) (addr : Addr) :
    (((k, addr) :: s.watchingSessionMap.filter (·.1 ≠ k)).map (·.1)).Nodup := by
  rw [map_cons, nodup_cons]
  refine ⟨?_, h.keys.sublist (filter_sublist.map _)⟩
  simp

theorem call (hi : s.pcs i = .running) (addr : Addr) :
    Linked (s.newSession.yieldCall i (.id s.nextSession) addr).toSched := by
  refine h.link (by rw [hi]; rfl) rfl
    rfl rfl (fun token m => ?_) (fun m addr' hw => ?_) (h.keys_watch _ _) rfl (h.not_forked hi)
    (List.Sublist.refl _) (h.not_pooled hi)
  · simp [sleep, yieldCall, setEntry, setPc, newSession]
  · rcases mem_cons.mp hw with hw | hw
    · cases hw
      exact .inr rfl
    · exact .inl (mem_of_mem_filter hw)

theorem callTooLarge (hi : s.pcs i = .running) (addr : Addr) :
    Linked (s.yieldCall i .tooLarge addr).toSched := by
  have hl := h.leave hi (p := .calling .tooLarge s.nalloc) rfl
  refine h.unlinked (by rw [hi]; rfl) rfl rfl
    (fun n => ?_) rfl (fun n addr' hw => ?_) (h.keys_watch _ _) hl.forks hl.forkNodup hl.pool
  · simp [yieldCall, setEntry, setPc]
  · rcases mem_cons.mp hw with hw | hw
    · cases hw
    · exact mem_of_mem_filter hw

theorem finish (hi : (s.pcs i).session = none) (hfork : i ∉ s.forkQueue) (hpool : i ∉ s.threadPool) :
    Linked (s.finish i).toSched := by
  rw [finish_toSched]
  refine h.unlinked hi rfl rfl (fun _ => rfl) rfl (fun _ _ => id) h.keys
    (fun j hj => ?_) h.forkNodup fun j hj => ?_
  · have : j ≠ i := fun he => hfork (he ▸ hj)
    simpa [this] using h.forks j hj
  · rcases mem_append.mp hj with hj | hj
    · have : j ≠ i := fun he => hpool (he ▸ hj)
      simpa [this] using h.pool j hj
    · obtain rfl := mem_singleton.mp hj
      simp

theorem fail (ht : Threads (some i) s.toSched) : Linked (s.fail i).toSched := by
  have hi : s.pcs i = .running := (ht.running i).mpr rfl
  have hl : Linked (((s.reportError i).clear i).setPc i .dead).toSched := by
    simpa [setPc, clear] using h.leave hi rfl
  have hy : Threads none (((s.reportError i).clear i).setPc i .dead).toSched := by
    simpa [setPc, clear] using ht.yield (p := .dead) (by simp)
  have := hl.fork hy
  exact { this with }

theorem wakeup (token : Token) : Linked (s.wakeup token).toSched := by
  have hfresh : ∀ p : Pc, p = .fresh none → p.wake token = .fresh none := by
    rintro _ rfl
    rfl
  have hpooled : ∀ p : Pc, p = .pooled → p.wake token = .pooled := by
    rintro _ rfl
    rfl
  unfold State.wakeup
  split_ifs
  · exact h
  · exact ⟨fun n j b he => (session_wake _ _).trans (h.stored n j b he),
      fun tok n => by simpa using h.asleep tok n, fun n addr hw => by simpa using h.watching n addr hw,
      h.keys, fun j hj => hfresh _ (h.forks j hj), h.forkNodup, fun j hj => hpooled _ (h.pool j hj)⟩

omit h

end Yield

/-! ### Coroutines that are resumed -/

/-- An entry of `session_thread_map` goes. -/
theorem erase {k : Key} {e : Option Entry} (h : Linked s) (he : ∀ i b, e ≠ some (.thread i b))
    (hpcs : t.pcs = s.pcs) (hm : t.sessionThreadMap = update s.sessionThreadMap k e)
    (hsleep : t.sleepSessionMap = s.sleepSessionMap)
    (hwatch : t.watchingSessionMap = s.watchingSessionMap) (hforks : t.forkQueue = s.forkQueue)
    (hpool : t.threadPool = s.threadPool) : Linked t where
  stored n j b hb := by
    rcases update_cases (hm ▸ hb) with ⟨-, hb⟩ | ⟨-, hb⟩
    · exact absurd hb (he j b)
    · rw [hpcs]
      exact h.stored n j b hb
  asleep := by rw [hsleep, hpcs]; exact h.asleep
  watching := by rw [hwatch, hpcs]; exact h.watching
  keys := hwatch ▸ h.keys
  forks := by rw [hforks, hpcs]; exact h.forks
  forkNodup := hforks ▸ h.forkNodup
  pool := by rw [hpool, hpcs]; exact h.pool

/-- A coroutine is resumed whose entry in `session_thread_map`, if it had one, is gone. -/
theorem resume {s : State} (h : Linked s.toSched) (hheld : HeldBut i s.toSched)
    (hgone : ∀ n b, s.sessionThreadMap (.id n) ≠ some (.thread i b)) (hfork : i ∉ s.forkQueue)
    (hi : (s.pcs i).session ≠ none ∨ s.pcs i = .fresh none) (succ : Bool) :
    Linked (s.resume i succ).toSched ∧ (s.resume i succ).control = .run i := by
  have hpool : i ∉ s.threadPool := by
    intro hmem
    rw [h.pool i hmem] at hi
    rcases hi with hi | hi
    · exact hi rfl
    · cases hi
  have hrun {t : Sched} (hpcs : t.pcs = update s.pcs i .running)
      (hm : ∀ n e, t.sessionThreadMap (.id n) = some e → s.sessionThreadMap (.id n) = some e)
      (hsleep : ∀ token n, t.sleepSessionMap token = some n ↔
        s.sleepSessionMap token = some n ∧ (s.pcs i).sleep ≠ some (token, n))
      (hwatch : ∀ n addr, (.id n, addr) ∈ t.watchingSessionMap →
        (.id n, addr) ∈ s.watchingSessionMap ∧ (s.pcs i).call ≠ some n)
      (hkeys : (t.watchingSessionMap.map (·.1)).Nodup)
      (hforks : t.forkQueue = s.forkQueue) (hpools : t.threadPool = s.threadPool) : Linked t := by
    refine ⟨fun n j b he => ?_, fun token n => ?_, fun n addr hw => ?_, hkeys,
      fun j hj => ?_, hforks ▸ h.forkNodup, fun j hj => ?_⟩
    · have he := hm n _ he
      have hji : j ≠ i := by
        rintro rfl
        exact hgone n b he
      rw [hpcs, update_of_ne hji]
      exact h.stored n j b he
    · rw [hsleep, h.asleep, hpcs]
      constructor
      · rintro ⟨⟨j, hj⟩, hne⟩
        have hji : j ≠ i := by
          rintro rfl
          exact hne hj
        exact ⟨j, by rwa [update_of_ne hji]⟩
      · rintro ⟨j, hj⟩
        have hji : j ≠ i := by
          rintro rfl
          rw [update_self] at hj
          cases hj
        rw [update_of_ne hji] at hj
        refine ⟨⟨j, hj⟩, fun hsl => ?_⟩
        exact (hheld j n hji (Pc.session_of_sleep hj)).1 (Pc.session_of_sleep hsl)
    · obtain ⟨hw, hne⟩ := hwatch n addr hw
      obtain ⟨j, hj⟩ := h.watching n addr hw
      have hji : j ≠ i := by
        rintro rfl
        exact hne hj
      exact ⟨j, by rwa [hpcs, update_of_ne hji]⟩
    · have hji : j ≠ i := fun he => hfork (he ▸ hforks ▸ hj)
      rw [hpcs, update_of_ne hji]
      exact h.forks j (hforks ▸ hj)
    · have hji : j ≠ i := fun he => hpool (he ▸ hpools ▸ hj)
      rw [hpcs, update_of_ne hji]
      exact h.pool j (hpools ▸ hj)
  cases hpc : s.pcs i with simp only [State.resume, hpc]
  | fresh timer =>
    exact ⟨hrun rfl (fun _ _ => id) (by simp [hpc, Pc.sleep, State.setPc])
      (by simp [hpc, Pc.call, State.setPc]) h.keys rfl rfl, trivial⟩
  | asleep timer token n woken =>
    refine ⟨hrun rfl ?_ (fun token' m => ?_) (by simp [hpc, Pc.call, State.setPc]) h.keys rfl rfl, trivial⟩
    · intro m e he
      cases timer
      · by_cases hm : m = n
        · subst hm
          simp at he
        · simpa [hm] using he
      · exact he
    · have hi : s.sleepSessionMap token = some n := (h.asleep token n).mpr ⟨i, by rw [hpc]; rfl⟩
      by_cases htok : token' = token
      · subst htok
        simp [hpc, Pc.sleep, hi]
      · simp [hpc, Pc.sleep, htok, Ne.symm htok]
  | calling k b =>
    refine ⟨hrun rfl (fun _ _ => id) (by simp [hpc, Pc.sleep, State.setPc]) (fun n addr hw => ?_)
      (h.keys.sublist (filter_sublist.map _)) rfl rfl, trivial⟩
    obtain ⟨hw, hne⟩ := mem_filter.mp hw
    refine ⟨hw, fun hcall => ?_⟩
    rw [hpc] at hcall
    cases k <;> simp_all [Pc.call]
  | pooled | poisoned | dead | running | quit =>
    rw [hpc] at hi
    simp [Pc.session] at hi

theorem resume_entry {t : State} {n b : ℕ} {e : Option Entry} (h : Linked s) (hheld : Held s)
    (hb : s.sessionThreadMap (.id n) = some (.thread i b)) (he : ∀ i b, e ≠ some (.thread i b))
    (hpcs : t.pcs = s.pcs) (hm : t.sessionThreadMap = update s.sessionThreadMap (.id n) e)
    (hsleep : t.sleepSessionMap = s.sleepSessionMap)
    (hwatch : t.watchingSessionMap = s.watchingSessionMap) (hforks : t.forkQueue = s.forkQueue)
    (hpool : t.threadPool = s.threadPool) (succ : Bool) :
    Linked (t.resume i succ).toSched ∧ (t.resume i succ).control = .run i := by
  have hi := h.stored n i b hb
  refine (h.erase he hpcs hm hsleep hwatch hforks hpool).resume
    (hheld.but_of_entry hb hpcs hm) (fun m b' hb' => ?_) (fun hmem => ?_) (.inl ?_) succ
  · rcases update_cases (hm ▸ hb') with ⟨-, hb'⟩ | ⟨hmn, hb'⟩
    · exact he i b' hb'
    · have := h.stored m i b' hb'
      rw [hi] at this
      exact hmn (congrArg Key.id (Option.some.inj this).symm)
  · rw [hforks] at hmem
    rw [h.forks i hmem] at hi
    cases hi
  · rw [hpcs, hi]
    exact Option.some_ne_none n

theorem resume_fresh {s : State} (h : Linked s.toSched) (hheld : Held s.toSched)
    (hi : s.pcs i = .fresh none) (hfork : i ∉ s.forkQueue) (succ : Bool) :
    Linked (s.resume i succ).toSched ∧ (s.resume i succ).control = .run i := by
  refine h.resume (hheld.but i) (fun n b hb => ?_) hfork (.inr hi) succ
  have := h.stored n i b hb
  rw [hi] at this
  cases this

/-- The coroutine that waits for the response is resumed. -/
theorem received {s : State} {n b : ℕ} (h : Linked s.toSched) (hheld : Held s.toSched)
    (hb : s.sessionThreadMap (.id n) = some (.thread i b)) :
    Linked ((s.setEntry (.id n) none).resume i true).toSched ∧
      ((s.setEntry (.id n) none).resume i true).control = .run i :=
  h.resume_entry (t := s.setEntry (.id n) none) (e := none) hheld hb nofun rfl rfl rfl rfl rfl rfl
    true

/-- A new coroutine is started. -/
theorem started {s : State} (h : Linked s.toSched) (hheld : Held s.toSched)
    (ht : Threads none s.toSched) : Linked (s.coCreate.resume s.nextThread true).toSched ∧
      (s.coCreate.resume s.nextThread true).control = .run s.nextThread :=
  (h.coCreate ht).resume_fresh (hheld.of_update (session_nextPc s.toSched) rfl rfl)
    h.coCreate_next (h.next_not_forked ht) true

end Linked

theorem resume_run {s : State} {i : ℕ} {succ : Bool} (h : (s.resume i succ).control = .run i) :
    (s.resume i succ).pcs = update s.pcs i .running ∧
      (s.resume i succ).wakeupQueue = s.wakeupQueue ∧
      (s.resume i succ).errorQueue = s.errorQueue ∧
      (s.resume i succ).forkQueue = s.forkQueue := by
  cases hpc : s.pcs i with
  | fresh _ | asleep _ _ _ _ | calling _ _ | quit =>
    simp only [resume, hpc]
    exact ⟨rfl, rfl, rfl, rfl⟩
  | pooled =>
    have := (suspendReturn_control (s.setPc i .poisoned)).2
    simp only [resume, hpc] at h
    rw [h] at this
    cases this
  | poisoned | dead | running =>
    simp only [resume, hpc, fail_toSched] at h
    cases h

/-! ### Orderly runs -/

/-- The token a coroutine goes to sleep on is not slept on. -/
def State.tokenFree (s : State) (a : Label) : Bool :=
  match s.control, a with
  | .run i, .op (.wait token) => (s.sleepSessionMap (token.getD (.thread i))).isNone
  | .run i, .op (.sleep token) => (s.sleepSessionMap (token.getD (.thread i))).isNone
  | _, _ => true

/-- No session is issued while it is in use, and no coroutine sleeps on a token that another
one sleeps on. -/
def State.Orderly (s : State) (a : Label) : Prop :=
  (a.allocates = true → ¬ s.InUse s.nextSession) ∧ s.tokenFree a = true

instance (s : State) (a : Label) : Decidable (s.Orderly a) := inferInstanceAs (Decidable (_ ∧ _))

/-- What holds of the scheduler in orderly runs. -/
structure Tidy (s : Sched) : Prop where
  sane : Sane s
  held : Held s
  linked : Linked s

namespace Tidy

variable {s : State} {i : ℕ} {t : Sched}

theorem init : Tidy State.init.toSched where
  sane := Sane.init
  held := Held.init
  linked :=
    Linked.timeout (r := none)
      ⟨nofun, fun _ _ => by simp [empty, sleep], nofun, nodup_nil, nofun,
        nodup_nil, nofun⟩
      ⟨fun _ => by simp [empty], nofun, nodup_nil, fun _ _ => rfl⟩

theorem linked_calls {o : Op} (h : Tidy s.toSched) (hc : s.control = .run i)
    (hok : s.Orderly (.op o)) (ho : Calls s i o t) : Linked t := by
  have hl := h.linked
  have hi := h.sane.running hc
  have ht : Threads (some i) s.toSched := h.sane.threads_of hc
  cases ho with
  | quiet => exact hl
  | newSession | term =>
    exact { hl with }
  | wakeup => exact hl.wakeup _
  | fork => exact hl.fork ht
  | timeout => exact hl.timeout ht
  | wait => exact hl.suspendSleep hi (by simpa [tokenFree, hc] using hok.2) false
  | sleep => exact hl.suspendSleep hi (by simpa [tokenFree, hc] using hok.2) true
  | call => exact hl.call hi _
  | callTooLarge => exact hl.callTooLarge hi _
  | exit =>
    have := hl.leave hi (p := .quit) rfl
    exact ⟨this.stored, this.asleep, this.watching, this.keys, nofun, nodup_nil, this.pool⟩
  | finish => exact hl.finish (by rw [hi]; rfl) (hl.not_forked hi) (hl.not_pooled hi)
  | fail => exact hl.fail ht

theorem linked_receives {m : Message} (hl : Linked s.toSched) (hheld : Held s.toSched)
    (ht : Threads none s.toSched) (hm : Receives s m t) : Linked t := by
  have hc := hl.coCreate ht
  cases hm with
  | broken => exact hl.erase (e := none) nofun rfl rfl rfl rfl rfl rfl
  | resumed he => exact (hl.received hheld he).1
  | started => exact (hl.started hheld ht).1
  | notUnpacked => exact { hc with }
  | @errors _ _ _ q =>
    have hq : Linked { s.coCreate with errorQueue := s.errorQueue ++ q }.toSched :=
      { hc with }
    exact hq.finish (by show (s.coCreate.pcs _).session = none; rw [hl.coCreate_next]; rfl)
      (hl.next_not_forked ht) ht.next_not_mem
  | errorsFail hdead =>
    rw [hl.nextPc_fresh] at hdead
    cases hdead
  | unknown => exact { hl with }

/-- The first coroutine of `fork_queue` is resumed. -/
theorem resume_forked (h : Tidy s.toSched) {rest : List ℕ} (hq : s.forkQueue = i :: rest) :
    Linked ({ s with forkQueue := rest }.resume i false).toSched ∧
      ({ s with forkQueue := rest }.resume i false).control = .run i := by
  have hl := h.linked
  have hnodup := hl.forkNodup
  rw [hq, nodup_cons] at hnodup
  have hrest : Linked { s with forkQueue := rest }.toSched :=
    ⟨hl.stored, hl.asleep, hl.watching, hl.keys,
      fun j hj => hl.forks j (hq ▸ mem_cons_of_mem i hj), hnodup.2, hl.pool⟩
  exact hrest.resume_fresh h.held (hl.forks i (by rw [hq]; simp)) hnodup.1 false

theorem linked_step {a : Label} (h : Tidy s.toSched) (hok : s.Orderly a) (ha : Step s a t) :
    Linked t := by
  have hl := h.linked
  cases ha with
  | message hc hm =>
    have ht : Threads none s.toSched := h.sane.threads_of hc
    exact linked_receives (s := { s with failed := [] })
      { hl with } h.held
      { ht with } hm
  | op hc ho => exact h.linked_calls hc hok ho
  | noWakeup | staleWakeup | noError | tooLarge | done =>
    exact { hl with }
  | wakes _ _ _ he =>
    refine (hl.resume_entry (e := some .BREAK) h.held he nofun ?_ ?_ ?_ ?_ ?_ ?_ false).1 <;> rfl
  | fails _ _ he =>
    refine (hl.resume_entry (e := none) h.held he nofun ?_ ?_ ?_ ?_ ?_ ?_ false).1 <;> rfl
  | wakeupRaises => exact hl.erase (e := some .BREAK) nofun rfl rfl rfl rfl rfl rfl
  | errorRaises => exact hl.erase (e := none) nofun rfl rfl rfl rfl rfl rfl
  | forked _ hq => exact (h.resume_forked hq).1
  | collect =>
    exact ⟨hl.stored, hl.asleep, hl.watching, hl.keys, hl.forks, hl.forkNodup,
      fun j hj => hl.pool j (mem_of_mem_erase hj)⟩

theorem step {t : State} {a : Label} (h : Tidy s.toSched) (hok : s.Orderly a)
    (hs : s.step a = some t) : Tidy t.toSched :=
  have ha := step_cases hs
  ⟨h.sane.step hs, h.held.step h.sane hok.1 ha, h.linked_step hok ha⟩

/-- The coroutine that `dispatch_wakeup` resumes sleeps on the token. -/
theorem woken (h : Tidy s.toSched) {token : Token} {n : ℕ} (htok : s.sleepSessionMap token = some n) :
    ∃ i timer woken b, s.pcs i = .asleep timer token n woken ∧
      s.sessionThreadMap (.id n) = some (.thread i b) := by
  obtain ⟨i, hi⟩ := (h.linked.asleep token n).mp htok
  obtain ⟨b, hb⟩ := h.held i n (session_of_sleep hi)
  cases hpc : s.pcs i <;> rw [hpc] at hi <;> cases hi
  exact ⟨i, _, _, b, hpc, hb⟩

/-- `dispatch_wakeup` resumes a coroutine. -/
theorem wakes_run (h : Tidy s.toSched) (rest : List Token) {n b : ℕ}
    (he : s.sessionThreadMap (.id n) = some (.thread i b)) :
    let t := { s.setEntry (.id n) (some .BREAK) with
      wakeupQueue := rest, pending := s.pending + 1 }.resume i false
    t.control = .run i ∧ t.pcs = update s.pcs i .running ∧ t.wakeupQueue = rest ∧
      t.errorQueue = s.errorQueue ∧ t.forkQueue = s.forkQueue := by
  have hrun := (h.linked.resume_entry (e := some .BREAK)
    (t := { s.setEntry (.id n) (some .BREAK) with wakeupQueue := rest, pending := s.pending + 1 })
    h.held he nofun rfl rfl rfl rfl rfl rfl false).2
  exact ⟨hrun, resume_run hrun⟩

/-- `dispatch_error_queue` resumes a coroutine. -/
theorem fails_run (h : Tidy s.toSched) (rest : List Key) {n b : ℕ}
    (he : s.sessionThreadMap (.id n) = some (.thread i b)) :
    let t := { s.setEntry (.id n) none with errorQueue := rest }.resume i false
    t.control = .run i ∧ t.pcs = update s.pcs i .running ∧
      t.wakeupQueue = s.wakeupQueue ∧ t.errorQueue = rest ∧ t.forkQueue = s.forkQueue := by
  have hrun := (h.linked.resume_entry (e := none)
    (t := { s.setEntry (.id n) none with errorQueue := rest })
    h.held he nofun rfl rfl rfl rfl rfl rfl false).2
  exact ⟨hrun, resume_run hrun⟩

/-- The loop over `fork_queue` resumes a coroutine. -/
theorem forked_run (h : Tidy s.toSched) {rest : List ℕ} (hq : s.forkQueue = i :: rest) :
    let t := { s with forkQueue := rest }.resume i false
    t.control = .run i ∧ t.pcs = update s.pcs i .running ∧
      t.wakeupQueue = s.wakeupQueue ∧ t.errorQueue = s.errorQueue ∧ t.forkQueue = rest := by
  have hrun := (h.resume_forked hq).2
  exact ⟨hrun, resume_run hrun⟩

end Tidy

/-- **Tables of the scheduler**: in orderly runs they hold exactly the coroutines that wait for a
response and those that sleep, each under its session or token. -/
theorem tables_exact {s : State} (h : service.ReachableVia State.Orderly s) :
    (∀ i n, (∃ b, s.sessionThreadMap (.id n) = some (.thread i b)) ↔ (s.pcs i).session = some n) ∧
    ∀ token n, s.sleepSessionMap token = some n ↔ ∃ i, (s.pcs i).sleep = some (token, n) := by
  have ht := h.invariant (I := fun s => Tidy s.toSched) .init fun _ _ _ => .step
  refine ⟨fun i n => ⟨?_, ht.held i n⟩, ht.linked.asleep⟩
  rintro ⟨b, hb⟩
  exact ht.linked.stored n i b hb

/-- The first coroutine calls service 1 and waits for the response to session 2, which comes. -/
theorem tables_exact_of_call : ∃ s t : State,
    service.ReachableVia State.Orderly s ∧ service.ReachableVia State.Orderly t ∧
    (∃ b, s.sessionThreadMap (.id 2) = some (.thread 0 b)) ∧
    ∀ b, t.sessionThreadMap (.id 2) ≠ some (.thread 0 b) := by
  let call : List Label :=
    [.message (.response 1), .op (.call (.handle 1) .accepted), .next, .next, .next]
  obtain ⟨s, hs, hsession⟩ := service.exists_reachable State.Orderly call
    (fun s => (s.pcs 0).session = some 2) (by decide +kernel)
  obtain ⟨t, ht, hnone⟩ := service.exists_reachable State.Orderly (call ++ [.message (.response 2)])
    (fun t => (t.pcs 0).session = none) (by decide +kernel)
  refine ⟨s, t, hs, ht, ((tables_exact hs).1 0 2).mpr hsession, fun b hb => ?_⟩
  rw [((tables_exact ht).1 0 2).mp ⟨b, hb⟩] at hnone
  cases hnone

end Skynet.Service
