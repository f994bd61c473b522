import Skynet.ServiceWakeup

/-! # Critical sections of a service

`skynet.queue` returns a function that runs its argument in a critical section.  A coroutine that
finds another one in the section goes to the end of `thread_queue` and waits; the coroutine that
leaves the section makes the first of the queue `current_thread` and wakes it.

The model is a layer over the coroutines of a service (`Skynet.Service`), for one queue.  A
coroutine calls the queue, comes back from the `skynet.wait` in it and leaves a body, by a return
or by an error, which `xpcall` catches and `xpcall_ret` raises again; all other steps, those of
the bodies included, are steps of the service.  An error that is raised may be caught by the
coroutine, which then goes on.

The coroutine that comes back from its wait does not look at `current_thread`.  A `skynet.wakeup`
of a time when it slept elsewhere may still be in `wakeup_queue` and resume it
(`stale_wakeup_resumes_waiter`); without such leftovers the section is exclusive and fair
(`queue_excludes`). -/

namespace Skynet

open List Function Transition

/-! ### What a step does to a coroutine that sleeps -/

namespace Service

/-- What step `a` does to coroutine `j`, which sleeps on `token` for session `n`. -/
inductive Rouses (s : State) (a : Label) (t : Sched) (j : ℕ) (token : Token) (n : ℕ) : Prop
  | sleeps (hj : (t.pcs j).sleep = some (token, n))
      (hold : token ∈ s.wakeupQueue → token ∈ t.wakeupQueue)
      (hnew : token ∈ t.wakeupQueue → token ∈ s.wakeupQueue ∨ a = .op (.wakeup token))
  | woken (hrun : t.control = .run j) (ha : a = .next) (hq : token ∈ s.wakeupQueue)
  | answered (hrun : t.control = .run j) (ha : a = .message (.response n))
  | failed {rest : List Key} (hrun : t.control = .run j) (ha : a = .next)
      (hc : s.control = .dispatchErrorQueue) (hq : s.errorQueue = .id n :: rest)

namespace Rouses

variable {s : State} {a : Label} {t : Sched} {i j n : ℕ} {token : Token}

theorem update_sleep {pcs : ℕ → Pc} {p : Pc} (hi : (pcs i).sleep = none)
    (hj : (pcs j).sleep = some (token, n)) : (update pcs i p j).sleep = some (token, n) := by
  have hji : j ≠ i := by
    rintro rfl
    rw [hi] at hj
    cases hj
  rwa [update_of_ne hji]

theorem next_sleep {r : Option ℕ} {s : Sched} (ht : Threads r s) :
    (s.pcs s.nextThread).sleep = none := by
  have := ht.next_parked
  cases hpc : s.pcs s.nextThread with
  | asleep _ _ _ _ =>
    rw [hpc] at this
    exact this.elim
  | _ => rfl

theorem of_eq (hj : (t.pcs j).sleep = some (token, n)) (hq : t.wakeupQueue = s.wakeupQueue) :
    Rouses s a t j token n :=
  .sleeps hj (fun h => hq ▸ h) fun h => .inl (hq ▸ h)

theorem of_run (hpcs : t.pcs = update s.pcs i .running)
    (hq : t.wakeupQueue = s.wakeupQueue) (hj : (s.pcs j).sleep = some (token, n))
    (hji : j = i → Rouses s a t j token n) : Rouses s a t j token n := by
  by_cases h : j = i
  · exact hji h
  · refine of_eq ?_ hq
    rwa [hpcs, update_of_ne h]

theorem of_calls {o : Op} (ht : Threads (some i) s.toSched) (hj : (s.pcs j).sleep = some (token, n))
    (ho : Calls s i o t) : Rouses s (.op o) t j token n := by
  have hi : (s.pcs i).sleep = none := by
    rw [(ht.running i).mpr rfl]
    rfl
  have hnext := next_sleep ht
  cases ho with
  | quiet | newSession | term => exact of_eq hj rfl
  | @wakeup tok htok =>
    simp only [State.wakeup, if_neg htok]
    refine .sleeps (by simpa using hj) (mem_append_left _) fun h => ?_
    rcases mem_append.mp h with h | h
    · exact .inl h
    · rw [mem_singleton.mp h]
      exact .inr rfl
  | fork => exact of_eq (update_sleep hnext hj) rfl
  | timeout =>
    unfold State.timeout
    split_ifs <;> exact of_eq (update_sleep hnext hj) rfl
  | wait | sleep =>
    unfold State.suspendSleep
    split_ifs
    · exact of_eq (update_sleep hi hj) rfl
    · exact of_eq hj rfl
  | call | callTooLarge | exit => exact of_eq (update_sleep hi hj) rfl
  | finish =>
    rw [finish_toSched]
    exact of_eq (update_sleep hi hj) rfl
  | fail =>
    rw [fail_toSched]
    refine of_eq (update_sleep ?_ (update_sleep hi hj)) rfl
    rwa [update_of_ne]
    exact fun h => ht.ne_some_next (by rw [h])

theorem of_receives {m : Message} (hl : Linked s.toSched) (hheld : Held s.toSched)
    (ht : Threads none s.toSched) (hj : (s.pcs j).sleep = some (token, n)) (hm : Receives s m t) :
    Rouses s (.message m) t j token n := by
  have hnext := next_sleep ht
  have hj' : (s.coCreate.pcs j).sleep = some (token, n) := update_sleep hnext hj
  have hfresh := hl.coCreate_next
  cases hm with
  | broken | unknown => exact of_eq hj rfl
  | @resumed n' i b he =>
    have hrun := (hl.received hheld he).2
    obtain ⟨hpcs, hq, -, -⟩ := resume_run hrun
    refine of_run hpcs hq hj fun hji => ?_
    subst hji
    have := hl.stored n' j b he
    rw [Pc.session_of_sleep hj] at this
    cases this
    exact .answered hrun rfl
  | started =>
    have hrun := (hl.started hheld ht).2
    obtain ⟨hpcs, hq, -, -⟩ := resume_run hrun
    refine of_eq ?_ hq
    rw [hpcs]
    exact update_sleep (by rw [hfresh]; rfl) hj'
  | notUnpacked => exact of_eq hj' rfl
  | errors =>
    rw [finish_toSched]
    refine of_eq (update_sleep ?_ hj') rfl
    rw [hfresh]
    rfl
  | errorsFail hdead =>
    rw [hl.nextPc_fresh] at hdead
    cases hdead

theorem sleep_of_entry (h : Tidy s.toSched) {b : ℕ} (htok : s.sleepSessionMap token = some n)
    (he : s.sessionThreadMap (.id n) = some (.thread i b)) : (s.pcs i).sleep = some (token, n) := by
  obtain ⟨i', _, _, b', hpc, hb'⟩ := h.woken htok
  rw [he] at hb'
  cases hb'
  rw [hpc]
  rfl

theorem step (h : Tidy s.toSched) (hj : (s.pcs j).sleep = some (token, n)) (ha : Step s a t) :
    Rouses s a t j token n := by
  have htoken := (h.linked.asleep token n).mpr ⟨j, hj⟩
  cases ha with
  | message hc hm =>
    have ht : Threads none s.toSched := h.sane.threads_of hc
    have hl := h.linked
    cases of_receives (s := { s with failed := [] })
      { hl with } h.held
      { ht with } hj hm with
    | sleeps hj hold hnew => exact .sleeps hj hold hnew
    | woken hrun ha => cases ha
    | answered hrun ha => exact .answered hrun ha
    | failed hrun ha => cases ha
  | op hc ho =>
    exact of_calls (h.sane.threads_of hc) hj ho
  | noWakeup | errorRaises | noError | tooLarge | done | collect => exact of_eq hj rfl
  | @staleWakeup token' rest hc hq htok =>
    have hne : token ≠ token' := by
      rintro rfl
      rw [htok] at htoken
      cases htoken
    refine .sleeps hj (fun hmem => ?_) fun hmem => .inl (hq ▸ mem_cons_of_mem _ hmem)
    rw [hq] at hmem
    exact mem_of_ne_of_mem hne hmem
  | wakeupRaises hc hq htok he =>
    obtain ⟨i, _, _, b, -, hb⟩ := h.woken htok
    exact absurd hb (he i b)
  | @wakes token' rest n' i b hc hq htok he =>
    obtain ⟨hrun, hpcs, hrest, -, -⟩ := h.wakes_run rest he
    have hi := sleep_of_entry h htok he
    by_cases hji : j = i
    · subst hji
      rw [hj] at hi
      cases hi
      exact .woken hrun rfl (by rw [hq]; simp)
    · have hne : token ≠ token' := by
        rintro rfl
        rw [htoken] at htok
        cases htok
        obtain ⟨b', hb'⟩ := h.held j n (Pc.session_of_sleep hj)
        rw [he] at hb'
        cases hb'
        exact hji rfl
      refine .sleeps ?_ (fun hmem => ?_) fun hmem => .inl ?_
      · rwa [hpcs, update_of_ne hji]
      · rw [hq] at hmem
        rw [hrest]
        exact mem_of_ne_of_mem hne hmem
      · rw [hrest] at hmem
        rw [hq]
        exact mem_cons_of_mem _ hmem
  | @fails rest n' i b hc hq he =>
    obtain ⟨hrun, hpcs, hwake, -, -⟩ := h.fails_run rest he
    refine of_run hpcs hwake hj fun hji => ?_
    subst hji
    have := h.linked.stored n' j b he
    rw [Pc.session_of_sleep hj] at this
    cases this
    exact .failed hrun rfl hc hq
  | @forked i rest hc hq =>
    obtain ⟨hrun, hpcs, hwake, -, -⟩ := h.forked_run hq
    refine of_run hpcs hwake hj fun hji => ?_
    subst hji
    rw [h.linked.forks j (by rw [hq]; simp)] at hj
    cases hj

end Rouses

end Service

namespace ServiceQueue

open Service

/-- The upvalues of the function that `skynet.queue` returns, and the coroutines in it. -/
structure Tables where
  currentThread : Option ℕ
  ref : ℕ
  threadQueue : List ℕ
  /-- the coroutine is in the `skynet.wait` -/
  waiting : ℕ → Bool
  /-- the number of bodies the coroutine is in -/
  inside : ℕ → ℕ
  -- the history
  /-- the coroutines in the order of their calls; a nested call is not listed -/
  calls : List ℕ
  /-- the coroutines in the order in which they came into a body -/
  entered : List ℕ

structure State extends Tables where
  svc : Service.State

inductive Label where
  /-- a step of the service outside the function -/
  | service (a : Service.Label)
  /-- the running coroutine calls the function -/
  | call
  /-- the running coroutine is back from the `skynet.wait` -/
  | advance
  /-- the body the running coroutine is in returns, or fails when not `ok` -/
  | ret (ok : Bool)
deriving DecidableEq, Repr

namespace State

variable (s : State)

/-- A call that the running coroutine makes into `skynet.lua`. -/
def op (o : Op) : Option State := (s.svc.step (.op o)).map fun t => { s with svc := t }

/-- `ref` is incremented and the body is called. -/
def enter (i : ℕ) : State :=
  { s with
    currentThread := some i
    ref := s.ref + 1
    inside := update s.inside i (s.inside i + 1)
    entered := if s.inside i = 0 then s.entered ++ [i] else s.entered }

/-- Coroutine `i` has to wait. -/
def blocks (i : ℕ) : Bool := s.currentThread ≠ none ∧ s.currentThread ≠ some i

/-- Coroutine `i` goes to the end of the queue and waits. -/
def enqueue (i : ℕ) : Option State :=
  let t : State := { s with threadQueue := s.threadQueue ++ [i] }
  (t.op (.wait none)).map fun u =>
    -- the assertion of suspend_sleep has failed if the coroutine still runs
    if u.svc.control = .run i then u else { u with waiting := update u.waiting i true }

/-- Coroutine `i` calls the function. -/
def call (i : ℕ) : Option State :=
  let t : State := { s with calls := if s.inside i = 0 then s.calls ++ [i] else s.calls }
  if s.blocks i then t.enqueue i else some (t.enter i)

/-- Coroutine `i` is back from the `skynet.wait`; the assertion raises an error. -/
def advance (i : ℕ) : State :=
  let t : State := { s with waiting := update s.waiting i false }
  if s.ref = 0 then t.enter i else t

/-- `xpcall_ret`; an error of the body is raised again after the section is left. -/
def xpcallRet (i : ℕ) : Option State :=
  let t : State :=
    { s with ref := s.ref - 1, inside := update s.inside i (s.inside i - 1) }
  if t.ref = 0 then
    let u : State :=
      { t with currentThread := s.threadQueue.head?, threadQueue := s.threadQueue.tail }
    match u.currentThread with
    | some c => u.op (.wakeup (.thread c))
    | none => some u
  else some t

/-- A call that is made outside the function.  The function of a coroutine does not return and
does not fail while it is in a body. -/
def outside (i : ℕ) : Op → Bool
  | .finish | .error => s.waiting i = false ∧ s.inside i = 0
  | _ => s.waiting i = false

def step : Label → Option State
  | .service a =>
    match a, s.svc.control with
    | .op o, .run i => if s.outside i o then s.op o else none
    | _, _ => (s.svc.step a).map fun t => { s with svc := t }
  | .call =>
    match s.svc.control with
    | .run i => if s.waiting i then none else s.call i
    | _ => none
  | .advance =>
    match s.svc.control with
    | .run i => if s.waiting i then some (s.advance i) else none
    | _ => none
  | .ret _ =>
    match s.svc.control with
    | .run i => if s.waiting i ∨ s.inside i = 0 then none else s.xpcallRet i
    | _ => none

/-- The service when `skynet.queue` is called. -/
def init : State where
  svc := Service.State.init
  currentThread := none
  ref := 0
  threadQueue := []
  waiting _ := false
  inside _ := 0
  calls := []
  entered := []

end State

/-- A service with a critical section. -/
def client : System State Label := ⟨State.init, State.step⟩

/-! ### Runs in which only the queue wakes those who wait in it -/

namespace State

variable (s : State)

/-- The coroutine stored under session `n` waits in the queue. -/
def holdsWaiter (n : ℕ) : Bool :=
  match s.svc.sessionThreadMap (.id n) with
  | some (.thread i _) => s.waiting i
  | _ => false

/-- The step wakes a coroutine that waits in the queue, by its token or by its session. -/
def wakesWaiter : Service.Label → Bool
  | .op (.wakeup (.thread i)) => s.waiting i
  | .message (.response n) => s.holdsWaiter n
  | .next =>
    match s.svc.control, s.svc.errorQueue with
    | .dispatchErrorQueue, .id n :: _ => s.holdsWaiter n
    | _, _ => false
  | _ => false

/-- Only the queue wakes a coroutine that waits in it. -/
def OnlyQueueWakes : Label → Prop
  | .service a => s.wakesWaiter a = false
  | _ => True

instance : (a : Label) → Decidable (s.OnlyQueueWakes a)
  | .service _ => inferInstanceAs (Decidable (_ = _))
  | .call | .advance | .ret _ => inferInstanceAs (Decidable True)

/-- A coroutine begins to wait and a wakeup is left from a time when it slept elsewhere. -/
def wakeupLeft : Bool :=
  match s.svc.control with
  | .run i => s.blocks i ∧ .thread i ∈ s.svc.wakeupQueue
  | _ => false

/-- Only the queue wakes a coroutine that waits in it, no coroutine begins to wait with a wakeup
left, and the service runs orderly. -/
def Undisturbed : Label → Prop
  | .service a => s.svc.Orderly a ∧ s.OnlyQueueWakes (.service a)
  | .call => s.svc.Orderly (.op (.wait none)) ∧ s.wakeupLeft = false
  | .advance | .ret _ => True

instance : (a : Label) → Decidable (s.Undisturbed a)
  | .service _ | .call => inferInstanceAs (Decidable (_ ∧ _))
  | .advance | .ret _ => inferInstanceAs (Decidable True)

end State

/-- The coroutine that has been woken and not come into the section yet. -/
def Tables.handed (a : Tables) : List ℕ := if a.ref = 0 then a.currentThread.toList else []

/-- The upvalues agree with the coroutines in the function. -/
structure Ledger (a : Tables) : Prop where
  free : a.currentThread = none → a.ref = 0 ∧ a.threadQueue = []
  inside : ∀ i, a.inside i = if a.currentThread = some i then a.ref else 0
  waiting : ∀ i, a.waiting i = true ↔ i ∈ a.threadQueue ∨ (a.currentThread = some i ∧ a.ref = 0)
  current : ∀ i, a.currentThread = some i → i ∉ a.threadQueue
  nodup : a.threadQueue.Nodup
  order : a.calls = a.entered ++ a.handed ++ a.threadQueue

namespace Ledger

variable {a : Tables} {s : State} {i : ℕ}

/-- The coroutine in a body is `current_thread`. -/
theorem holder (h : Ledger a) (hi : 0 < a.inside i) :
    a.currentThread = some i ∧ a.ref = a.inside i := by
  have := h.inside i
  split_ifs at this with hc
  · exact ⟨hc, this.symm⟩
  · omega

theorem not_waiting (h : Ledger a) (hi : 0 < a.inside i) : a.waiting i = false := by
  obtain ⟨hc, href⟩ := h.holder hi
  rw [Bool.eq_false_iff, Ne, h.waiting i]
  rintro (hmem | ⟨-, h0⟩)
  · exact h.current i hc hmem
  · omega

/-- The coroutine that waits and is `current_thread` finds the section free. -/
theorem ref_of_handed (h : Ledger a) (hw : a.waiting i = true) (hc : a.currentThread = some i) :
    a.ref = 0 := by
  rcases (h.waiting i).mp hw with hmem | ⟨-, href⟩
  · exact absurd hmem (h.current i hc)
  · exact href

/-- The number of bodies after coroutine `i` has come into one or left one. -/
theorem inside_update (h : Ledger a) (hi : ∀ c, a.currentThread = some c → c = i) (k j : ℕ) :
    update a.inside i k j = if some i = some j then k else 0 := by
  by_cases hji : j = i
  · subst hji
    simp
  · rw [update_of_ne hji, h.inside j, if_neg, if_neg]
    · simpa using Ne.symm hji
    · exact fun hc => hji (hi j hc)

theorem enter_free (h : Ledger s.toTables) (hc : s.currentThread = none) :
    Ledger ({ s with calls := s.calls ++ [i] }.enter i).toTables := by
  obtain ⟨href, hq⟩ := h.free hc
  have hi : s.inside i = 0 := by simp [h.inside i, hc]
  refine ⟨nofun, fun j => ?_, fun j => ?_, fun j _ => ?_, h.nodup, ?_⟩
  · refine (h.inside_update (by simp [hc]) _ j).trans ?_
    simp [State.enter, hi, href]
  · have := h.waiting j
    simp_all [State.enter]
  · simp [State.enter, hq]
  · have := h.order
    simp_all [State.enter, Tables.handed]

theorem enter_nested (h : Ledger s.toTables) (hi : 0 < s.inside i) :
    Ledger (s.enter i).toTables := by
  obtain ⟨hc, href⟩ := h.holder hi
  have h0 : s.ref ≠ 0 := by omega
  refine ⟨nofun, fun j => ?_, fun j => ?_, fun j hj => h.current j (hc.trans hj), h.nodup, ?_⟩
  · refine (h.inside_update (by simp [hc]) _ j).trans ?_
    simp [State.enter, href]
  · simpa [State.enter, h0] using h.waiting j
  · have := h.order
    have hi0 : s.inside i ≠ 0 := by omega
    simpa [State.enter, Tables.handed, hi0, h0] using this

theorem enter_handed (h : Ledger s.toTables) (hc : s.currentThread = some i) (href : s.ref = 0) :
    Ledger ({ s with waiting := update s.waiting i false }.enter i).toTables := by
  have hi : s.inside i = 0 := by simp [h.inside i, hc, href]
  have hni := h.current i hc
  refine ⟨nofun, fun j => ?_, fun j => ?_, fun j hj => h.current j (hc.trans hj), h.nodup, ?_⟩
  · refine (h.inside_update (by simp [hc]) _ j).trans ?_
    simp [State.enter, hi, href]
  · by_cases hji : j = i
    · subst hji
      simpa [State.enter] using hni
    · have := h.waiting j
      have hij : i ≠ j := Ne.symm hji
      simp_all [State.enter]
  · have := h.order
    simp_all [State.enter, Tables.handed]

theorem enqueue (h : Ledger a) (hw : a.waiting i = false) {c : ℕ} (hc : a.currentThread = some c)
    (hi : c ≠ i) : Ledger { a with
      calls := a.calls ++ [i]
      threadQueue := a.threadQueue ++ [i]
      waiting := update a.waiting i true } := by
  have hni : i ∉ a.threadQueue := by
    intro hmem
    rw [(h.waiting i).mpr (.inl hmem)] at hw
    cases hw
  refine ⟨fun hn => ?_, h.inside, fun j => ?_, fun j hj => ?_, ?_, ?_⟩
  · rw [hc] at hn
    cases hn
  · by_cases hji : j = i
    · subst hji
      simp
    · have := h.waiting j
      simp_all
  · rw [hc] at hj
    cases hj
    simp [h.current c hc, hi]
  · exact nodup_append.mpr ⟨h.nodup, nodup_singleton i, by
      rintro x hx y hy rfl
      exact hni (mem_singleton.mp hy ▸ hx)⟩
  · simp [h.order, Tables.handed]

theorem leave_nested (h : Ledger a) (hi : 1 < a.inside i) : Ledger { a with
      ref := a.ref - 1
      inside := update a.inside i (a.inside i - 1) } := by
  obtain ⟨hc, href⟩ := h.holder (i := i) (by omega)
  have h0 : a.ref ≠ 0 := by omega
  have h1 : a.ref - 1 ≠ 0 := by omega
  refine ⟨fun hn => ?_, fun j => ?_, fun j => ?_, h.current, h.nodup, ?_⟩
  · rw [hc] at hn
    cases hn
  · refine (h.inside_update (by simp [hc]) _ j).trans ?_
    simp [hc, href]
  · simpa [h0, h1] using h.waiting j
  · simpa [Tables.handed, h0, h1] using h.order

theorem leave (h : Ledger a) (hi : a.inside i = 1) : Ledger { a with
      ref := a.ref - 1
      inside := update a.inside i (a.inside i - 1)
      currentThread := a.threadQueue.head?
      threadQueue := a.threadQueue.tail } := by
  obtain ⟨hc, href⟩ := h.holder (i := i) (by omega)
  rw [hi] at href
  have hnodup := h.nodup
  refine ⟨fun hn => ?_, fun j => ?_, fun j => ?_, fun j hj => ?_, ?_, ?_⟩
  · simp_all
  · refine (h.inside_update (by simp [hc]) _ j).trans ?_
    simp [hi, href]
  · have := h.waiting j
    cases hq : a.threadQueue with
    | nil => simp_all
    | cons c rest =>
      have hjc : c = j ↔ j = c := eq_comm
      simp [this, hq, href, hjc, or_comm]
  · cases hq : a.threadQueue with
    | nil => simp
    | cons c rest => simp_all
  · exact hnodup.tail
  · have := h.order
    cases hq : a.threadQueue with
    | nil | cons c rest => simp_all [Tables.handed]

end Ledger

/-- The section is free, or it is left to a coroutine that waits and has been woken. -/
def State.Released (s : State) : Prop :=
  s.ref = 0 ∧ ∀ i, s.waiting i = true →
    ∃ c, s.currentThread = some c ∧ s.waiting c = true ∧ .thread c ∈ s.svc.wakeupQueue

/-- What holds in undisturbed runs. -/
structure Guarded (s : State) : Prop where
  tidy : Tidy s.svc.toSched
  ledger : Ledger s.toTables
  asleep : ∀ i, s.waiting i = true →
    (∃ n, (s.svc.pcs i).sleep = some (.thread i, n)) ∨ s.svc.control = .run i
  woken : ∀ i, s.waiting i = true →
    (.thread i ∈ s.svc.wakeupQueue ∨ s.svc.control = .run i ↔ s.currentThread = some i)

namespace Guarded

variable {s t : State} {i : ℕ}

theorem init : Guarded State.init where
  tidy := Tidy.init
  ledger := by
    refine ⟨?_, ?_, ?_, ?_, ?_, ?_⟩ <;> simp [State.init, Tables.handed]
  asleep := by simp [State.init]
  woken := by simp [State.init]

theorem holdsWaiter (h : Guarded s) {token : Token} {n : ℕ}
    (hi : (s.svc.pcs i).sleep = some (token, n)) (hw : s.waiting i = true) :
    s.holdsWaiter n = true := by
  obtain ⟨b, hb⟩ := h.tidy.held i n (Pc.session_of_sleep hi)
  simp [State.holdsWaiter, hb, hw]

variable {a : Service.Label}

/-- A coroutine that waits and is asleep stays so, or it is woken because it is
`current_thread`. -/
theorem waiter_step (h : Guarded s) {u : Service.State} (hu : s.svc.step a = some u)
    (hok : s.svc.Orderly a) (hother : s.wakesWaiter a = false) {n : ℕ} (hw : s.waiting i = true)
    (hi : (s.svc.pcs i).sleep = some (.thread i, n)) :
    ((∃ n, (u.pcs i).sleep = some (.thread i, n)) ∨ u.control = .run i) ∧
      (.thread i ∈ u.wakeupQueue ∨ u.control = .run i ↔ s.currentThread = some i) := by
  have hnot : s.svc.control ≠ .run i := by
    intro hc
    rw [h.tidy.sane.running hc] at hi
    cases hi
  have hcur := h.woken i hw
  simp only [hnot, or_false] at hcur
  cases Rouses.step h.tidy hi (step_cases hu) with
  | sleeps hj hold hnew =>
    have hnot' : u.control ≠ .run i := by
      intro hc
      rw [(h.tidy.step hok hu).sane.running hc] at hj
      cases hj
    refine ⟨.inl ⟨n, hj⟩, ?_⟩
    simp only [hnot', or_false, ← hcur]
    refine ⟨fun hmem => ?_, hold⟩
    rcases hnew hmem with hmem | rfl
    · exact hmem
    · simp [State.wakesWaiter, hw] at hother
  | woken hrun ha hq => exact ⟨.inr hrun, by simp [hrun, hcur.mp hq]⟩
  | answered hrun ha =>
    subst ha
    simp [State.wakesWaiter, h.holdsWaiter hi hw] at hother
  | failed hrun ha hc hq =>
    subst ha
    simp [State.wakesWaiter, hc, hq, h.holdsWaiter hi hw] at hother

theorem step_service (ht : s.step (.service a) = some t) :
    (∀ o i, a = .op o → s.svc.control = .run i → s.waiting i = false) ∧
      ∃ u, s.svc.step a = some u ∧ t = { s with svc := u } := by
  have hmap {a : Service.Label} (h : (s.svc.step a).map (fun u => { s with svc := u }) = some t) :
      ∃ u, s.svc.step a = some u ∧ t = { s with svc := u } := by
    obtain ⟨u, hu, rfl⟩ := Option.map_eq_some_iff.mp h
    exact ⟨u, hu, rfl⟩
  cases a with
  | op o =>
    cases hc : s.svc.control with simp only [State.step, hc] at ht
    | run i =>
      split_ifs at ht with hout
      refine ⟨fun o' j _ hj => ?_, hmap ht⟩
      cases hj
      cases o <;> simp_all [State.outside]
    | _ => exact ⟨nofun, hmap ht⟩
  | message m | next | collect k => exact ⟨nofun, hmap ht⟩

theorem service (h : Guarded s) (hok : s.Undisturbed (.service a))
    (ht : s.step (.service a) = some t) : Guarded t := by
  obtain ⟨hout, u, hu, rfl⟩ := step_service ht
  have hstep (i : ℕ) (hw : s.waiting i = true) :
      ((∃ n, (u.pcs i).sleep = some (.thread i, n)) ∨ u.control = .run i) ∧
        (.thread i ∈ u.wakeupQueue ∨ u.control = .run i ↔ s.currentThread = some i) := by
    rcases h.asleep i hw with ⟨n, hn⟩ | hc
    · exact h.waiter_step hu hok.1 hok.2 hw hn
    · -- a coroutine that is back from its wait only goes on by `advance`
      cases a with
      | message m | next => simp [Service.State.step, hc] at hu
      | op o =>
        rw [hout o i rfl hc] at hw
        cases hw
      | collect k =>
        simp only [Service.State.step] at hu
        split_ifs at hu
        cases hu
        exact ⟨.inr hc, h.woken i hw⟩
  exact ⟨h.tidy.step hok.1 hu, h.ledger, fun i hw => (hstep i hw).1, fun i hw => (hstep i hw).2⟩

theorem sleeps (h : Guarded s) (hc : s.svc.control = .run i) {j : ℕ} (hw : s.waiting j = true)
    (hji : j ≠ i) : ∃ n, (s.svc.pcs j).sleep = some (.thread j, n) := by
  rcases h.asleep j hw with hj | hj
  · exact hj
  · rw [hc] at hj
    cases hj
    exact absurd rfl hji

theorem enqueue (h : Guarded s) (hc : s.svc.control = .run i) (hb : s.blocks i = true)
    (hok : s.Undisturbed .call) : ∃ u, s.call i = some { s with
        calls := s.calls ++ [i]
        threadQueue := s.threadQueue ++ [i]
        waiting := update s.waiting i true
        svc := u } ∧
      s.svc.step (.op (.wait none)) = some u ∧
      (u.pcs i).sleep = some (.thread i, s.svc.nextSession) ∧ u.control = .dispatchWakeup ∧
      u.wakeupQueue = s.svc.wakeupQueue := by
  have hfree : s.svc.sleepSessionMap (.thread i) = none := by
    simpa [Service.State.tokenFree, hc] using hok.1.2
  have h0 : s.inside i = 0 := by
    have := h.ledger.inside i
    simp_all [State.blocks]
  have hu : s.svc.step (.op (.wait none)) = some (s.svc.suspendSleep i false (.thread i)) := by
    simp [Service.State.step, hc, Service.State.exec]
  refine ⟨_, ?_, hu, ?_, ?_, ?_⟩
  · simp [State.call, hb, State.enqueue, State.op, hu, h0, Service.State.suspendSleep, hfree]
  all_goals simp [Service.State.suspendSleep, hfree, Service.State.setPc, Pc.sleep,
    Service.State.setEntry, Service.State.newSession]

theorem of_svc (h : Guarded s) (hsvc : t.svc = s.svc) (hl : Ledger t.toTables)
    (hw : ∀ j, t.waiting j = true → s.waiting j = true ∧ t.currentThread = s.currentThread) :
    Guarded t where
  tidy := by rw [hsvc]; exact h.tidy
  ledger := hl
  asleep j hj := by
    rw [hsvc]
    exact h.asleep j (hw j hj).1
  woken j hj := by
    rw [hsvc, (hw j hj).2]
    exact h.woken j (hw j hj).1

theorem enters (h : Guarded s) (hw : s.waiting i = false) (hb : s.blocks i = false) :
    s.currentThread = none ∨ 0 < s.inside i := by
  cases hcur : s.currentThread with
  | none => exact .inl rfl
  | some c =>
    obtain rfl : c = i := by simpa [State.blocks, hcur] using hb
    have := h.ledger.waiting c
    have hin := h.ledger.inside c
    simp_all
    omega

theorem call_nested (hb : ¬ s.blocks i = true) (hi : 0 < s.inside i) :
    s.call i = some (s.enter i) := by
  have h0 : s.inside i ≠ 0 := by omega
  simp [State.call, hb, h0]

theorem call (h : Guarded s) (hok : s.Undisturbed .call) (ht : s.step .call = some t) :
    Guarded t := by
  cases hc : s.svc.control with
  | run i =>
    simp only [State.step, hc] at ht
    split_ifs at ht with hw
    simp only [Bool.not_eq_true] at hw
    by_cases hb : s.blocks i = true
    · obtain ⟨u, hcall, hu, hi, hcu, hq⟩ := h.enqueue hc hb hok
      rw [hcall] at ht
      cases ht
      obtain ⟨c, hcur, hci⟩ : ∃ c, s.currentThread = some c ∧ c ≠ i := by
        cases hcur : s.currentThread <;> simp_all [State.blocks]
      have hleft : Token.thread i ∉ s.svc.wakeupQueue := by
        simpa [State.wakeupLeft, hc, hb] using hok.2
      have hother (j : ℕ) (hj : s.waiting j = true) (hji : j ≠ i) :=
        let ⟨_, hn⟩ := h.sleeps hc hj hji
        h.waiter_step hu hok.1 rfl hj hn
      refine ⟨h.tidy.step hok.1 hu, h.ledger.enqueue hw hcur hci, fun j hj => ?_, fun j hj => ?_⟩
      · by_cases hji : j = i
        · subst hji
          exact .inl ⟨_, hi⟩
        · exact (hother j (by simpa [hji] using hj) hji).1
      · by_cases hji : j = i
        · subst hji
          simp [hq, hleft, hcu, hcur, hci]
        · exact (hother j (by simpa [hji] using hj) hji).2
    · rcases h.enters hw (Bool.not_eq_true _ ▸ hb) with hcur | hi
      · have h0 : s.inside i = 0 := by simp [h.ledger.inside i, hcur]
        simp only [State.call, if_neg hb, h0, if_true] at ht
        cases ht
        refine h.of_svc rfl (h.ledger.enter_free hcur) fun j hj => ?_
        have := (h.ledger.waiting j).mp hj
        simp [hcur, (h.ledger.free hcur).2] at this
      · rw [call_nested hb hi] at ht
        cases ht
        exact h.of_svc rfl (h.ledger.enter_nested hi) fun j hj =>
          ⟨hj, (h.ledger.holder hi).1.symm⟩
  | _ => simp [State.step, hc] at ht

theorem advance (h : Guarded s) (ht : s.step .advance = some t) : Guarded t := by
  cases hc : s.svc.control with
  | run i =>
    simp only [State.step, hc] at ht
    split_ifs at ht with hw
    cases ht
    have hcur := (h.woken i hw).mp (.inr hc)
    have href := h.ledger.ref_of_handed hw hcur
    simp only [State.advance, if_pos href]
    refine h.of_svc rfl (h.ledger.enter_handed hcur href) fun j hj => ⟨?_, hcur.symm⟩
    by_cases hji : j = i
    · exact hji ▸ hw
    · simpa [State.enter, hji] using hj
  | _ => simp [State.step, hc] at ht

theorem orderly_wakeup (s : Service.State) (token : Token) : s.Orderly (.op (.wakeup token)) :=
  ⟨nofun, by unfold Service.State.tokenFree; split <;> simp_all⟩

theorem step_wakeup (h : Guarded s) (hc : s.svc.control = .run i) {c : ℕ} (hw : s.waiting c = true)
    (hci : c ≠ i) : ∃ u, s.svc.step (.op (.wakeup (.thread c))) = some u ∧ u.control = .run i ∧
      (∀ j, (u.pcs j).sleep = (s.svc.pcs j).sleep) ∧
      u.wakeupQueue = s.svc.wakeupQueue ++ [.thread c] := by
  obtain ⟨n, hn⟩ := h.sleeps hc hw hci
  have htok : s.svc.sleepSessionMap (.thread c) ≠ none := by
    rw [(h.tidy.linked.asleep _ n).mpr ⟨c, hn⟩]
    exact Option.some_ne_none n
  refine ⟨s.svc.wakeup (.thread c), ?_, ?_, fun j => ?_, ?_⟩
  · simp [Service.State.step, hc, Service.State.exec]
  all_goals simp [Service.State.wakeup, htok, hc]

theorem leave (h : Guarded s) (hc : s.svc.control = .run i) (hi : s.inside i = 1) :
    ∃ t, s.xpcallRet i = some t ∧ Guarded t ∧ t.svc.control = .run i ∧ t.inside i = 0 ∧
      t.ref = 0 ∧ t.waiting = s.waiting := by
  obtain ⟨hcur, href⟩ := h.ledger.holder (i := i) (by omega)
  rw [hi] at href
  have hl := h.ledger.leave hi
  cases hq : s.threadQueue with
  | nil =>
    refine ⟨{ s with
      ref := s.ref - 1, inside := update s.inside i (s.inside i - 1)
      currentThread := none, threadQueue := [] }, ?_, ?_, hc, ?_, ?_, rfl⟩
    · simp [State.xpcallRet, href, hq]
    · refine h.of_svc rfl (by simpa [hq] using hl) fun j hj => ?_
      have := (h.ledger.waiting j).mp hj
      simp [hq, href] at this
    · simp [hi]
    · simp [href]
  | cons c rest =>
    have hcq : c ∈ s.threadQueue := by simp [hq]
    have hci : c ≠ i := by
      rintro rfl
      exact h.ledger.current c hcur hcq
    obtain ⟨u, hu, hcu, hpcs, hqu⟩ := h.step_wakeup hc ((h.ledger.waiting c).mpr (.inl hcq)) hci
    refine ⟨{ s with
      ref := s.ref - 1, inside := update s.inside i (s.inside i - 1)
      currentThread := some c, threadQueue := rest, svc := u }, ?_, ?_, hcu, ?_, ?_, rfl⟩
    · simp [State.xpcallRet, href, hq, State.op, hu]
    · have hne (j : ℕ) (hj : s.waiting j = true) : j ≠ i := by
        rintro rfl
        rw [h.ledger.not_waiting (by omega)] at hj
        cases hj
      refine ⟨h.tidy.step (orderly_wakeup _ _) hu, by simpa [hq] using hl, fun j hj => .inl ?_,
        fun j hj => ?_⟩
      · obtain ⟨n, hn⟩ := h.sleeps hc hj (hne j hj)
        exact ⟨n, (hpcs j).trans hn⟩
      · have hij : i ≠ j := (hne j hj).symm
        have := h.woken j hj
        simp only [hcur, hc, Option.some.injEq, hij, Control.run.injEq, or_false, iff_false] at this
        simp [hqu, hcu, hij, this, eq_comm]
    · simp [hi]
    · simp [href]

theorem ret {ok : Bool} (h : Guarded s) (ht : s.step (.ret ok) = some t) : Guarded t := by
  cases hc : s.svc.control with
  | run i =>
    simp only [State.step, hc] at ht
    split_ifs at ht with hw
    push Not at hw
    by_cases hi : s.inside i = 1
    · obtain ⟨t', ht', hg, -⟩ := h.leave hc hi
      rw [ht] at ht'
      cases ht'
      exact hg
    · have hlt : 1 < s.inside i := by omega
      obtain ⟨hcur, href⟩ := h.ledger.holder (i := i) (by omega)
      have h0 : s.ref - 1 ≠ 0 := by omega
      simp only [State.xpcallRet, if_neg h0] at ht
      cases ht
      exact h.of_svc rfl (h.ledger.leave_nested hlt) fun j hj => ⟨hj, rfl⟩
  | _ => simp [State.step, hc] at ht

theorem step {a : Label} (h : Guarded s) (hok : s.Undisturbed a) (ht : s.step a = some t) :
    Guarded t := by
  cases a with
  | service a => exact h.service hok ht
  | call => exact h.call hok ht
  | advance => exact h.advance ht
  | ret ok => exact h.ret ht

theorem released (h : Guarded s) (hc : s.svc.control = .run i) (hi : s.waiting i = false)
    (href : s.ref = 0) : s.Released := by
  refine ⟨href, fun j hj => ?_⟩
  cases hcur : s.currentThread with
  | none =>
    have := (h.ledger.waiting j).mp hj
    simp [hcur, (h.ledger.free hcur).2] at this
  | some c =>
    have hw : s.waiting c = true := (h.ledger.waiting c).mpr (.inr ⟨hcur, href⟩)
    refine ⟨c, rfl, hw, ?_⟩
    rcases (h.woken c hw).mpr hcur with hmem | hrun
    · exact hmem
    · rw [hc] at hrun
      cases hrun
      rw [hi] at hw
      cases hw

theorem of_reachable (h : client.ReachableVia State.Undisturbed s) : Guarded s :=
  h.invariant init fun _ _ _ hs hok ht => hs.step hok ht

end Guarded

/-- **Mutual exclusion**: in an undisturbed run at most one coroutine is in a body, the coroutines
come into the section in the order of their calls, the assertion after the wait holds, a nested
call goes on without a wait, and a body that returns or fails releases the section. -/
theorem queue_excludes {s : State} (h : client.ReachableVia State.Undisturbed s) :
    (∀ i j, 0 < s.inside i → 0 < s.inside j → i = j) ∧
    s.entered <+: s.calls ∧
    ∀ i, s.svc.control = .run i →
      (s.waiting i = true → s.ref = 0 ∧ s.currentThread = some i) ∧
      (0 < s.inside i → ∃ t, s.step .call = some t ∧ t.svc = s.svc ∧
        t.inside i = s.inside i + 1) ∧
      (s.inside i = 1 → ∀ ok, ∃ t, s.step (.ret ok) = some t ∧ t.inside i = 0 ∧ t.Released) := by
  have hg := Guarded.of_reachable h
  have hl := hg.ledger
  refine ⟨fun i j hi hj => ?_, ?_, fun i hc => ⟨fun hw => ?_, fun hi => ?_, fun hi ok => ?_⟩⟩
  · have := (hl.holder hi).1
    rw [(hl.holder hj).1] at this
    exact (Option.some.inj this).symm
  · rw [hl.order, append_assoc]
    exact prefix_append _ _
  · have hcur := (hg.woken i hw).mp (.inr hc)
    exact ⟨hl.ref_of_handed hw hcur, hcur⟩
  · have hb : ¬ s.blocks i = true := by simp [State.blocks, (hl.holder hi).1]
    refine ⟨s.enter i, ?_, rfl, by simp [State.enter]⟩
    simp [State.step, hc, hl.not_waiting hi, Guarded.call_nested hb hi]
  · have hw := hl.not_waiting (i := i) (by omega)
    obtain ⟨t, ht, htg, hct, hi0, href, hwt⟩ := hg.leave hc hi
    refine ⟨t, ?_, hi0, htg.released hct (by rw [hwt]; exact hw) href⟩
    simpa [State.step, hc, hw, hi] using ht

/-- Coroutines 1 and 2 are forked and coroutine 1 runs. -/
def forksRun : List Label :=
  [.service (.message (.response 1)), .service (.op .fork), .service (.op .fork),
    .service (.op .finish), .service .next, .service .next, .service .next]

/-- Coroutine 1 sleeps in a body and makes a nested call that fails, coroutine 2 waits for it. -/
theorem queue_excludes_of_two : ∃ s, client.ReachableVia State.Undisturbed s ∧
    s.svc.control = .run 2 ∧ s.waiting 2 = true ∧ s.ref = 0 ∧ s.entered <+: s.calls := by
  obtain ⟨s, hs, hc, hw⟩ := client.exists_reachable State.Undisturbed
    (forksRun ++ [.call, .service (.op (.sleep none)), .service .next, .service .next,
      .service .next, .call, .service .next, .service .next, .service .next,
      .service (.message (.response 2)), .call, .ret false, .ret true, .service (.op .finish),
      .service .next])
    (fun s => s.svc.control = .run 2 ∧ s.waiting 2 = true) (by decide +kernel)
  have h := queue_excludes hs
  exact ⟨s, hs, hc, hw, ((h.2.2 2 hc).1 hw).1, h.2.1⟩

/-- Coroutine 1 sleeps outside the section.  Coroutine 2 wakes it twice, both times while it sleeps
there, and yields in its body; coroutine 1 then calls the queue and waits, and the second wakeup
resumes it while coroutine 2 is in the section: the assertion fails. -/
theorem stale_wakeup_resumes_waiter : ∃ s, client.ReachableVia State.OnlyQueueWakes s ∧
    s.svc.control = .run 1 ∧ s.waiting 1 = true ∧ s.ref = 1 ∧ s.inside 2 = 1 :=
  client.exists_reachable State.OnlyQueueWakes
    (forksRun ++ [.service (.op (.wait none)), .service .next, .service .next, .service .next,
      .call, .service (.op (.wakeup (.thread 1))), .service (.op (.wakeup (.thread 1))),
      .service (.op (.sleep none)), .service .next, .call, .service .next])
    (fun s => s.svc.control = .run 1 ∧ s.waiting 1 = true ∧ s.ref = 1 ∧ s.inside 2 = 1)
    (by decide +kernel)

end ServiceQueue

end Skynet
