import Skynet.ServiceRequests

/-! # Every request is accounted for

In the runs whose steps are all `Careful`, a service keeps its `Books`: between two messages each
request with a session is answered once, has an owner, or was given up (`request_accounted`).

The steps left out each lose a request or answer one twice: `unpack` raises an error after the
session was entered in `thread_session_map`; the `skynet_core.send` of `skynet.ret` raises one
after the session was taken out (`request_lost_by_ret`); a closure that is no longer in
`unresponse` is fired; and after `skynet.exit` a coroutine of `error_queue` or a message of the
same batch is still run. -/

namespace Skynet.Service

open Transition State Function Option Accounts

/-- The coroutine has started and has not returned. -/
def Pc.Handling : Pc → Prop
  | running | asleep _ _ _ _ | calling _ _ => True
  | _ => False

theorem Pc.Handling.not_parked {pc : Pc} (h : pc.Handling) : ¬ pc.Parked := by
  cases pc <;> simp_all [Handling, Parked]

theorem Pc.Handling.wake {pc : Pc} (h : pc.Handling) (token : Token) : (pc.wake token).Handling := by
  cases pc <;> simp_all [Handling, Pc.wake]

/-- The coroutines that own a session are at work. -/
def Alive (s : State) : Prop :=
  ∀ i m, s.threadSessionMap i = some (m + 1) → (s.pcs i).Handling

/-- The requests are in their places. -/
def Booked (a : Accounts) : Prop := ∃ place, Books a place

/-- The requests are in their places, and `skynet.exit` has not been called. -/
structure Opened (a : Accounts) : Prop where
  booked : Booked a
  exited : a.exited = false

section Accounts

variable {s t : State} {i : ℕ}

theorem Books.owns {place : ℕ → Option Place} (h : Books s.toAccounts place) (i : ℕ) :
    (∃ m src, s.threadSessionMap i = some (m + 1) ∧ s.threadSvcHandleMap i = some src) ∨
      ∀ m, s.threadSessionMap i ≠ some (m + 1) := by
  by_cases hi : ∃ m, s.threadSessionMap i = some (m + 1)
  · obtain ⟨m, hi⟩ := hi
    obtain ⟨src, hsrc, -⟩ := h.session i m hi
    exact .inl ⟨m, src, hi, hsrc⟩
  · exact .inr fun m hm => hi ⟨m, hm⟩

/-! ### What a coroutine does to the books -/

theorem Opened.disown (h : Opened s.toAccounts) (hi : ∀ m, s.threadSessionMap i ≠ some (m + 1)) :
    Opened (s.disown i).toAccounts := by
  obtain ⟨⟨place, h⟩, hex⟩ := h
  exact ⟨⟨place, h.drop hi fun _ _ => rfl⟩, hex⟩

theorem Opened.clear (h : Opened s.toAccounts) (hi : ∀ m, s.threadSessionMap i ≠ some (m + 1)) :
    Opened (s.clear i).toAccounts := by
  obtain ⟨⟨place, h⟩, hex⟩ := h
  exact ⟨⟨place, h.drop hi fun _ hj => update_of_ne hj _ _⟩, hex⟩

theorem reportError_of_owner {m src : ℕ} (hi : s.threadSessionMap i = some (m + 1))
    (hsrc : s.threadSvcHandleMap i = some src) :
    s.reportError i = s.send ⟨s.threadReq i, .error, src, m + 1⟩ := by
  simp [reportError, threadReport, hi, hsrc]

theorem reportError_of_not_owner (hi : ∀ m, s.threadSessionMap i ≠ some (m + 1)) :
    s.reportError i = s := by
  rcases hs : s.threadSessionMap i with _ | _ | m
  · simp [reportError, threadReport, hs]
  · simp [reportError, threadReport, hs]
  · exact absurd hs (hi m)

theorem Opened.fail (h : Opened s.toAccounts) : Opened (s.fail i).toAccounts := by
  show Opened ((s.reportError i).clear i).toAccounts
  have ⟨⟨place, hb⟩, hex⟩ := h
  rcases hb.owns i with ⟨m, src, hi, hsrc⟩ | hi
  · rw [reportError_of_owner hi hsrc]
    exact ⟨⟨_, hb.reply hi hsrc hex .error fun _ hj => update_of_ne hj _ _⟩, hex⟩
  · rw [reportError_of_not_owner hi]
    exact h.clear hi

theorem forget_of_not_owner (hi : ∀ m, s.threadSessionMap i ≠ some (m + 1)) : s.forget i = s := by
  rcases hs : s.threadSessionMap i with _ | _ | m
  · simp [forget, hs]
  · simp [forget, hs]
  · exact absurd hs (hi m)

variable (h : Opened s.toAccounts)

include h

theorem Opened.finish : Opened (s.finish i).toAccounts := by
  have ⟨⟨place, hb⟩, hex⟩ := h
  rcases hb.owns i with ⟨m, src, hi, hsrc⟩ | hi
  · simp only [State.finish, hsrc, State.forget, hi]
    exact ⟨⟨_, hb.forget hi hex fun _ hj => update_of_ne hj _ _⟩, hex⟩
  · unfold State.finish
    rw [forget_of_not_owner hi]
    split_ifs
    · exact h
    · exact h.clear hi

theorem Opened.ignoreret : Opened (s.ignoreret i).toAccounts := by
  have ⟨⟨place, hb⟩, hex⟩ := h
  rcases hb.owns i with ⟨m, src, hi, -⟩ | hi
  · simp only [State.ignoreret, State.forget, hi]
    exact ⟨⟨_, hb.forget hi hex fun _ _ => rfl⟩, hex⟩
  · rw [State.ignoreret, forget_of_not_owner hi]
    exact h.disown hi

theorem Opened.ret {r : SendResult}
    (hr : r = .raised → ∀ m, s.threadSessionMap i ≠ some (m + 1)) :
    Opened (s.ret i r).toAccounts := by
  have ⟨⟨place, hb⟩, hex⟩ := h
  rcases hb.owns i with ⟨m, src, hi, hsrc⟩ | hi
  · have hreply := fun type => hb.reply hi hsrc hex type fun _ _ => rfl
    simp only [State.ret, hi, hsrc]
    cases r with
    | raised => exact absurd hi (hr rfl m)
    | tooLarge => exact ⟨⟨_, hreply .error⟩, hex⟩
    | accepted | invalid | unknownName => exact ⟨⟨_, hreply .response⟩, hex⟩
  · unfold State.ret
    split
    · exact absurd ‹_› (hi _)
    · exact h.disown hi

theorem Opened.response : Opened (s.response i).toAccounts := by
  have ⟨⟨place, hb⟩, hex⟩ := h
  rcases hb.owns i with ⟨m, src, hi, hsrc⟩ | hi
  · simp only [State.response, hi, hsrc]
    exact ⟨⟨_, hb.response hi hsrc hex⟩, hex⟩
  · unfold State.response
    split
    · exact absurd ‹_› (hi _)
    · exact h.disown hi

theorem Opened.fire {c : ℕ} (hc : (s.closures c).pack = false ∨ (s.closures c).unresponse = true)
    (ok : Bool) (r : SendResult) : Opened (s.fire c ok r).toAccounts := by
  have ⟨⟨place, hb⟩, hex⟩ := h
  unfold State.fire
  split_ifs with hpack hopen
  · exact h
  · simp [hpack, hopen] at hc
  · have hfire := fun type => hb.fire (by simpa using hopen) type
    split
    · exact h
    all_goals exact ⟨⟨_, hfire _⟩, hex⟩

theorem Opened.errorDispatch {session : ℕ} {src : Addr} {order : List Key}
    (ht : s.errorDispatch session src order = some t) : Opened t.toAccounts := by
  have ⟨⟨place, hb⟩, hex⟩ := h
  unfold State.errorDispatch at ht
  split_ifs at ht <;> cases ht
  · exact ⟨⟨place, by simpa using hb.unresponse fun c => decide (.handle c.svcHandle = src)⟩, hex⟩
  · exact h
  · exact h

theorem Opened.accept (hi : ∀ m, s.threadSessionMap s.nextThread ≠ some (m + 1))
    (session src : ℕ) : Opened (s.accept session src).toAccounts := by
  obtain ⟨⟨place, hb⟩, hex⟩ := h
  exact ⟨⟨_, hb.accept hi hex session src⟩, hex⟩

theorem Opened.resume (succ : Bool) : Opened (s.resume i succ).toAccounts := by
  cases hpc : s.pcs i with simp only [State.resume, hpc]
  | fresh _ | quit | asleep _ _ _ _ | calling _ _ | pooled => exact h
  | poisoned | dead | running => exact h.fail

omit h

end Accounts

/-! ### The coroutines that own sessions -/

theorem update_none_eq_some {f : ℕ → Option ℕ} {i j m : ℕ}
    (h : update f i none j = some m) : j ≠ i ∧ f j = some m :=
  (update_cases h).resolve_left nofun

theorem reportError_sessions (s : State) (i : ℕ) :
    (s.reportError i).threadSessionMap = s.threadSessionMap := by
  unfold reportError
  split <;> rfl

theorem forget_sessions (s : State) (i : ℕ) :
    (s.forget i).threadSessionMap = s.threadSessionMap := by
  unfold forget
  split <;> rfl

/-- The coroutines other than `i` that own a session are at work. -/
def AliveBut (i : ℕ) (s : State) : Prop :=
  ∀ j, j ≠ i → ∀ m, s.threadSessionMap j = some (m + 1) → (s.pcs j).Handling

namespace Alive

variable {s t : State} {i : ℕ} {r : Option ℕ}

theorem but (h : Alive s) (i : ℕ) : AliveBut i s := fun j _ m hj => h j m hj

theorem of_le (h : Alive s)
    (hmap : ∀ j m, t.threadSessionMap j = some (m + 1) → s.threadSessionMap j = some (m + 1))
    (hpcs : ∀ j m, t.threadSessionMap j = some (m + 1) → (s.pcs j).Handling → (t.pcs j).Handling) :
    Alive t :=
  fun j m hj => hpcs j m hj (h j m (hmap j m hj))

theorem not_owner (h : Alive s) (hi : (s.pcs i).Parked) (m : ℕ) :
    s.threadSessionMap i ≠ some (m + 1) :=
  fun hm => (h i m hm).not_parked hi

theorem update (h : Alive s) {pc : Pc} (hpc : pc.Handling) : Alive (s.setPc i pc) := by
  refine h.of_le (fun _ _ => id) fun j m _ hj => ?_
  by_cases hji : j = i
  · subst hji
    simpa [setPc] using hpc
  · simpa [setPc, hji] using hj

theorem coCreate (h : Alive s) (ht : Threads r s.toSched) : Alive s.coCreate := by
  refine h.of_le (fun _ _ => id) fun j m _ hj => ?_
  have hne := ht.ne_next hj.not_parked
  simpa [State.coCreate, hne] using hj

theorem timeout (h : Alive s) (ht : Threads r s.toSched) : Alive s.timeout := by
  unfold State.timeout
  split_ifs
  · refine h.of_le (fun _ _ => id) fun j m _ hj => ?_
    have hne := ht.ne_next hj.not_parked
    simpa [hne] using hj
  · exact coCreate h { ht with }

theorem fail (h : AliveBut i s) (ht : Threads r s.toSched) : Alive (s.fail i) := by
  intro j m hj
  replace hj : Function.update (s.reportError i).threadSessionMap i none j = some (m + 1) := hj
  rw [reportError_sessions] at hj
  obtain ⟨hji, hj⟩ := update_none_eq_some hj
  have hrun := h j hji m hj
  have hne := ht.ne_next hrun.not_parked
  rw [fail_toSched]
  simpa [hji, hne] using hrun

theorem resume (h : AliveBut i s) (ht : Threads none s.toSched)
    (hi : s.pcs i = .pooled → ∀ m, s.threadSessionMap i ≠ some (m + 1)) (succ : Bool) :
    Alive (s.resume i succ) := by
  have hrun : Alive (s.setPc i .running) := by
    intro j m hj
    by_cases hji : j = i
    · subst hji
      simp [State.setPc, Pc.Handling]
    · simpa [State.setPc, hji] using h j hji m hj
  cases hpc : s.pcs i with simp only [State.resume, hpc]
  | fresh _ | quit | asleep _ _ _ _ | calling _ _ =>
    exact hrun
  | pooled =>
    intro j m hj
    have hji : j ≠ i := by
      rintro rfl
      exact hi hpc m hj
    have := h j hji m hj
    simpa [State.suspendReturn, State.setPc, hji] using this
  | poisoned | dead | running =>
    exact fail h ht

theorem resume_of_alive (h : Alive s) (ht : Threads none s.toSched) (i : ℕ) (succ : Bool) :
    Alive (s.resume i succ) :=
  resume (h.but i) ht (fun hpc => h.not_owner (by simp [hpc, Pc.Parked])) succ

theorem finish (h : AliveBut i s)
    (hi : s.threadSvcHandleMap i = none → ∀ m, s.threadSessionMap i ≠ some (m + 1)) :
    Alive (s.finish i) := by
  intro j m hj
  obtain ⟨hji, hj⟩ : j ≠ i ∧ s.threadSessionMap j = some (m + 1) := by
    unfold State.finish at hj
    split_ifs at hj with hsrc
    · replace hj : (s.forget i).threadSessionMap j = some (m + 1) := hj
      rw [forget_sessions] at hj
      refine ⟨?_, hj⟩
      rintro rfl
      exact hi hsrc m hj
    · replace hj : Function.update (s.forget i).threadSessionMap i none j = some (m + 1) := hj
      rw [forget_sessions] at hj
      exact update_none_eq_some hj
  rw [finish_toSched]
  simpa [hji] using h j hji m hj

variable (h : Alive s)

include h

theorem suspendSleep (timer : Bool) (token : Token) : Alive (s.suspendSleep i timer token) := by
  unfold State.suspendSleep
  split_ifs
  · exact h.update trivial
  · exact h

theorem call (addr : Addr) (r : SendResult) : Alive (s.call i addr r) := by
  cases r with
  | accepted | tooLarge => exact h.update trivial
  | invalid | unknownName | raised => exact h

theorem disown : Alive (s.disown i) :=
  h.of_le (fun _ _ hj => (update_none_eq_some hj).2) fun _ _ _ => id

theorem ret (r : SendResult) : Alive (s.ret i r) := by
  unfold State.ret
  split
  · split <;> exact h.disown
  · exact h.disown

theorem ignoreret : Alive (s.ignoreret i) := by
  refine h.of_le (fun j m hj => ?_) fun j m _ hj => by simpa using hj
  replace hj : Function.update (s.forget i).threadSessionMap i none j = some (m + 1) := hj
  rw [forget_sessions] at hj
  exact (update_none_eq_some hj).2

theorem response : Alive (s.response i) := by
  unfold State.response
  split <;> exact h.disown

theorem fire (c : ℕ) (ok : Bool) (r : SendResult) : Alive (s.fire c ok r) := by
  unfold State.fire
  split_ifs
  · exact h
  · exact h
  · split <;> exact h

theorem wakeup (token : Token) : Alive (s.wakeup token) := by
  unfold State.wakeup
  split_ifs
  · exact h
  · exact h.of_le (fun _ _ => id) fun _ _ _ hj => hj.wake token

omit h

theorem errorDispatch_frame {session : ℕ} {src : Addr} {order : List Key}
    (ht : s.errorDispatch session src order = some t) :
    t.pcs = s.pcs ∧ t.threadSessionMap = s.threadSessionMap ∧
      t.threadSvcHandleMap = s.threadSvcHandleMap := by
  unfold errorDispatch at ht
  split_ifs at ht <;> obtain rfl := some.inj ht <;> exact ⟨rfl, rfl, rfl⟩

theorem errorDispatch (h : Alive s) {session : ℕ} {src : Addr} {order : List Key}
    (ht : s.errorDispatch session src order = some t) : Alive t := by
  obtain ⟨hpcs, hmap, -⟩ := errorDispatch_frame ht
  exact h.of_le (fun j m hj => hmap ▸ hj) fun j _ _ hj => hpcs ▸ hj

theorem accept (h : Alive s) (session src : ℕ) : AliveBut s.nextThread (s.accept session src) := by
  intro j hj m hm
  have hold : s.threadSessionMap j = some (m + 1) := by simpa [State.accept, hj] using hm
  simpa [State.accept, State.coCreate, hj] using h j m hold

end Alive

theorem update_sessions_zero {s : State} {i m : ℕ} {src : ℕ}
    (h : (s.accept 0 src).threadSessionMap i = some (m + 1)) : i ≠ s.nextThread := by
  rintro rfl
  simp [accept] at h

/-! ### Careful runs -/

/-- Coroutine `i` owns a session. -/
def Accounts.owner (a : Accounts) (i : ℕ) : Bool :=
  match a.threadSessionMap i with
  | some (_ + 1) => true
  | _ => false

/-- What a step must not do, for no request to be lost or answered twice. -/
def State.careful (s : State) : Label → Bool
  | .message (.request session _ unpacks) => !s.exited && (unpacks || session == 0)
  | .message _ => !s.exited
  | .op (.ret .raised) =>
    match s.control with
    | .run i => !s.owner i
    | _ => true
  | .op (.fire c _ _) => !(s.closures c).pack || (s.closures c).unresponse
  | .op .exit => s.errorQueue.isEmpty
  | _ => true

/-- `unpack` raises no error and the `skynet_core.send` of `skynet.ret` none either, no closure
that has been taken out of `unresponse` is fired, `skynet.exit` is called with an empty
`error_queue`, and no message is handled after it. -/
def State.Careful (s : State) (a : Label) : Prop := s.careful a = true

instance (s : State) (a : Label) : Decidable (s.Careful a) :=
  inferInstanceAs (Decidable (_ = true))

/-- The service has exited and runs no coroutine. -/
structure State.Quiet (s : State) : Prop where
  errorQueue : s.errorQueue = []
  forkQueue : s.forkQueue = []
  control : s.control = .idle ∨ s.control = .dispatchErrorQueue ∨ s.control = .forks

/-- What holds in careful runs. -/
structure Accounted (s : State) : Prop where
  sane : Sane s.toSched
  booked : Booked s.toAccounts
  alive : s.exited = false → Alive s
  quiet : s.exited = true → s.Quiet

/-- A round of the scheduler leaves the coroutines and the books as they are, or resumes a
coroutine. -/
inductive Rounds (s : State) : State → Prop
  | returns {t : State} (he : t.toAccounts = s.toAccounts) (hpcs : t.pcs = s.pcs) : Rounds s t
  | resumes {u : State} {i : ℕ} (he : u.toAccounts = s.toAccounts) (hpcs : u.pcs = s.pcs)
      (hn : u.nthreads = s.nthreads) (hp : u.threadPool = s.threadPool) :
      Rounds s (u.resume i false)

theorem runner_of_next {s t : State} (h : s.step .next = some t) : s.control.runner = none := by
  rcases hc : s.control with _ | i | _ | _ | _
  case run => simp [step, hc] at h
  all_goals rfl

theorem rounds_of_next {s t : State} (h : s.step .next = some t) : Rounds s t := by
  simp only [step] at h
  split at h <;> cases h
  · unfold dispatchWakeup
    split
    · exact .returns rfl rfl
    · split
      · exact .returns rfl rfl
      · split
        · exact .resumes rfl rfl rfl rfl
        · exact .returns rfl rfl
  · unfold dispatchErrorQueue
    split
    · exact .returns rfl rfl
    · exact .returns rfl rfl
    · split
      · exact .resumes rfl rfl rfl rfl
      · exact .returns rfl rfl
  · unfold runFork
    split
    · exact .returns rfl rfl
    · exact .resumes rfl rfl rfl rfl

theorem owner_eq_false {a : Accounts} {i : ℕ} (h : a.owner i = false) (m : ℕ) :
    a.threadSessionMap i ≠ some (m + 1) := by
  intro hm
  simp [owner, hm] at h

namespace Accounted

variable {s t : State} {i : ℕ}

theorem of_opened (hsane : Sane s.toSched) (h : Opened s.toAccounts ∧ Alive s) : Accounted s :=
  ⟨hsane, h.1.booked, fun _ => h.2, fun hf => absurd (hf.symm.trans h.1.exited) nofun⟩

theorem owner_lt (h : Accounted s) (hex : s.exited = false) (j m : ℕ)
    (hj : s.threadSessionMap j = some (m + 1)) : j < s.nthreads := by
  by_contra hlt
  exact (h.alive hex).not_owner (by rw [h.sane.threads.unborn j (by omega)]; trivial) m hj

/-- The accounts and the owners after a call of coroutine `i`. -/
theorem exec {r : Option ℕ} (hb : Opened s.toAccounts) (ha : Alive s) (hthreads : Threads r s.toSched)
    {o : Op} (ho : o ≠ .exit) (hok : s.Careful (.op o)) (hc : s.control = .run i)
    (ht : s.exec i o = some t) : Opened t.toAccounts ∧ Alive t := by
  cases o with
  | newSession => obtain rfl := some.inj ht; exact ⟨hb, ha⟩
  | wakeup token =>
    cases ht
    refine ⟨?_, ha.wakeup token⟩
    unfold State.wakeup
    split_ifs <;> exact hb
  | fork => obtain rfl := some.inj ht; exact ⟨hb, ha.coCreate hthreads⟩
  | timeout =>
    cases ht
    refine ⟨?_, ha.timeout hthreads⟩
    unfold State.timeout
    split_ifs <;> exact hb
  | wait token | sleep token =>
    cases ht
    refine ⟨?_, ha.suspendSleep _ _⟩
    unfold State.suspendSleep
    split_ifs <;> exact hb
  | call addr r =>
    cases ht
    refine ⟨?_, ha.call addr r⟩
    cases r <;> exact hb
  | ret r =>
    cases ht
    refine ⟨hb.ret ?_, ha.ret r⟩
    rintro rfl
    simp only [State.Careful, State.careful, hc, Bool.not_eq_true'] at hok
    exact owner_eq_false hok
  | ignoreret =>
    cases ht
    exact ⟨hb.ignoreret, ha.ignoreret⟩
  | response =>
    cases ht
    exact ⟨hb.response, ha.response⟩
  | fire c ok r =>
    simp only [State.exec] at ht
    split_ifs at ht
    cases ht
    refine ⟨hb.fire ?_ ok r, ha.fire c ok r⟩
    simpa [State.Careful, State.careful] using hok
  | term addr order => exact ⟨hb.ignoreret.errorDispatch ht, ha.ignoreret.errorDispatch ht⟩
  | exit => exact absurd rfl ho
  | finish =>
    cases ht
    refine ⟨hb.finish, Alive.finish (ha.but i) fun hsrc m hm => ?_⟩
    obtain ⟨⟨place, hbooks⟩, -⟩ := hb
    obtain ⟨src, hsrc', -⟩ := hbooks.session i m hm
    rw [hsrc] at hsrc'
    cases hsrc'
  | error =>
    cases ht
    exact ⟨hb.fail, Alive.fail (ha.but i) hthreads⟩

theorem rawDispatchMessage (hb : Opened s.toAccounts) (ha : Alive s)
    (hthreads : Threads none s.toSched) {m : Message} (hok : s.Careful (.message m))
    (ht : s.rawDispatchMessage m = some t) : Opened t.toAccounts ∧ Alive t := by
  have hnext := ha.not_owner hthreads.next_parked
  have hcreate : ∀ session src, Threads none (s.accept session src).toSched :=
    fun _ _ => hthreads.coCreate
  have hpc : ∀ session src, (s.accept session src).pcs s.nextThread = s.nextPc := by
    intro session src
    simp [State.accept, State.coCreate]
  cases m with
  | response n =>
    simp only [State.rawDispatchMessage] at ht
    split at ht <;> cases ht
    · exact ⟨hb, ha⟩
    · refine ⟨Opened.resume (s := s.setEntry _ none) hb true,
        Alive.resume_of_alive (s := s.setEntry _ none) ha ?_ _ _⟩
      exact { hthreads with }
    · exact ⟨hb, ha⟩
  | request session src unpacks =>
    have hbooked := hb.accept hnext session src
    simp only [State.rawDispatchMessage] at ht
    split_ifs at ht with hu <;> cases ht
    · refine ⟨hbooked.resume true, Alive.resume (ha.accept session src) (hcreate _ _) ?_ _⟩
      rw [hpc]
      rcases nextPc_eq s.toSched with hp | hp <;> rw [hp] <;> simp
    · refine ⟨hbooked, fun j m hj => ?_⟩
      obtain rfl : session = 0 := by
        simpa [State.Careful, State.careful, hb.exited, hu] using hok
      exact ha.accept 0 src j (update_sessions_zero hj) m hj
  | error session src order =>
    have hbooked := hb.accept hnext session src
    simp only [State.rawDispatchMessage] at ht
    split at ht
    · obtain ⟨u, hu, rfl⟩ := map_eq_some_iff.mp ht
      obtain ⟨hpcs, hmap, -⟩ := Alive.errorDispatch_frame hu
      have hnone : u.threadSessionMap s.nextThread = none := by
        rw [hmap]
        exact update_self _ _ _
      refine ⟨(hbooked.ignoreret.errorDispatch hu).finish, Alive.finish ?_ ?_⟩
      · intro j hj m hm
        rw [hmap] at hm
        replace hm : update ((s.accept session src).forget s.nextThread).threadSessionMap
          s.nextThread none j = some (m + 1) := hm
        rw [forget_sessions] at hm
        rw [hpcs, ignoreret_toSched]
        exact ha.accept session src j hj m (update_none_eq_some hm).2
      · intro _ m hm
        rw [hnone] at hm
        cases hm
    · cases ht
      exact ⟨hbooked.fail, Alive.fail (ha.accept session src) (hcreate _ _)⟩
  | unhandled session src =>
    simp only [State.rawDispatchMessage] at ht
    obtain ⟨⟨place, hbooks⟩, hex⟩ := hb
    have hnew := hbooks.unhandled session src rfl
    split_ifs at ht hnew with h0 <;> cases ht
    · rw [List.append_nil] at hnew
      exact ⟨⟨⟨_, hnew⟩, hex⟩, ha⟩
    · exact ⟨⟨⟨_, hnew⟩, hex⟩, ha⟩

/-- After `skynet.exit` the scheduler only returns. -/
theorem quiet_next (h : s.Quiet) (ht : s.step .next = some t) :
    t.Quiet ∧ t.toAccounts = s.toAccounts := by
  have hreturn : ∀ u : State, u.errorQueue = [] → u.forkQueue = [] → u.suspendReturn.Quiet := by
    intro u h1 h2
    refine ⟨h1, h2, ?_⟩
    unfold suspendReturn
    by_cases hp : u.pending = 0 <;> simp [hp]
  obtain ⟨hq, hf, hc | hc | hc⟩ := h
  · simp [step, hc] at ht
  · simp only [step, hc, dispatchErrorQueue, hq, some.injEq] at ht
    subst ht
    exact ⟨hreturn s hq hf, rfl⟩
  · simp only [step, hc, runFork, hf, some.injEq] at ht
    subst ht
    exact ⟨⟨hq, rfl, .inl rfl⟩, rfl⟩

theorem step_exited {a : Label} (h : Accounted s) (hex : s.exited = true) (hok : s.Careful a)
    (ht : s.step a = some t) : Accounted t := by
  have hsane := h.sane.step ht
  have hquiet := h.quiet hex
  cases a with
  | message m =>
    cases m <;> simp [State.Careful, careful, hex] at hok
  | op o =>
    obtain hc | hc | hc := hquiet.control <;> simp [step, hc] at ht
  | next =>
    obtain ⟨hq, he⟩ := quiet_next hquiet ht
    have hex' : t.exited = true := by
      rw [← hex]
      exact congrArg exited he
    exact ⟨hsane, he ▸ h.booked, fun hf => absurd (hf.symm.trans hex') (by simp), fun _ => hq⟩
  | collect i =>
    simp only [step] at ht
    split_ifs at ht
    cases ht
    exact ⟨hsane, h.booked, h.alive, fun _ => ⟨hquiet.1, hquiet.2, hquiet.3⟩⟩

theorem step_next (h : Accounted s) (hex : s.exited = false) (ht : s.step .next = some t) :
    Opened t.toAccounts ∧ Alive t := by
  have ha := h.alive hex
  have hb : Opened s.toAccounts := ⟨h.booked, hex⟩
  have hthreads : Threads none s.toSched := by
    have := h.sane.threads
    rwa [runner_of_next ht] at this
  cases rounds_of_next ht with
  | returns he hpcs =>
    refine ⟨he ▸ hb, fun j m hj => ?_⟩
    rw [hpcs]
    exact ha j m (congrArg threadSessionMap he ▸ hj)
  | @resumes u i he hpcs hn hp =>
    have hau : Alive u := by
      intro j m hj
      rw [hpcs]
      exact ha j m (congrArg threadSessionMap he ▸ hj)
    have hbu : Opened u.toAccounts := he ▸ hb
    refine ⟨hbu.resume false, hau.resume_of_alive ⟨?_, ?_, ?_, ?_⟩ i false⟩
    · rw [hpcs]
      exact hthreads.running
    · rw [hpcs, hn, hp]
      exact hthreads.pool
    · rw [hp]
      exact hthreads.nodup
    · rw [hpcs, hn]
      exact hthreads.unborn

theorem step {a : Label} (h : Accounted s) (hok : s.Careful a) (ht : s.step a = some t) :
    Accounted t := by
  have hsane := h.sane.step ht
  rcases hex : s.exited with _ | _
  swap
  · exact h.step_exited hex hok ht
  have hb : Opened s.toAccounts := ⟨h.booked, hex⟩
  have ha := h.alive hex
  cases a with simp only [State.step] at ht
  | message m =>
    split_ifs at ht with hc
    have hthreads : Threads none s.toSched := h.sane.threads_of hc
    exact .of_opened hsane (rawDispatchMessage (s := { s with failed := [] }) hb ha
      { hthreads with } hok ht)
  | op o =>
    split at ht
    · rename_i i hc
      by_cases ho : o = .exit
      · subst ho
        cases ht
        refine ⟨hsane, ?_, by rintro ⟨⟩, fun _ => ⟨?_, rfl, ?_⟩⟩
        · obtain ⟨place, hbooks⟩ := h.booked
          exact ⟨_, hbooks.exit hex (h.owner_lt hex)⟩
        · show s.errorQueue = []
          simpa [State.Careful, State.careful] using hok
        · by_cases hp : s.pending = 0 <;> simp [hp, State.exit, State.suspendReturn, State.setPc]
      · exact .of_opened hsane (exec hb ha h.sane.threads ho hok hc ht)
    · cases ht
  | next => exact .of_opened hsane (h.step_next hex ht)
  | collect i =>
    split_ifs at ht
    cases ht
    exact .of_opened hsane ⟨hb, ha⟩

theorem init : Accounted State.init where
  sane := Sane.init
  booked := ⟨fun _ => none, by
    refine ⟨?_, ?_, ?_, ?_, ?_, ?_, ?_, ?_, ?_⟩ <;> simp [State.init, State.timeout, State.empty,
      State.coCreate, State.newSession, Accounts.Owns, Accounts.Unfired, replies]⟩
  alive _ := nofun
  quiet := nofun

end Accounted

/-- Request `n` is at `p` between two messages. -/
def State.Fate (s : State) (n : ℕ) : Place → Prop
  | .handler i =>
    -- after skynet.exit the tables of the service are gone
    s.exited = false ∧ s.Owns i n ∧ (s.pcs i).Handling ∧ s.pcs i ≠ .running
  | .closure c => s.Unfired c n
  | .replied => s.replies n = 1
  | .forgotten => n ∈ s.forgotten

namespace Accounted

variable {s : State} {i n : ℕ}

theorem fate_iff (h : Accounted s) (hc : s.control = .idle) {place : ℕ → Option Place}
    (hb : Books s.toAccounts place) (p : Place) : s.Fate n p ↔ place n = some p := by
  cases p with
  | handler i =>
    rw [hb.owner]
    refine ⟨fun ⟨hex, hi, _⟩ => ⟨hex, hi⟩, fun ⟨hex, hi⟩ => ⟨hex, hi, ?_, fun hrun => ?_⟩⟩
    · obtain ⟨⟨m, hm⟩, -⟩ := hi
      exact h.alive hex i m hm
    · have := (h.sane.threads.running i).mp hrun
      rw [hc] at this
      cases this
  | closure c => exact (hb.unfired n c).symm
  | replied =>
    rw [State.Fate, hb.replies]
    by_cases hp : place n = some .replied <;> simp [hp]
  | forgotten => exact (hb.forgotten n).symm

theorem not_exited (h : Accounted s) (hc : s.control = .run i) : s.exited = false := by
  by_contra hex
  have := (h.quiet (by simpa using hex)).control
  rw [hc] at this
  simp at this

/-- `skynet.exit` answers the requests that are owned. -/
theorem exit_replies (h : Accounted s) (hc : s.control = .run i)
    (hn : (∃ j, s.Owns j n) ∨ ∃ c, (s.closures c).unresponse = true ∧ (s.closures c).req = n) :
    (s.exit i).replies n = 1 := by
  have hex := h.not_exited hc
  obtain ⟨place, hb⟩ := h.booked
  have hreplies := (hb.exit hex (h.owner_lt hex)).replies n
  have hplace : (place n).map (Place.exit s.toAccounts) = some .replied := by
    rcases hn with ⟨j, hj⟩ | ⟨c, hopen, rfl⟩
    · rw [(hb.owner n j).mpr ⟨hex, hj⟩]
      rfl
    · obtain ⟨hlt, hpack⟩ := hb.open_ c hopen
      rw [(hb.unfired _ c).mpr ⟨hlt, hpack, rfl⟩]
      simp [Place.exit, hopen]
  rw [if_pos hplace] at hreplies
  exact hreplies

theorem fail_sent (h : Accounted s) (hc : s.control = .run i) {m src : ℕ}
    (hn : s.requests[n]? = some (m + 1, src)) (hi : s.Owns i n) :
    s.replies n = 0 ∧ (s.fail i).sent = s.sent ++ [⟨n, .error, src, m + 1⟩] := by
  obtain ⟨place, hb⟩ := h.booked
  have hplace := (hb.owner n i).mpr ⟨h.not_exited hc, hi⟩
  obtain ⟨⟨m', hm'⟩, rfl⟩ := hi
  obtain ⟨src', hsrc', hreq⟩ := hb.session i m' hm'
  rw [hn] at hreq
  cases hreq
  refine ⟨by simp [hb.replies, hplace], ?_⟩
  show (s.reportError i).sent = _
  rw [reportError_of_owner hm' hsrc']
  rfl

end Accounted

/-- **Requests are accounted for**, in careful runs: between two messages exactly one thing has
become of a request with a session.  It is never answered twice and only to its source; a handler
that fails answers the request it owns with an error, and `skynet.exit` answers those that
coroutines and closures own. -/
theorem request_accounted {s : State} (h : service.ReachableVia State.Careful s) {n m src : ℕ}
    (hn : s.requests[n]? = some (m + 1, src)) : (s.control = .idle → ∃! p, s.Fate n p) ∧
    s.replies n ≤ 1 ∧ (∀ r ∈ s.sent, r.req = n → r.session = m + 1 ∧ r.dst = src) ∧
    (∀ i t, s.control = .run i → s.Owns i n → s.step (.op .error) = some t →
      s.replies n = 0 ∧ t.sent = s.sent ++ [⟨n, .error, src, m + 1⟩]) ∧
    (∀ t, s.step (.op .exit) = some t →
      (∃ j, s.Owns j n) ∨ (∃ c, (s.closures c).unresponse = true ∧ (s.closures c).req = n) →
      t.replies n = 1) := by
  have hacc : Accounted s := h.invariant Accounted.init fun _ _ _ hs hok ht => hs.step hok ht
  obtain ⟨place, hb⟩ := hacc.booked
  refine ⟨fun hc => ?_, ?_, ?_, ?_, ?_⟩
  · obtain ⟨p, hp⟩ := ne_none_iff_exists'.mp ((hb.tracked n).mpr ⟨m, src, hn⟩)
    refine ⟨p, (hacc.fate_iff hc hb p).mpr hp, fun q hq => ?_⟩
    have := (hacc.fate_iff hc hb q).mp hq
    rw [hp] at this
    exact (some.inj this).symm
  · rw [hb.replies]
    split_ifs <;> omega
  · rintro r hr rfl
    have := hb.sent r hr
    rw [hn, some.injEq, Prod.mk.injEq] at this
    exact ⟨this.1.symm, this.2.symm⟩
  · intro i t hc hi ht
    simp only [step, hc, exec, some.injEq] at ht
    subst ht
    exact hacc.fail_sent hc hn hi
  · intro t ht hn
    simp only [step] at ht
    split at ht
    · rename_i i hc
      cases ht
      exact hacc.exit_replies hc hn
    · cases ht

/-- The first coroutine returns. -/
def startRun : List Label := [.message (.response 1), .op .finish, .next, .next, .next]

/-- Service 7 asks twice: the first handler replies, the second one fails. -/
theorem request_accounted_of_two : ∃ s, service.ReachableVia State.Careful s ∧
    s.control = .idle ∧ (∃! p, s.Fate 0 p) ∧ (∃! p, s.Fate 1 p) ∧
    s.sent = [⟨0, .response, 7, 5⟩, ⟨1, .error, 7, 6⟩] := by
  obtain ⟨s, hs, hc, h0, h1, hsent⟩ := service.exists_reachable State.Careful
    (startRun ++ [.message (.request 5 7 true), .op (.ret .accepted), .op .finish, .next, .next,
      .next, .message (.request 6 7 true), .op .error, .next, .op .finish, .next, .next, .next])
    (fun s => s.control = .idle ∧ s.requests[0]? = some (5, 7) ∧ s.requests[1]? = some (6, 7) ∧
      s.sent = [⟨0, .response, 7, 5⟩, ⟨1, .error, 7, 6⟩]) (by decide +kernel)
  exact ⟨s, hs, hc, (request_accounted hs h0).1 hc, (request_accounted hs h1).1 hc, hsent⟩

/-- The `skynet_core.send` of `skynet.ret` refuses the message with an error, which ends the
handler: there is no reply, and nobody owns the request. -/
theorem request_lost_by_ret : ∃ s,
    service.exec init
      (startRun ++ [.message (.request 5 7 true), .op (.ret .raised), .op .error, .next,
        .op .finish, .next, .next, .next]) = some s ∧
    s.control = .idle ∧ s.requests[0]? = some (5, 7) ∧ s.exited = false ∧ s.sent = [] ∧
    ∀ p, ¬ s.Fate 0 p := by
  obtain ⟨s, hs, hc, hn, hex, hsent, hclosures, hforgotten, howners⟩ := service.exists_exec
    (startRun ++ [.message (.request 5 7 true), .op (.ret .raised), .op .error, .next,
      .op .finish, .next, .next, .next])
    (fun s => s.control = .idle ∧ s.requests[0]? = some (5, 7) ∧ s.exited = false ∧ s.sent = [] ∧
      s.nclosures = 0 ∧ s.forgotten = [] ∧ ∀ i < s.nthreads, s.threadSessionMap i = none)
    (by decide +kernel)
  refine ⟨s, hs, hc, hn, hex, hsent, fun p hp => ?_⟩
  have hsane : Sane s.toSched :=
    System.exec_invariant (I := fun s => Sane s.toSched) (fun _ _ _ hs ht => hs.step ht) _ _ _
      Sane.init hs
  cases p with
  | handler i =>
    obtain ⟨-, ⟨⟨m, hm⟩, -⟩, hpc, -⟩ := hp
    rcases Nat.lt_or_ge i s.nthreads with hlt | hge
    · rw [howners i hlt] at hm
      cases hm
    · rw [hsane.threads.unborn i hge] at hpc
      exact hpc
  | closure c =>
    have := hp.1
    rw [hclosures] at this
    exact absurd this (Nat.not_lt_zero c)
  | replied => simp [State.Fate, replies, hsent] at hp
  | forgotten => simp [State.Fate, hforgotten] at hp

end Skynet.Service
