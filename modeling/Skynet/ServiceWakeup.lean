import Skynet.ServiceLinks

/-! # Wakeups

`skynet.wakeup` appends the token of a sleeping coroutine to `wakeup_queue`, and `suspend` takes
one token after each coroutine that yields.  A token whose sleeper has been resumed already is
dropped, and `dispatch_wakeup` then returns without a look at the next one
(`wakeup_left_in_queue`).  `wakeup_queue_drained` is about the runs in which this leaves no token
behind. -/

namespace Skynet.Service

open Function Transition

/-- `dispatch_wakeup` is called before `handle_service_message` returns or goes on with
`fork_queue`. -/
def Control.Draining : Control → Prop
  | run _ | dispatchWakeup => True
  | _ => False

/-- The tokens of the coroutines that were woken are queued, and the queue is looked at again. -/
structure Wakeups (s : Sched) : Prop where
  queued : ∀ i timer token n, s.pcs i = .asleep timer token n true → token ∈ s.wakeupQueue
  drained : s.wakeupQueue ≠ [] → s.control.Draining ∨ s.forkQueue ≠ []

namespace Wakeups

variable {s : State} {t : Sched} {i : ℕ}

theorem of_pcs (h : Wakeups s.toSched) (hq : t.wakeupQueue = s.wakeupQueue)
    (hpcs : ∀ j timer token n, t.pcs j = .asleep timer token n true →
      s.pcs j = .asleep timer token n true)
    (hd : t.wakeupQueue ≠ [] → t.control.Draining ∨ t.forkQueue ≠ []) : Wakeups t :=
  ⟨fun j timer token n hj => hq ▸ h.queued j timer token n (hpcs j timer token n hj), hd⟩

theorem update_pcs {pcs : ℕ → Pc} {p : Pc} (hpc : ∀ timer token n, p ≠ .asleep timer token n true)
    {j : ℕ} {timer : Bool} {token : Token} {n : ℕ}
    (h : update pcs i p j = .asleep timer token n true) : pcs j = .asleep timer token n true := by
  rcases update_cases h with ⟨-, h⟩ | ⟨-, h⟩
  · exact absurd h (hpc timer token n)
  · exact h

theorem nextPc_ne (s : Sched) (timer : Bool) (token : Token) (n : ℕ) :
    s.nextPc ≠ .asleep timer token n true := by
  rcases nextPc_eq s with h | h <;> rw [h] <;> nofun

theorem fail (h : Wakeups s.toSched) (i : ℕ) : Wakeups (s.fail i).toSched := by
  rw [fail_toSched]
  refine h.of_pcs rfl (fun j timer token n hj => ?_) fun _ => .inr (by simp)
  exact update_pcs (p := .dead) nofun (update_pcs (nextPc_ne _) hj)

theorem resume {succ : Bool} (h : Wakeups s.toSched)
    (hrun : (s.resume i succ).control = .run i) : Wakeups (s.resume i succ).toSched := by
  obtain ⟨hpcs, hq, -, -⟩ := resume_run hrun
  refine h.of_pcs hq (fun j timer token n hj => ?_) fun _ => .inl (by rw [hrun]; trivial)
  rw [hpcs] at hj
  exact update_pcs (p := .running) nofun hj

theorem calls {o : Op} (h : Wakeups s.toSched) (hc : s.control = .run i) (hexit : o ≠ .exit)
    (ho : Calls s i o t) : Wakeups t := by
  have hdrain : s.control.Draining := by rw [hc]; trivial
  cases ho with
  | quiet | newSession | term => exact h.of_pcs rfl (fun _ _ _ _ => id) fun _ => .inl hdrain
  | @wakeup token htok =>
    simp only [State.wakeup, if_neg htok]
    refine ⟨fun j timer token' n hj => ?_, fun _ => .inl hdrain⟩
    cases hpc : s.pcs j with
    | asleep timer' tok n' woken =>
      simp only [hpc, Pc.wake, Pc.asleep.injEq, Bool.or_eq_true, decide_eq_true_eq] at hj
      obtain ⟨rfl, rfl, rfl, hw⟩ := hj
      rcases hw with rfl | rfl
      · exact List.mem_append_left _ (h.queued j _ _ _ hpc)
      · exact List.mem_append_right _ (List.mem_singleton_self _)
    | _ => simp [hpc, Pc.wake] at hj
  | fork =>
    exact h.of_pcs rfl (fun _ _ _ _ hj => update_pcs (nextPc_ne _) hj) fun _ => .inl hdrain
  | timeout =>
    have hne : ∀ timer token n, s.nextPc.timed s.nextSession ≠ .asleep timer token n true := by
      rcases nextPc_eq s.toSched with hp | hp <;> rw [hp] <;> simp [Pc.timed]
    unfold State.timeout
    split_ifs
    · exact h.of_pcs rfl (fun _ _ _ _ hj => update_pcs hne hj) fun _ => .inl hdrain
    · exact h.of_pcs rfl (fun _ _ _ _ hj => update_pcs (nextPc_ne _) hj) fun _ => .inl hdrain
  | wait | sleep =>
    unfold State.suspendSleep
    split_ifs
    · exact h.of_pcs rfl (fun _ _ _ _ hj => update_pcs (by simp) hj) fun _ => .inl trivial
    · exact h.of_pcs rfl (fun _ _ _ _ => id) fun _ => .inl hdrain
  | call | callTooLarge =>
    exact h.of_pcs rfl (fun _ _ _ _ hj => update_pcs (by simp) hj) fun _ => .inl trivial
  | exit => exact absurd rfl hexit
  | finish =>
    rw [finish_toSched]
    exact h.of_pcs rfl (fun _ _ _ _ hj => update_pcs (p := .pooled) (by simp) hj)
      fun _ => .inl trivial
  | fail => exact h.fail i

theorem receives {m : Message} (h : Wakeups s.toSched) (hnil : s.wakeupQueue = [])
    (hl : Linked s.toSched) (hheld : Held s.toSched) (ht : Threads none s.toSched)
    (hm : Receives s m t) : Wakeups t := by
  have hd {u : Sched} (hu : u.wakeupQueue = s.wakeupQueue) :
      u.wakeupQueue ≠ [] → u.control.Draining ∨ u.forkQueue ≠ [] :=
    fun hne => absurd (hu.trans hnil) hne
  have hc : Wakeups s.coCreate.toSched :=
    h.of_pcs rfl (fun _ _ _ _ hj => update_pcs (nextPc_ne _) hj) (hd rfl)
  cases hm with
  | broken | unknown => exact h.of_pcs rfl (fun _ _ _ _ => id) (hd rfl)
  | resumed he =>
    exact resume (h.of_pcs rfl (fun _ _ _ _ => id) (hd rfl)) (hl.received hheld he).2
  | started => exact resume hc (hl.started hheld ht).2
  | notUnpacked => exact hc.of_pcs rfl (fun _ _ _ _ => id) (hd rfl)
  | errors =>
    rw [finish_toSched]
    exact hc.of_pcs rfl (fun _ _ _ _ hj => update_pcs (p := .pooled) nofun hj) fun _ => .inl trivial
  | errorsFail => exact hc.fail _

end Wakeups

/-! ### Runs without a stale token in front of another one -/

/-- The next token is stale, others are queued behind it and `fork_queue` is empty. -/
def State.lagging (s : State) : Bool :=
  match s.control, s.wakeupQueue with
  | .dispatchWakeup, token :: _ :: _ => (s.sleepSessionMap token).isNone && s.forkQueue.isEmpty
  | _, _ => false

/-- `dispatch_wakeup` takes no stale token while others wait behind it and `fork_queue` is
empty, and the service does not exit. -/
def State.Prompt (s : State) (a : Label) : Prop :=
  s.Orderly a ∧ a ≠ .op .exit ∧ s.lagging = false

instance (s : State) (a : Label) : Decidable (s.Prompt a) := inferInstanceAs (Decidable (_ ∧ _))

theorem Wakeups.step {s : State} {a : Label} {t : Sched} (h : Wakeups s.toSched)
    (hi : Tidy s.toSched) (hok : s.Prompt a) (ha : Step s a t) : Wakeups t := by
  obtain ⟨-, hexit, hlag⟩ := hok
  have hl := hi.linked
  have hfork (hc : ¬ s.control.Draining) : s.wakeupQueue ≠ [] → s.forkQueue ≠ [] :=
    fun hne => (h.drained hne).resolve_left hc
  cases ha with
  | message hc hm =>
    have hnil : s.wakeupQueue = [] := by
      by_contra hne
      exact hfork (by rw [hc]; exact id) hne (hi.sane.idle hc)
    have ht : Threads none s.toSched := hi.sane.threads_of hc
    exact Wakeups.receives (s := { s with failed := [] }) ⟨h.queued, h.drained⟩ hnil
      { hl with } hi.held
      { ht with } hm
  | op hc ho => exact h.calls hc (fun he => hexit (by rw [he])) ho
  | noWakeup _ hq => exact h.of_pcs rfl (fun _ _ _ _ => id) fun hne => absurd hq hne
  | @staleWakeup token rest hc hq htok =>
    refine ⟨fun j timer token' n hj => ?_, fun hne => .inr ?_⟩
    · have hmem := h.queued j timer token' n hj
      rw [hq] at hmem
      rcases List.mem_cons.mp hmem with rfl | hmem
      · have := (hl.asleep token' n).mpr ⟨j, by rw [hj]; rfl⟩
        rw [htok] at this
        cases this
      · exact hmem
    · intro hnil
      cases rest with
      | nil => exact hne rfl
      | cons token' rest => simp_all [State.lagging]
  | @wakes token rest n i b hc hq htok he =>
    obtain ⟨hrun, hpcs, hrest, -, -⟩ := hi.wakes_run rest he
    refine ⟨fun j timer token' m hj => ?_, fun _ => .inl (by rw [hrun]; trivial)⟩
    have hji : j ≠ i := by
      rintro rfl
      rw [hpcs, update_self] at hj
      cases hj
    rw [hpcs, update_of_ne hji] at hj
    have hmem := h.queued j timer token' m hj
    rw [hq] at hmem
    rw [hrest]
    rcases List.mem_cons.mp hmem with rfl | hmem
    · -- a second coroutine asleep on the token would be the one that is resumed
      have hm := (hl.asleep token' m).mpr ⟨j, by rw [hj]; rfl⟩
      rw [htok] at hm
      cases hm
      obtain ⟨b', hb'⟩ := hi.held j n (by rw [hj]; rfl)
      rw [he] at hb'
      cases hb'
      exact absurd rfl hji
    · exact hmem
  | wakeupRaises _ _ htok he =>
    obtain ⟨i, _, _, b, -, hb⟩ := hi.woken htok
    exact absurd hb (he i b)
  | noError hc | tooLarge hc | errorRaises hc =>
    exact h.of_pcs rfl (fun _ _ _ _ => id) fun hne => .inr (hfork (by rw [hc]; exact id) hne)
  | @fails rest n i b hc hq he =>
    obtain ⟨hrun, hpcs, hqueue, -, -⟩ := hi.fails_run rest he
    refine h.of_pcs hqueue (fun j timer token m hj => ?_) fun _ => .inl (by rw [hrun]; trivial)
    rw [hpcs] at hj
    exact Wakeups.update_pcs (p := .running) nofun hj
  | done hc hq =>
    exact h.of_pcs rfl (fun _ _ _ _ => id)
      fun hne => absurd hq (hfork (by rw [hc]; exact id) hne)
  | @forked i rest hc hq =>
    obtain ⟨hrun, hpcs, hw, -, -⟩ := hi.forked_run hq
    refine h.of_pcs hw (fun j timer token n hj => ?_) fun _ => .inl (by rw [hrun]; trivial)
    rw [hpcs] at hj
    exact Wakeups.update_pcs (p := .running) nofun hj
  | collect => exact h.of_pcs rfl (fun _ _ _ _ => id) h.drained

theorem Wakeups.init : Wakeups State.init.toSched where
  queued i timer token n h := by
    rcases i with _ | i <;> cases h
  drained h := absurd rfl h

/-- **No lost wakeup**, in the runs in which no stale token is taken in front of another one
while `fork_queue` is empty: when `handle_service_message` has returned, `wakeup_queue` is empty
and every coroutine that `skynet.wakeup` found asleep has been resumed. -/
theorem wakeup_queue_drained {s : State} (h : service.ReachableVia State.Prompt s)
    (hc : s.control = .idle) :
    s.wakeupQueue = [] ∧ ∀ i timer token n, s.pcs i ≠ .asleep timer token n true := by
  have hinv : Tidy s.toSched ∧ Wakeups s.toSched := by
    refine h.invariant (I := fun s => Tidy s.toSched ∧ Wakeups s.toSched)
      ⟨Tidy.init, Wakeups.init⟩ ?_
    rintro s a t ⟨hi, hw⟩ hok hs
    exact ⟨hi.step hok.1 hs, hw.step hi hok (step_cases hs)⟩
  have hnil : s.wakeupQueue = [] := by
    by_contra hne
    rcases hinv.2.drained hne with hd | hf
    · rw [hc] at hd
      exact hd
    · exact hf (hinv.1.sane.idle hc)
  refine ⟨hnil, fun i timer token n hi => ?_⟩
  have := hinv.2.queued i timer token n hi
  rw [hnil] at this
  cases this

/-- Coroutines 1 and 2 are forked and wait on themselves. -/
def sleepersRun : List Label :=
  [.message (.response 1), .op .fork, .op .fork, .op .finish, .next, .next,
    .next, .op (.wait none), .next, .next, .next, .op (.wait none), .next, .next, .next]

/-- Both are woken, and each of them returns. -/
theorem wakeup_queue_drained_of_two : ∃ s, service.ReachableVia State.Prompt s ∧
    s.control = .idle ∧ s.pcs 1 = .pooled ∧ s.pcs 2 = .pooled ∧ s.wakeupQueue = [] := by
  obtain ⟨s, hs, hc, h1, h2⟩ := service.exists_reachable State.Prompt
    (sleepersRun ++ [.message (.request 0 7 true), .op (.wakeup (.thread 1)),
      .op (.wakeup (.thread 2)), .op .finish, .next, .op .finish, .next, .op .finish,
      .next, .next, .next, .next, .next])
    (fun s => s.control = .idle ∧ s.pcs 1 = .pooled ∧ s.pcs 2 = .pooled) (by decide +kernel)
  exact ⟨s, hs, hc, h1, h2, (wakeup_queue_drained hs hc).1⟩

/-- Coroutine 1 is woken twice and then coroutine 2.  When coroutine 1 returns, its second token
is stale; coroutine 2 stays asleep and its token in the queue. -/
theorem wakeup_left_in_queue : ∃ s,
    service.exec State.init
      (sleepersRun ++ [.message (.request 0 7 true), .op (.wakeup (.thread 1)),
        .op (.wakeup (.thread 1)), .op (.wakeup (.thread 2)), .op .finish, .next, .op .finish,
        .next, .next, .next, .next]) = some s ∧
    s.control = .idle ∧ s.wakeupQueue = [.thread 2] ∧
    s.pcs 2 = .asleep false (.thread 2) 3 true :=
  service.exists_exec _ (fun s => s.control = .idle ∧ s.wakeupQueue = [.thread 2] ∧
    s.pcs 2 = .asleep false (.thread 2) 3 true) (by decide +kernel)

end Skynet.Service
