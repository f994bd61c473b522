import Skynet.NodeMessages
import Skynet.ServiceWakeup

/-! # Calls to services that die

When a service is gone, the node drops the messages of its queue and sends an error with session
0 to their sources (`Node.dropped_request_answered`).  The caller looks for that source in
`watching_session_map` and puts the sessions it finds into `error_queue`; `dispatch_error_queue`
resumes their coroutines with failure.

A call by name is stored under the name, and no error ever matches it
(`named_call_left_suspended`).  For a call by handle the coroutine is resumed while the error
message is handled (`call_to_dead_service_fails`), in the runs in which `error_queue` gets no
session twice and not the key of a call whose package was too large; such a key ends
`dispatch_error_queue` before the queue is empty. -/

namespace Skynet

open List Function Transition

/-! ### What the node sends -/

namespace Node

/-- The queue whose release the thread will resume, with the handle its messages are answered
from. -/
def After.releases : After → Option (ℕ × ℕ)
  | .dropQueue _ q h => some (q, h)
  | _ => none

/-- The queue that the thread releases, with the handle its messages are answered from. -/
def Pc.releases : Pc → Option (ℕ × ℕ)
  | .release _ k | .markRelease _ k | .delete _ k | .send _ _ k | .push _ _ k => k.releases
  | .releaseQueue _ q h | .dropQueue _ q h | .dropMessage _ q h _ => some (q, h)
  | _ => none

theorem After.releases_resume (k : After) : k.resume.releases = k.releases := by cases k <;> rfl

/-- Messages are answered from the handle of the queue they were pushed to. -/
def State.Answers (s : State) : Prop :=
  ∀ p ∈ s.acts, ∀ x, p.releases = some x → x.1 < s.nq ∧ (s.queues x.1).svcHandle = x.2

section

variable {s t : State} {i q h : ℕ} {ok : Bool} {p : Pc} {e : Queued}

/-- A queue keeps its handle. -/
theorem Effect.handle_eq (ht : Effect s i ok p t) :
    s.nq ≤ t.nq ∧ ∀ q < s.nq, (t.queues q).svcHandle = (s.queues q).svcHandle := by
  have hset : ∀ {q : ℕ} {x : MqPrivate}, x.svcHandle = (s.queues q).svcHandle → s.nq ≤ s.nq ∧
      ∀ d < s.nq, ((s.setQueue q x).queues d).svcHandle = (s.queues d).svcHandle :=
    fun hx => ⟨le_rfl, fun d _ => State.setQueue_field (·.svcHandle) hx d⟩
  cases ht with
  | built c => exact ⟨Nat.le_succ _, fun q hq => by rw [(s.createQueue_queues i c).2 q hq.ne]⟩
  | marked | markedIdle | initFailed | accepted | acceptedIdle | emptied | taken | dropEmptied
  | dropTaken | queueDeleted => exact hset rfl
  | _ => exact ⟨le_rfl, fun _ _ => rfl⟩

/-- A thread goes on with the release it is in, or begins one with the handle of the queue. -/
theorem Effect.releases_eq (ht : Effect s i ok p t) : t.acts = s.acts ∨ ∃ p',
    t.acts = s.acts.set i p' ∧ (p'.releases = none ∨ p'.releases = p.releases ∨
      ∃ w q, p = .lookup w q ∧ p' = .releaseQueue w q (s.queues q).svcHandle) := by
  cases ht with
  | crash _ => exact .inl rfl
  | control hc =>
    refine .inr ⟨_, rfl, ?_⟩
    cases hc with
    | send => exact .inr (.inl (After.releases_resume _))
    | releaseQueue => exact .inr (.inl rfl)
    | lookup => exact .inr (.inr ⟨_, _, rfl, rfl⟩)
    | _ => exact .inl rfl
  | grabbed _ hg =>
    refine .inr ⟨_, rfl, ?_⟩
    cases hg with
    | send => exact .inr (.inl rfl)
    | _ => exact .inl rfl
  | released | deleted => exact .inr ⟨_, rfl, .inr (.inl (After.releases_resume _))⟩
  | linked hl _ =>
    refine .inr ⟨_, rfl, .inl ?_⟩
    cases hl <;> rfl
  | @unlinked p k g q? hu _ =>
    refine .inr ⟨_, rfl, .inl ?_⟩
    cases hu <;> cases q? <;> rfl
  | taken _ hp =>
    refine .inr ⟨_, rfl, .inl ?_⟩
    rcases hp with rfl | rfl <;> rfl
  | reported _ hp =>
    refine .inr ⟨_, rfl, .inr (.inl ?_)⟩
    rcases hp with ⟨_, rfl⟩ | ⟨_, rfl⟩ <;> rfl
  | lastReleased | marked | markedIdle | accepted | acceptedIdle | dropTaken =>
    exact .inr ⟨_, rfl, .inr (.inl rfl)⟩
  | _ => exact .inr ⟨_, rfl, .inl rfl⟩

theorem State.Answers.effect (ha : s.Answers) (hs : Sane False s) (hp : s.acts[i]? = some p)
    (ht : Effect s i ok p t) : t.Answers := by
  obtain ⟨hnq, hhandle⟩ := ht.handle_eq
  have hkeep : ∀ p ∈ s.acts, (∀ x, p.releases = some x →
        x.1 < s.nq ∧ (s.queues x.1).svcHandle = x.2) →
      ∀ x, p.releases = some x → x.1 < t.nq ∧ (t.queues x.1).svcHandle = x.2 := by
    intro p _ hx x hpx
    obtain ⟨hlt, heq⟩ := hx x hpx
    exact ⟨by omega, by rw [hhandle _ hlt, heq]⟩
  obtain hacts | ⟨p', hacts, hp'⟩ := ht.releases_eq
  · unfold State.Answers
    rw [hacts]
    exact fun p hp => hkeep p hp (ha p hp)
  · unfold State.Answers
    rw [hacts]
    refine ThreadPool.forall_set ha hkeep fun x hx => ?_
    obtain hnone | hsame | ⟨w, q, rfl, rfl⟩ := hp'
    · rw [hnone] at hx
      cases hx
    · exact hkeep p (mem_of_getElem? hp) (ha p (mem_of_getElem? hp)) x (hsame ▸ hx)
    · obtain ⟨l, hl⟩ := hs.placed
      obtain rfl := Option.some.inj hx
      have hlt := hl.lt_nq (hl.alive_of_holds hp (q := q) (by simp [Pc.holds, Pc.held]))
      exact ⟨by simpa using hlt.trans_le hnq, hhandle q hlt⟩

/-- Taking a message out of a queue takes message `e` or leaves it in its queue. -/
theorem mem_taken {d : ℕ} {e' : Queued} {rest : List Queued} (hm : (s.queues d).msgs = e' :: rest)
    (he : e ∈ (s.queues q).msgs) : d = q ∧ e' = e ∨
      e ∈ ((s.setQueue d { s.queues d with msgs := rest }).queues q).msgs := by
  by_cases hd : q = d
  · subst hd
    rw [hm] at he
    rw [(s.setQueue_queues q _).1]
    exact (mem_cons.mp he).imp (fun h => ⟨rfl, h.symm⟩) id
  · rw [(s.setQueue_queues d _).2 q hd]
    exact .inr he

/-- The error that answers message `e` of the queue of service `h`. -/
def Queued.answer (h : ℕ) (e : Queued) : Report := ⟨e.id, e.msg.srcSvcHandle, ⟨h, 0, .error⟩⟩

/-- Message `e` was pushed to queue `q` of service `h`, and where it is now. -/
structure Traced (q h : ℕ) (e : Queued) (s : State) : Prop where
  lt : q < s.nq
  handle : (s.queues q).svcHandle = h
  place : e ∈ (s.queues q).msgs ∨ e.id ∈ s.dispatched ∨
    (∃ (j : ℕ) (w : ℤ), s.acts[j]? = some (.dropMessage w q h e)) ∨ e.answer h ∈ s.reported

section

variable (hx : Traced q h e s)

include hx

/-- In a step that neither takes a message nor answers one, no message is lost. -/
theorem Traced.quiet (ht : Effect s i ok p t)
    (hdrop : ∀ (j : ℕ) (w : ℤ), s.acts[j]? = some (.dropMessage w q h e) → t.acts[j]? = s.acts[j]?)
    (hmsgs : e ∈ (s.queues q).msgs → e ∈ (t.queues q).msgs)
    (hdis : t.dispatched = s.dispatched) (hrep : t.reported = s.reported) : Traced q h e t := by
  obtain ⟨hnq, hhandle⟩ := ht.handle_eq
  refine ⟨hx.lt.trans_le hnq, by rw [hhandle q hx.lt, hx.handle], ?_⟩
  rw [hdis, hrep]
  refine hx.place.imp hmsgs (Or.imp_right (Or.imp_left ?_))
  rintro ⟨j, w, hj⟩
  exact ⟨j, w, (hdrop j w hj).trans hj⟩

/-- Every step of a thread keeps track of the message. -/
theorem Traced.effect (ha : s.Answers) (hp : s.acts[i]? = some p) (ht : Effect s i ok p t) :
    Traced q h e t := by
  have hset : ∀ {d : ℕ} {x : MqPrivate}, (s.queues d).msgs ⊆ x.msgs →
      e ∈ (s.queues q).msgs → e ∈ ((s.setQueue d x).queues q).msgs := by
    intro d x hsub
    exact State.setQueue_forall (P := fun d y => e ∈ (s.queues d).msgs → e ∈ y.msgs)
      (fun he => hsub he) (fun _ => id) q
  have hother : ∀ {p' : Pc}, (∀ w, p ≠ .dropMessage w q h e) → ∀ (j : ℕ) (w : ℤ),
      s.acts[j]? = some (.dropMessage w q h e) → (s.acts.set i p')[j]? = s.acts[j]? := by
    intro p' hne j w hj
    refine getElem?_set_ne ?_
    rintro rfl
    exact hne w (Option.some.inj (hp.symm.trans hj))
  obtain ⟨hnq, hhandle⟩ := ht.handle_eq
  have hself := ht
  cases ht with
  | crash _ => exact hx.quiet hself (fun _ _ _ => rfl) id rfl rfl
  | control hc | grabbed _ hc | linked hc _ | unlinked hc _ =>
    refine hx.quiet hself (hother fun w hw => ?_) id rfl rfl
    subst hw
    cases hc
  | built c =>
    refine hx.quiet hself (hother (by simp)) (fun he => ?_) rfl rfl
    rw [(s.createQueue_queues i c).2 q hx.lt.ne]
    exact he
  | released | lastReleased | deleted | registered | stored | unregistered =>
    exact hx.quiet hself (hother (by simp)) id rfl rfl
  | marked | markedIdle | initFailed | emptied | dropEmptied | queueDeleted =>
    exact hx.quiet hself (hother (by simp)) (hset (Subset.refl _)) rfl rfl
  | accepted | acceptedIdle =>
    exact hx.quiet hself (hother (by simp)) (hset (subset_append_left _ _)) rfl rfl
  | taken hm hp' =>
    refine ⟨hx.lt, by rw [hhandle q hx.lt, hx.handle], ?_⟩
    rcases hx.place with he | he | ⟨j, w, hj⟩ | he
    · rcases mem_taken hm he with ⟨-, rfl⟩ | he
      · exact .inr (.inl (mem_append_right _ (mem_singleton_self _)))
      · exact .inl he
    · exact .inr (.inl (mem_append_left _ he))
    · exact .inr (.inr (.inl ⟨j, w, (hother (by simp) j w hj).trans hj⟩))
    · exact .inr (.inr (.inr he))
  | @dropTaken w d h' e' rest hm =>
    refine ⟨hx.lt, by rw [hhandle q hx.lt, hx.handle], ?_⟩
    rcases hx.place with he | he | ⟨j, w', hj⟩ | he
    · rcases mem_taken hm he with ⟨rfl, rfl⟩ | he
      · have hh' := (ha _ (mem_of_getElem? hp) (d, h') rfl).2
        obtain rfl : h = h' := hx.handle.symm.trans hh'
        exact .inr (.inr (.inl ⟨i, w, getElem?_set_self (List.getElem?_eq_some_iff.mp hp).1⟩))
      · exact .inl he
    · exact .inr (.inl he)
    · exact .inr (.inr (.inl ⟨j, w', (hother (by simp) j w' hj).trans hj⟩))
    · exact .inr (.inr (.inr he))
  | @reported w d h' e' p' hh' hp' =>
    refine ⟨hx.lt, hx.handle, ?_⟩
    rcases hx.place with he | he | ⟨j, w', hj⟩ | he
    · exact .inl he
    · exact .inr (.inl he)
    · by_cases hji : j = i
      · subst hji
        rw [hp] at hj
        cases hj
        exact .inr (.inr (.inr (mem_append_right _ (mem_singleton_self _))))
      · exact .inr (.inr (.inl ⟨j, w', (getElem?_set_ne (Ne.symm hji)).trans hj⟩))
    · exact .inr (.inr (.inr (mem_append_left _ he)))

theorem Traced.start (task : Task) : Traced q h e (s.start task) := by
  cases task <;> refine ⟨hx.lt, hx.handle, hx.place.imp_right (Or.imp_right (Or.imp_left ?_))⟩ <;>
    rintro ⟨j, w, hj⟩ <;>
    exact ⟨j, w, (getElem?_append_left (List.getElem?_eq_some_iff.mp hj).1).trans hj⟩

end

/-- The invariant of the node in all its runs. -/
structure Answering (s : State) : Prop where
  sane : Sane False s
  ledger : Ledger s
  answers : s.Answers

theorem Answering.init : Answering State.init :=
  ⟨Sane.init, Ledger.init, fun p hp => by simp [State.init] at hp⟩

theorem Answering.step (s : State) (a : Action) (t : State) (hs : Answering s)
    (ht : s.step a = some t) : Answering t := by
  obtain ⟨_, ⟨task, rfl, rfl⟩ | ⟨i, ok, p, rfl, hp, ht⟩⟩ := State.step_cases ht
  · refine ⟨hs.sane.start task, hs.ledger.start task, fun p hp x hx => ?_⟩
    cases task <;> rcases mem_append.mp hp with hp | hp
    all_goals first
      | exact hs.answers p hp x hx
      | (rw [mem_singleton.mp hp] at hx; cases hx)
  · obtain ⟨l, hl⟩ := hs.sane.placed
    exact ⟨hs.sane.effect hp ht (by simp), hs.ledger.effect hs.sane.owners hs.sane.refs hl hp ht,
      hs.answers.effect hs.sane hp ht⟩

/-- A message of the queue of a service that is dropped, and not just being dropped, has been
answered with an error from that service to the source of the message. -/
theorem dropped_request_answered {s t : State} {q : ℕ} {e : Queued} (hs : node.Reachable s)
    (he : e ∈ (s.queues q).msgs) (hrun : (System.mk s State.step).Reachable t)
    (hdrop : e ∈ t.dropped)
    (hdone : ∀ (j : ℕ) (w : ℤ) (q h : ℕ), t.acts[j]? ≠ some (.dropMessage w q h e)) :
    e.answer (s.queues q).svcHandle ∈ t.reported := by
  have hs' := hs.invariant Answering.init fun s a t h _ => Answering.step s a t h
  obtain ⟨l, hl⟩ := hs'.sane.placed
  have halive : (s.queues q).alive = true := by
    by_contra hd
    rw [((hl.fine q).dead (by simpa using hd)).2] at he
    cases he
  obtain ⟨ht, hx⟩ : Answering t ∧ Traced q (s.queues q).svcHandle e t := by
    refine hrun.invariant (I := fun t => Answering t ∧ Traced q (s.queues q).svcHandle e t)
      ⟨hs', hl.lt_nq halive, rfl, .inl he⟩ ?_
    rintro u a v ⟨hu, hx⟩ - huv
    refine ⟨hu.step u a v huv, ?_⟩
    obtain ⟨_, ⟨task, rfl, rfl⟩ | ⟨i, ok, p, rfl, hp, ht⟩⟩ := State.step_cases huv
    · exact hx.start task
    · exact hx.effect hu.answers hp ht
  have hone := ht.ledger.once e.id
  have hpos : 0 < t.droppedCount e.id := count_pos_iff.mpr (mem_map_of_mem hdrop)
  rcases hx.place with hq | hdis | ⟨j, w, hj⟩ | hrep
  · have hw : 0 < (t.queues q).waiting e.id := count_pos_iff.mpr (mem_map_of_mem hq)
    have := Finset.single_le_sum (f := fun q => (t.queues q).waiting e.id)
      (fun _ _ => Nat.zero_le _) (Finset.mem_range.mpr hx.lt)
    have hle : (t.queues q).waiting e.id ≤ t.waiting e.id := this
    split_ifs at hone <;> omega
  · have : 0 < t.dispatched.count e.id := count_pos_iff.mpr hdis
    split_ifs at hone <;> omega
  · exact absurd hj (hdone j w q _)
  · exact hrep

end

end Node

namespace Service

/-- A message of the node as `raw_dispatch_message` sees it. -/
def Message.ofNode (m : Node.Message) (order : List Key) : Message :=
  match m.type with
  | .response => .response m.sessionId.toNat
  | .error => .error m.sessionId.toNat m.srcSvcHandle order
  | _ => .request m.sessionId.toNat m.srcSvcHandle true

/-! ### What a call leaves of the others -/

variable {i : ℕ} {s : State}

variable {b : ℕ}

theorem update_calling {pcs : ℕ → Pc} {j : ℕ} {p : Pc} {k : Key} (hi : ∀ k b, pcs i ≠ .calling k b)
    (hj : pcs j = .calling k b) :
    update pcs i p j = .calling k b := by
  have hji : j ≠ i := by
    rintro rfl
    exact hi k b hj
  rwa [update_of_ne hji]

theorem next_not_calling {r : Option ℕ} {s : Sched} (ht : Threads r s) (k : Key) (b : ℕ) :
    s.pcs s.nextThread ≠ .calling k b := by
  intro h
  have := ht.next_parked
  rw [h] at this
  exact this

/-- A call of the running coroutine leaves the coroutines in `skynet.call` there, and only
`skynet.term` appends to `error_queue`. -/
structure Waits (s : Sched) (o : Op) (t : Sched) : Prop where
  calling : ∀ j k b, s.pcs j = .calling k b → t.pcs j = .calling k b
  failed : t.failed = s.failed
  queue : t.errorQueue = s.errorQueue ∨
    ∃ addr order, o = .term addr order ∧ order.Perm (s.watchedBy addr) ∧
      t.errorQueue = s.errorQueue ++ order

theorem fail_calling {r : Option ℕ} (ht : Threads r s.toSched) (hi : ∀ k b, s.pcs i ≠ .calling k b)
    {j : ℕ} {k : Key} (hj : s.pcs j = .calling k b) : (s.fail i).pcs j = .calling k b := by
  rw [fail_toSched]
  have hj' := update_calling (p := .dead) hi hj
  refine update_calling (fun k' b' h => ?_) hj'
  rcases update_cases h with ⟨-, ⟨⟩⟩ | ⟨-, h⟩
  exact next_not_calling ht k' b' h

theorem Calls.waits {o : Op} {t : Sched} (ht : Threads (some i) s.toSched) (ho : Calls s i o t) :
    Waits s.toSched o t := by
  have hi : ∀ k b, s.pcs i ≠ .calling k b := by
    rw [(ht.running i).mpr rfl]
    nofun
  cases ho with
  | quiet | newSession => exact ⟨fun _ _ _ => id, rfl, .inl rfl⟩
  | wakeup htok =>
    simp only [State.wakeup, if_neg htok]
    exact ⟨fun j k b hj => by simp only [hj]; rfl, rfl, .inl rfl⟩
  | fork => exact ⟨fun _ _ _ => update_calling (next_not_calling ht), rfl, .inl rfl⟩
  | timeout =>
    unfold State.timeout
    split_ifs <;> exact ⟨fun _ _ _ => update_calling (next_not_calling ht), rfl, .inl rfl⟩
  | wait | sleep =>
    unfold State.suspendSleep
    split_ifs
    · exact ⟨fun _ _ _ => update_calling hi, rfl, .inl rfl⟩
    · exact ⟨fun _ _ _ => id, rfl, .inl rfl⟩
  | call | callTooLarge | exit => exact ⟨fun _ _ _ => update_calling hi, rfl, .inl rfl⟩
  | term hperm => exact ⟨fun _ _ _ => id, rfl, .inr ⟨_, _, rfl, hperm, rfl⟩⟩
  | finish => rw [finish_toSched]; exact ⟨fun _ _ _ => update_calling hi, rfl, .inl rfl⟩
  | fail =>
    exact ⟨fun _ _ _ => fail_calling ht hi, by rw [fail_toSched], .inl (by rw [fail_toSched])⟩

/-! ### The queue of failed sessions -/

/-- `dispatch_error_queue` is called before `handle_service_message` returns or goes on with
`fork_queue`. -/
def Control.Failing : Control → Prop
  | run _ | dispatchWakeup | dispatchErrorQueue => True
  | _ => False

/-- Every session in `error_queue` is the session of a call, and the queue is looked at again. -/
structure Errors (s : Sched) : Prop where
  calls : ∀ k ∈ s.errorQueue, ∃ n i b, k = .id n ∧ s.pcs i = .calling (.id n) b
  nodup : s.errorQueue.Nodup
  drained : s.errorQueue ≠ [] → s.control.Failing ∨ s.forkQueue ≠ []

theorem calling_of_call {p : Pc} {n : ℕ} (h : p.call = some n) : ∃ b, p = .calling (.id n) b := by
  cases p with
  | calling k b =>
    cases k <;> cases h
    exact ⟨b, rfl⟩
  | _ => cases h

namespace Linked

variable {s : Sched}

theorem watched_calling (h : Linked s) {k : Key} (hk : k ∈ s.watchingSessionMap.map (·.1))
    (hne : k ≠ .tooLarge) : ∃ n i b, k = .id n ∧ s.pcs i = .calling (.id n) b := by
  obtain ⟨⟨k', addr⟩, hmem, rfl⟩ := mem_map.mp hk
  cases k' with
  | tooLarge => exact absurd rfl hne
  | id n =>
    obtain ⟨i, hi⟩ := h.watching n addr hmem
    obtain ⟨b, hb⟩ := calling_of_call hi
    exact ⟨n, i, b, rfl, hb⟩

theorem watchedBy_sublist (s : Sched) (addr : Addr) :
    (s.watchedBy addr).Sublist (s.watchingSessionMap.map (·.1)) :=
  filter_sublist.map _

theorem watchedBy_nodup (h : Linked s) {addr : Addr} {order : List Key}
    (hp : order.Perm (s.watchedBy addr)) : order.Nodup :=
  hp.nodup_iff.mpr (h.keys.sublist (watchedBy_sublist s addr))

end Linked

namespace Errors

variable {s t : Sched}

theorem of_calling (h : Errors s) (hq : t.errorQueue = s.errorQueue)
    (hcall : ∀ j k b, s.pcs j = .calling k b → t.pcs j = .calling k b)
    (hd : t.errorQueue ≠ [] → t.control.Failing ∨ t.forkQueue ≠ []) : Errors t where
  calls k hk := by
    obtain ⟨n, i, b, rfl, hi⟩ := h.calls k (hq ▸ hk)
    exact ⟨n, i, b, rfl, hcall i _ b hi⟩
  nodup := hq ▸ h.nodup
  drained := hd

theorem append (h : Errors s) {q : List Key} (hq : t.errorQueue = s.errorQueue ++ q)
    (hcall : ∀ j k b, s.pcs j = .calling k b → t.pcs j = .calling k b)
    (hnew : ∀ k ∈ q, k ∉ s.errorQueue ∧ ∃ n i b, k = .id n ∧ s.pcs i = .calling (.id n) b)
    (hnodup : q.Nodup) (hd : t.control.Failing) : Errors t where
  calls k hk := by
    rw [hq] at hk
    obtain ⟨n, i, b, rfl, hi⟩ : ∃ n i b, k = .id n ∧ s.pcs i = .calling (.id n) b := by
      rcases mem_append.mp hk with hk | hk
      · exact h.calls k hk
      · exact (hnew k hk).2
    exact ⟨n, i, b, rfl, hcall i _ b hi⟩
  nodup := by
    rw [hq, nodup_append]
    refine ⟨h.nodup, hnodup, ?_⟩
    rintro k hk k' hk' rfl
    exact (hnew k hk').1 hk
  drained _ := .inl hd

end Errors

/-! ### Regular runs -/

/-- Only sessions that are not there yet are put into `error_queue`, and no key of a call whose
package was too large. -/
def State.queuesOnce (s : State) : Label → Bool
  | .op (.term _ order) => order.all fun k => k ≠ .tooLarge ∧ k ∉ s.errorQueue
  | .message (.error 0 _ order) => order.all fun k => k ≠ .tooLarge
  | _ => true

/-- Orderly steps of a service that does not exit, with the sessions of `error_queue` as in
`queuesOnce`. -/
def State.Regular (s : State) (a : Label) : Prop :=
  s.Orderly a ∧ a ≠ .op .exit ∧ s.queuesOnce a = true

instance (s : State) (a : Label) : Decidable (s.Regular a) := inferInstanceAs (Decidable (_ ∧ _))

namespace Errors

variable {s : State} {t : Sched} {i : ℕ}

theorem calls_step {o : Op} (h : Errors s.toSched) (hi : Tidy s.toSched) (hc : s.control = .run i)
    (hok : s.Regular (.op o)) (ho : Calls s i o t) : Errors t := by
  have ht : Threads (some i) s.toSched := hi.sane.threads_of hc
  have hw := ho.waits ht
  have hfail : t.control.Failing ∨ t.forkQueue ≠ [] := by
    cases ho with
    | quiet | newSession | fork | term =>
      left
      simp only [State.newSession, State.fork, State.coCreate, hc]
      trivial
    | wakeup htok => simp only [State.wakeup, if_neg htok, hc]; exact .inl trivial
    | timeout =>
      unfold State.timeout
      split_ifs <;> simp only [State.newSession, State.coCreate, hc] <;> exact .inl trivial
    | wait | sleep =>
      unfold State.suspendSleep
      split_ifs
      · exact .inl trivial
      · simp only [State.setEntry, State.newSession, hc]
        exact .inl trivial
    | call | callTooLarge => exact .inl trivial
    | exit => exact absurd rfl hok.2.1
    | finish => rw [finish_toSched]; exact .inl trivial
    | fail => rw [fail_toSched]; exact .inr (by simp)
  rcases hw.queue with hq | ⟨addr, order, rfl, hperm, hq⟩
  · exact h.of_calling hq hw.calling fun _ => hfail
  · have hnew := hok.2.2
    simp only [State.queuesOnce, all_eq_true, decide_eq_true_eq] at hnew
    refine h.append hq hw.calling (fun k hk => ⟨(hnew k hk).2, ?_⟩) (hi.linked.watchedBy_nodup hperm) ?_
    · exact hi.linked.watched_calling ((Linked.watchedBy_sublist _ _).subset (hperm.subset hk))
        (hnew k hk).1
    · cases ho with
      | quiet | term => rw [hc]; trivial
      | newSession => show s.control.Failing; rw [hc]; trivial

theorem receives_step {m : Message} (h : Errors s.toSched) (hnil : s.errorQueue = [])
    (hl : Linked s.toSched) (hheld : Held s.toSched) (ht : Threads none s.toSched)
    (hok : s.queuesOnce (.message m) = true) (hm : Receives s m t) : Errors t := by
  have hd {u : Sched} (hu : u.errorQueue = s.errorQueue) :
      u.errorQueue ≠ [] → u.control.Failing ∨ u.forkQueue ≠ [] :=
    fun hne => absurd (hu.trans hnil) hne
  have hnone {u : Sched} (hu : u.errorQueue = s.errorQueue) : Errors u := by
    refine ⟨fun k hk => ?_, ?_, hd hu⟩
    · rw [hu, hnil] at hk
      cases hk
    · rw [hu, hnil]
      exact nodup_nil
  cases hm with
  | broken | unknown | notUnpacked => exact hnone rfl
  | @resumed n i b he =>
    exact hnone (resume_run (hl.received hheld he).2).2.2.1
  | started => exact hnone (resume_run (hl.started hheld ht).2).2.2.1
  | @errors session src order q hq =>
    have hcall : ∀ j k b, s.pcs j = .calling k b →
        ({ s.coCreate with errorQueue := s.errorQueue ++ q }.finish s.nextThread).pcs j =
          .calling k b := by
      intro j k b hj
      rw [finish_toSched]
      refine update_calling (fun k' b' h' => ?_) (update_calling (next_not_calling ht) hj)
      rw [hl.coCreate_next] at h'
      cases h'
    refine h.append (by rw [finish_toSched]) hcall (fun k hk => ⟨by rw [hnil]; simp, ?_⟩)
      ?_ (by rw [finish_toSched]; trivial)
    · rcases hq with ⟨rfl, rfl, hperm⟩ | ⟨-, rfl, hmem⟩ | ⟨-, rfl, -⟩
      · simp only [State.queuesOnce, all_eq_true, decide_eq_true_eq] at hok
        exact hl.watched_calling ((Linked.watchedBy_sublist _ _).subset (hperm.subset hk)) (hok k hk)
      · obtain rfl := mem_singleton.mp hk
        exact hl.watched_calling hmem nofun
      · cases hk
    · rcases hq with ⟨-, -, hperm⟩ | ⟨-, rfl, -⟩ | ⟨-, rfl, -⟩
      · exact hl.watchedBy_nodup hperm
      · exact nodup_singleton _
      · exact nodup_nil
  | errorsFail hdead =>
    rw [hl.nextPc_fresh] at hdead
    cases hdead

/-- The coroutine whose session is taken from `error_queue`. -/
theorem head_calling (h : Errors s.toSched) (hi : Tidy s.toSched) {k : Key} {rest : List Key}
    (hq : s.errorQueue = k :: rest) : ∃ n i b b', k = .id n ∧ s.pcs i = .calling (.id n) b ∧
      s.sessionThreadMap (.id n) = some (.thread i b') := by
  obtain ⟨n, i, b, rfl, hi'⟩ := h.calls k (by rw [hq]; simp)
  obtain ⟨b', hb⟩ := hi.held i n (by rw [hi']; rfl)
  exact ⟨n, i, b, b', rfl, hi', hb⟩

theorem step {a : Label} (h : Errors s.toSched) (hi : Tidy s.toSched) (hok : s.Regular a)
    (ha : Step s a t) : Errors t := by
  have hl := hi.linked
  have hfork (hc : ¬ s.control.Failing) : s.errorQueue ≠ [] → s.forkQueue ≠ [] :=
    fun hne => (h.drained hne).resolve_left hc
  cases ha with
  | message hc hm =>
    have hnil : s.errorQueue = [] := by
      by_contra hne
      exact hfork (by rw [hc]; exact id) hne (hi.sane.idle hc)
    have ht : Threads none s.toSched := hi.sane.threads_of hc
    exact receives_step (s := { s with failed := [] }) ⟨h.calls, h.nodup, h.drained⟩ hnil
      { hl with } hi.held
      { ht with } hok.2.2 hm
  | op hc ho => exact h.calls_step hi hc hok ho
  | noWakeup | staleWakeup => exact h.of_calling rfl (fun _ _ _ => id) fun _ => .inl trivial
  | @wakes token rest n i b hc hq htok he =>
    obtain ⟨j, timer, woken, b', hj, hb⟩ := hi.woken htok
    rw [he] at hb
    cases hb
    obtain ⟨hrun, hpcs, -, hqueue, -⟩ := hi.wakes_run rest he
    refine h.of_calling hqueue (fun j k c hk => ?_) fun _ => .inl (by rw [hrun]; trivial)
    rw [hpcs]
    exact update_calling (fun k' c' h' => by rw [hj] at h'; cases h') hk
  | wakeupRaises _ _ htok he =>
    obtain ⟨i, _, _, b, -, hb⟩ := hi.woken htok
    exact absurd hb (he i b)
  | noError _ hq =>
    exact h.of_calling rfl (fun _ _ _ => id) fun hne => absurd hq hne
  | tooLarge _ hq =>
    obtain ⟨_, _, _, _, ⟨⟩, -⟩ := h.head_calling hi hq
  | @fails rest n i b hc hq he =>
    obtain ⟨_, _, b', _, ⟨⟩, hpc, hb⟩ := h.head_calling hi hq
    rw [he] at hb
    cases hb
    obtain ⟨hrun, hpcs, -, hrest, -⟩ := hi.fails_run rest he
    have hnodup := h.nodup
    rw [hq, nodup_cons] at hnodup
    refine ⟨fun k hk => ?_, by rw [hrest]; exact hnodup.2, fun _ => .inl (by rw [hrun]; trivial)⟩
    rw [hrest] at hk
    obtain ⟨m, j, c, rfl, hj⟩ := h.calls k (by rw [hq]; exact mem_cons_of_mem _ hk)
    refine ⟨m, j, c, rfl, ?_⟩
    have hji : j ≠ i := by
      rintro rfl
      rw [hpc] at hj
      cases hj
      exact hnodup.1 hk
    rw [hpcs, update_of_ne hji]
    exact hj
  | errorRaises _ hq he =>
    obtain ⟨_, j, _, b, ⟨⟩, -, hb⟩ := h.head_calling hi hq
    exact absurd hb (he j b)
  | done hc hq =>
    exact h.of_calling rfl (fun _ _ _ => id)
      fun hne => absurd hq (hfork (by rw [hc]; exact id) hne)
  | @forked i rest hc hq =>
    have hfresh := hl.forks i (by rw [hq]; simp)
    obtain ⟨hrun, hpcs, -, hqueue, -⟩ := hi.forked_run hq
    refine h.of_calling hqueue (fun j k b hj => ?_) fun _ => .inl (by rw [hrun]; trivial)
    rw [hpcs]
    exact update_calling (fun k' b' h' => by rw [hfresh] at h'; cases h') hj
  | collect => exact h.of_calling rfl (fun _ _ _ => id) h.drained

theorem init : Errors State.init.toSched := ⟨nofun, nodup_nil, fun h => absurd rfl h⟩

theorem of_reachable (h : service.ReachableVia State.Regular s) :
    Tidy s.toSched ∧ Errors s.toSched := by
  refine h.invariant (I := fun s => Tidy s.toSched ∧ Errors s.toSched)
    ⟨Tidy.init, Errors.init⟩ ?_
  rintro s a t ⟨hi, he⟩ hok hs
  exact ⟨hi.step hok.1 hs, he.step hi hok (step_cases hs)⟩

end Errors

/-! ### The fate of a call -/

/-- Call `b` of coroutine `i`, with session `n`, has failed or is queued to fail. -/
def Doomed (i n b : ℕ) (s : Sched) : Prop :=
  (i, b) ∈ s.failed ∨ (s.pcs i = .calling (.id n) b ∧ .id n ∈ s.errorQueue)

def Label.isMessage : Label → Bool
  | message _ => true
  | _ => false

theorem resume_failed {j : ℕ} (h : (j, b) ∈ s.failed) : (j, b) ∈ (s.resume i false).failed := by
  cases hpc : s.pcs i with
  | calling k c => simp [State.resume, hpc, h]
  | fresh _ | asleep _ _ _ _ | pooled | quit =>
    simpa [State.resume, hpc, State.setPc, State.suspendReturn] using h
  | poisoned | dead | running => simpa [State.resume, hpc, fail_toSched] using h

theorem calling_resume_failed {k : Key} (h : s.pcs i = .calling k b) :
    (i, b) ∈ (s.resume i false).failed := by
  simp [State.resume, h]

theorem Doomed.step {a : Label} {t : Sched} {n : ℕ} (h : Doomed i n b s.toSched)
    (hi : Tidy s.toSched) (he : Errors s.toSched) (hm : a.isMessage = false) (ha : Step s a t) :
    Doomed i n b t := by
  -- a coroutine in no call is resumed
  have hother {u : State} {j : ℕ} (hpcs : (u.resume j false).pcs = update s.pcs j .running)
      (hq : (u.resume j false).errorQueue = s.errorQueue) (hf : u.failed = s.failed)
      (hj : ∀ k c, s.pcs j ≠ .calling k c) : Doomed i n b (u.resume j false).toSched := by
    rcases h with h | ⟨hpc, hmem⟩
    · exact .inl (resume_failed (hf ▸ h))
    · exact .inr ⟨by rw [hpcs]; exact update_calling hj hpc, by rw [hq]; exact hmem⟩
  cases ha with
  | message => cases hm
  | @op o j _ hc ho =>
    have hw := ho.waits (hi.sane.threads_of hc)
    rcases h with h | ⟨hpc, hmem⟩
    · exact .inl (hw.failed ▸ h)
    · refine .inr ⟨hw.calling i _ b hpc, ?_⟩
      rcases hw.queue with hq | ⟨_, _, _, _, hq⟩
      · exact hq ▸ hmem
      · rw [hq]
        exact mem_append_left _ hmem
  | noWakeup | staleWakeup | noError | done | collect => exact h
  | wakes hc hq htok hb =>
    obtain ⟨j, timer, woken, b', hj, hb'⟩ := hi.woken htok
    rw [hb] at hb'
    cases hb'
    obtain ⟨-, hpcs, -, hqueue, -⟩ := hi.wakes_run _ hb
    exact hother hpcs hqueue rfl fun k c hk => by rw [hj] at hk; cases hk
  | wakeupRaises _ _ htok hb =>
    obtain ⟨j, _, _, b', -, hb'⟩ := hi.woken htok
    exact absurd hb' (hb j b')
  | tooLarge _ hq =>
    obtain ⟨_, _, _, _, ⟨⟩, -⟩ := he.head_calling hi hq
  | @fails rest m j c hc hq hb =>
    obtain ⟨-, hpcs, -, hqueue, -⟩ := hi.fails_run rest hb
    rcases h with h | ⟨hpc, hmem⟩
    · exact .inl (resume_failed h)
    · by_cases hij : i = j
      · subst hij
        refine .inl (calling_resume_failed (k := .id n) ?_)
        exact hpc
      · refine .inr ⟨by rw [hpcs, update_of_ne hij, hpc], ?_⟩
        rw [hq] at hmem
        rw [hqueue]
        refine (mem_cons.mp hmem).resolve_left fun hk => hij ?_
        -- two coroutines are not stored under one session
        cases hk
        obtain ⟨b', hb'⟩ := hi.held i n (by rw [hpc]; rfl)
        rw [hb] at hb'
        cases hb'
        rfl
  | errorRaises _ hq hb =>
    obtain ⟨_, j, _, b', ⟨⟩, -, hb'⟩ := he.head_calling hi hq
    exact absurd hb' (hb j b')
  | @forked j rest hc hq =>
    obtain ⟨-, hpcs, -, hqueue, -⟩ := hi.forked_run hq
    have hfresh := hi.linked.forks j (by rw [hq]; simp)
    exact hother hpcs hqueue rfl
      fun k c hk => by rw [hfresh] at hk; cases hk

theorem Doomed.of_error {t : State} {n h : ℕ} {order : List Key} (hi : Tidy s.toSched)
    (hpc : s.pcs i = .calling (.id n) b) (haddr : (.id n, .handle h) ∈ s.watchingSessionMap)
    (hs : s.step (.message (.error 0 h order)) = some t) : Doomed i n b t.toSched := by
  have ha := step_cases hs
  generalize t.toSched = t' at ha ⊢
  cases ha with
  | message hc hm =>
    have ht : Threads none s.toSched := hi.sane.threads_of hc
    cases hm with
    | @errors _ _ _ q hq hfresh =>
      rw [finish_toSched]
      refine .inr ⟨?_, mem_append_right _ ?_⟩
      · have hpc' := update_calling (p := s.nextPc) (next_not_calling ht) hpc
        refine update_calling (fun k c hk => ?_) hpc'
        replace hk : update s.pcs s.nextThread s.nextPc s.nextThread = .calling k c := hk
        rw [update_self, hi.linked.nextPc_fresh] at hk
        cases hk
      · rcases hq with ⟨-, -, hperm⟩ | ⟨h0, -⟩ | ⟨h0, -⟩
        · refine hperm.symm.subset (mem_map.mpr ⟨(.id n, .handle h), ?_, rfl⟩)
          exact mem_filter.mpr ⟨haddr, by simp⟩
        · exact absurd rfl h0
        · exact absurd rfl h0
    | errorsFail hdead =>
      replace hdead : s.nextPc = .dead := hdead
      rw [hi.linked.nextPc_fresh] at hdead
      cases hdead
    | unknown hm => exact absurd rfl (hm _ _ _)

/-- A call by handle `h` is resumed with failure while an error of service `h` is handled. -/
theorem failed_of_error {s s₁ t : State} {i n b h : ℕ} {order : List Key}
    (hs : service.ReachableVia State.Regular s) (hpc : s.pcs i = .calling (.id n) b)
    (haddr : (.id n, .handle h) ∈ s.watchingSessionMap)
    (hok : s.Regular (.message (.error 0 h order)))
    (hmsg : s.step (.message (.error 0 h order)) = some s₁)
    (hrun : (System.mk s₁ State.step).ReachableVia (fun u a => u.Regular a ∧ a.isMessage = false) t)
    (ht : t.control = .idle) : (i, b) ∈ t.failed := by
  obtain ⟨hi, he⟩ := Errors.of_reachable hs
  have h₁ := Errors.of_reachable (hs.next _ hok hmsg)
  have hinv : Tidy t.toSched ∧ Errors t.toSched ∧ Doomed i n b t.toSched := by
    refine hrun.invariant (I := fun t => Tidy t.toSched ∧ Errors t.toSched ∧ Doomed i n b t.toSched)
      ⟨h₁.1, h₁.2, Doomed.of_error hi hpc haddr hmsg⟩ ?_
    rintro u a v ⟨hu, hue, hud⟩ ⟨hok, ha⟩ huv
    have hstep := step_cases huv
    exact ⟨hu.step hok.1 huv, hue.step hu hok hstep, hud.step hu hue ha hstep⟩
  refine hinv.2.2.resolve_right fun ⟨_, hmem⟩ => ?_
  rcases hinv.2.1.drained (ne_nil_of_mem hmem) with hc | hf
  · rw [ht] at hc
    exact hc
  · exact hf (hinv.1.sane.idle ht)

/-- **A call by handle fails when its service dies**.  Request `e` waits in the queue `q` of a
service and is dropped when the queue is released.  Then the node has sent a message `r` to the
source of the request, and in every regular run of that source a coroutine that is in a call to
the handle of `q` when `r` arrives has been resumed with failure for this call when the handling
of `r` is over. -/
theorem call_to_dead_service_fails {N N' : Node.State} {q : ℕ} {e : Node.Queued}
    (hN : Node.node.Reachable N) (he : e ∈ (N.queues q).msgs)
    (hN' : (System.mk N Node.State.step).Reachable N') (hdrop : e ∈ N'.dropped)
    (hdone : ∀ (j : ℕ) (w : ℤ) (q h : ℕ), N'.acts[j]? ≠ some (.dropMessage w q h e)) :
    ∃ r ∈ N'.reported, r.id = e.id ∧ r.dst = e.msg.srcSvcHandle ∧
      ∀ (s s₁ t : State) (i n b : ℕ) (order : List Key),
        service.ReachableVia State.Regular s → s.pcs i = .calling (.id n) b →
        (.id n, .handle (N.queues q).svcHandle) ∈ s.watchingSessionMap →
        s.Regular (.message (.ofNode r.msg order)) →
        s.step (.message (.ofNode r.msg order)) = some s₁ →
        (System.mk s₁ State.step).ReachableVia (fun u a => u.Regular a ∧ a.isMessage = false) t →
        t.control = .idle → (i, b) ∈ t.failed := by
  refine ⟨_, Node.dropped_request_answered hN he hN' hdrop hdone, rfl, rfl, ?_⟩
  intro s s₁ t i n b order hs hpc haddr hok hmsg hrun ht
  exact failed_of_error hs hpc haddr hok hmsg hrun ht

/-- A request of service 7 with session 2. -/
def request : Node.Message := ⟨7, 2, .reservedLua⟩

/-- The request is pushed to the queue of service 1. -/
def requestRun : List Node.Action :=
  List.flatten [[.start .createService], replicate 6 (.run 0 true),
    [.start (.pushServiceMessage 1 request)], replicate 3 (.run 1 true)]

/-- Service 1 is unregistered, and a worker releases its queue. -/
def dropRun : List Node.Action :=
  List.flatten [[.start (.unregisterService 1)], replicate 4 (.run 2 true),
    [.start (.worker (-1))], replicate 8 (.run 3 true)]

/-- The first coroutine of a service calls `addr`. -/
def callRun (addr : Addr) : List Label :=
  [.message (.response 1), .op (.call addr .accepted), .next, .next, .next]

/-- Service 7 has called service 1 by its handle. -/
theorem call_to_dead_service_fails_by_handle : ∃ (r : Node.Report) (s t : State),
    r = ⟨0, 7, ⟨1, 0, .error⟩⟩ ∧ service.ReachableVia State.Regular s ∧
    s.pcs 0 = .calling (.id 2) 2 ∧ (0, 2) ∈ t.failed := by
  obtain ⟨N, hN, he, hh, hrest⟩ := Node.node.exists_reachable (fun _ _ => True) requestRun
    (fun N => (⟨0, request⟩ : Node.Queued) ∈ (N.queues 0).msgs ∧ (N.queues 0).svcHandle = 1 ∧
      (((System.mk N Node.State.step).execVia (fun _ _ => True) N dropRun).any fun N' =>
        decide (⟨0, request⟩ ∈ N'.dropped ∧ N'.reported = [⟨0, 7, ⟨1, 0, .error⟩⟩] ∧
          ∀ p ∈ N'.acts, p.releases = none)) = true) (by decide +kernel)
  obtain ⟨N', hN', hrest⟩ := (Option.any_eq_true _ _).mp hrest
  obtain ⟨hdrop, hrep, hdone⟩ := of_decide_eq_true hrest
  obtain ⟨r, hr, -, -, hfail⟩ := call_to_dead_service_fails hN he
    (System.ReachableVia.init.execVia hN') hdrop fun j w q h hj => by
      cases hdone _ (mem_of_getElem? hj)
  rw [hrep, mem_singleton] at hr
  subst hr
  obtain ⟨s, hs, hpc, haddr, hok, hrest⟩ := service.exists_reachable State.Regular
    (callRun (.handle 1))
    (fun s => s.pcs 0 = .calling (.id 2) 2 ∧ (.id 2, .handle 1) ∈ s.watchingSessionMap ∧
      s.Regular (.message (.error 0 1 [.id 2])) ∧
      (((s.step (.message (.error 0 1 [.id 2]))).any fun s₁ =>
        ((System.mk s₁ State.step).execVia (fun u a => u.Regular a ∧ a.isMessage = false) s₁
          [.next, .next, .op .finish, .next, .next, .next]).any fun t =>
            decide (t.control = .idle)) = true)) (by decide +kernel)
  obtain ⟨s₁, hmsg, hrest⟩ := (Option.any_eq_true _ _).mp hrest
  obtain ⟨t, hrun, ht⟩ := (Option.any_eq_true _ _).mp hrest
  exact ⟨_, s, t, rfl, hs, hpc, hfail s s₁ t 0 2 2 [.id 2] hs hpc (hh ▸ haddr) hok hmsg
    (System.ReachableVia.init.execVia hrun) (of_decide_eq_true ht)⟩

/-- The same call by the name of service 1: after the error is handled, the coroutine is still
suspended and no coroutine has been told of a failure. -/
theorem named_call_left_suspended : ∃ s,
    service.exec State.init
      (callRun (.name ".db") ++ [.message (.ofNode ⟨1, 0, .error⟩ []), .next, .next, .next]) =
        some s ∧
    s.control = .idle ∧ s.pcs 0 = .calling (.id 2) 2 ∧ s.errorQueue = [] ∧ s.failed = [] :=
  service.exists_exec _ (fun s => s.control = .idle ∧ s.pcs 0 = .calling (.id 2) 2 ∧
    s.errorQueue = [] ∧ s.failed = []) (by decide +kernel)

end Service

end Skynet
