import Skynet.NodePlacement

/-! # What becomes of accepted messages

Every message that `push_service_message` accepts is numbered (`accepted`).  It is in one
queue, or has been taken out for dispatch, or has been taken out to be dropped, and this
exactly once (`Ledger`); a dropped message is reported to its source with an error message.

A queue with messages in it is linked, held by a worker or under construction, with one
exception: when `init` of a service fails, `create_service` lets go of the queue, and nobody
pops what is in it or is pushed to it afterwards.  `State.Attentive` is the condition that this
does not happen; under it all messages are accounted for. -/

namespace Skynet.Node

open List Function ThreadPool Transition State

/-- How often message `m` stands in a queue. -/
def MqPrivate.waiting (x : MqPrivate) (m : ℕ) : ℕ := (x.msgs.map (·.id)).count m

namespace State

/-- How often message `m` stands in the queues. -/
def waiting (s : State) (m : ℕ) : ℕ := ∑ q ∈ Finset.range s.nq, (s.queues q).waiting m

/-- How often message `m` was taken out to be dropped. -/
def droppedCount (s : State) (m : ℕ) : ℕ := (s.dropped.map (·.id)).count m

/-- `drop_message` has sent an error to the source of `e`. -/
def Reported (s : State) (e : Queued) : Prop :=
  ∃ r ∈ s.reported, r.id = e.id ∧ r.dst = e.msg.srcSvcHandle ∧ r.msg.type = .error

variable {s t : State} {q : ℕ}

theorem waiting_congr (hnq : t.nq = s.nq) (hq : ∀ q, (t.queues q).msgs = (s.queues q).msgs)
    (m : ℕ) : t.waiting m = s.waiting m := by
  unfold waiting MqPrivate.waiting
  rw [hnq]
  exact Finset.sum_congr rfl fun q _ => by rw [hq]

theorem waiting_setQueue {x : MqPrivate} (hnq : t.nq = s.nq) (hlt : q < s.nq)
    (hq : t.queues = (s.setQueue q x).queues) (m : ℕ) :
    t.waiting m + (s.queues q).waiting m = s.waiting m + x.waiting m := by
  have hmem : q ∈ Finset.range s.nq := Finset.mem_range.mpr hlt
  obtain ⟨hself, hother⟩ := s.setQueue_queues q x
  have hrest : ∑ d ∈ (Finset.range s.nq).erase q, (t.queues d).waiting m =
      ∑ d ∈ (Finset.range s.nq).erase q, (s.queues d).waiting m := by
    refine Finset.sum_congr rfl fun d hd => ?_
    rw [hq, hother d (Finset.ne_of_mem_erase hd)]
  unfold waiting
  rw [hnq, ← Finset.add_sum_erase _ _ hmem, ← Finset.add_sum_erase (Finset.range s.nq) _ hmem, hrest,
    hq, hself]
  omega

theorem waiting_createQueue (s : State) (i c m : ℕ) : (s.createQueue i c).waiting m = s.waiting m := by
  obtain ⟨hnew, hold⟩ := s.createQueue_queues i c
  have hempty : ((s.createQueue i c).queues s.nq).waiting m = 0 := by
    rw [hnew]
    rfl
  unfold waiting
  rw [show (s.createQueue i c).nq = s.nq + 1 from rfl, Finset.sum_range_succ, hempty, add_zero]
  refine Finset.sum_congr rfl fun d hd => ?_
  rw [hold d (Finset.mem_range.mp hd).ne]

end State

/-! ### The ledger -/

/-- Every accepted message is accounted for once. -/
structure Ledger (s : State) : Prop where
  once : ∀ m, s.waiting m + s.dispatched.count m + s.droppedCount m = if m < s.accepted then 1 else 0
  reported : ∀ e ∈ s.dropped, s.Reported e ∨
    ∃ (j : ℕ) (w : ℤ) (q h : ℕ), s.acts[j]? = some (.dropMessage w q h e)

namespace Ledger

variable {s t : State} {i : ℕ} {p p' : Pc} {c q : ℕ}

theorem init : Ledger State.init where
  once m := by simp [State.init, State.waiting, State.droppedCount]
  reported e h := by simp [State.init] at h

variable (h : Ledger s)

include h

theorem crash (f : Fault) : Ledger (s.crash f) := ⟨h.once, h.reported⟩

theorem reported_set (hp : s.acts[i]? = some p) (hacts : t.acts = s.acts.set i p')
    (hrep : ∃ l, t.reported = s.reported ++ l)
    (hne : ∀ w q k e, p = .dropMessage w q k e → t.Reported e) : ∀ e ∈ s.dropped, t.Reported e ∨
      ∃ (j : ℕ) (w : ℤ) (q h : ℕ), t.acts[j]? = some (.dropMessage w q h e) := by
  intro e he
  obtain ⟨l, hl⟩ := hrep
  rcases h.reported e he with ⟨r, hr, hre⟩ | ⟨j, w, q, k, hj⟩
  · exact .inl ⟨r, by rw [hl]; exact mem_append_left _ hr, hre⟩
  · by_cases hji : j = i
    · rw [hji, hp] at hj
      exact .inl (hne w q k e (Option.some.inj hj))
    · refine .inr ⟨j, w, q, k, ?_⟩
      rw [hacts, getElem?_set_ne (Ne.symm hji)]
      exact hj

theorem quiet (hp : s.acts[i]? = some p) (hacts : t.acts = s.acts.set i p')
    (hm : ∀ m, t.waiting m = s.waiting m) (hacc : t.accepted = s.accepted)
    (hdis : t.dispatched = s.dispatched) (hdrop : t.dropped = s.dropped)
    (hrep : t.reported = s.reported) (hne : ∀ w q k e, p ≠ .dropMessage w q k e) : Ledger t := by
  refine ⟨fun m => ?_, ?_⟩
  · rw [hm, hacc, hdis, droppedCount, hdrop]
    exact h.once m
  · rw [hdrop]
    exact h.reported_set hp hacts ⟨[], by rw [hrep, append_nil]⟩
      fun w q k e he => absurd he (hne w q k e)

theorem accepted {msg : Message} {k : After} (hp : s.acts[i]? = some (.push c msg k))
    (hlt : q < s.nq) (hacts : t.acts = s.acts.set i (.release c k))
    (hq : t.queues = (s.accept q msg).queues) (hnq : t.nq = s.nq)
    (hacc : t.accepted = s.accepted + 1) (hdis : t.dispatched = s.dispatched)
    (hdrop : t.dropped = s.dropped) (hrep : t.reported = s.reported) : Ledger t := by
  refine ⟨fun m => ?_, ?_⟩
  · have hw := waiting_setQueue hnq hlt hq m
    have hold := h.once m
    simp only [MqPrivate.waiting, map_append, map_cons, map_nil, count_append,
      count_singleton, beq_iff_eq] at hw
    rw [hacc, hdis, droppedCount, hdrop]
    unfold droppedCount at hold
    split_ifs at hw hold ⊢ <;> omega
  · rw [hdrop]
    exact h.reported_set hp hacts ⟨[], by rw [hrep, append_nil]⟩ nofun

/-- A message is taken out of queue `q` and entered once. -/
theorem once_taken {e : Queued} {rest : List Queued} (hm : (s.queues q).msgs = e :: rest)
    (hlt : q < s.nq) (hq : t.queues = (s.setQueue q { s.queues q with msgs := rest }).queues)
    (hnq : t.nq = s.nq) (hacc : t.accepted = s.accepted)
    (hcount : ∀ m, t.dispatched.count m + t.droppedCount m =
      s.dispatched.count m + s.droppedCount m + if e.id = m then 1 else 0) (m : ℕ) :
    t.waiting m + t.dispatched.count m + t.droppedCount m = if m < t.accepted then 1 else 0 := by
  have hw := waiting_setQueue hnq hlt hq m
  simp only [MqPrivate.waiting, hm, map_cons, count_cons, beq_iff_eq] at hw
  have hc := hcount m
  rw [hacc, ← h.once m]
  omega

/-- **The ledger** is kept by every step of a thread. -/
theorem effect {strict : Prop} {l : List ℕ} (ho : Owners s) (hr : Refs s) (hpl : Placed strict s l)
    {ok : Bool} (hp : s.acts[i]? = some p) (ht : Effect s i ok p t) : Ledger t := by
  cases ht with
  | control hc | grabbed _ hc | linked hc _ | unlinked hc _ =>
    refine h.quiet hp rfl (fun _ => rfl) rfl rfl rfl rfl fun w q k e he => ?_
    subst he
    cases hc
  | crash _ => exact h.crash _
  | released | lastReleased | deleted | registered | stored | unregistered =>
    exact h.quiet hp rfl (fun _ => rfl) rfl rfl rfl rfl nofun
  | built c => exact h.quiet hp rfl (s.waiting_createQueue i c) rfl rfl rfl rfl nofun
  | marked | markedIdle | initFailed | emptied | dropEmptied | queueDeleted =>
    exact h.quiet hp rfl (waiting_congr rfl (setQueue_field (·.msgs) rfl)) rfl rfl rfl
      rfl nofun
  | accepted hq _ | acceptedIdle hq _ _ =>
    exact h.accepted hp (hpl.pushed ho hr hp hq).1 rfl rfl rfl rfl rfl rfl rfl
  | @taken w q c j n p' e rest hm hp' =>
    have ha := hpl.alive_of_holds hp (q := q) (by simp [Pc.holds, Pc.held])
    refine ⟨h.once_taken hm (hpl.lt_nq ha) rfl rfl rfl fun m => ?_,
      h.reported_set hp rfl ⟨[], (append_nil _).symm⟩ nofun⟩
    show (s.dispatched ++ [e.id]).count m + s.droppedCount m = _
    rw [count_append, count_singleton]
    simp only [beq_iff_eq]
    omega
  | @dropTaken w q k e rest hm =>
    have ha := hpl.alive_of_holds hp (q := q) (by simp [Pc.holds, Pc.held])
    refine ⟨h.once_taken hm (hpl.lt_nq ha) rfl rfl rfl fun m => ?_, fun e' he' => ?_⟩
    · show s.dispatched.count m + ((s.dropped ++ [e]).map (·.id)).count m = _
      rw [map_append, count_append, map_singleton, count_singleton]
      simp only [beq_iff_eq, droppedCount]
      omega
    · rcases mem_append.mp he' with he' | he'
      · exact h.reported_set (t := { s.setQueue q { s.queues q with msgs := rest } with
          dropped := s.dropped ++ [e] }.goto i (.dropMessage w q k e)) hp rfl
          ⟨[], (append_nil _).symm⟩ nofun e' he'
      · rw [mem_singleton.mp he']
        exact .inr ⟨i, w, q, k, getElem?_set_self (List.getElem?_eq_some_iff.mp hp).1⟩
  | @reported w q k e p' hk hp' =>
    refine ⟨h.once, h.reported_set hp rfl ⟨_, rfl⟩ fun w' q' k' e' he => ?_⟩
    cases he
    exact ⟨_, mem_append_right _ (mem_singleton_self _), rfl, rfl, rfl⟩

theorem start (task : Task) : Ledger (s.start task) := by
  have hlast : ∀ (j : ℕ) (r p : Pc), s.acts[j]? = some r → (s.acts ++ [p])[j]? = some r :=
    fun j r p hj => by
      rw [getElem?_append_left (List.getElem?_eq_some_iff.mp hj).1]
      exact hj
  cases task <;> refine ⟨h.once, fun e he => ?_⟩ <;>
    rcases h.reported e he with hr | ⟨j, w, q, k, hj⟩
  all_goals first
    | exact .inl hr
    | exact .inr ⟨j, w, q, k, hlast j _ _ hj⟩

omit h

end Ledger

/-! ### Attentive runs -/

namespace State

/-- In this step no `init` fails while messages wait in the queue of the service, and nothing
is pushed to the queue of a service whose `init` failed. -/
def Attentive (s : State) : Action → Prop
  | .start _ => True
  | .run i ok =>
    match s.acts[i]? with
    | some (.init _ q) => ok = true ∨ (s.queues q).msgs = []
    | some (.push c _ _) => ∀ q, (s.ctxs c).queue = some q → (s.queues q).failed = false
    | _ => True

/-- Every accepted message is waiting in a queue that is linked, held by a worker or under
construction, or was taken out for dispatch, or was taken out to be dropped, exactly once; and
the source of a dropped message is sent an error. -/
def Accounted (s : State) : Prop :=
  ∃ l, IntrusiveQueue.Represents s.mqGlobal l ∧
    (∀ m < s.accepted, s.waiting m + s.dispatched.count m + s.droppedCount m = 1) ∧
    (∀ q, (s.queues q).msgs ≠ [] → (s.queues q).alive = true ∧
      l.count q + total (Pc.held q) s.acts + total (Pc.building q) s.acts = 1) ∧
    ∀ e ∈ s.dropped, s.Reported e ∨
      ∃ (j : ℕ) (w : ℤ) (q h : ℕ), s.acts[j]? = some (.dropMessage w q h e)

end State

/-- The invariant of attentive runs. -/
structure Attended (s : State) : Prop where
  sane : Sane False s
  ledger : Ledger s
  empty : ∀ q, (s.queues q).failed = true → (s.queues q).msgs = []

namespace Attended

variable {s t : State} {i : ℕ} {p : Pc}

theorem init : Attended State.init := ⟨Sane.init, Ledger.init, nofun⟩

/-- The queue of a service whose `init` failed stays empty. -/
theorem empty_effect (h : ∀ q, (s.queues q).failed = true → (s.queues q).msgs = []) {ok : Bool}
    (hp : s.acts[i]? = some p) (ht : Effect s i ok p t) (ha : s.Attentive (.run i ok)) :
    ∀ q, (t.queues q).failed = true → (t.queues q).msgs = [] := by
  have hset : ∀ {q x}, (x.failed = true → x.msgs = []) →
      ∀ d, ((s.setQueue q x).queues d).failed = true → ((s.setQueue q x).queues d).msgs = [] := by
    intro q x hx
    exact setQueue_forall (P := fun _ y => y.failed = true → y.msgs = []) hx h
  simp only [State.Attentive, hp] at ha
  cases ht with
  | initFailed hok =>
    refine hset fun _ => ?_
    rcases ha with ha | ha
    · rw [ha] at hok
      cases hok
    · exact ha
  | accepted hq _ | acceptedIdle hq _ _ =>
    refine hset fun hf => ?_
    have hf' := ha _ hq
    rw [hf'] at hf
    cases hf
  | taken hm _ | dropTaken hm =>
    refine hset fun hf => ?_
    have := h _ hf
    rw [hm] at this
    cases this
  | built c =>
    exact hset nofun
  | marked | markedIdle | emptied | dropEmptied | queueDeleted => exact hset (h _)
  | _ => exact h

theorem step (s : State) (a : Action) (t : State) (h : Attended s) (ha : s.Attentive a)
    (hs : s.step a = some t) : Attended t := by
  obtain ⟨l, hl⟩ := h.sane.placed
  obtain ⟨_, ⟨task, rfl, rfl⟩ | ⟨i, ok, p, rfl, hp, ht⟩⟩ := step_cases hs
  · refine ⟨h.sane.start task, h.ledger.start task, ?_⟩
    cases task <;> exact h.empty
  · exact ⟨h.sane.effect hp ht nofun, h.ledger.effect h.sane.owners h.sane.refs hl hp ht,
      empty_effect h.empty hp ht ha⟩

theorem accounted (h : Attended s) : s.Accounted := by
  obtain ⟨l, hl⟩ := h.sane.placed
  refine ⟨l, hl.rep, fun m hm => ?_, fun q hne => ?_, h.ledger.reported⟩
  · rw [h.ledger.once m, if_pos hm]
  · have hfine := hl.fine q
    have ha : (s.queues q).alive = true := by
      by_contra hd
      exact hne (hfine.dead (by simpa using hd)).2
    have hg : (s.queues q).isInGlobal = true := by
      by_contra hg
      exact hne (hfine.msgs_nil (by simpa using hg))
    have hf : (s.queues q).failed = false := by
      by_contra hf
      exact hne (h.empty q (by simpa using hf))
    have hsum : total (Pc.holds q) s.acts =
        total (Pc.held q) s.acts + total (Pc.building q) s.acts := total_add _ _ _
    have hone := hfine.active ha hg hf
    exact ⟨ha, by omega⟩

end Attended

/-- **No accepted message is lost** in a run in which no `init` fails over waiting messages and
nothing is pushed to a service whose `init` failed. -/
theorem accepted_messages_accounted {s : State} (h : node.ReachableVia State.Attentive s) :
    s.Accounted :=
  (h.invariant Attended.init Attended.step).accounted

/-- A message pushed to a service that is still being built. -/
theorem accepted_messages_accounted_one : ∃ s, node.ReachableVia State.Attentive s ∧
    s.accepted = 1 ∧ (s.queues 0).msgs = [⟨0, ⟨7, 5, .reservedLua⟩⟩] ∧
    s.Accounted := by
  have h0 : node.ReachableVia State.Attentive init := .init
  have h7 := h0.next (.start .createService) trivial rfl |>.next (.run 0 true) trivial rfl
    |>.next (.run 0 true) trivial rfl |>.next (.run 0 true) trivial rfl
    |>.next (.start (.pushServiceMessage 1 ⟨7, 5, .reservedLua⟩)) trivial rfl
    |>.next (.run 1 true) trivial rfl |>.next (.run 1 true) (fun q hq => by cases hq; rfl) rfl
  exact ⟨_, h7, rfl, rfl, accepted_messages_accounted h7⟩

/-- A message sent to a service while its `init` runs, which then fails. -/
def failedInitRun : List Action :=
  [.start .createService, .run 0 true, .run 0 true, .run 0 true,
    .start (.pushServiceMessage 1 ⟨7, 5, .reservedLua⟩), .run 1 true, .run 1 true, .run 1 true,
    .run 0 false, .run 0 true, .run 0 true, .run 0 true, .run 0 true, .run 0 true]

/-- After a failed `init` a message waits in a queue that nobody will pop: all threads have
finished and the global queue is empty. -/
theorem failed_init_strands_message : ∃ s, node.exec State.init failedInitRun = some s ∧
    s.acts = [.finished, .finished] ∧ s.mqGlobal.head = none ∧
    (s.queues 0).msgs = [⟨0, ⟨7, 5, .reservedLua⟩⟩] ∧ ¬ s.Accounted := by
  refine ⟨_, rfl, rfl, rfl, rfl, ?_⟩
  rintro ⟨l, hrep, _, hq, _⟩
  have hl : l = [] := by
    cases l with
    | nil => rfl
    | cons x l => exact absurd hrep.chain.1 nofun
  have h := (hq 0 nofun).2
  rw [hl] at h
  exact absurd h (by decide)

end Skynet.Node
