import Skynet.ClusterClient

/-! # The task queues of the cluster client

`request_sender` hands over to each coroutine of its queue with `skynet.wakeup(thread)` and
`skynet.wait(thread)`, where `thread` is the loop variable: it goes to sleep on the token on which
the coroutine in `get_sender` still sleeps.  The assertion of `suspend_sleep` ends
`request_sender`, and the queue is never removed (`queued_calls_left_suspended`).

A queue into which only `cluster.send` puts is worked off (`cluster_queue_drained`). -/

namespace Skynet

open List Function Transition Option

/-! ### What a step leaves to other coroutines -/

namespace Service

/-- The coroutines of `fork_queue` stay there and those in `skynet.call` too, or they are
resumed. -/
structure Follows (s t : Sched) : Prop where
  forked : ∀ j ∈ s.forkQueue, j ∈ t.forkQueue ∨ t.control = .run j
  calling : ∀ j k b, s.pcs j = .calling k b → t.pcs j = .calling k b ∨ t.control = .run j

namespace Follows

variable {s : State} {t : Sched} {i : ℕ}

/-- Coroutine `i` is resumed. -/
theorem of_run {s : Sched} (hrun : t.control = .run i) (hpcs : t.pcs = update s.pcs i .running)
    (hforks : ∀ j ∈ s.forkQueue, j = i ∨ j ∈ t.forkQueue) : Follows s t where
  forked j hj := by
    rcases hforks j hj with rfl | hj
    · exact .inr hrun
    · exact .inl hj
  calling j k b hj := by
    by_cases hji : j = i
    · subst hji
      exact .inr hrun
    · rw [hpcs, update_of_ne hji]
      exact .inl hj

theorem of_calls {o : Op} (hexit : o ≠ .exit) (ht : Threads (some i) s.toSched)
    (ho : Calls s i o t) : Follows s.toSched t := by
  refine ⟨fun j hj => .inl ?_, fun j k b hj => .inl ((ho.waits ht).calling j k b hj)⟩
  cases ho with
  | quiet | newSession | call | callTooLarge | term => exact hj
  | fork => exact mem_append_left _ hj
  | wakeup htok =>
    simp only [State.wakeup, if_neg htok]
    exact hj
  | timeout =>
    unfold State.timeout
    split_ifs <;> exact hj
  | wait | sleep =>
    unfold State.suspendSleep
    split_ifs <;> exact hj
  | exit => exact absurd rfl hexit
  | finish =>
    rw [finish_toSched]
    exact hj
  | fail =>
    rw [fail_toSched]
    exact mem_append_left _ hj

theorem of_receives {m : Message} (hl : Linked s.toSched) (hheld : Held s.toSched)
    (ht : Threads none s.toSched) (hm : Receives s m t) : Follows s.toSched t := by
  have hcreate : ∀ j k b, s.pcs j = .calling k b → s.coCreate.pcs j = .calling k b :=
    fun j k b hj => update_calling (next_not_calling ht) hj
  cases hm with
  | broken | unknown => exact ⟨fun _ => .inl, fun _ _ _ => .inl⟩
  | @resumed n i b he =>
    have hrun := (hl.received hheld he).2
    obtain ⟨hpcs, -, -, hforks⟩ := resume_run hrun
    exact of_run hrun hpcs fun j hj => .inr (hforks ▸ hj)
  | started =>
    have hrun := (hl.started hheld ht).2
    obtain ⟨hpcs, -, -, hforks⟩ := resume_run hrun
    have := of_run hrun hpcs fun j hj => .inr (hforks ▸ hj)
    exact ⟨this.forked, fun j k b hj => this.calling j k b (hcreate j k b hj)⟩
  | notUnpacked => exact ⟨fun _ => .inl, fun j k b hj => .inl (hcreate j k b hj)⟩
  | errors =>
    rw [finish_toSched]
    refine ⟨fun _ => .inl, fun j k b hj => .inl (update_calling (fun k' b' h' => ?_) (hcreate j k b hj))⟩
    rw [hl.coCreate_next] at h'
    cases h'
  | errorsFail hdead =>
    rw [hl.nextPc_fresh] at hdead
    cases hdead

theorem step {a : Label} (h : Tidy s.toSched) (hexit : a ≠ .op .exit) (ha : Step s a t) :
    Follows s.toSched t := by
  cases ha with
  | message hc hm =>
    have ht : Threads none s.toSched := h.sane.threads_of hc
    have hl := h.linked
    have := of_receives (s := { s with failed := [] })
      { hl with } h.held
      { ht with } hm
    exact ⟨this.forked, this.calling⟩
  | op hc ho =>
    exact of_calls (fun he => hexit (by rw [he])) (h.sane.threads_of hc) ho
  | noWakeup | staleWakeup | wakeupRaises | errorRaises | noError | tooLarge | done | collect =>
    exact ⟨fun _ => .inl, fun _ _ _ => .inl⟩
  | @wakes token rest n i b hc hq htok he =>
    obtain ⟨hrun, hpcs, -, -, hforks⟩ := h.wakes_run rest he
    exact of_run hrun hpcs fun j hj => .inr (hforks ▸ hj)
  | @fails rest n i b hc hq he =>
    obtain ⟨hrun, hpcs, -, -, hforks⟩ := h.fails_run rest he
    exact of_run hrun hpcs fun j hj => .inr (hforks ▸ hj)
  | forked hc hq =>
    obtain ⟨hrun, hpcs, -, -, hforks⟩ := h.forked_run hq
    refine of_run hrun hpcs fun j hj => ?_
    rw [hq] at hj
    rw [hforks]
    exact mem_cons.mp hj

end Follows

end Service

namespace ClusterClient

open Service

variable {π : Type}

namespace Frame

/-- The queue the coroutine works for. -/
def queue : Frame π → ℕ
  | requestSender q | asking q | serving q _ | handing q _ | getSender q _ => q

/-- Where the coroutine is. -/
def At (svc : Sched) (i : ℕ) : Frame π → Prop
  | requestSender _ => i ∈ svc.forkQueue ∨ svc.control = .run i
  | asking _ => (∃ k b, svc.pcs i = .calling k b) ∨ svc.control = .run i
  | serving _ _ => svc.control = .run i
  | handing _ _ | getSender _ _ => False

/-- The tasks of the queue that have been done. -/
def served (x : Queue π) : Frame π → List (Task π)
  | serving _ k => if x.sender = none then [] else x.tasks.take k
  | _ => []

theorem At.follows {s t : Sched} {i : ℕ} {f : Frame π} (h : f.At s i) (hf : Follows s t)
    (hrun : s.control = .run i → t.control = .run i) : f.At t i := by
  cases f with
  | requestSender q => exact h.elim (hf.forked i) fun hc => .inr (hrun hc)
  | asking q =>
    rcases h with ⟨k, b, hk⟩ | hc
    · exact (hf.calling i k b hk).imp_left fun hk => ⟨k, b, hk⟩
    · exact .inr (hrun hc)
  | serving q k => exact hrun h
  | handing q k | getSender q msg => exact h.elim

/-- A coroutine in `cluster.lua` is not taken by `co_create`. -/
theorem At.ne_next {s : Sched} {i : ℕ} {f : Frame π} (h : f.At s i) (hs : Tidy s) :
    i ≠ s.nextThread := by
  refine hs.sane.threads.ne_next ?_
  have hrun (hc : s.control = .run i) : ¬ (s.pcs i).Parked := by
    rw [hs.sane.running hc]
    exact id
  cases f with
  | requestSender q =>
    refine h.elim (fun hf => ?_) hrun
    rw [hs.linked.forks i hf]
    exact id
  | asking q =>
    refine h.elim (fun ⟨k, b, hk⟩ => ?_) hrun
    rw [hk]
    exact id
  | serving q k => exact hrun h
  | handing q k | getSender q msg => exact h.elim

end Frame

/-- Every queue in `task_queue` has one coroutine that works for it, and what was sent from a
queue are its tasks in order: as many as the coroutine has done, or all when it has finished and
got a sender. -/
structure Ledger (a : Tables π) : Prop where
  queued : ∀ i f, a.frames i = some f →
    f.queue < a.nqueues ∧ a.taskQueue (a.queues f.queue).node = some f.queue
  framed : ∀ node q, a.taskQueue node = some q →
    q < a.nqueues ∧ (a.queues q).node = node ∧ ∃ i f, a.frames i = some f ∧ f.queue = q
  unique : ∀ i j f g, a.frames i = some f → a.frames j = some g → f.queue = g.queue → i = j
  sends : ∀ q, ∀ x ∈ (a.queues q).tasks, ∃ msg, x = .send msg
  served : ∀ i f, a.frames i = some f →
    (a.issuedFrom f.queue).map .send = f.served (a.queues f.queue)
  finished : ∀ q < a.nqueues, (∀ i f, a.frames i = some f → f.queue ≠ q) →
    (a.queues q).sender ≠ none → (a.issuedFrom q).map .send = (a.queues q).tasks
  addressed : ∀ x ∈ a.issued, ∀ q, x.queue = some q →
    q < a.nqueues ∧ (a.queues q).sender = some x.sender

namespace Ledger

variable {a b : Tables π} {i : ℕ} {f g : Frame π}

theorem replace (h : Ledger a) (hi : a.frames i = some f) (hg : g.queue = f.queue)
    (hframes : b.frames = update a.frames i (some g)) (htask : b.taskQueue = a.taskQueue)
    (hn : b.nqueues = a.nqueues) (hqueues : ∀ q, q ≠ f.queue → b.queues q = a.queues q)
    (hnode : (b.queues f.queue).node = (a.queues f.queue).node)
    (hsends : ∀ x ∈ (b.queues f.queue).tasks, ∃ msg, x = .send msg)
    (hissued : ∀ q, q ≠ f.queue → b.issuedFrom q = a.issuedFrom q)
    (hserved : (b.issuedFrom f.queue).map .send = g.served (b.queues f.queue))
    (haddr : ∀ x ∈ b.issued, ∀ q, x.queue = some q →
      q < b.nqueues ∧ (b.queues q).sender = some x.sender) : Ledger b := by
  have hnodes : ∀ q, (b.queues q).node = (a.queues q).node := by
    intro q
    by_cases hq : q = f.queue
    · rw [hq, hnode]
    · rw [hqueues q hq]
  -- a frame of the new tables is one of the old ones, for the same queue
  have hold : ∀ j f', b.frames j = some f' → ∃ f₀, a.frames j = some f₀ ∧ f₀.queue = f'.queue := by
    intro j f' hj
    rcases update_cases (hframes ▸ hj) with ⟨rfl, ⟨⟩⟩ | ⟨-, hj⟩
    · exact ⟨f, hi, hg.symm⟩
    · exact ⟨f', hj, rfl⟩
  have hnew : ∀ j f₀, a.frames j = some f₀ → ∃ f', b.frames j = some f' ∧ f'.queue = f₀.queue := by
    intro j f₀ hj
    rw [hframes]
    by_cases hji : j = i
    · subst hji
      cases hi.symm.trans hj
      exact ⟨g, update_self _ _ _, hg⟩
    · exact ⟨f₀, by rw [update_of_ne hji, hj], rfl⟩
  refine ⟨fun j f' hj => ?_, fun node q hq => ?_, fun j k f₁ f₂ hj hk he => ?_, fun q => ?_,
    fun j f' hj => ?_, fun q hq hnone hsender => ?_, haddr⟩
  · obtain ⟨f₀, hf₀, he⟩ := hold j f' hj
    rw [hn, htask, hnodes, ← he]
    exact h.queued j f₀ hf₀
  · rw [htask] at hq
    obtain ⟨h1, h2, j, f₀, hj, hq'⟩ := h.framed node q hq
    obtain ⟨f', hf', he⟩ := hnew j f₀ hj
    rw [hn, hnodes]
    exact ⟨h1, h2, j, f', hf', he.trans hq'⟩
  · obtain ⟨g₁, hg₁, he₁⟩ := hold j f₁ hj
    obtain ⟨g₂, hg₂, he₂⟩ := hold k f₂ hk
    exact h.unique j k g₁ g₂ hg₁ hg₂ (by rw [he₁, he₂, he])
  · by_cases hq : q = f.queue
    · rw [hq]
      exact hsends
    · rw [hqueues q hq]
      exact h.sends q
  · rcases update_cases (hframes ▸ hj) with ⟨rfl, ⟨⟩⟩ | ⟨hji, hj⟩
    · rw [hg]
      exact hserved
    · have hq : f'.queue ≠ f.queue := fun he => hji (h.unique j i f' f hj hi he)
      rw [hissued _ hq, hqueues _ hq]
      exact h.served j f' hj
  · have hq' : q ≠ f.queue := by
      rintro rfl
      exact hnone i g (by rw [hframes, update_self]) hg
    rw [hqueues q hq'] at hsender ⊢
    rw [hissued q hq']
    refine h.finished q (hn ▸ hq) (fun j f₀ hj => ?_) hsender
    obtain ⟨f', hf', he⟩ := hnew j f₀ hj
    exact he ▸ hnone j f' hf'

variable {s : State π}

theorem insert (h : Ledger s.toTables) {node : String} {q : ℕ} (hq : s.taskQueue node = some q)
    (hidle : ∀ i k, s.frames i ≠ some (.serving q k)) (msg : π) :
    Ledger (s.insert q (.send msg)).toTables := by
  obtain ⟨hlt, hnode, i, f, hi, rfl⟩ := h.framed node q hq
  have hserved := h.served i f hi
  have hnil : ∀ x : Queue π, f.served x = [] := by
    intro x
    cases f with
    | serving q k => exact absurd hi (hidle i k)
    | _ => rfl
  refine h.replace hi rfl (update_eq_self_iff.mpr hi.symm).symm rfl rfl
    (fun q hq => update_of_ne hq _ _) ?_ ?_ (fun _ _ => rfl) ?_ fun x hx q hxq => ?_
  · simp [State.insert, State.setQueue]
  · intro x hx
    simp only [State.insert, State.setQueue, update_self, mem_append,
      mem_singleton] at hx
    exact hx.elim (h.sends _ x) fun hx => ⟨msg, hx⟩
  · rw [hnil] at hserved ⊢
    exact hserved
  · obtain ⟨h1, h2⟩ := h.addressed x hx q hxq
    refine ⟨h1, ?_⟩
    by_cases hqf : q = f.queue
    · subst hqf
      simpa [State.insert, State.setQueue] using h2
    · simpa [State.insert, State.setQueue, hqf] using h2

/-- `get_queue`, with coroutine `i` for the new queue. -/
theorem create (h : Ledger a) {node : String} (hnode : a.taskQueue node = none)
    (hi : a.frames i = none) : Ledger
      { a with
        taskQueue := update a.taskQueue node (some a.nqueues)
        queues := update a.queues a.nqueues ⟨node, [], none, none⟩
        nqueues := a.nqueues + 1
        frames := update a.frames i (some (.requestSender a.nqueues)) } := by
  have hissued : a.issuedFrom a.nqueues = [] := by
    rw [Tables.issuedFrom, map_eq_nil_iff, filter_eq_nil_iff]
    intro x hx hq
    have := (h.addressed x hx _ (by simpa using hq)).1
    omega
  have hqueues : ∀ q < a.nqueues,
      update a.queues a.nqueues ⟨node, [], none, none⟩ q = a.queues q :=
    fun q hq => update_of_ne (by omega) _ _
  refine ⟨fun j f hj => ?_, fun node' q hq => ?_, fun j k f g hj hk he => ?_, fun q => ?_,
    fun j f hj => ?_, fun q hq hnone hsender => ?_, fun x hx q hxq => ?_⟩
  · rcases update_cases hj with ⟨rfl, ⟨⟩⟩ | ⟨-, hj⟩
    · simp [Frame.queue]
    · obtain ⟨hlt, ht⟩ := h.queued j f hj
      simp only [hqueues _ hlt]
      refine ⟨by omega, ?_⟩
      rw [update_of_ne, ht]
      intro he
      rw [he, hnode] at ht
      cases ht
  · rcases update_cases hq with ⟨rfl, ⟨⟩⟩ | ⟨hn, hq⟩
    · exact ⟨by simp, by simp, i, .requestSender a.nqueues, by simp, rfl⟩
    · obtain ⟨hlt, hn', j, f, hj, hf⟩ := h.framed node' q hq
      have hji : j ≠ i := by
        rintro rfl
        rw [hi] at hj
        cases hj
      simp only [hqueues _ hlt]
      exact ⟨by omega, hn', j, f, by simp [hji, hj], hf⟩
  · -- the new coroutine has the new queue, the others have old ones
    have hlt {j : ℕ} {f : Frame π} (hj : a.frames j = some f) : f.queue ≠ a.nqueues :=
      (h.queued j f hj).1.ne
    rcases update_cases hj with ⟨rfl, ⟨⟩⟩ | ⟨-, hj'⟩ <;>
      rcases update_cases hk with ⟨rfl, ⟨⟩⟩ | ⟨-, hk'⟩
    · rfl
    · exact absurd he.symm (hlt hk')
    · exact absurd he (hlt hj')
    · exact h.unique j k f g hj' hk' he
  · by_cases hq : q = a.nqueues
    · subst hq
      simp
    · simpa only [update_of_ne hq] using h.sends q
  · rcases update_cases hj with ⟨rfl, ⟨⟩⟩ | ⟨-, hj⟩
    · show (a.issuedFrom a.nqueues).map Task.send = []
      rw [hissued]
      rfl
    · simp only [hqueues _ (h.queued j f hj).1]
      exact h.served j f hj
  · by_cases hqn : q = a.nqueues
    · subst hqn
      simp at hsender
    · have hlt : q < a.nqueues := by
        simp only at hq
        omega
      simp only [hqueues _ hlt] at hsender ⊢
      refine h.finished q hlt (fun j f hj => hnone j f ?_) hsender
      have hji : j ≠ i := by
        rintro rfl
        rw [hi] at hj
        cases hj
      simpa [hji] using hj
  · obtain ⟨hlt, hs⟩ := h.addressed x hx q hxq
    simp only [hqueues _ hlt]
    exact ⟨by omega, hs⟩

/-- `clusterd` has answered: nothing has been sent from the queue. -/
theorem answered (h : Ledger s.toTables) (hi : s.frames i = some f) (hserved : ∀ x, f.served x = [])
    (c : Option ℕ) : Ledger (s.answered i f.queue c).toTables := by
  have hnil : s.issuedFrom f.queue = [] := by
    have := h.served i f hi
    rw [hserved, map_eq_nil_iff] at this
    exact this
  refine h.replace (g := .serving f.queue 0) hi rfl rfl rfl rfl
    (fun q hq => update_of_ne hq _ _) ?_ ?_ (fun _ _ => rfl) ?_ fun x hx q hxq => ?_
  · simp [State.answered, State.setFrame, State.setQueue]
  · simpa [State.answered, State.setFrame, State.setQueue] using h.sends f.queue
  · have : (s.answered i f.queue c).issuedFrom f.queue = [] := hnil
    simp [this, Frame.served]
  · obtain ⟨h1, h2⟩ := h.addressed x hx q hxq
    refine ⟨h1, ?_⟩
    have hq : q ≠ f.queue := by
      rintro rfl
      rw [Tables.issuedFrom, map_eq_nil_iff, filter_eq_nil_iff] at hnil
      exact hnil x hx (by simpa using hxq)
    simpa [State.answered, State.setFrame, State.setQueue, hq] using h2

theorem setFrame (h : Ledger s.toTables) (hi : s.frames i = some f) (hg : g.queue = f.queue)
    (hserved : g.served (s.queues f.queue) = f.served (s.queues f.queue)) :
    Ledger (s.setFrame i (some g)).toTables :=
  h.replace hi hg rfl rfl rfl (fun _ _ => rfl) rfl (h.sends _) (fun _ _ => rfl)
    ((h.served i f hi).trans hserved.symm) h.addressed

theorem issuedFrom_append (l : List (Issue π)) (x : Issue π) (q : ℕ) :
    ((l ++ [x]).filter (·.queue = some q)).map (·.msg) =
      (l.filter (·.queue = some q)).map (·.msg) ++ if x.queue = some q then [x.msg] else [] := by
  by_cases hq : x.queue = some q <;> simp [filter_append, hq]

theorem issue (h : Ledger s.toTables) {q k c : ℕ} {msg : π} {r : SendResult}
    (hi : s.frames i = some (.serving q k)) (htask : (s.queues q).tasks[k]? = some (.send msg))
    (hc : (s.queues q).sender = some c) (hr : r ≠ .raised) :
    Ledger ((s.issue ⟨c, some q, msg⟩ r).setFrame i (some (.serving q (k + 1)))).toTables := by
  have hserved : (s.issuedFrom q).map Task.send = (s.queues q).tasks.take k := by
    simpa [Frame.queue, Frame.served, hc] using h.served i _ hi
  simp only [State.issue, if_neg hr]
  refine h.replace (g := .serving q (k + 1)) hi rfl rfl rfl rfl (fun _ _ => rfl) rfl (h.sends q)
    (fun p hp => ?_) ?_ fun x hx p hxp => ?_
  · have hpq : q ≠ p := Ne.symm hp
    refine (issuedFrom_append s.issued _ p).trans ?_
    simp [hpq, Tables.issuedFrom]
  · have hnext : Frame.served (s.queues q) (.serving q (k + 1)) = (s.queues q).tasks.take (k + 1) := by
      simp [Frame.served, hc]
    have happ := issuedFrom_append s.issued ⟨c, some q, msg⟩ q
    rw [if_pos rfl] at happ
    refine (congrArg (List.map Task.send) happ).trans (Eq.trans ?_ hnext.symm)
    rw [take_add_one, htask, map_append]
    exact congrArg (· ++ [Task.send msg]) hserved
  · rcases mem_append.mp hx with hx | hx
    · exact h.addressed x hx p hxp
    · obtain rfl := mem_singleton.mp hx
      cases hxp
      exact ⟨(h.queued i _ hi).1, hc⟩

/-- The end of `request_sender`. -/
theorem finish (h : Ledger a) {q k : ℕ} {senders : String → Option ℕ}
    (hi : a.frames i = some (.serving q k)) (htask : (a.queues q).tasks[k]? = none) : Ledger
      { a with
        frames := update a.frames i none
        taskQueue := update a.taskQueue (a.queues q).node none
        sender := senders } := by
  have hsome : ∀ j f, update a.frames i none j = some f → j ≠ i ∧ a.frames j = some f := by
    intro j f hj
    rcases update_cases hj with ⟨-, ⟨⟩⟩ | hj
    exact hj
  have hother : ∀ j f, j ≠ i → a.frames j = some f → f.queue ≠ q :=
    fun j f hji hj he => hji (h.unique j i f _ hj hi he)
  have hqueued := h.queued i _ hi
  simp only [Frame.queue] at hqueued
  refine ⟨fun j f hj => ?_, fun node p hp => ?_, fun j l f g hj hl he => ?_, h.sends,
    fun j f hj => ?_, fun p hp hnone hsender => ?_, h.addressed⟩
  · obtain ⟨hji, hj⟩ := hsome j f hj
    obtain ⟨hlt, ht⟩ := h.queued j f hj
    refine ⟨hlt, ?_⟩
    simp only
    rw [update_of_ne, ht]
    intro he
    rw [he, hqueued.2] at ht
    exact hother j f hji hj (some.inj ht).symm
  · have hnode : node ≠ (a.queues q).node := by
      rintro rfl
      simp at hp
    simp only [update_of_ne hnode] at hp
    obtain ⟨hlt, hn, j, f, hj, hf⟩ := h.framed node p hp
    refine ⟨hlt, hn, j, f, ?_, hf⟩
    have hji : j ≠ i := by
      rintro rfl
      rw [hi] at hj
      cases hj
      simp only [Frame.queue] at hf
      exact hnode (by rw [hf, hn])
    simp [hji, hj]
  · exact h.unique j l f g (hsome j f hj).2 (hsome l g hl).2 he
  · exact h.served j f (hsome j f hj).2
  · by_cases hpq : p = q
    · subst hpq
      have hserved : (a.issuedFrom p).map Task.send = (a.queues p).tasks.take k := by
        simpa [Frame.queue, Frame.served, hsender] using h.served i _ hi
      rw [take_of_length_le (by simpa using htask)] at hserved
      exact hserved
    · refine h.finished p hp (fun j f hj => ?_) hsender
      by_cases hji : j = i
      · subst hji
        rw [hi] at hj
        cases hj
        exact Ne.symm hpq
      · exact hnone j f (by simp [hji, hj])

theorem issue_known (h : Ledger s.toTables) (c : ℕ) (msg : π) (r : SendResult) :
    Ledger (s.issue ⟨c, none, msg⟩ r).toTables := by
  unfold State.issue
  split_ifs
  · exact h
  · have hissued : ∀ q, Tables.issuedFrom
        { s.toTables with issued := s.issued ++ [⟨c, none, msg⟩] } q = s.issuedFrom q := by
      intro q
      refine (issuedFrom_append s.issued _ q).trans ?_
      simp [Tables.issuedFrom]
    refine ⟨h.queued, h.framed, h.unique, h.sends, fun i f hi => ?_, fun q hq hnone hsender => ?_,
      fun x hx q hxq => ?_⟩
    · exact (congrArg (List.map Task.send) (hissued _)).trans (h.served i f hi)
    · exact (congrArg (List.map Task.send) (hissued q)).trans (h.finished q hq hnone hsender)
    · rcases mem_append.mp hx with hx | hx
      · exact h.addressed x hx q hxq
      · obtain rfl := mem_singleton.mp hx
        cases hxq

end Ledger

/-! ### Runs without queued calls -/

/-- An error of the step does not end `request_sender` at a task. -/
def State.packs (s : State π) (r : SendResult) : Bool :=
  match s.frame with
  | some (.serving _ _) => r ≠ .raised
  | _ => true

/-- `cluster.call` and `cluster.query` are called for nodes whose sender is known, no error is
raised when `request_sender` packs and sends a message, and the service runs orderly and does not
exit. -/
def State.Plain (s : State π) : Label π → Prop
  | .service a => s.svc.Orderly a ∧ a ≠ .op .exit
  | .call node _ r => s.sender node ≠ none ∧ s.svc.Orderly (.op (.call (.handle s.clusterd) r))
  | .send _ _ _ => True
  | .advance _ r => s.svc.Orderly (.op (.call (.handle s.clusterd) r)) ∧ s.packs r = true

instance (s : State π) : (a : Label π) → Decidable (s.Plain a)
  | .service _ | .call _ _ _ | .advance _ _ => inferInstanceAs (Decidable (_ ∧ _))
  | .send _ _ _ => inferInstanceAs (Decidable True)

/-- What holds in runs without queued calls. -/
structure Drains (s : State π) : Prop where
  tidy : Tidy s.svc.toSched
  ledger : Ledger s.toTables
  placed : ∀ i f, s.frames i = some f → f.At s.svc.toSched i

theorem orderly_fork (s : Service.State) : s.Orderly (.op .fork) :=
  ⟨nofun, by unfold State.tokenFree; split <;> simp_all⟩

theorem orderly_finish (s : Service.State) : s.Orderly (.op .finish) :=
  ⟨nofun, by unfold State.tokenFree; split <;> simp_all⟩

theorem orderly_call {s : Service.State} {addr addr' : Addr} {r : SendResult}
    (h : s.Orderly (.op (.call addr r))) : s.Orderly (.op (.call addr' r)) := by
  refine ⟨fun ha => h.1 ?_, by unfold State.tokenFree; split <;> simp_all⟩
  cases r <;> exact ha

/-- The frames of `t` are for the queues they were for in `s`, or for a new one. -/
structure Keeps (s t : State π) : Prop where
  le : s.nqueues ≤ t.nqueues
  frames : ∀ j g, t.frames j = some g →
    (∃ f, s.frames j = some f ∧ f.queue = g.queue) ∨ s.nqueues ≤ g.queue

namespace Keeps

variable {s t : State π} {i : ℕ}

theorem of_eq (hn : t.nqueues = s.nqueues) (hf : t.frames = s.frames) : Keeps s t :=
  ⟨by omega, fun _ g hj => .inl ⟨g, hf ▸ hj, rfl⟩⟩

theorem of_update {f : Frame π} {g : Option (Frame π)} (hn : t.nqueues = s.nqueues)
    (hi : s.frames i = some f) (hf : t.frames = update s.frames i g)
    (hg : ∀ f', g = some f' → f'.queue = f.queue) : Keeps s t := by
  refine ⟨by omega, fun j g hj => .inl ?_⟩
  rcases update_cases (hf ▸ hj) with ⟨rfl, hj⟩ | ⟨-, hj⟩
  · exact ⟨f, hi, (hg g hj).symm⟩
  · exact ⟨g, hj, rfl⟩

end Keeps

namespace Drains

variable {s t : State π} {i : ℕ}

theorem init (clusterd : ℕ) : Drains (State.init clusterd : State π) where
  tidy := Tidy.init
  ledger := by
    refine ⟨?_, ?_, ?_, ?_, ?_, ?_, ?_⟩ <;> simp [State.init]
  placed := by simp [State.init]

theorem frames_of_frame (hc : s.svc.control = .run i) : s.frame = s.frames i := by
  simp [State.frame, hc]

/-- The other coroutines after a call of coroutine `i`. -/
theorem op_others (h : Drains s) (hc : s.svc.control = .run i) {o : Op} {u : Service.State}
    (hu : s.svc.step (.op o) = some u) (hexit : o ≠ .exit) {j : ℕ} (hji : j ≠ i) {f : Frame π}
    (hj : s.frames j = some f) : f.At u.toSched j := by
  refine (h.placed j f hj).follows (Follows.step h.tidy ?_ (step_cases hu)) fun hrun => ?_
  · simpa using hexit
  · rw [hc] at hrun
    cases hrun
    exact absurd rfl hji

theorem step_service {a : Service.Label} (ht : s.step (.service a) = some t) :
    (∀ o, a = .op o → s.frame = none) ∧ ∃ u, s.svc.step a = some u ∧ t = { s with svc := u } := by
  have hmap {a : Service.Label} (h : (s.svc.step a).map (fun u => { s with svc := u }) = some t) :
      ∃ u, s.svc.step a = some u ∧ t = { s with svc := u } := by
    obtain ⟨u, hu, rfl⟩ := map_eq_some_iff.mp h
    exact ⟨u, hu, rfl⟩
  cases a with
  | op o =>
    cases hf : s.frame with
    | some f => simp [State.step, hf] at ht
    | none =>
      simp only [State.step, hf] at ht
      exact ⟨fun _ _ => rfl, hmap ht⟩
  | message m | next | collect k => exact ⟨nofun, hmap ht⟩

theorem service {a : Service.Label} (h : Drains s) (hok : s.Plain (.service a))
    (ht : s.step (.service a) = some t) : Drains t ∧ Keeps s t := by
  obtain ⟨hframe, u, hu, rfl⟩ := step_service ht
  refine ⟨⟨h.tidy.step hok.1 hu, h.ledger, fun j f hj => ?_⟩, .of_eq rfl rfl⟩
  refine (h.placed j f hj).follows (Follows.step h.tidy hok.2 (step_cases hu)) fun hc => ?_
  cases a with
  | message m | next => simp [Service.State.step, hc] at hu
  | op o =>
    have := (frames_of_frame hc).trans hj
    rw [hframe o rfl] at this
    cases this
  | collect k =>
    simp only [Service.State.step] at hu
    split_ifs at hu
    cases hu
    exact hc

variable {node : String} {r : SendResult}

theorem issue_same (s : State π) (x : Issue π) (r : SendResult) : (s.issue x r).svc = s.svc ∧
    (s.issue x r).frames = s.frames ∧ (s.issue x r).nqueues = s.nqueues := by
  unfold State.issue
  split_ifs <;> exact ⟨rfl, rfl, rfl⟩

theorem call {msg : π} (h : Drains s) (hok : s.Plain (.call node msg r))
    (ht : s.step (.call node msg r) = some t) : Drains t ∧ Keeps s t := by
  simp only [State.step] at ht
  split at ht
  · rename_i i hc hframe
    rw [frames_of_frame hc] at hframe
    obtain ⟨c, hsender⟩ := ne_none_iff_exists'.mp hok.1
    simp only [State.call, hsender] at ht
    obtain ⟨u, hu, rfl⟩ := map_eq_some_iff.mp ht
    obtain ⟨hsvc, hframes, hn⟩ := issue_same s ⟨c, none, msg⟩ r
    rw [hsvc] at hu
    refine ⟨⟨h.tidy.step (orderly_call hok.2) hu, h.ledger.issue_known c msg r, fun j f hj => ?_⟩,
      .of_eq hn hframes⟩
    replace hj : s.frames j = some f := hframes ▸ hj
    refine h.op_others hc hu nofun ?_ hj
    rintro rfl
    rw [hframe] at hj
    cases hj
  · cases ht

/-- `get_queue` -/
theorem getQueue (h : Drains s) (hc : s.svc.control = .run i) (hi : s.frames i = none)
    (hnode : s.taskQueue node = none) (ht : s.getQueue node = some t) :
    Drains t ∧ t.svc.control = .run i ∧ t.frames i = none ∧ t.taskQueue node = some s.nqueues ∧
      Keeps s t := by
  obtain ⟨u, hu, rfl⟩ := map_eq_some_iff.mp ht
  have hfork : s.svc.fork = u := by
    simpa [Service.State.step, hc, Service.State.exec] using hu
  have hthreads := h.tidy.sane.threads
  have hnext : s.frames s.svc.nextThread = none := by
    by_contra hne
    obtain ⟨f, hf⟩ := ne_none_iff_exists'.mp hne
    exact (h.placed _ f hf).ne_next h.tidy rfl
  have hine : i ≠ s.svc.nextThread := by
    refine hthreads.ne_next ?_
    rw [h.tidy.sane.running hc]
    exact id
  refine ⟨⟨h.tidy.step (orderly_fork _) hu, h.ledger.create hnode hnext, fun j f hj => ?_⟩, ?_, ?_,
    ?_, Nat.le_succ _, fun j g hj => ?_⟩
  · rcases update_cases hj with ⟨rfl, ⟨⟩⟩ | ⟨-, hj⟩
    · rw [← hfork]
      exact .inl (by simp [Service.State.fork])
    · refine h.op_others hc hu (by simp) ?_ hj
      rintro rfl
      rw [hi] at hj
      cases hj
  · rw [← hfork]
    exact hc
  · simpa [hine] using hi
  · simp
  · rcases update_cases hj with ⟨-, ⟨⟩⟩ | ⟨-, hj⟩
    · exact .inr le_rfl
    · exact .inl ⟨g, hj, rfl⟩

theorem insert {q : ℕ} (h : Drains s) (hc : s.svc.control = .run i) (hi : s.frames i = none)
    (hq : s.taskQueue node = some q) (msg : π) : Drains (s.insert q (.send msg)) := by
  refine ⟨h.tidy, h.ledger.insert hq (fun j k hj => ?_) msg, h.placed⟩
  have hrun : s.svc.control = .run j := h.placed j _ hj
  rw [hc] at hrun
  cases hrun
  rw [hi] at hj
  cases hj

theorem send {msg : π} (h : Drains s) (ht : s.step (.send node msg r) = some t) :
    Drains t ∧ Keeps s t := by
  simp only [State.step] at ht
  split at ht
  · rename_i i hc hframe
    rw [frames_of_frame hc] at hframe
    unfold State.send State.enqueue at ht
    cases hsender : s.sender node with simp only [hsender] at ht
    | some c =>
      cases ht
      obtain ⟨hsvc, hframes, hn⟩ := issue_same s ⟨c, none, msg⟩ r
      refine ⟨⟨hsvc ▸ h.tidy, h.ledger.issue_known c msg r, ?_⟩, .of_eq hn hframes⟩
      rw [hframes, hsvc]
      exact h.placed
    | none =>
      cases hnode : s.taskQueue node with
      | some q =>
        simp only [hnode] at ht
        cases ht
        exact ⟨h.insert hc hframe hnode msg, .of_eq rfl rfl⟩
      | none =>
        simp only [hnode, Option.map_map] at ht
        obtain ⟨u, hu, rfl⟩ := Option.map_eq_some_iff.mp ht
        obtain ⟨hd, hcu, hiu, hqu, hle, hkeep⟩ := h.getQueue hc hframe hnode hu
        exact ⟨hd.insert hcu hiu hqu msg, hle, hkeep⟩
  · cases ht

/-- A `skynet.call` is left running when it raises an error. -/
theorem call_control {v u : Service.State} {addr : Addr} (hc : v.control = .run i)
    (hu : v.step (.op (.call addr r)) = some u) :
    u.control = .run i ∨ ∃ k b, u.pcs i = .calling k b := by
  simp only [Service.State.step, hc, Service.State.exec, some.injEq] at hu
  subst hu
  cases r with
  | accepted | tooLarge => exact .inr ⟨_, _, update_self _ _ _⟩
  | invalid | unknownName | raised => exact .inl hc

/-- The frame of coroutine `i` changes, with what the coroutine has called. -/
theorem placed_update {g : Frame π} {frames : ℕ → Option (Frame π)} {v : Sched}
    (hframes : frames = update s.frames i (some g)) (hi : g.At v i)
    (hothers : ∀ j f, j ≠ i → s.frames j = some f → f.At v j) :
    ∀ j f, frames j = some f → f.At v j := by
  intro j f hj
  rcases update_cases (hframes ▸ hj) with ⟨rfl, ⟨⟩⟩ | ⟨hji, hj⟩
  · exact hi
  · exact hothers j f hji hj

/-- One step of the loop over the tasks: the frame goes on to the next task or is left. -/
theorem serve {q k : ℕ} (h : Drains s) (hc : s.svc.control = .run i)
    (hi : s.frames i = some (.serving q k)) (hr : r ≠ .raised) (ht : s.serve i q k r = some t) :
    Drains t ∧ t.nqueues = s.nqueues ∧
      (t.frames = update s.frames i (some (.serving q (k + 1))) ∨
        t.frames = update s.frames i none) := by
  unfold State.serve at ht
  split at ht
  · rename_i htask
    obtain ⟨u, hu, rfl⟩ := map_eq_some_iff.mp ht
    refine ⟨⟨h.tidy.step (orderly_finish _) hu, h.ledger.finish hi htask, fun j f hj => ?_⟩, rfl,
      .inr rfl⟩
    rcases update_cases hj with ⟨-, ⟨⟩⟩ | ⟨hji, hj⟩
    exact h.op_others hc hu nofun hji hj
  · rename_i msg htask
    have hplaced := placed_update (s := s) (i := i) (g := .serving q (k + 1)) rfl hc
      fun j f _ hj => h.placed j f hj
    split at ht
    · rename_i hsender
      cases ht
      refine ⟨⟨h.tidy, h.ledger.setFrame hi rfl ?_, hplaced⟩, rfl, .inl rfl⟩
      simp [Frame.served, Frame.queue, hsender]
    · rename_i c hsender
      have hledger := h.ledger.issue hi htask hsender hr
      rw [if_neg hr] at ht
      cases ht
      simp only [State.issue, if_neg hr] at hledger ⊢
      exact ⟨⟨h.tidy, hledger, hplaced⟩, rfl, .inl rfl⟩
  · rename_i j htask
    obtain ⟨msg, hmsg⟩ := h.ledger.sends q _ (mem_of_getElem? htask)
    cases hmsg

theorem advance {c : Option ℕ} (h : Drains s) (hok : s.Plain (.advance c r))
    (ht : s.step (.advance c r) = some t) : Drains t ∧ Keeps s t := by
  simp only [State.step] at ht
  split at ht
  · rename_i i f hc hframe
    have hpacks := hok.2
    simp only [State.packs, hframe] at hpacks
    rw [frames_of_frame hc] at hframe
    have hothers := fun j f (_ : j ≠ i) hj => h.placed j f hj
    have hkeep {u : State π} {g : Frame π} (hn : u.nqueues = s.nqueues)
        (hf : u.frames = update s.frames i (some g)) (hg : g.queue = f.queue) : Keeps s u :=
      .of_update hn hframe hf fun _ h => Option.some.inj h ▸ hg
    cases f with
    | requestSender q =>
      obtain ⟨v, hv, ht⟩ := map_eq_some_iff.mp ht
      obtain ⟨u, hu, rfl⟩ := map_eq_some_iff.mp hv
      have htidy := h.tidy.step (orderly_call hok.1) hu
      have hrest := fun j f hji hj => h.op_others (j := j) (f := f) hc hu nofun hji hj
      rcases call_control hc hu with hrun | hcall
      · rw [if_pos hrun] at ht
        subst ht
        exact ⟨⟨htidy, Ledger.answered h.ledger hframe (fun _ => rfl) none,
          placed_update rfl hrun hrest⟩, hkeep rfl rfl rfl⟩
      · have hrun : u.control ≠ .run i := by
          intro hrun
          have := htidy.sane.running hrun
          obtain ⟨k, b, hk⟩ := hcall
          rw [hk] at this
          cases this
        rw [if_neg hrun] at ht
        subst ht
        exact ⟨⟨htidy, Ledger.setFrame h.ledger hframe rfl rfl,
          placed_update rfl (.inl hcall) hrest⟩, hkeep rfl rfl rfl⟩
    | asking q =>
      cases ht
      exact ⟨⟨h.tidy, h.ledger.answered hframe (fun _ => rfl) c, placed_update rfl hc hothers⟩,
        hkeep rfl rfl rfl⟩
    | serving q k =>
      obtain ⟨ht, hn, hf | hf⟩ := h.serve hc hframe (by simpa using hpacks) ht
      · exact ⟨ht, hkeep hn hf rfl⟩
      · exact ⟨ht, .of_update hn hframe hf nofun⟩
    | handing q k | getSender q msg => exact (h.placed i _ hframe).elim
  · cases ht

theorem step {a : Label π} (h : Drains s) (hok : s.Plain a) (ht : s.step a = some t) :
    Drains t ∧ Keeps s t := by
  cases a with
  | service a => exact h.service hok ht
  | call node msg r => exact h.call hok ht
  | send node msg r => exact h.send ht
  | advance c r => exact h.advance hok ht

end Drains

/-! ### After the answer -/

/-- `request_sender` of queue `q`, in coroutine `i`, has the answer of `clusterd` and runs, or has
finished. -/
structure Answered (i q : ℕ) (s : State π) : Prop where
  lt : q < s.nqueues
  progress : (s.frames i = some (.asking q) ∧ s.svc.control = .run i) ∨
    (∃ k, s.frames i = some (.serving q k)) ∨ ∀ j f, s.frames j = some f → f.queue ≠ q

namespace Answered

variable {s t : State π} {i q : ℕ}

/-- A coroutine that is in `cluster.lua` and runs makes the next step. -/
theorem runs {a : Label π} {f : Frame π} (hc : s.svc.control = .run i) (hi : s.frames i = some f)
    (ht : s.step a = some t) :
    (t.frames = s.frames ∧ t.svc.control = .run i ∧ t.nqueues = s.nqueues) ∨
      ∃ c r, a = .advance c r ∧ s.advance i c r f = some t := by
  have hframe := (Drains.frames_of_frame hc).trans hi
  cases a with
  | service a =>
    obtain ⟨ho, u, hu, rfl⟩ := Drains.step_service ht
    cases a with
    | op o =>
      rw [hframe] at ho
      cases ho o rfl
    | message m | next => simp [Service.State.step, hc] at hu
    | collect k =>
      simp only [Service.State.step] at hu
      split_ifs at hu
      cases hu
      exact .inl ⟨rfl, hc, rfl⟩
  | call node msg r | send node msg r => simp [State.step, hc, hframe] at ht
  | advance c r =>
    simp only [State.step, hc, hframe] at ht
    exact .inr ⟨c, r, rfl, ht⟩

theorem step {a : Label π} (h : Answered i q s) (hs : Drains s) (hok : s.Plain a)
    (ht : s.step a = some t) : Answered i q t := by
  obtain ⟨-, hn, hframes⟩ := hs.step hok ht
  refine ⟨lt_of_lt_of_le h.lt hn, ?_⟩
  rcases h.progress with ⟨hi, hc⟩ | ⟨k, hi⟩ | hnone
  · rcases runs hc hi ht with ⟨hf, hct, -⟩ | ⟨c, r, -, hadv⟩
    · exact .inl ⟨hf ▸ hi, hct⟩
    · cases hadv
      exact .inr (.inl ⟨0, update_self _ _ _⟩)
  · have hc : s.svc.control = .run i := hs.placed i _ hi
    rcases runs hc hi ht with ⟨hf, -⟩ | ⟨c, r, rfl, hadv⟩
    · exact .inr (.inl ⟨k, hf ▸ hi⟩)
    · have hr : r ≠ .raised := by
        have := hok.2
        simp only [State.packs, (Drains.frames_of_frame hc).trans hi] at this
        simpa using this
      rcases (hs.serve hc hi hr hadv).2.2 with hf | hf
      · exact .inr (.inl ⟨k + 1, by rw [hf, update_self]⟩)
      · refine .inr (.inr fun j f hj he => ?_)
        rcases update_cases (hf ▸ hj) with ⟨-, ⟨⟩⟩ | ⟨hji, hj⟩
        exact hji (hs.ledger.unique j i f _ hj hi he)
  · refine .inr (.inr fun j g hj he => ?_)
    rcases hframes j g hj with ⟨f, hf, hfg⟩ | hge
    · exact hnone j f hf (hfg.trans he)
    · have := h.lt
      omega

end Answered

/-- `request_sender` has finished with queue `q`: the queue is not in `task_queue` any more, and
with a sender its tasks were sent to it in order. -/
def State.Drained (s : State π) (q : ℕ) : Prop :=
  (∀ i f, s.frames i = some f → f.queue ≠ q) ∧ (∀ node, s.taskQueue node ≠ some q) ∧
  ∀ c, (s.queues q).sender = some c →
    (s.issuedFrom q).map Task.send = (s.queues q).tasks ∧
    ∀ x ∈ s.issued, x.queue = some q → x.sender = c

theorem Drains.drained {s : State π} (h : Drains s) {q : ℕ} (hq : q < s.nqueues)
    (hnone : ∀ i f, s.frames i = some f → f.queue ≠ q) : s.Drained q := by
  refine ⟨hnone, fun node hnode => ?_, fun c hc => ⟨?_, fun x hx hxq => ?_⟩⟩
  · obtain ⟨-, -, i, f, hi, hf⟩ := h.ledger.framed node q hnode
    exact hnone i f hi hf
  · exact h.ledger.finished q hq hnone (by rw [hc]; exact some_ne_none c)
  · have := (h.ledger.addressed x hx q hxq).2
    rw [hc] at this
    exact (some.inj this).symm

/-- **The queue drains**, in runs in which no call is queued: between two messages no coroutine
is in `get_sender`, and each queue has been worked off unless its `request_sender` still waits for
`clusterd`; once the answer has been handled, it has been worked off. -/
theorem cluster_queue_drained {clusterd : ℕ} {s : State π}
    (h : (client π clusterd).ReachableVia State.Plain s) (hc : s.svc.control = .idle) :
    (∀ i q msg, s.frames i ≠ some (.getSender q msg)) ∧
    (∀ q < s.nqueues, s.Drained q ∨
      ∃ i k b, s.frames i = some (.asking q) ∧ s.svc.pcs i = .calling k b) ∧
    ∀ i q n b s₁ t, s.frames i = some (.asking q) → s.svc.pcs i = .calling (.id n) b →
      s.step (.service (.message (.response n))) = some s₁ →
      (System.mk s₁ State.step).ReachableVia State.Plain t → t.svc.control = .idle →
      t.Drained q := by
  have hs : Drains s := h.invariant (Drains.init clusterd) fun _ _ _ hs hok ht => (hs.step hok ht).1
  refine ⟨fun i q msg hi => hs.placed i _ hi, fun q hq => ?_, ?_⟩
  · by_cases hnone : ∀ i f, s.frames i = some f → f.queue ≠ q
    · exact .inl (hs.drained hq hnone)
    · simp only [not_forall, not_not] at hnone
      obtain ⟨i, f, hi, rfl⟩ := hnone
      have hplaced := hs.placed i f hi
      have hrun : s.svc.control ≠ .run i := by
        rw [hc]
        nofun
      cases f with
      | requestSender q =>
        have := hplaced.resolve_right hrun
        rw [hs.tidy.sane.idle hc] at this
        cases this
      | asking q =>
        obtain ⟨k, b, hk⟩ := hplaced.resolve_right hrun
        exact .inr ⟨i, k, b, hi, hk⟩
      | serving q k => exact absurd hplaced hrun
      | handing q k | getSender q msg => exact hplaced.elim
  · intro i q n b s₁ t hi hpc hmsg hrun ht
    have hok : s.Plain (.service (.message (.response n))) :=
      ⟨⟨nofun, by unfold State.tokenFree; split <;> simp_all⟩, nofun⟩
    have hs₁ := (hs.step hok hmsg).1
    obtain ⟨-, u, hu, rfl⟩ := Drains.step_service hmsg
    obtain ⟨u', hu', hcu⟩ := hs.tidy.held.response hc (by rw [hpc]; rfl)
    rw [hu] at hu'
    cases hu'
    have ha₁ : Answered i q { s with svc := u } := ⟨(hs.ledger.queued i _ hi).1, .inl ⟨hi, hcu⟩⟩
    have hinv : Drains t ∧ Answered i q t := by
      refine hrun.invariant (I := fun t => Drains t ∧ Answered i q t) ⟨hs₁, ha₁⟩ ?_
      rintro v a w ⟨hv, hav⟩ hok hvw
      exact ⟨(hv.step hok hvw).1, hav.step hv hok hvw⟩
    refine hinv.1.drained hinv.2.lt ?_
    rcases hinv.2.progress with ⟨-, hrun⟩ | ⟨k, hk⟩ | hnone
    · rw [ht] at hrun
      cases hrun
    · have hrun : t.svc.control = .run i := hinv.1.placed i _ hk
      rw [ht] at hrun
      cases hrun
    · exact hnone

/-- Two messages are queued for node `db`, and `request_sender` asks for the sender. -/
def sendRun : List (Label ℕ) :=
  [.service (.message (.response 1)), .send "db" 5 .accepted, .send "db" 6 .accepted,
    .service (.op .finish), .service .next, .service .next, .service .next,
    .advance none .accepted, .service .next, .service .next, .service .next]

/-- The answer is handled and both messages are sent. -/
theorem cluster_queue_drained_of_two : ∃ s t : State ℕ,
    (client ℕ 9).ReachableVia State.Plain s ∧ s.svc.control = .idle ∧
    s.taskQueue "db" = some 0 ∧ t.Drained 0 ∧ t.issued = [⟨20, some 0, 5⟩, ⟨20, some 0, 6⟩] := by
  obtain ⟨s, hs, hc, hqueue, hi, hpc, hrest⟩ := (client ℕ 9).exists_reachable State.Plain sendRun
    (fun s => s.svc.control = .idle ∧ s.taskQueue "db" = some 0 ∧ s.frames 1 = some (.asking 0) ∧
      s.svc.pcs 1 = .calling (.id 2) 2 ∧
      (((s.step (.service (.message (.response 2)))).any fun s₁ =>
        ((System.mk s₁ State.step).execVia State.Plain s₁
          [.advance (some 20) .accepted, .advance none .accepted, .advance none .accepted,
            .advance none .accepted, .service .next, .service .next, .service .next]).any fun t =>
            decide (t.svc.control = .idle ∧
              t.issued = [⟨20, some 0, 5⟩, ⟨20, some 0, 6⟩])) = true)) (by decide +kernel)
  obtain ⟨s₁, hmsg, hrest⟩ := (any_eq_true _ _).mp hrest
  obtain ⟨t, hrun, ht⟩ := (any_eq_true _ _).mp hrest
  obtain ⟨htc, hissued⟩ := of_decide_eq_true ht
  exact ⟨s, t, hs, hc, hqueue, (cluster_queue_drained hs hc).2.2 1 0 2 2 s₁ t hi hpc hmsg
    (System.ReachableVia.init.execVia hrun) htc, hissued⟩

/-- Coroutines 1 and 2 call node `db`, and `request_sender`, in coroutine 0, asks for the
sender. -/
def callsRun : List (Label ℕ) :=
  [.service (.message (.response 1)), .service (.op .fork), .service (.op .fork),
    .service (.op .finish), .service .next, .service .next,
    .service .next, .call "db" 5 .accepted, .service .next, .service .next,
    .service .next, .call "db" 6 .accepted, .service .next, .service .next,
    .service .next, .advance none .accepted, .service .next, .service .next, .service .next]

/-- The answer of `clusterd` is handled: `request_sender` dies at the first task, coroutine 1 is
released by the wakeup it has made, and coroutine 2 stays suspended in `get_sender`; the queue
stays in `task_queue` and the sender unknown. -/
theorem queued_calls_left_suspended : ∃ s,
    (client ℕ 9).exec (State.init 9)
      (callsRun ++ [.service (.message (.response 4)), .advance (some 20) .accepted,
        .advance none .accepted, .service .next, .service (.op .finish), .service .next,
        .advance none .accepted, .service .next, .service .next, .service .next,
        .service .next]) = some s ∧
    s.svc.control = .idle ∧ s.svc.pcs 0 = .dead ∧ s.taskQueue "db" = some 0 ∧
    s.sender "db" = none ∧ s.frames 2 = some (.getSender 0 6) ∧
    s.svc.pcs 2 = .asleep false (.thread 2) 3 false ∧ s.issued = [⟨20, some 0, 5⟩] :=
  (client ℕ 9).exists_exec _ (fun s => s.svc.control = .idle ∧ s.svc.pcs 0 = .dead ∧
    s.taskQueue "db" = some 0 ∧ s.sender "db" = none ∧ s.frames 2 = some (.getSender 0 6) ∧
    s.svc.pcs 2 = .asleep false (.thread 2) 3 false ∧ s.issued = [⟨20, some 0, 5⟩])
    (by decide +kernel)

end ClusterClient

end Skynet
