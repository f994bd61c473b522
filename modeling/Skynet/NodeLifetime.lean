import Skynet.NodePlacement

/-! # The life of a service context

The node with `svc_count_`, which `create_service` increments after it has created the queue of a
context and `release_service` decrements after it has deleted the context.  Both are steps of their
own: a thread that has done the first part owes the counter its change (`Counting.pending`) and does
nothing else before.

`unregister_service_all` reads handles from the slots and calls `unregister_service` for them; the
runs of the node have such calls for all handles at any time.

The count of a context is that of its references (`context_lifetime`), where the one of the slot
belongs to a thread before the registration and after the slot is cleared (`ref_outside_slot`). -/

namespace Skynet.Node

open Finset ThreadPool Transition State

/-- The thread has not registered context `c` yet. -/
def Pc.registering (c : ℕ) : Pc → ℕ
  | .register c' => if c' = c then 1 else 0
  | _ => 0

/-- The thread is about to create the queue of context `c` and count it. -/
def Pc.counting (c : ℕ) : Pc → ℕ
  | .createQueue c' => if c' = c then 1 else 0
  | _ => 0

/-- `create_service` has made the queue of the context, and it is not deleted. -/
def ServiceContext.counted (x : ServiceContext) : ℕ :=
  if x.alive = true ∧ x.queue ≠ none then 1 else 0

def State.services (s : State) : ℕ := ∑ c ∈ range s.nctx, (s.ctxs c).counted

/-- What the thread adds to `svc_count_` after the step. -/
def Pc.svcCountChange : Pc → ℤ
  | .createQueue _ => 1
  | .delete _ _ => -1
  | _ => 0

/-- The node, its `svc_count_` and the changes of it that threads still have to make. -/
structure Counting where
  node : State
  svcCount : ℤ
  pending : List (ℕ × ℤ)

namespace Counting

inductive Step where
  | node (a : Action)
  /-- a thread changes `svc_count_` -/
  | count (thread : ℕ) (change : ℤ)

/-- What the threads still have to add. -/
def owed (x : Counting) : ℤ := (x.pending.map Prod.snd).sum

/-- The change that is due after a step. -/
def due (s : State) : Action → List (ℕ × ℤ)
  | .start _ => []
  | .run i _ =>
    match s.acts[i]? with
    | some p => if p.svcCountChange = 0 then [] else [(i, p.svcCountChange)]
    | none => []

/-- A thread that owes a change does nothing else. -/
def busy (x : Counting) : Action → Bool
  | .start _ => false
  | .run i _ => x.pending.any (·.1 = i)

def step (x : Counting) : Step → Option Counting
  | .node a =>
    if x.busy a then none
    else (x.node.step a).map fun t => ⟨t, x.svcCount, due x.node a ++ x.pending⟩
  | .count i d =>
    if (i, d) ∈ x.pending then some ⟨x.node, x.svcCount + d, x.pending.erase (i, d)⟩ else none

end Counting

/-- The node and its `svc_count_`. -/
def countingNode : System Counting Counting.Step := ⟨⟨State.init, 0, []⟩, Counting.step⟩

variable {s t : State} {i : ℕ} {ok : Bool} {p : Pc} {n : ℤ}

/-! ### One step -/

theorem Crashes.not_delete {f : Fault} (h : Crashes s p f) (c : ℕ) :
    p.deleting c = 0 ∧ p.counting c = 0 := by
  cases h with
  | linked h | badTail h => cases h <;> exact ⟨rfl, rfl⟩
  | _ => exact ⟨rfl, rfl⟩

/-- Contexts are deleted by `delete` and get their queue from `create_service`. -/
theorem Effect.life (ht : Effect s i ok p t) :
    t.nctx = s.nctx ∧ ∀ c,
      ((t.ctxs c).alive = true ↔ (s.ctxs c).alive = true ∧ p.deleting c = 0) ∧
      ((t.ctxs c).queue = none ↔ (s.ctxs c).queue = none ∧ p.counting c = 0) := by
  have hquiet (hn : t.nctx = s.nctx) (hp : ∀ c, p.deleting c = 0 ∧ p.counting c = 0)
      (halive : ∀ c, (t.ctxs c).alive = (s.ctxs c).alive)
      (hqueue : ∀ c, (t.ctxs c).queue = (s.ctxs c).queue) : t.nctx = s.nctx ∧ ∀ c,
      ((t.ctxs c).alive = true ↔ (s.ctxs c).alive = true ∧ p.deleting c = 0) ∧
      ((t.ctxs c).queue = none ↔ (s.ctxs c).queue = none ∧ p.counting c = 0) :=
    ⟨hn, fun c => by simp [hp c, halive c, hqueue c]⟩
  cases ht with
  | deleted c k =>
    refine ⟨rfl, fun d => ?_⟩
    by_cases hd : d = c
    · simp [hd, goto, setCtx, Pc.deleting, Pc.counting]
    · simp [goto, setCtx, Pc.deleting, Pc.counting, Function.update_of_ne hd, Ne.symm hd]
  | built c =>
    refine ⟨rfl, fun d => ?_⟩
    by_cases hd : d = c
    · simp [hd, createQueue, goto, setCtx, Pc.deleting, Pc.counting]
    · simp [createQueue, goto, setCtx, setQueue, Pc.deleting, Pc.counting, Function.update_of_ne hd,
        Ne.symm hd]
  | registered | stored | released | lastReleased =>
    exact hquiet rfl (fun _ => ⟨rfl, rfl⟩) (setCtx_field (·.alive) rfl) (setCtx_field (·.queue) rfl)
  | grabbed _ hg =>
    refine hquiet rfl (fun _ => ?_) (setCtx_field (·.alive) rfl) (setCtx_field (·.queue) rfl)
    cases hg <;> exact ⟨rfl, rfl⟩
  | crash hc => exact hquiet rfl hc.not_delete (fun _ => rfl) fun _ => rfl
  | control hc | linked hc | unlinked hc =>
    refine hquiet rfl (fun _ => ?_) (fun _ => rfl) fun _ => rfl
    cases hc <;> exact ⟨rfl, rfl⟩
  | _ => exact hquiet rfl (fun _ => ⟨rfl, rfl⟩) (fun _ => rfl) fun _ => rfl

theorem After.registering_resume (k : After) (c : ℕ) : k.resume.registering c = 0 := by
  cases k <;> rfl

/-- A context gets into at most one slot: a registration takes the reference of the thread. -/
theorem Effect.slots (ht : Effect s i ok p t) (hp : s.acts[i]? = some p) (c : ℕ) :
    t.table.refs c + total (Pc.registering c) t.acts ≤
      s.table.refs c + total (Pc.registering c) s.acts := by
  have hquiet {p' : Pc} (hacts : t.acts = s.acts.set i p') (hp' : p'.registering c = 0)
      (hle : t.table.refs c ≤ s.table.refs c + p.registering c) :
      t.table.refs c + total (Pc.registering c) t.acts ≤
        s.table.refs c + total (Pc.registering c) s.acts := by
    have := total_set (Pc.registering c) p' hp
    rw [hacts]
    omega
  cases ht with
  | crash => exact le_rfl
  | control hc =>
    refine hquiet rfl ?_ (Nat.le_add_right _ _)
    cases hc <;> first | rfl | exact After.registering_resume _ c
  | grabbed _ hg | linked hg =>
    refine hquiet rfl ?_ (Nat.le_add_right _ _)
    cases hg <;> rfl
  | @unlinked _ _ _ o hu =>
    refine hquiet rfl ?_ (Nat.le_add_right _ _)
    cases hu <;> cases o <;> rfl
  | released | deleted => exact hquiet rfl (After.registering_resume _ c) (Nat.le_add_right _ _)
  | registered hr => exact hquiet rfl rfl (Table.registerLoop_refs hr c).le
  | unregistered hf =>
    exact hquiet rfl rfl ((Nat.le_add_right _ _).trans (Table.refs_clear (find_eq_some hf).1 c).le)
  | taken _ hp' =>
    refine hquiet rfl ?_ (Nat.le_add_right _ _)
    rcases hp' with rfl | rfl <;> rfl
  | reported _ hp' =>
    refine hquiet rfl ?_ (Nat.le_add_right _ _)
    rcases hp' with ⟨_, rfl⟩ | ⟨_, rfl⟩ <;> rfl
  | _ => exact hquiet rfl rfl (Nat.le_add_right _ _)

theorem Sane.services (h : Sane False s) (hp : s.acts[i]? = some p) (ht : Effect s i ok p t) :
    (t.services : ℤ) = s.services + p.svcCountChange := by
  obtain ⟨hn, hlife⟩ := ht.life
  have hlt {c : ℕ} (halive : (s.ctxs c).alive = true) : c ∈ range s.nctx := by
    by_contra hc
    rw [h.refs.fresh c (by simpa using hc)] at halive
    cases halive
  have hcounted (c : ℕ) : (t.ctxs c).counted = if ((s.ctxs c).alive = true ∧ p.deleting c = 0) ∧
      ¬ ((s.ctxs c).queue = none ∧ p.counting c = 0) then 1 else 0 := by
    simp only [ServiceContext.counted, ne_eq, (hlife c).1, (hlife c).2]
  unfold State.services
  rw [hn]
  cases p with
  | createQueue d =>
    have halive := h.refs.alive_of_refs hp (c := d) (by simp [Pc.refs])
    have hnone : (s.ctxs d).queue = none := by
      have hle := le_total (Pc.unbuilt d) hp
      rw [h.owners.unbuilt d halive] at hle
      by_contra hq
      simp [Pc.unbuilt, hq] at hle
    have hone (c : ℕ) : (t.ctxs c).counted = (s.ctxs c).counted + if d = c then 1 else 0 := by
      rw [hcounted, ServiceContext.counted]
      by_cases hd : d = c
      · simp [← hd, halive, hnone, Pc.deleting, Pc.counting]
      · simp [hd, Pc.deleting, Pc.counting]
    simp only [hone, sum_add_distrib, sum_ite_eq, if_pos (hlt halive)]
    rfl
  | delete d k =>
    have hdying : 0 < (Pc.delete d k).dying d := by simp [Pc.dying]
    have halive := h.refs.alive_of_dying hp hdying
    have hzero : (s.ctxs d).ref = 0 := by
      by_contra hne
      have hle := le_total (Pc.dying d) hp
      rw [h.refs.dying d halive, if_neg hne] at hle
      omega
    obtain ⟨q, hq⟩ := h.owners.queue_of_ref_zero h.refs halive hzero
    have hone (c : ℕ) : (s.ctxs c).counted = (t.ctxs c).counted + if d = c then 1 else 0 := by
      rw [hcounted, ServiceContext.counted]
      by_cases hd : d = c
      · simp [← hd, halive, hq, Pc.deleting]
      · simp [hd, Pc.deleting, Pc.counting]
    simp only [hone, sum_add_distrib, sum_ite_eq, if_pos (hlt halive), Pc.svcCountChange]
    omega
  | _ =>
    simp only [hcounted, Pc.deleting, Pc.counting, and_true, Pc.svcCountChange, add_zero]
    rfl

/-! ### All runs -/

/-- The invariant of every run. -/
structure Census (s : State) (svcCount : ℤ) : Prop where
  sane : Sane False s
  slot : ∀ c, s.table.refs c + total (Pc.registering c) s.acts ≤ 1
  count : svcCount = s.services

theorem Pc.registering_le_refs (c : ℕ) (p : Pc) : p.registering c ≤ p.refs c := by
  cases p with
  | register c' =>
    simp only [registering, refs]
    split_ifs <;> omega
  | _ => exact Nat.zero_le _

theorem Census.start (h : Census s n) (task : Task) : Census (s.start task) n := by
  refine ⟨h.sane.start task, fun c => ?_, h.count.trans (congrArg _ ?_)⟩
  · cases task with
    | createService =>
      have hslot := h.slot c
      by_cases hc : s.nctx = c
      · obtain ⟨hrefs, hthreads, -⟩ := h.sane.refs.dead c (h.sane.refs.fresh c hc.le)
        have hle := total_mono (Pc.registering_le_refs c) s.acts
        simp [State.start, newService, Pc.registering, hc]
        omega
      · simpa [State.start, newService, Pc.registering, hc] using hslot
    | _ => simpa [State.start, Pc.registering] using h.slot c
  · cases task with
    | createService =>
      have hnew : (s.newService.ctxs s.nctx).counted = 0 := by
        simp [newService, ServiceContext.counted]
      unfold State.services
      rw [State.start, show s.newService.nctx = s.nctx + 1 from rfl, sum_range_succ, hnew]
      refine sum_congr rfl fun c hc => ?_
      rw [s.newService_ctxs.2 c (mem_range.mp hc).ne]
    | _ => rfl

theorem Counting.sum_due (hp : s.acts[i]? = some p) :
    ((due s (.run i ok)).map Prod.snd).sum = p.svcCountChange := by
  simp only [due, hp]
  split_ifs with h <;> simp [h]

theorem Census.of_reachable {x : Counting} (h : countingNode.Reachable x) :
    Census x.node (x.svcCount + x.owed) := by
  have hinit : Census State.init 0 :=
    ⟨Sane.init, fun c => (Refs.init.dead c rfl).1.le.trans zero_le_one, rfl⟩
  refine h.invariant (I := fun x => Census x.node (x.svcCount + x.owed)) hinit ?_
  rintro x a y hx - hstep
  cases a with
  | node a =>
    simp only [countingNode, Counting.step] at hstep
    split_ifs at hstep
    obtain ⟨t, ht, rfl⟩ := Option.map_eq_some_iff.mp hstep
    obtain ⟨-, ⟨task, rfl, rfl⟩ | ⟨i, ok, p, rfl, hp, heffect⟩⟩ := step_cases ht
    · exact hx.start task
    · refine ⟨hx.sane.effect hp heffect nofun, fun c => (heffect.slots hp c).trans (hx.slot c), ?_⟩
      rw [hx.sane.services hp heffect, ← hx.count, Counting.owed, List.map_append, List.sum_append,
        Counting.sum_due hp, Counting.owed]
      ring
  | count i d =>
    simp only [countingNode, Counting.step] at hstep
    split_ifs at hstep with hmem
    cases hstep
    have hsum : x.owed = d + ((x.pending.erase (i, d)).map Prod.snd).sum :=
      ((List.perm_cons_erase hmem).map Prod.snd).sum_eq
    refine ⟨hx.sane, hx.slot, ?_⟩
    rw [← hx.count, hsum, Counting.owed, add_assoc]

/-- **The life of a context.**  Its count is that of its slot and of the threads that will release
it, a thread between the creation and the registration counting for the slot as well.  When the
count is 0, exactly one thread deletes the context, nobody else refers to it, and its queue is
marked by this thread and never twice.  A context is deleted by such a step only and does not come
back.  `svc_count_` and what the threads still have to add make the number of contexts that have
their queue and are not deleted. -/
theorem context_lifetime {svcCount : ℤ} {pending : List (ℕ × ℤ)}
    (h : countingNode.Reachable ⟨s, svcCount, pending⟩) :
    (∀ c, (s.ctxs c).alive = true →
      s.table.refs c ≤ 1 ∧ (s.ctxs c).ref = s.table.refs c + total (Pc.refs c) s.acts ∧
      total (Pc.dying c) s.acts = (if (s.ctxs c).ref = 0 then 1 else 0) ∧
      ((s.ctxs c).ref = 0 → ∃ q, (s.ctxs c).queue = some q) ∧
      ∀ q, (s.ctxs c).queue = some q →
        ((s.queues q).isRelease = true ↔ 0 < total (Pc.deleting c) s.acts)) ∧
    (∀ c, (s.ctxs c).alive = false →
      s.table.refs c = 0 ∧ total (Pc.refs c) s.acts = 0 ∧ total (Pc.dying c) s.acts = 0) ∧
    s.fault ≠ some .releasedTwice ∧
    (∀ a t c, s.step a = some t → c < s.nctx → ((t.ctxs c).alive = true ↔
      (s.ctxs c).alive = true ∧ ∀ i ok k, a = .run i ok → s.acts[i]? ≠ some (.delete c k))) ∧
    svcCount + (pending.map Prod.snd).sum = s.services := by
  obtain ⟨⟨hrefs, howners, l, hplaced⟩, hslot, hcount⟩ := Census.of_reachable h
  refine ⟨fun c hc => ⟨(Nat.le_add_right _ _).trans (hslot c), hrefs.counted c hc, hrefs.dying c hc,
    howners.queue_of_ref_zero hrefs hc, fun q => howners.released c q hc⟩, hrefs.dead,
    fun hf => hplaced.fault (.inr (.inr (.inr hf))), fun a t c ha hc => ?_, hcount⟩
  obtain ⟨-, ⟨task, rfl, rfl⟩ | ⟨i, ok, p, rfl, hp, ht⟩⟩ := step_cases ha
  · have hctx : (s.start task).ctxs c = s.ctxs c := by
      cases task with
      | createService => exact s.newService_ctxs.2 c hc.ne
      | _ => rfl
    simp [hctx]
  · rw [(ht.life.2 c).1]
    refine and_congr_right fun _ => ⟨fun hzero j ok' k ha hd => ?_, fun hne => ?_⟩
    · cases ha
      obtain rfl := Option.some.inj (hp.symm.trans hd)
      simp [Pc.deleting] at hzero
    · cases p with
      | delete d k =>
        refine if_neg fun hd => hne i ok k rfl ?_
        rwa [← hd]
      | _ => rfl

/-- A service is created and counted. -/
theorem context_lifetime_of_created : ∃ x, countingNode.Reachable x ∧ x.svcCount = 1 ∧
    x.svcCount + x.owed = x.node.services := by
  obtain ⟨⟨s, n, pending⟩, hx, hone⟩ := System.exists_reachable countingNode (fun _ _ => True)
    (.node (.start .createService) :: List.replicate 3 (.node (.run 0 true)) ++ [.count 0 1])
    (·.svcCount = 1) (by decide +kernel)
  exact ⟨_, hx, hone, (context_lifetime hx).2.2.2.2⟩

/-- Before the registration and after `unregister_service` has cleared the slot the context is in
no slot, and its count is one more than that of `create_service` and of the `grab`s.  A context that
is deleted is counted until its thread decrements `svc_count_`. -/
theorem ref_outside_slot :
    (∃ x, countingNode.Reachable x ∧ x.node.acts = [.register 0] ∧ x.node.table.refs 0 = 0 ∧
      (x.node.ctxs 0).ref = 2) ∧
    ∃ x, countingNode.Reachable x ∧ x.node.acts = [.finished, .release 0 .finish] ∧
      x.node.table.refs 0 = 0 ∧ (x.node.ctxs 0).ref = 1 :=
  ⟨System.exists_reachable countingNode _ [.node (.start .createService)] _ (by decide +kernel),
    System.exists_reachable countingNode _ (.node (.start .createService) ::
      List.replicate 3 (.node (.run 0 true)) ++ .count 0 1 ::
      List.replicate 3 (.node (.run 0 true)) ++
      [.node (.start (.unregisterService 1)), .node (.run 1 true)]) _ (by decide +kernel)⟩

end Skynet.Node
