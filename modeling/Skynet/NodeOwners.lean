import Skynet.NodeRefs

/-! # Owners of private queues

A live context owns at most one private queue, which it gets from the thread that creates it
(`Owners`).  The queue is marked for release exactly while its context is between
`mark_release` and its `delete`; so a queue that somebody can still push to is not marked. -/

namespace Skynet.Node

open Function ThreadPool State

namespace Pc

/-- The thread has not created the queue of context `c` yet. -/
def unbuilt (c : ℕ) : Pc → ℕ
  | .register c' | .storeHandle c' _ | .createQueue c' => if c' = c then 1 else 0
  | _ => 0

/-- The thread is about to call `mark_release` for the queue of context `c`. -/
def marking (c : ℕ) : Pc → ℕ
  | .markRelease c' _ => if c' = c then 1 else 0
  | _ => 0

/-- The thread has marked the queue of context `c` and is about to delete the context. -/
def deleting (c : ℕ) : Pc → ℕ
  | .delete c' _ => if c' = c then 1 else 0
  | _ => 0

theorem dying_eq (c : ℕ) (p : Pc) : p.dying c = p.marking c + p.deleting c := by
  cases p <;> simp [dying, marking, deleting]

theorem unbuilt_le_refs (c : ℕ) (p : Pc) : p.unbuilt c ≤ p.refs c := by
  cases p with
  | register c' =>
    simp only [unbuilt, refs]
    split_ifs <;> omega
  | storeHandle | createQueue => exact le_rfl
  | _ => exact Nat.zero_le _

end Pc

@[simp] theorem After.unbuilt_resume (k : After) (c : ℕ) : k.resume.unbuilt c = 0 := by
  cases k <;> rfl

@[simp] theorem After.deleting_resume (k : After) (c : ℕ) : k.resume.deleting c = 0 := by
  cases k <;> rfl

/-- Contexts and their queues. -/
structure Owners (s : State) : Prop where
  unbuilt : ∀ c, (s.ctxs c).alive = true →
    total (Pc.unbuilt c) s.acts = if (s.ctxs c).queue = none then 1 else 0
  owned : ∀ c q, (s.ctxs c).alive = true → (s.ctxs c).queue = some q →
    q < s.nq ∧ (s.queues q).owner = c
  released : ∀ c q, (s.ctxs c).alive = true → (s.ctxs c).queue = some q →
    ((s.queues q).isRelease = true ↔ 0 < total (Pc.deleting c) s.acts)

theorem Refs.deleting_eq_zero {s : State} (h : Refs s) {c : ℕ} (halive : (s.ctxs c).alive = true)
    (hpos : 0 < (s.ctxs c).ref) : total (Pc.deleting c) s.acts = 0 := by
  have hd := h.dying c halive
  rw [if_neg (by omega), funext (Pc.dying_eq c), total_add] at hd
  omega

theorem Refs.deleting_eq_zero_of_marking {s : State} (h : Refs s) {i c : ℕ} {k : After}
    (hp : s.acts[i]? = some (.markRelease c k)) : total (Pc.deleting c) s.acts = 0 := by
  have halive := h.alive_of_dying (c := c) hp (by simp [Pc.dying])
  have hd := h.dying c halive
  have hle := le_total (Pc.marking c) hp
  simp only [Pc.marking, if_true] at hle
  rw [funext (Pc.dying_eq c), total_add] at hd
  split_ifs at hd <;> omega

namespace Owners

variable {s t : State} {i : ℕ} {p p' : Pc} {c q : ℕ}

theorem not_isRelease (h : Owners s) (hr : Refs s) (halive : (s.ctxs c).alive = true)
    (hpos : 0 < (s.ctxs c).ref) (hq : (s.ctxs c).queue = some q) :
    (s.queues q).isRelease = false := by
  have := h.released c q halive hq
  rw [hr.deleting_eq_zero halive hpos] at this
  simpa using this

theorem queue_of_ref_zero (h : Owners s) (hr : Refs s) (halive : (s.ctxs c).alive = true)
    (hzero : (s.ctxs c).ref = 0) : ∃ q, (s.ctxs c).queue = some q := by
  have hu := h.unbuilt c halive
  have hc := hr.counted c halive
  have hle : total (Pc.unbuilt c) s.acts ≤ total (Pc.refs c) s.acts :=
    total_mono (Pc.unbuilt_le_refs c) s.acts
  cases hq : (s.ctxs c).queue with
  | none =>
    rw [hq, if_pos rfl] at hu
    omega
  | some q => exact ⟨q, rfl⟩

theorem init : Owners State.init where
  unbuilt _ h := by cases h
  owned _ _ h := by cases h
  released _ _ h := by cases h

variable (h : Owners s)

include h

theorem crash (f : Fault) : Owners (s.crash f) := ⟨h.unbuilt, h.owned, h.released⟩

theorem quiet (hp : s.acts[i]? = some p) (hacts : t.acts = s.acts.set i p')
    (hctx : ∀ c, (t.ctxs c).alive = (s.ctxs c).alive ∧ (t.ctxs c).queue = (s.ctxs c).queue)
    (hq : ∀ q, (t.queues q).isRelease = (s.queues q).isRelease ∧
      (t.queues q).owner = (s.queues q).owner) (hnq : t.nq = s.nq)
    (hpc : ∀ c, p'.unbuilt c = p.unbuilt c ∧ p'.deleting c = p.deleting c) : Owners t := by
  refine ⟨fun c hc => ?_, fun c q hc hcq => ?_, fun c q hc hcq => ?_⟩
  · rw [(hctx c).1] at hc
    have h1 := h.unbuilt c hc
    have h2 := total_set (Pc.unbuilt c) p' hp
    rw [(hctx c).2, hacts]
    rw [(hpc c).1] at h2
    omega
  · rw [(hctx c).1] at hc
    rw [(hctx c).2] at hcq
    rw [hnq, (hq q).2]
    exact h.owned c q hc hcq
  · rw [(hctx c).1] at hc
    rw [(hctx c).2] at hcq
    have h2 := total_set (Pc.deleting c) p' hp
    rw [(hpc c).2] at h2
    rw [(hq q).1, hacts, h.released c q hc hcq]
    omega

theorem quiet_queue (hp : s.acts[i]? = some p) {x : MqPrivate} (hacts : t.acts = s.acts.set i p')
    (hctx : t.ctxs = s.ctxs) (hq : t.queues = (s.setQueue q x).queues) (hnq : t.nq = s.nq)
    (hx : x.isRelease = (s.queues q).isRelease ∧ x.owner = (s.queues q).owner)
    (hpc : ∀ c, p'.unbuilt c = p.unbuilt c ∧ p'.deleting c = p.deleting c) : Owners t := by
  refine h.quiet hp hacts (fun c => by rw [hctx]; exact ⟨rfl, rfl⟩) (fun d => ?_) hnq hpc
  rw [hq]
  exact ⟨setQueue_field (·.isRelease) hx.1 d, setQueue_field (·.owner) hx.2 d⟩

theorem quiet_ctx (hp : s.acts[i]? = some p) {x : ServiceContext} (hacts : t.acts = s.acts.set i p')
    (hctx : t.ctxs = (s.setCtx c x).ctxs) (hq : t.queues = s.queues) (hnq : t.nq = s.nq)
    (hx : x.alive = (s.ctxs c).alive ∧ x.queue = (s.ctxs c).queue)
    (hpc : ∀ c, p'.unbuilt c = p.unbuilt c ∧ p'.deleting c = p.deleting c) : Owners t := by
  refine h.quiet hp hacts (fun d => ?_) (fun d => by rw [hq]; exact ⟨rfl, rfl⟩) hnq hpc
  rw [hctx]
  exact ⟨setCtx_field (·.alive) hx.1 d, setCtx_field (·.queue) hx.2 d⟩

theorem fork (hp : ∀ c, p.unbuilt c = 0 ∧ p.deleting c = 0) :
    Owners { s with acts := s.acts ++ [p] } := by
  refine ⟨fun c hc => ?_, h.owned, fun c q hc hcq => ?_⟩
  · simpa [(hp c).1] using h.unbuilt c hc
  · simpa [(hp c).2] using h.released c q hc hcq

theorem newService (hr : Refs s) : Owners s.newService := by
  obtain ⟨hself, hother⟩ := s.newService_ctxs
  have hzero : total (Pc.unbuilt s.nctx) s.acts = 0 := by
    have hle := total_mono (Pc.unbuilt_le_refs s.nctx) s.acts
    have := (hr.dead s.nctx (hr.fresh _ le_rfl)).2.1
    omega
  refine ⟨fun c hc => ?_, fun c q hc hcq => ?_, fun c q hc hcq => ?_⟩
  · by_cases hcn : c = s.nctx
    · rw [hcn, hself]
      simp [State.newService, hzero, Pc.unbuilt]
    · rw [hother c hcn] at hc ⊢
      rw [← h.unbuilt c hc]
      simp [State.newService, Pc.unbuilt, Ne.symm hcn]
  all_goals
    have hcn : c ≠ s.nctx := fun he => by
      rw [he, hself] at hcq
      cases hcq
    rw [hother c hcn] at hc hcq
  · exact h.owned c q hc hcq
  · have := h.released c q hc hcq
    simpa [State.newService, Pc.deleting] using this

theorem start (hr : Refs s) (task : Task) : Owners (s.start task) := by
  cases task with
  | createService => exact h.newService hr
  | _ => exact h.fork fun _ => ⟨rfl, rfl⟩

/-- `is_release_ = true` for the queue of `c`. -/
theorem marked {k : After} (hp : s.acts[i]? = some (.markRelease c k)) (hr : Refs s)
    (hq : (s.ctxs c).queue = some q) (hctx : t.ctxs = s.ctxs) (hnq : t.nq = s.nq)
    (hacts : t.acts = s.acts.set i (.delete c k))
    (hqueues : t.queues = (s.setQueue q { s.queues q with isRelease := true }).queues) :
    Owners t := by
  have halive := hr.alive_of_dying (c := c) hp (by simp [Pc.dying])
  have hdel : ∀ d, total (Pc.deleting d) t.acts =
      total (Pc.deleting d) s.acts + if c = d then 1 else 0 := fun d => by
    rw [hacts]
    exact total_set (Pc.deleting d) (.delete c k) hp
  refine ⟨fun d hd => ?_, fun d q' hd hdq => ?_, fun d q' hd hdq => ?_⟩
  · rw [hctx] at hd ⊢
    rw [← h.unbuilt d hd, hacts]
    exact total_set (Pc.unbuilt d) (.delete c k) hp
  · rw [hctx] at hd hdq
    obtain ⟨hlt, ho⟩ := h.owned d q' hd hdq
    rw [hnq, hqueues]
    exact ⟨hlt, (setQueue_field (x := { s.queues q with isRelease := true })
      (·.owner) rfl q').trans ho⟩
  · rw [hctx] at hd hdq
    rw [hqueues, hdel d]
    by_cases hdc : d = c
    · subst hdc
      obtain rfl : q = q' := Option.some.inj (hq.symm.trans hdq)
      simp [setQueue]
    · have hne : q' ≠ q := fun he => by
        have h1 := (h.owned d q' hd hdq).2
        have h2 := (h.owned c q halive hq).2
        rw [he, h2] at h1
        exact hdc h1.symm
      rw [if_neg (Ne.symm hdc), add_zero, ← h.released d q' hd hdq]
      simp [setQueue, update_of_ne hne]

/-- `mq_private::create` for `c`. -/
theorem built (hr : Refs s) (hp : s.acts[i]? = some (.createQueue c)) :
    Owners (s.createQueue i c) := by
  have hpc : 0 < (Pc.createQueue c).refs c := by simp [Pc.refs]
  have halive := hr.alive_of_refs hp hpc
  have hdel := hr.deleting_eq_zero halive (hr.ref_pos_of_refs hp hpc)
  have hset : ∀ f : Pc → ℕ, total f (s.createQueue i c).acts + f (.createQueue c) =
      total f s.acts + f (.init c s.nq) := fun f => total_set f (.init c s.nq) hp
  obtain ⟨hself, hother⟩ := s.createQueue_ctxs i c
  obtain ⟨hnew, hold⟩ := s.createQueue_queues i c
  refine ⟨fun d hd => ?_, fun d q' hd hdq => ?_, fun d q' hd hdq => ?_⟩
  · have hu := hset (Pc.unbuilt d)
    by_cases hdc : d = c
    · rw [hdc] at hu ⊢
      have hle := le_total (Pc.unbuilt c) hp
      have h1 := h.unbuilt c halive
      simp only [Pc.unbuilt, if_true] at hu hle
      rw [hself, if_neg (by simp)]
      split_ifs at h1 <;> omega
    · rw [hother d hdc] at hd ⊢
      rw [← h.unbuilt d hd]
      simpa [Pc.unbuilt, Ne.symm hdc] using hu
  · by_cases hdc : d = c
    · rw [hdc, hself] at hdq
      cases hdq
      rw [hnew]
      exact ⟨Nat.lt_succ_self _, hdc.symm⟩
    · rw [hother d hdc] at hd hdq
      obtain ⟨hlt, ho⟩ := h.owned d q' hd hdq
      rw [hold q' (by omega)]
      exact ⟨Nat.lt_succ_of_lt hlt, ho⟩
  · have hu := hset (Pc.deleting d)
    simp only [Pc.deleting, add_zero] at hu
    rw [show total (Pc.deleting d) _ = _ from hu]
    by_cases hdc : d = c
    · rw [hdc, hself] at hdq
      cases hdq
      rw [hnew, hdc, hdel]
      simp
    · rw [hother d hdc] at hd hdq
      rw [hold q' (by have := (h.owned d q' hd hdq).1; omega)]
      exact h.released d q' hd hdq

theorem deleted {k : After} (hp : s.acts[i]? = some (.delete c k)) :
    Owners ((s.setCtx c { s.ctxs c with alive := false }).goto i k.resume) := by
  set t := (s.setCtx c { s.ctxs c with alive := false }).goto i k.resume with ht
  have hself : (t.ctxs c).alive = false := by
    simp [ht, goto, setCtx]
  have hother : ∀ d, d ≠ c → t.ctxs d = s.ctxs d := fun d hd => update_of_ne hd _ _
  have hne : ∀ d, (t.ctxs d).alive = true → d ≠ c := fun d hd he => by
    rw [he, hself] at hd
    cases hd
  refine ⟨fun d hd => ?_, fun d q' hd hdq => ?_, fun d q' hd hdq => ?_⟩
  · have hdc := hne d hd
    rw [hother d hdc] at hd ⊢
    have hu := total_set (Pc.unbuilt d) k.resume hp
    rw [After.unbuilt_resume] at hu
    rw [← h.unbuilt d hd]
    exact hu
  · have hdc := hne d hd
    rw [hother d hdc] at hd hdq
    exact h.owned d q' hd hdq
  · have hdc := hne d hd
    rw [hother d hdc] at hd hdq
    have hu := total_set (Pc.deleting d) k.resume hp
    rw [After.deleting_resume] at hu
    simp only [Pc.deleting, if_neg (Ne.symm hdc), add_zero] at hu
    have := h.released d q' hd hdq
    rwa [← hu] at this

/-- **Owners** are kept by every step of a thread. -/
theorem effect (hr : Refs s) {ok : Bool} (hp : s.acts[i]? = some p) (ht : Effect s i ok p t) :
    Owners t := by
  cases ht with
  | control hc =>
    refine h.quiet hp rfl (fun _ => ⟨rfl, rfl⟩) (fun _ => ⟨rfl, rfl⟩) rfl fun c => ?_
    cases hc with
    | send => exact ⟨After.unbuilt_resume _ c, After.deleting_resume _ c⟩
    | _ => exact ⟨rfl, rfl⟩
  | crash _ => exact h.crash _
  | grabbed hf hg =>
    refine h.quiet_ctx hp rfl rfl rfl rfl ⟨rfl, rfl⟩ fun c => ?_
    cases hg <;> exact ⟨rfl, rfl⟩
  | released hne =>
    exact h.quiet_ctx hp rfl rfl rfl rfl ⟨rfl, rfl⟩ fun c =>
      ⟨After.unbuilt_resume _ c, After.deleting_resume _ c⟩
  | lastReleased | stored | registered _ =>
    exact h.quiet_ctx hp rfl rfl rfl rfl ⟨rfl, rfl⟩ fun _ => ⟨rfl, rfl⟩
  | marked hq _ _ | markedIdle hq _ _ _ => exact h.marked hp hr hq rfl rfl rfl rfl
  | deleted c k => exact h.deleted hp
  | built c => exact h.built hr hp
  | unregistered _ =>
    exact h.quiet hp rfl (fun _ => ⟨rfl, rfl⟩) (fun _ => ⟨rfl, rfl⟩) rfl fun _ => ⟨rfl, rfl⟩
  | linked hl _ =>
    refine h.quiet hp rfl (fun _ => ⟨rfl, rfl⟩) (fun _ => ⟨rfl, rfl⟩) rfl fun c => ?_
    cases hl <;> exact ⟨rfl, rfl⟩
  | @unlinked _ _ _ o hu _ =>
    refine h.quiet hp rfl (fun _ => ⟨rfl, rfl⟩) (fun _ => ⟨rfl, rfl⟩) rfl fun c => ?_
    cases hu <;> cases o <;> exact ⟨rfl, rfl⟩
  | taken _ hp' =>
    refine h.quiet_queue hp rfl rfl rfl rfl ⟨rfl, rfl⟩ fun c => ?_
    rcases hp' with rfl | rfl <;> exact ⟨rfl, rfl⟩
  | reported _ hp' =>
    refine h.quiet hp rfl (fun _ => ⟨rfl, rfl⟩) (fun _ => ⟨rfl, rfl⟩) rfl fun c => ?_
    rcases hp' with ⟨_, rfl⟩ | ⟨_, rfl⟩ <;> exact ⟨rfl, rfl⟩
  | initFailed | accepted | acceptedIdle | emptied | dropEmptied | dropTaken | queueDeleted =>
    exact h.quiet_queue hp rfl rfl rfl rfl ⟨rfl, rfl⟩ fun _ => ⟨rfl, rfl⟩

omit h

end Owners

end Skynet.Node
