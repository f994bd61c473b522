import Skynet.NodePlacement

/-! # Handles of contexts and queues

`register_service` issues a handle to a context; the thread that creates the service stores it
in the context later, and then creates the queue with it.  Until the handle is stored, the
context has handle 0.  A queue carries the handle issued to its owner (`Issued`).  All this
holds in every run. -/

namespace Skynet.Node

open Function ThreadPool State

/-- What a thread that builds a service knows about the context: it gets its handle and its
queue from this thread, and stands in no slot before it is registered. -/
def Pc.Known (s : State) : Pc → Prop
  | .register c => (s.ctxs c).svcHandle = 0 ∧ (s.ctxs c).queue = none ∧ s.table.refs c = 0
  | .storeHandle c h => (s.ctxs c).svcHandle = 0 ∧ (s.ctxs c).queue = none ∧
      (s.ctxs c).issued = h ∧ 1 ≤ h
  | .createQueue c => (s.ctxs c).svcHandle = (s.ctxs c).issued ∧ (s.ctxs c).queue = none ∧
      1 ≤ (s.ctxs c).issued
  | _ => True

namespace State

/-- The fields of a context that are set while its service is built. -/
def SameBuild (s t : State) (c : ℕ) : Prop :=
  (t.ctxs c).svcHandle = (s.ctxs c).svcHandle ∧ (t.ctxs c).issued = (s.ctxs c).issued ∧
    (t.ctxs c).queue = (s.ctxs c).queue

variable {s t : State}

theorem sameBuild_setCtx {c : ℕ} {x : ServiceContext} (ht : t.ctxs = (s.setCtx c x).ctxs)
    (hx : x.svcHandle = (s.ctxs c).svcHandle ∧ x.issued = (s.ctxs c).issued ∧
      x.queue = (s.ctxs c).queue) (d : ℕ) : s.SameBuild t d := by
  unfold SameBuild
  rw [ht]
  exact ⟨setCtx_field (·.svcHandle) hx.1 d, setCtx_field (·.issued) hx.2.1 d,
    setCtx_field (·.queue) hx.2.2 d⟩

theorem setQueue_names {q : ℕ} {x : MqPrivate} (ht : t.queues = (s.setQueue q x).queues)
    (hx : x.owner = (s.queues q).owner ∧ x.svcHandle = (s.queues q).svcHandle) (d : ℕ) :
    (t.queues d).owner = (s.queues d).owner ∧ (t.queues d).svcHandle = (s.queues d).svcHandle := by
  rw [ht]
  exact ⟨setQueue_field (·.owner) hx.1 d, setQueue_field (·.svcHandle) hx.2 d⟩

theorem sameBuild_of_eq {c : ℕ} (h : t.ctxs c = s.ctxs c) : s.SameBuild t c := by
  unfold SameBuild
  rw [h]
  exact ⟨rfl, rfl, rfl⟩

end State

theorem Pc.Known.congr {s t : State} {p : Pc} (h : p.Known s)
    (he : ∀ c, 0 < p.unbuilt c → s.SameBuild t c ∧ t.table.refs c ≤ s.table.refs c) :
    p.Known t := by
  cases p with
  | register d =>
    obtain ⟨⟨h1, h2, h3⟩, h4⟩ := he d (by simp [unbuilt])
    refine ⟨h1.trans h.1, h3.trans h.2.1, ?_⟩
    have := h.2.2
    omega
  | storeHandle d k | createQueue d =>
    obtain ⟨⟨h1, h2, h3⟩, h4⟩ := he d (by simp [unbuilt])
    simpa only [Known, h1, h2, h3] using h
  | _ => trivial

@[simp] theorem After.known_resume (k : After) (s : State) : k.resume.Known s := by
  cases k <;> trivial

/-- Handles of contexts and queues. -/
structure Issued (s : State) : Prop where
  seed : 1 ≤ s.table.seed
  fresh : ∀ c, s.nctx ≤ c → (s.ctxs c).queue = none
  born : ∀ q, q < s.nq → (s.ctxs (s.queues q).owner).queue = some q ∧
    (s.queues q).svcHandle = (s.ctxs (s.queues q).owner).issued ∧ 1 ≤ (s.queues q).svcHandle
  stored : ∀ c, (s.ctxs c).svcHandle = 0 ∨ (s.ctxs c).svcHandle = (s.ctxs c).issued
  known : ∀ (j : ℕ) p, s.acts[j]? = some p → p.Known s

theorem unbuilt_le_one {s : State} {i c : ℕ} {p : Pc} (ho : Owners s) (hr : Refs s)
    (hp : s.acts[i]? = some p) (hc : 0 < p.unbuilt c) : total (Pc.unbuilt c) s.acts ≤ 1 := by
  have halive := hr.alive_of_refs hp (hc.trans_le (Pc.unbuilt_le_refs c p))
  rw [ho.unbuilt c halive]
  split_ifs <;> omega

namespace Issued

variable {s t : State} {i : ℕ} {p p' : Pc} {c q : ℕ}

theorem init : Issued State.init where
  seed := le_rfl
  fresh _ _ := rfl
  born q h := by simp [State.init] at h
  stored _ := .inl rfl
  known j p h := by simp [State.init] at h

theorem crash (h : Issued s) (f : Fault) : Issued (s.crash f) :=
  ⟨h.seed, h.fresh, h.born, h.stored, fun j p hp => (h.known j p hp).congr
    fun _ _ => ⟨⟨rfl, rfl, rfl⟩, le_rfl⟩⟩

theorem queue_none (h : Issued s) (hp : s.acts[i]? = some p) (hc : 0 < p.unbuilt c) :
    (s.ctxs c).queue = none := by
  have hk := h.known i p hp
  cases p with
  | register d | storeHandle d | createQueue d =>
    obtain rfl : d = c := of_ite_pos hc
    exact hk.2.1
  | _ => exact absurd hc (lt_irrefl 0)

theorem owner_ne (h : Issued s) (hnone : (s.ctxs c).queue = none) (hq : q < s.nq) :
    (s.queues q).owner ≠ c := by
  intro he
  have := (h.born q hq).1
  rw [he, hnone] at this
  cases this

theorem quiet (h : Issued s) (hacts : t.acts = s.acts.set i p')
    (hseed : t.table.seed = s.table.seed) (hn : t.nctx = s.nctx) (hnq : t.nq = s.nq)
    (hctx : ∀ c, s.SameBuild t c) (hrefs : ∀ c, t.table.refs c ≤ s.table.refs c)
    (hq : ∀ q, (t.queues q).owner = (s.queues q).owner ∧
      (t.queues q).svcHandle = (s.queues q).svcHandle) (hp' : p'.Known t) : Issued t := by
  refine ⟨hseed ▸ h.seed, fun c hc => ?_, fun q hlt => ?_, fun c => ?_, ?_⟩
  · rw [(hctx c).2.2]
    exact h.fresh c (hn ▸ hc)
  · rw [(hq q).1, (hq q).2, (hctx _).2.2, (hctx _).2.1]
    exact h.born q (hnq ▸ hlt)
  · rw [(hctx c).1, (hctx c).2.1]
    exact h.stored c
  · rw [hacts]
    exact forall_set_index h.known (fun j r _ _ hr => hr.congr fun c _ => ⟨hctx c, hrefs c⟩) hp'

/-- While thread `i` builds context `c`, no other thread builds it. -/
theorem known_other (ho : Owners s) (hr : Refs s) (hp : s.acts[i]? = some p)
    (hc : 0 < p.unbuilt c) (hother : ∀ d, d ≠ c → t.ctxs d = s.ctxs d)
    (hrefs : ∀ d, d ≠ c → t.table.refs d ≤ s.table.refs d)
    (j : ℕ) (r : Pc) (hj : j ≠ i) (hjr : s.acts[j]? = some r) (hk : r.Known s) : r.Known t := by
  refine hk.congr fun d hd => ?_
  have hne : d ≠ c := by
    rintro rfl
    exact hj (owner_unique (unbuilt_le_one ho hr hp hc) hjr hp hd hc)
  exact ⟨sameBuild_of_eq (hother d hne), hrefs d hne⟩

/-- The thread that builds context `c` changes it. -/
theorem build (h : Issued s) (ho : Owners s) (hr : Refs s) (hp : s.acts[i]? = some p)
    (hc : 0 < p.unbuilt c) (hother : ∀ d, d ≠ c → t.ctxs d = s.ctxs d)
    (hrefs : ∀ d, d ≠ c → t.table.refs d ≤ s.table.refs d) (hacts : t.acts = s.acts.set i p')
    (hseed : 1 ≤ t.table.seed) (hn : t.nctx = s.nctx) (hnq : t.nq = s.nq)
    (hqueues : t.queues = s.queues)
    (hstored : (t.ctxs c).svcHandle = 0 ∨ (t.ctxs c).svcHandle = (t.ctxs c).issued)
    (hnone : (t.ctxs c).queue = none) (hp' : p'.Known t) : Issued t := by
  refine ⟨hseed, fun d hd => ?_, fun q hq => ?_, fun d => ?_, ?_⟩
  · by_cases hdc : d = c
    · rw [hdc]
      exact hnone
    · rw [hother d hdc]
      exact h.fresh d (hn ▸ hd)
  · rw [hqueues, hother _ (h.owner_ne (h.queue_none hp hc) (hnq ▸ hq))]
    exact h.born q (hnq ▸ hq)
  · by_cases hdc : d = c
    · rw [hdc]
      exact hstored
    · rw [hother d hdc]
      exact h.stored d
  · rw [hacts]
    exact forall_set_index h.known (known_other ho hr hp hc hother hrefs) hp'

/-- `mq_private::create` -/
theorem built (h : Issued s) (ho : Owners s) (hr : Refs s)
    (hp : s.acts[i]? = some (.createQueue c)) : Issued (s.createQueue i c) := by
  obtain ⟨hissued, hnone, hk⟩ := h.known i _ hp
  have hunbuilt : 0 < (Pc.createQueue c).unbuilt c := by simp [Pc.unbuilt]
  have halive := hr.alive_of_refs (c := c) hp (by simp [Pc.refs])
  obtain ⟨hself, hother⟩ := s.createQueue_ctxs i c
  obtain ⟨hnew, hold⟩ := s.createQueue_queues i c
  set t := s.createQueue i c with ht
  refine ⟨h.seed, fun d hd => ?_, fun q hq => ?_, fun d => ?_, ?_⟩
  · have hdc : d ≠ c := fun he => by
      have := hr.fresh d hd
      rw [he, halive] at this
      cases this
    rw [hother d hdc]
    exact h.fresh d hd
  · by_cases hqn : q = s.nq
    · rw [hqn, hnew, hself]
      exact ⟨rfl, hissued, hissued ▸ hk⟩
    · have hlt : q < s.nq + 1 := hq
      rw [hold q hqn, hother _ (h.owner_ne hnone (by omega))]
      exact h.born q (by omega)
  · by_cases hdc : d = c
    · rw [hdc, hself]
      exact .inr hissued
    · rw [hother d hdc]
      exact h.stored d
  · exact forall_set_index h.known (known_other ho hr hp hunbuilt hother fun _ _ => le_rfl) trivial

theorem newService (h : Issued s) (hr : Refs s) : Issued s.newService := by
  obtain ⟨hself, hother⟩ := s.newService_ctxs
  obtain ⟨hslot, hrefs, _⟩ := hr.dead s.nctx (hr.fresh _ le_rfl)
  refine ⟨h.seed, fun c hc => ?_, fun q hq => ?_, fun c => ?_, ?_⟩
  · have hlt : s.nctx < c := hc
    rw [hother c (by omega)]
    exact h.fresh c (by omega)
  · rw [show s.newService.queues = s.queues from rfl,
      hother _ (h.owner_ne (h.fresh s.nctx le_rfl) hq)]
    exact h.born q hq
  · by_cases hc : c = s.nctx
    · rw [hc, hself]
      exact .inl rfl
    · rw [hother c hc]
      exact h.stored c
  · refine forall_append_index (fun j r hjr => (h.known j r hjr).congr fun d hd => ?_) ?_
    · have hne : d ≠ s.nctx := by
        rintro rfl
        have hle := le_total (Pc.refs s.nctx) hjr
        have := Pc.unbuilt_le_refs s.nctx r
        omega
      exact ⟨sameBuild_of_eq (hother d hne), le_rfl⟩
    · rw [Pc.Known, hself]
      exact ⟨rfl, rfl, hslot⟩

theorem fork (h : Issued s) (hp : p.Known s) : Issued { s with acts := s.acts ++ [p] } :=
  ⟨h.seed, h.fresh, h.born, h.stored, forall_append_index h.known hp⟩

theorem start (h : Issued s) (hr : Refs s) (task : Task) : Issued (s.start task) := by
  cases task with
  | createService => exact h.newService hr
  | _ => exact h.fork trivial

/-- **Handles** are kept by every step of a thread. -/
theorem effect (h : Issued s) (ho : Owners s) (hr : Refs s) {ok : Bool}
    (hp : s.acts[i]? = some p) (ht : Effect s i ok p t) : Issued t := by
  have hk := h.known i p hp
  cases ht with
  | control hc =>
    refine h.quiet rfl rfl rfl rfl (fun _ => ⟨rfl, rfl, rfl⟩) (fun _ => le_rfl)
      (fun _ => ⟨rfl, rfl⟩) ?_
    cases hc with
    | send => exact After.known_resume _ _
    | _ => trivial
  | crash _ => exact h.crash _
  | grabbed hf hg =>
    refine h.quiet rfl rfl rfl rfl (sameBuild_setCtx rfl ⟨rfl, rfl, rfl⟩)
      (fun _ => le_rfl) (fun _ => ⟨rfl, rfl⟩) ?_
    cases hg <;> trivial
  | released | deleted =>
    exact h.quiet rfl rfl rfl rfl (sameBuild_setCtx rfl ⟨rfl, rfl, rfl⟩)
      (fun _ => le_rfl) (fun _ => ⟨rfl, rfl⟩) (After.known_resume _ _)
  | lastReleased =>
    exact h.quiet rfl rfl rfl rfl (sameBuild_setCtx rfl ⟨rfl, rfl, rfl⟩)
      (fun _ => le_rfl) (fun _ => ⟨rfl, rfl⟩) trivial
  | @registered c k T hreg =>
    obtain ⟨hzero, hnone, _⟩ := hk
    obtain ⟨hpos, hseed⟩ := Table.registerLoop_pos hreg h.seed
    have hrefs := Table.registerLoop_refs hreg
    have hself : (s.setCtx c { s.ctxs c with issued := k }).ctxs c =
        { s.ctxs c with issued := k } := update_self _ _ _
    refine h.build ho hr hp (by simp [Pc.unbuilt]) (fun d hd => update_of_ne hd _ _)
      (fun d hd => ?_) rfl hseed rfl rfl rfl ?_ ?_ ?_
    · show T.refs d ≤ _
      rw [hrefs d, if_neg (Ne.symm hd), add_zero]
    · simp only [goto, hself]
      exact .inl hzero
    · simp only [goto, hself]
      exact hnone
    · simp only [goto, Pc.Known, hself]
      exact ⟨hzero, hnone, trivial, hpos⟩
  | stored c k =>
    obtain ⟨_, hnone, hissued, hpos⟩ := hk
    have hself : (s.setCtx c { s.ctxs c with svcHandle := k }).ctxs c =
        { s.ctxs c with svcHandle := k } := update_self _ _ _
    refine h.build ho hr hp (by simp [Pc.unbuilt]) (fun d hd => update_of_ne hd _ _)
      (fun _ _ => le_rfl) rfl h.seed rfl rfl rfl ?_ ?_ ?_
    · simp only [goto, hself]
      exact .inr hissued.symm
    · simp only [goto, hself]
      exact hnone
    · simp only [goto, Pc.Known, hself]
      exact ⟨hissued.symm, hnone, hissued ▸ hpos⟩
  | built c => exact h.built ho hr hp
  | unregistered hf =>
    refine h.quiet rfl rfl rfl rfl (fun _ => ⟨rfl, rfl, rfl⟩) (fun d => ?_)
      (fun _ => ⟨rfl, rfl⟩) trivial
    have := Table.refs_clear (find_eq_some hf).1 d
    simp only [goto]
    omega
  | linked hl _ =>
    refine h.quiet rfl rfl rfl rfl (fun _ => ⟨rfl, rfl, rfl⟩) (fun _ => le_rfl)
      (fun _ => ⟨rfl, rfl⟩) ?_
    cases hl <;> trivial
  | @unlinked _ _ _ o hu _ =>
    refine h.quiet rfl rfl rfl rfl (fun _ => ⟨rfl, rfl, rfl⟩) (fun _ => le_rfl)
      (fun _ => ⟨rfl, rfl⟩) ?_
    cases hu <;> cases o <;> trivial
  | reported _ hp' =>
    refine h.quiet rfl rfl rfl rfl (fun _ => ⟨rfl, rfl, rfl⟩) (fun _ => le_rfl)
      (fun _ => ⟨rfl, rfl⟩) ?_
    rcases hp' with ⟨_, rfl⟩ | ⟨_, rfl⟩ <;> trivial
  | taken hm hp' =>
    refine h.quiet rfl rfl rfl rfl (fun _ => ⟨rfl, rfl, rfl⟩) (fun _ => le_rfl)
      (setQueue_names rfl ⟨rfl, rfl⟩) ?_
    rcases hp' with rfl | rfl <;> trivial
  | marked | markedIdle | initFailed | accepted | acceptedIdle | emptied | dropEmptied | dropTaken
  | queueDeleted =>
    exact h.quiet rfl rfl rfl rfl (fun _ => ⟨rfl, rfl, rfl⟩) (fun _ => le_rfl)
      (setQueue_names rfl ⟨rfl, rfl⟩) trivial

end Issued

end Skynet.Node
