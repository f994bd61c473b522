import Skynet.NodeHandles

/-! # One worker for each service

A worker finds the service of a queue through the handle the queue carries.  As long as no
handle is reissued while a queue carrying it is alive or about to be created, the context it
finds is the owner of the queue (`Handles`): then no two workers run the callback of one
service, and every live queue is in exactly one place. -/

namespace Skynet.Node

open Function ThreadPool Transition State Pc

/-! ### Carriers of handles -/

namespace Pc

/-- The thread has a handle for context `c` but has not created its queue yet. -/
def pending (c : ℕ) : Pc → ℕ
  | .storeHandle c' _ | .createQueue c' => if c' = c then 1 else 0
  | _ => 0

/-- A worker has the queue of the context it serves. -/
def Served (ctxs : ℕ → ServiceContext) : Pc → Prop
  | .popMessage _ q c _ _ | .length _ q c | .callback _ q c _ _ | .next _ q c | .pushBack _ q c _ =>
    (ctxs c).queue = some q
  | _ => True

theorem pending_le_unbuilt (c : ℕ) (p : Pc) : p.pending c ≤ p.unbuilt c := by
  cases p with
  | storeHandle | createQueue => exact le_rfl
  | _ => exact Nat.zero_le _

theorem Served.mono {ctxs ctxs' : ℕ → ServiceContext} {p : Pc} (h : p.Served ctxs)
    (he : ∀ c q, (ctxs c).queue = some q → (ctxs' c).queue = some q) : p.Served ctxs' := by
  cases p with
  | popMessage | length | callback | next | pushBack => exact he _ _ h
  | _ => trivial

end Pc

theorem State.setQueue_carriers {s t : State} {q : ℕ} {x : MqPrivate}
    (ht : t.queues = (s.setQueue q x).queues)
    (hx : x.owner = (s.queues q).owner ∧ (x.alive = true → (s.queues q).alive = true)) (d : ℕ) :
    (t.queues d).owner = (s.queues d).owner ∧
      ((t.queues d).alive = true → (s.queues d).alive = true) := by
  rw [ht]
  exact setQueue_forall (P := fun d y => y.owner = (s.queues d).owner ∧
    (y.alive = true → (s.queues d).alive = true)) hx (fun _ => ⟨rfl, id⟩) d

theorem State.setCtx_build {s t : State} {c : ℕ} {x : ServiceContext}
    (ht : t.ctxs = (s.setCtx c x).ctxs)
    (hx : x.queue = (s.ctxs c).queue ∧ x.issued = (s.ctxs c).issued) (d : ℕ) :
    (t.ctxs d).queue = (s.ctxs d).queue ∧ (t.ctxs d).issued = (s.ctxs d).issued := by
  rw [ht]
  exact ⟨setCtx_field (·.queue) hx.1 d, setCtx_field (·.issued) hx.2 d⟩

@[simp] theorem After.served_resume (k : After) (ctxs : ℕ → ServiceContext) :
    k.resume.Served ctxs := by
  cases k <;> trivial

@[simp] theorem After.pending_resume (k : After) (c : ℕ) : k.resume.pending c = 0 := by
  cases k <;> rfl

/-- Context `c` has a live queue or is about to create one. -/
def Carrier (s : State) (c : ℕ) : Prop :=
  0 < total (pending c) s.acts ∨ ∃ q, (s.queues q).alive = true ∧ (s.queues q).owner = c

/-- Handles identify the carriers, and workers serve the owners of their queues. -/
structure Handles (s : State) : Prop where
  served : ∀ (j : ℕ) p, s.acts[j]? = some p → p.Served s.ctxs
  unique : ∀ c c', Carrier s c → Carrier s c' → (s.ctxs c).issued = (s.ctxs c').issued → c = c'

namespace Handles

variable {s t : State} {i : ℕ} {p p' : Pc} {c q : ℕ}

theorem init : Handles State.init where
  served j p h := by simp [State.init] at h
  unique c c' h := by
    rcases h with h | ⟨q, h, _⟩
    · simp [State.init] at h
    · cases h

variable (h : Handles s)

include h

theorem crash (f : Fault) : Handles (s.crash f) := ⟨h.served, h.unique⟩

theorem keep (hacts : t.acts = s.acts.set i p')
    (hqueue : ∀ c q, (s.ctxs c).queue = some q → (t.ctxs c).queue = some q)
    (hcar : ∀ c, Carrier t c → Carrier s c ∧ (t.ctxs c).issued = (s.ctxs c).issued)
    (hp' : p'.Served t.ctxs) : Handles t := by
  refine ⟨?_, fun c c' hc hc' he => ?_⟩
  · rw [hacts]
    exact forall_set_index h.served (fun j r _ _ hr => hr.mono hqueue) hp'
  · obtain ⟨hc, hi⟩ := hcar c hc
    obtain ⟨hc', hi'⟩ := hcar c' hc'
    exact h.unique c c' hc hc' (by rw [← hi, ← hi', he])

theorem quiet (hp : s.acts[i]? = some p) (hacts : t.acts = s.acts.set i p')
    (hctx : ∀ c, s.SameBuild t c)
    (hq : ∀ q, (t.queues q).owner = (s.queues q).owner ∧
      ((t.queues q).alive = true → (s.queues q).alive = true))
    (hpend : ∀ c, p'.pending c = p.pending c) (hp' : p'.Served t.ctxs) : Handles t := by
  refine h.keep hacts (fun c q hc => (hctx c).2.2.trans hc) ?_ hp'
  rintro c (hc | ⟨q, ha, ho⟩)
  · have := total_set (pending c) p' hp
    rw [hpend c] at this
    rw [hacts] at hc
    exact ⟨.inl (by omega), (hctx c).2.1⟩
  · exact ⟨.inr ⟨q, (hq q).2 ha, (hq q).1 ▸ ho⟩, (hctx c).2.1⟩

theorem fork (hacts : t.acts = s.acts ++ [p]) (hq : t.queues = s.queues) (hp : ∀ c, p.pending c = 0)
    (hctx : ∀ c, Carrier s c → t.ctxs c = s.ctxs c)
    (hqueue : ∀ c q, (s.ctxs c).queue = some q → (t.ctxs c).queue = some q) (hp' : p.Served t.ctxs) :
    Handles t := by
  have hcar : ∀ c, Carrier t c → Carrier s c := by
    rintro c (hc | hc)
    · rw [hacts] at hc
      exact .inl (by simpa [hp c] using hc)
    · rw [hq] at hc
      exact .inr hc
  refine ⟨?_, fun c c' hc hc' he => ?_⟩
  · rw [hacts]
    exact forall_append_index (fun j r hj => (h.served j r hj).mono hqueue) hp'
  · rw [hctx c (hcar c hc), hctx c' (hcar c' hc')] at he
    exact h.unique c c' (hcar c hc) (hcar c' hc') he

theorem start (hi : Issued s) (hr : Refs s) (hlt : ∀ q, (s.queues q).alive = true → q < s.nq)
    (task : Task) : Handles (s.start task) := by
  cases task with
  | createService =>
    obtain ⟨-, hother⟩ := s.newService_ctxs
    have hnone := hi.fresh s.nctx le_rfl
    refine h.fork rfl rfl (fun _ => rfl) (fun c hc => hother c ?_) (fun c q hc => ?_) trivial
    · rintro rfl
      rcases hc with hc | ⟨q, ha, ho⟩
      · have h1 := total_mono (fun p => (pending_le_unbuilt s.nctx p).trans
          (unbuilt_le_refs s.nctx p)) s.acts
        have h2 := (hr.dead s.nctx (hr.fresh _ le_rfl)).2.1
        omega
      · exact hi.owner_ne hnone (hlt q ha) ho
    · have hne : c ≠ s.nctx := by
        rintro rfl
        rw [hnone] at hc
        cases hc
      rw [show (s.start .createService).ctxs = s.newService.ctxs from rfl, hother c hne]
      exact hc
  | _ => exact h.fork rfl rfl (fun _ => rfl) (fun _ _ => rfl) (fun _ _ => id) trivial

/-- `register_service` returned a handle that nobody carries. -/
theorem registered (hi : Issued s) (hp : s.acts[i]? = some (.register c)) {k : ℕ} {T : Table}
    (hfree : ∀ d, Carrier s d → (s.ctxs d).issued ≠ k) :
    Handles ({ s.setCtx c { s.ctxs c with issued := k } with table := T }.goto i
      (.storeHandle c k)) := by
  obtain ⟨_, hnone, _⟩ := hi.known i _ hp
  set t := { s.setCtx c { s.ctxs c with issued := k } with table := T }.goto i
    (.storeHandle c k) with ht
  have hself : t.ctxs c = { s.ctxs c with issued := k } := update_self _ _ _
  have hother : ∀ d, d ≠ c → t.ctxs d = s.ctxs d := fun d hd => update_of_ne hd _ _
  have hcar : ∀ d, d ≠ c → Carrier t d → Carrier s d := by
    rintro d hd (hd' | hd')
    · have := total_set (pending d) (.storeHandle c k) hp
      simp only [pending, if_neg (Ne.symm hd)] at this
      have hd'' : 0 < total (pending d) (s.acts.set i (.storeHandle c k)) := hd'
      exact .inl (by omega)
    · exact .inr hd'
  refine ⟨forall_set_index h.served (fun j r _ _ hr => hr.mono fun d q hd => ?_) trivial,
    fun d d' hd hd' he => ?_⟩
  · have hne : d ≠ c := by
      rintro rfl
      rw [hnone] at hd
      cases hd
    rw [hother d hne]
    exact hd
  · by_cases hdc : d = c <;> by_cases hdc' : d' = c
    · rw [hdc, hdc']
    · rw [hdc, hself, hother d' hdc'] at he
      exact absurd he.symm (hfree d' (hcar d' hdc' hd'))
    · rw [hdc', hself, hother d hdc] at he
      exact absurd he (hfree d (hcar d hdc hd))
    · rw [hother d hdc, hother d' hdc'] at he
      exact h.unique d d' (hcar d hdc hd) (hcar d' hdc' hd') he

/-- `svc_ctx->svc_handle_ = handle` -/
theorem stored {k : ℕ} (hp : s.acts[i]? = some (.storeHandle c k)) :
    Handles ((s.setCtx c { s.ctxs c with svcHandle := k }).goto i (.createQueue c)) := by
  have hctx : ∀ d, ((s.setCtx c { s.ctxs c with svcHandle := k }).ctxs d).queue = (s.ctxs d).queue ∧
      ((s.setCtx c { s.ctxs c with svcHandle := k }).ctxs d).issued = (s.ctxs d).issued :=
    setCtx_build rfl ⟨rfl, rfl⟩
  refine h.keep rfl (fun d q hd => (hctx d).1.trans hd) (fun d hd => ⟨?_, (hctx d).2⟩) trivial
  rcases hd with hd | hd
  · have := total_set (pending d) (.createQueue c) hp
    simp only [pending] at this
    have hd' : 0 < total (pending d) (s.acts.set i (.createQueue c)) := hd
    exact .inl (by omega)
  · exact .inr hd

/-- `mq_private::create` -/
theorem built (hi : Issued s) (hp : s.acts[i]? = some (.createQueue c)) :
    Handles (s.createQueue i c) := by
  obtain ⟨_, hnone, _⟩ := hi.known i _ hp
  obtain ⟨hself, hother⟩ := s.createQueue_ctxs i c
  obtain ⟨hnew, hold⟩ := s.createQueue_queues i c
  set t := s.createQueue i c with ht
  refine h.keep rfl (fun d q hd => ?_) (fun d hd => ?_) trivial
  · have hne : d ≠ c := by
      rintro rfl
      rw [hnone] at hd
      cases hd
    rw [hother d hne]
    exact hd
  · by_cases hdc : d = c
    · have hle := le_total (pending c) hp
      simp only [pending, if_true] at hle
      rw [hdc, hself]
      exact ⟨.inl (by omega), rfl⟩
    · rw [hother d hdc]
      refine ⟨?_, rfl⟩
      rcases hd with hd | ⟨q, ha, hq⟩
      · have := total_set (pending d) (.init c s.nq) hp
        simp only [pending] at this
        have hd' : 0 < total (pending d) (s.acts.set i (.init c s.nq)) := hd
        exact .inl (by omega)
      · have hne : q ≠ s.nq := fun he => by
          rw [he, hnew] at hq
          exact hdc hq.symm
        rw [hold q hne] at ha hq
        exact .inr ⟨q, ha, hq⟩

theorem queue_of_find {strict : Prop} {l : List ℕ} (hi : Issued s) (ho : Owners s) (hr : Refs s)
    (hpl : Placed strict s l) (ha : (s.queues q).alive = true)
    (hf : s.find (s.queues q).svcHandle = some c) : (s.ctxs c).queue = some q := by
  obtain ⟨halive, hpos⟩ := hr.alive_of_find hf
  have hhandle := (find_eq_some hf).2
  obtain ⟨hqueue, hissued, hk⟩ := hi.born q (hpl.lt_nq ha)
  have hc : (s.ctxs c).svcHandle = (s.ctxs c).issued := by
    rcases hi.stored c with h0 | h0
    · omega
    · exact h0
  have hcar : Carrier s c := by
    cases hq : (s.ctxs c).queue with
    | some q' =>
      obtain ⟨hlt, ho'⟩ := ho.owned c q' halive hq
      exact .inr ⟨q', hpl.live q' hlt (ho.not_isRelease hr halive hpos hq), ho'⟩
    | none =>
      have hu := ho.unbuilt c halive
      rw [if_pos hq] at hu
      have hpos' : 0 < total (unbuilt c) s.acts := by omega
      obtain ⟨j, r, hj, hru⟩ := exists_of_total_pos hpos'
      have hle := le_total (pending c) hj
      have hh := hi.known j r hj
      cases r with
      | register d =>
        obtain rfl : d = c := of_ite_pos hru
        have := hh.1
        omega
      | storeHandle d k | createQueue d =>
        obtain rfl : d = c := of_ite_pos hru
        simp only [pending, if_true] at hle
        exact .inl (by omega)
      | _ => exact absurd hru (lt_irrefl 0)
  have howner := h.unique c _ hcar (.inr ⟨q, ha, rfl⟩) (by omega)
  rw [howner]
  exact hqueue

/-- **Handles** identify the carriers after every step that registers no carried handle. -/
theorem effect {strict : Prop} {l : List ℕ} (hi : Issued s) (ho : Owners s) (hr : Refs s)
    (hpl : Placed strict s l) {ok : Bool} (hp : s.acts[i]? = some p) (ht : Effect s i ok p t)
    (hfree : ∀ c k T, p = .register c →
      s.table.registerService (fun c => (s.ctxs c).svcHandle) c = .ok (k, T) →
        ∀ d, Carrier s d → (s.ctxs d).issued ≠ k) : Handles t := by
  have hh := h.served i p hp
  cases ht with
  | control hc =>
    refine h.quiet hp rfl (fun _ => ⟨rfl, rfl, rfl⟩) (fun _ => ⟨rfl, id⟩) (fun c => ?_) ?_
    · cases hc with
      | send => exact After.pending_resume _ c
      | _ => rfl
    · cases hc with
      | send => exact After.served_resume _ _
      | length | again | next => exact hh
      | _ => trivial
  | crash _ => exact h.crash _
  | @grabbed _ _ k c hf hg =>
    have hsame := sameBuild_setCtx (t := s.addRef c) rfl ⟨rfl, rfl, rfl⟩
    refine h.quiet hp rfl hsame (fun _ => ⟨rfl, id⟩) (fun c => ?_) ?_
    · cases hg <;> rfl
    · cases hg with
      | lookup w q =>
        have ha := hpl.alive_of_holds hp (q := q) (by simp [holds, held])
        exact (hsame c).2.2.trans (h.queue_of_find hi ho hr hpl ha hf)
      | _ => trivial
  | released | deleted =>
    exact h.quiet hp rfl (sameBuild_setCtx rfl ⟨rfl, rfl, rfl⟩) (fun _ => ⟨rfl, id⟩)
      (After.pending_resume _) (After.served_resume _ _)
  | lastReleased =>
    exact h.quiet hp rfl (sameBuild_setCtx rfl ⟨rfl, rfl, rfl⟩) (fun _ => ⟨rfl, id⟩)
      (fun _ => rfl) trivial
  | registered hreg => exact h.registered hi hp (hfree _ _ _ rfl hreg)
  | stored c k => exact h.stored hp
  | built c => exact h.built hi hp
  | unregistered hf =>
    exact h.quiet hp rfl (fun _ => ⟨rfl, rfl, rfl⟩) (fun _ => ⟨rfl, id⟩) (fun _ => rfl) trivial
  | linked hl _ =>
    refine h.quiet hp rfl (fun _ => ⟨rfl, rfl, rfl⟩) (fun _ => ⟨rfl, id⟩) (fun c => ?_) ?_
    · cases hl <;> rfl
    · cases hl <;> trivial
  | @unlinked _ _ _ o hu _ =>
    refine h.quiet hp rfl (fun _ => ⟨rfl, rfl, rfl⟩) (fun _ => ⟨rfl, id⟩) (fun c => ?_) ?_
    · cases hu <;> cases o <;> rfl
    · cases hu <;> cases o <;> trivial
  | taken hm hp' =>
    refine h.quiet hp rfl (fun _ => ⟨rfl, rfl, rfl⟩) (setQueue_carriers rfl ⟨rfl, id⟩)
      (fun c => ?_) ?_
    · rcases hp' with rfl | rfl <;> rfl
    · rcases hp' with rfl | rfl <;> exact hh
  | reported _ hp' =>
    refine h.quiet hp rfl (fun _ => ⟨rfl, rfl, rfl⟩) (fun _ => ⟨rfl, id⟩) (fun c => ?_) ?_
    · rcases hp' with ⟨_, rfl⟩ | ⟨_, rfl⟩ <;> rfl
    · rcases hp' with ⟨_, rfl⟩ | ⟨_, rfl⟩ <;> trivial
  | queueDeleted _ =>
    exact h.quiet hp rfl (fun _ => ⟨rfl, rfl, rfl⟩) (setQueue_carriers rfl ⟨rfl, by simp⟩)
      (fun _ => rfl) trivial
  | marked | markedIdle | initFailed | accepted | acceptedIdle | emptied | dropEmptied | dropTaken =>
    exact h.quiet hp rfl (fun _ => ⟨rfl, rfl, rfl⟩) (setQueue_carriers rfl ⟨rfl, id⟩)
      (fun _ => rfl) trivial

omit h

end Handles

/-! ### Regular runs -/

namespace State

variable {s : State}

/-- A live queue carries `h`, or a service with handle `h` is about to create its queue. -/
def Carried (s : State) (h : ℕ) : Prop :=
  (∃ q, (s.queues q).alive = true ∧ (s.queues q).svcHandle = h) ∨
    ∃ (i : ℕ) (c : ℕ), s.acts[i]? = some (.storeHandle c h) ∨
      s.acts[i]? = some (.createQueue c) ∧ (s.ctxs c).svcHandle = h

/-- In this step no `init` fails and no handle is reissued that is still carried. -/
def Regular (s : State) : Action → Prop
  | .start _ => True
  | .run i ok =>
    match s.acts[i]? with
    | some (.init _ _) => ok = true
    | some (.register c) => ∀ h T,
        s.table.registerService (fun c => (s.ctxs c).svcHandle) c = .ok (h, T) → ¬ s.Carried h
    | _ => True

/-- Not in the global queue, no messages, not marked for release. -/
def Idle (s : State) (q : ℕ) : Prop :=
  (s.queues q).isInGlobal = false ∧ (s.queues q).msgs = [] ∧ (s.queues q).isRelease = false

end State

theorem Carrier.carried {s : State} {c : ℕ} (hi : Issued s)
    (hpl : ∀ q, (s.queues q).alive = true → q < s.nq) (h : Carrier s c) :
    s.Carried (s.ctxs c).issued := by
  rcases h with hpend | ⟨q, ha, ho⟩
  · obtain ⟨j, r, hj, hr⟩ := exists_of_total_pos hpend
    have hk := hi.known j r hj
    cases r with
    | storeHandle d k =>
      obtain rfl : d = c := of_ite_pos hr
      exact .inr ⟨j, d, .inl (by rw [hk.2.2.1]; exact hj)⟩
    | createQueue d =>
      obtain rfl : d = c := of_ite_pos hr
      exact .inr ⟨j, d, .inr ⟨hj, hk.1⟩⟩
    | _ => exact absurd hr (lt_irrefl 0)
  · refine .inl ⟨q, ha, ?_⟩
    rw [(hi.born q (hpl q ha)).2.1, ho]

/-- The invariant of regular runs. -/
structure Exclusive (s : State) : Prop where
  sane : Sane True s
  issued : Issued s
  handles : Handles s

namespace Exclusive

theorem init : Exclusive State.init := ⟨Sane.init, Issued.init, Handles.init⟩

theorem step (s : State) (a : Action) (t : State) (h : Exclusive s) (hreg : s.Regular a)
    (hs : s.step a = some t) : Exclusive t := by
  obtain ⟨l, hl⟩ := h.sane.placed
  have hlt : ∀ q, (s.queues q).alive = true → q < s.nq := fun q => hl.lt_nq
  obtain ⟨_, ⟨task, rfl, rfl⟩ | ⟨i, ok, p, rfl, hp, ht⟩⟩ := step_cases hs
  · exact ⟨h.sane.start task, h.issued.start h.sane.refs task,
      h.handles.start h.issued h.sane.refs hlt task⟩
  · simp only [State.Regular, hp] at hreg
    refine ⟨h.sane.effect hp ht fun _ => ?_, h.issued.effect h.sane.owners h.sane.refs hp ht,
      h.handles.effect h.issued h.sane.owners h.sane.refs hl hp ht fun c k T hpc hr d hd hk => ?_⟩
    · have hh := h.handles.served i p hp
      cases p with
      | init c q => exact hreg
      | popMessage w q c j n =>
        have hrefs : 0 < (popMessage w q c j n).refs c := by simp [refs]
        exact h.sane.owners.not_isRelease h.sane.refs (h.sane.refs.alive_of_refs hp hrefs)
          (h.sane.refs.ref_pos_of_refs hp hrefs) hh
      | _ => trivial
    · subst hpc
      exact hreg k T hr (hk ▸ hd.carried h.issued hlt)

theorem of_reachable {s : State} (h : node.ReachableVia State.Regular s) : Exclusive s :=
  h.invariant init step

theorem callback_unique {s : State} (h : Exclusive s) {i j : ℕ} {w w' : ℤ} {q q' c m m' n n' : ℕ}
    (hi : s.acts[i]? = some (.callback w q c m n))
    (hj : s.acts[j]? = some (.callback w' q' c m' n')) : i = j := by
  obtain ⟨l, hl⟩ := h.sane.placed
  have hq := h.handles.served i _ hi
  have hq' := h.handles.served j _ hj
  obtain rfl : q = q' := Option.some.inj (hq.symm.trans hq')
  have hle := (hl.fine q).le_one
  have htotal : total (holds q) s.acts ≤ 1 := by omega
  exact owner_unique htotal hi hj (by simp [holds, held]) (by simp [holds, held])

end Exclusive

/-- **Single placement and exclusivity.**  In every run without failed `init`s and without
reissued handles, every live private queue is linked in the global queue, held by a worker,
under construction, or idle: exactly one of these, and once.  No two workers run the callback
of one service, and the assertion of `mq_global::push` does not fail. -/
theorem live_queue_in_one_place {s : State} (h : node.ReachableVia State.Regular s) :
    (∃ l, IntrusiveQueue.Represents s.mqGlobal l ∧ ∀ q,
      (s.queues q).alive = true →
        (l.count q + total (held q) s.acts + total (building q) s.acts = 1 ∧ ¬ s.Idle q ∨
          l.count q + total (held q) s.acts + total (building q) s.acts = 0 ∧ s.Idle q)) ∧
    (∀ (i j : ℕ) (w w' : ℤ) (q q' c m m' n n' : ℕ), s.acts[i]? = some (.callback w q c m n) →
      s.acts[j]? = some (.callback w' q' c m' n') → i = j) ∧
    s.fault ≠ some .linked := by
  have hx := Exclusive.of_reachable h
  obtain ⟨l, hl⟩ := hx.sane.placed
  refine ⟨⟨l, hl.rep, fun q ha => ?_⟩, fun _ _ _ _ _ _ _ _ _ _ _ => hx.callback_unique,
    fun hf => hl.fault (.inl hf)⟩
  have hsum : total (holds q) s.acts = total (held q) s.acts + total (building q) s.acts :=
    total_add _ _ _
  have hfine := hl.fine q
  obtain ⟨hfailed, hmarked⟩ := hfine.kept trivial ha
  rw [hsum, ← add_assoc] at hfine hmarked
  cases hg : (s.queues q).isInGlobal with
  | true =>
    refine .inl ⟨hfine.active ha hg hfailed, fun hidle => ?_⟩
    rw [hidle.1] at hg
    cases hg
  | false =>
    cases hr : (s.queues q).isRelease with
    | true =>
      refine .inl ⟨hmarked hr, fun hidle => ?_⟩
      rw [hidle.2.2] at hr
      cases hr
    | false =>
      obtain ⟨hm, _, hn⟩ := hfine.idle ha hg
      exact .inr ⟨hn hr, hg, hm, hr⟩

/-- A worker in the callback of a service that was created and sent a message. -/
theorem live_queue_in_one_place_callback : ∃ s, node.ReachableVia State.Regular s ∧
    s.acts[2]? = some (.callback (-1) 0 0 0 1) ∧
    ∀ (j : ℕ) (w : ℤ) (q m n : ℕ), s.acts[j]? = some (.callback w q 0 m n) → 2 = j := by
  have h0 : node.ReachableVia State.Regular init := .init
  have h1 := h0.next (.start .createService) trivial rfl
  have hfree : (init.start .createService).Regular (.run 0 true) := by
    rintro h T _ (⟨q, hq, _⟩ | ⟨i, c, hi | ⟨hi, _⟩⟩)
    · cases hq
    all_goals rcases i with _ | i <;> cases hi
  have h14 := h1.next (.run 0 true) hfree rfl |>.next (.run 0 true) trivial rfl
    |>.next (.run 0 true) trivial rfl
    |>.next (.start (.pushServiceMessage 1 ⟨7, 0, .text⟩)) trivial rfl
    |>.next (.run 1 true) trivial rfl |>.next (.run 1 true) trivial rfl
    |>.next (.run 1 true) trivial rfl |>.next (.run 0 true) rfl rfl
    |>.next (.run 0 true) trivial rfl |>.next (.run 0 true) trivial rfl
    |>.next (.start (.worker (-1))) trivial rfl |>.next (.run 2 true) trivial rfl
    |>.next (.run 2 true) trivial rfl
  have h15 := h14.next (.run 2 true) trivial rfl
  exact ⟨_, h15, rfl, fun j w q m n hj =>
    (live_queue_in_one_place h15).2.1 2 j (-1) w 0 q 0 0 m 1 n rfl hj⟩

end Skynet.Node
