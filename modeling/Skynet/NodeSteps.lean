import Skynet.Node

/-! # What a step of the node can do

`Effect s i ok p t` lists the effects of one step of thread `i` from program counter `p`, with
everything the step has checked; `advance_effect` says that there are no others.  Steps of
different source functions with the same effect on the shared state are one constructor:
`control` touches nothing but the program counter, `grabbed` takes a reference, `linked` and
`unlinked` are `mq_global::push` and `pop`.  The invariants of the node are proved over these
effects and never look at the step function. -/

namespace Skynet.Node

open Function

/-! ### Steps that only move the program counter -/

inductive Control (s : State) : Pc → Pc → Prop
  | hold (c : ℕ) : Control s (.hold c) (.release c .finish)
  | initDone (c q : ℕ) : Control s (.init c q) (.release c (.launch q))
  | unregister {h : ℕ} (hf : s.find h = none) : Control s (.unregister h) .finished
  | send {dst : ℕ} {msg : Message} {k : After} (hf : s.find dst = none) :
      Control s (.send dst msg k) k.resume
  | grab {h : ℕ} (hf : s.find h = none) : Control s (.grab h) .finished
  | dispatch (w : ℤ) (q : ℕ) : Control s (.dispatch w (some q)) (.lookup w q)
  | lookup {w : ℤ} {q : ℕ} (hf : s.find (s.queues q).svcHandle = none) :
      Control s (.lookup w q) (.releaseQueue w q (s.queues q).svcHandle)
  | releaseQueue {w : ℤ} {q h : ℕ} (hr : (s.queues q).isRelease = true) :
      Control s (.releaseQueue w q h) (.dropQueue w q h)
  | length (w : ℤ) (q c n : ℕ) : Control s (.length w q c) (.callback w q c 0 n)
  | again (w : ℤ) (q c j n : ℕ) : Control s (.callback w q c j n) (.popMessage w q c (j + 1) n)
  | next (w : ℤ) (q c j n : ℕ) : Control s (.callback w q c j n) (.next w q c)

/-- Steps that take a reference to the context found for handle `h`. -/
inductive Grabs (s : State) : Pc → ℕ → ℕ → Pc → Prop
  | send (dst c : ℕ) (msg : Message) (k : After) :
      Grabs s (.send dst msg k) dst c (.push c msg k)
  | grab (h c : ℕ) : Grabs s (.grab h) h c (.hold c)
  | lookup (w : ℤ) (q c : ℕ) :
      Grabs s (.lookup w q) (s.queues q).svcHandle c (.popMessage w q c 0 1)

/-- Steps that link queue `q`, which the thread has until then. -/
inductive Links (s : State) : Pc → ℕ → Pc → Prop
  | launch (q : ℕ) : Links s (.launch q) q .finished
  | releaseQueue {w : ℤ} {q h : ℕ} (hr : (s.queues q).isRelease = false) :
      Links s (.releaseQueue w q h) q (.popNext w)
  | pushBack (w : ℤ) (q c nextQ : ℕ) :
      Links s (.pushBack w q c nextQ) q (.release c (.dispatch w nextQ))

/-- Steps that take the first queue off `mq_global`. -/
inductive Unlinks (s : State) : Pc → (Option ℕ → Pc) → Prop
  | dispatch (w : ℤ) : Unlinks s (.dispatch w none) fun q? =>
    match q? with
    | some q => .lookup w q
    | none => .dispatch w none
  | next {w : ℤ} {q c : ℕ} (hq : (s.ctxs c).queue = some q) : Unlinks s (.next w q c) fun q? =>
    match q? with
    | some nextQ => .pushBack w q c nextQ
    | none => .release c (.dispatch w q)
  | popNext (w : ℤ) : Unlinks s (.popNext w) fun q? => .dispatch w q?

/-- Steps that stop the node. -/
inductive Crashes (s : State) : Pc → Fault → Prop
  | register {c : ℕ} {f : Fault}
      (hr : s.table.registerService (fun c => (s.ctxs c).svcHandle) c = .error f) :
      Crashes s (.register c) f
  | markNull {c : ℕ} {k : After} (hq : (s.ctxs c).queue = none) :
      Crashes s (.markRelease c k) .nullQueue
  | markTwice {c q : ℕ} {k : After} (hq : (s.ctxs c).queue = some q)
      (hr : (s.queues q).isRelease = true) : Crashes s (.markRelease c k) .releasedTwice
  | markLinked {c q : ℕ} {k : After} (hq : (s.ctxs c).queue = some q)
      (hr : (s.queues q).isRelease = false) (hg : (s.queues q).isInGlobal = false)
      (hl : s.mqGlobal.push q = none) : Crashes s (.markRelease c k) .linked
  | pushNull {c : ℕ} {msg : Message} {k : After} (hq : (s.ctxs c).queue = none) :
      Crashes s (.push c msg k) .nullQueue
  | pushLinked {c q : ℕ} {msg : Message} {k : After} (hq : (s.ctxs c).queue = some q)
      (hg : (s.queues q).isInGlobal = false) (hl : s.mqGlobal.push q = none) :
      Crashes s (.push c msg k) .linked
  | linked {p p' : Pc} {q : ℕ} (hp : Links s p q p') (hl : s.mqGlobal.push q = none) :
      Crashes s p .linked
  | badTail {p : Pc} {k : Option ℕ → Pc} (hp : Unlinks s p k) (hl : s.mqGlobal.pop = none) :
      Crashes s p .badTail
  | zeroHandle (w : ℤ) (q : ℕ) (e : Queued) : Crashes s (.dropMessage w q 0 e) .zeroHandle
  | droppedLinked {w : ℤ} {q : ℕ} (hn : s.mqGlobal.next q ≠ none) :
      Crashes s (.deleteQueue w q) .droppedLinked
  | wrongQueue {w : ℤ} {q c : ℕ} (hq : (s.ctxs c).queue ≠ some q) :
      Crashes s (.next w q c) .wrongQueue

/-! ### Effects -/

/-- The effects of a step. -/
inductive Effect (s : State) (i : ℕ) (ok : Bool) : Pc → State → Prop
  | control {p p' : Pc} (h : Control s p p') : Effect s i ok p (s.goto i p')
  | crash {p : Pc} {f : Fault} (h : Crashes s p f) : Effect s i ok p (s.crash f)
  | grabbed {p p' : Pc} {k c : ℕ} (hf : s.find k = some c) (h : Grabs s p k c p') :
      Effect s i ok p ((s.addRef c).goto i p')
  | released {c : ℕ} {k : After} (hne : (s.ctxs c).ref - 1 ≠ 0) :
      Effect s i ok (.release c k)
        ((s.setCtx c { s.ctxs c with ref := (s.ctxs c).ref - 1 }).goto i k.resume)
  | lastReleased {c : ℕ} {k : After} (hz : (s.ctxs c).ref - 1 = 0) :
      Effect s i ok (.release c k)
        ((s.setCtx c { s.ctxs c with ref := (s.ctxs c).ref - 1 }).goto i (.markRelease c k))
  | marked {c q : ℕ} {k : After} (hq : (s.ctxs c).queue = some q)
      (hr : (s.queues q).isRelease = false) (hg : (s.queues q).isInGlobal = true) :
      Effect s i ok (.markRelease c k)
        ((s.setQueue q { s.queues q with isRelease := true }).goto i (.delete c k))
  | markedIdle {c q : ℕ} {k : After} {g : IntrusiveQueue ℕ} (hq : (s.ctxs c).queue = some q)
      (hr : (s.queues q).isRelease = false) (hg : (s.queues q).isInGlobal = false)
      (hl : s.mqGlobal.push q = some g) :
      Effect s i ok (.markRelease c k)
        ({ s.setQueue q { s.queues q with isRelease := true } with mqGlobal := g }.goto i
          (.delete c k))
  | deleted (c : ℕ) (k : After) :
      Effect s i ok (.delete c k)
        ((s.setCtx c { s.ctxs c with alive := false }).goto i k.resume)
  | registered {c h : ℕ} {T : Table}
      (hr : s.table.registerService (fun c => (s.ctxs c).svcHandle) c = .ok (h, T)) :
      Effect s i ok (.register c)
        ({ s.setCtx c { s.ctxs c with issued := h } with table := T }.goto i (.storeHandle c h))
  | stored (c h : ℕ) :
      Effect s i ok (.storeHandle c h)
        ((s.setCtx c { s.ctxs c with svcHandle := h }).goto i (.createQueue c))
  | built (c : ℕ) : Effect s i ok (.createQueue c) (s.createQueue i c)
  | initFailed {c q : ℕ} (hok : ok = false) :
      Effect s i ok (.init c q)
        ((s.setQueue q { s.queues q with failed := true }).goto i
          (.release c (.abandon (s.ctxs c).svcHandle)))
  | unregistered {h c : ℕ} (hf : s.find h = some c) :
      Effect s i ok (.unregister h) ({ s with table := s.table.clear h }.goto i (.release c .finish))
  | accepted {c q : ℕ} {msg : Message} {k : After} (hq : (s.ctxs c).queue = some q)
      (hg : (s.queues q).isInGlobal = true) :
      Effect s i ok (.push c msg k) ((s.accept q msg).goto i (.release c k))
  | acceptedIdle {c q : ℕ} {msg : Message} {k : After} {g : IntrusiveQueue ℕ}
      (hq : (s.ctxs c).queue = some q) (hg : (s.queues q).isInGlobal = false)
      (hl : s.mqGlobal.push q = some g) :
      Effect s i ok (.push c msg k) ({ s.accept q msg with mqGlobal := g }.goto i (.release c k))
  | linked {p p' : Pc} {q : ℕ} {g : IntrusiveQueue ℕ} (h : Links s p q p')
      (hl : s.mqGlobal.push q = some g) : Effect s i ok p ({ s with mqGlobal := g }.goto i p')
  | unlinked {p : Pc} {k : Option ℕ → Pc} {g : IntrusiveQueue ℕ} {q? : Option ℕ}
      (h : Unlinks s p k) (hl : s.mqGlobal.pop = some (g, q?)) :
      Effect s i ok p ({ s with mqGlobal := g }.goto i (k q?))
  | emptied {w : ℤ} {q c j n : ℕ} (hm : (s.queues q).msgs = []) :
      Effect s i ok (.popMessage w q c j n)
        ((s.setQueue q { s.queues q with isInGlobal := false }).goto i (.release c (.popNext w)))
  | taken {w : ℤ} {q c j n : ℕ} {p' : Pc} {e : Queued} {rest : List Queued}
      (hm : (s.queues q).msgs = e :: rest) (hp : p' = .length w q c ∨ p' = .callback w q c j n) :
      Effect s i ok (.popMessage w q c j n)
        ({ s.setQueue q { s.queues q with msgs := rest } with
            dispatched := s.dispatched ++ [e.id] }.goto i p')
  | dropEmptied {w : ℤ} {q h : ℕ} (hm : (s.queues q).msgs = []) :
      Effect s i ok (.dropQueue w q h)
        ((s.setQueue q { s.queues q with isInGlobal := false }).goto i (.deleteQueue w q))
  | dropTaken {w : ℤ} {q h : ℕ} {e : Queued} {rest : List Queued}
      (hm : (s.queues q).msgs = e :: rest) :
      Effect s i ok (.dropQueue w q h)
        ({ s.setQueue q { s.queues q with msgs := rest } with dropped := s.dropped ++ [e] }.goto i
          (.dropMessage w q h e))
  | reported {w : ℤ} {q h : ℕ} {e : Queued} {p' : Pc} (hh : h ≠ 0)
      (hp : e.msg.srcSvcHandle = 0 ∧ p' = .dropQueue w q h ∨
        e.msg.srcSvcHandle ≠ 0 ∧
          p' = .send e.msg.srcSvcHandle ⟨h, 0, .error⟩ (.dropQueue w q h)) :
      Effect s i ok (.dropMessage w q h e)
        ({ s with reported :=
            s.reported ++ [(⟨e.id, e.msg.srcSvcHandle, ⟨h, 0, .error⟩⟩ : Report)] }.goto i p')
  | queueDeleted {w : ℤ} {q : ℕ} (hn : s.mqGlobal.next q = none) :
      Effect s i ok (.deleteQueue w q)
        ((s.setQueue q { s.queues q with alive := false }).goto i (.popNext w))

namespace State

variable {s t : State} {i : ℕ} {ok : Bool} {p p' : Pc} {q : ℕ}

theorem pushGlobal_effect (h : Links s p q p') : Effect s i ok p (s.pushGlobal q i p') := by
  unfold pushGlobal
  cases hl : s.mqGlobal.push q with
  | none => exact .crash (.linked h hl)
  | some g => exact .linked h hl

theorem popGlobal_effect {k : Option ℕ → Pc} (h : Unlinks s p k) :
    Effect s i ok p (s.popGlobal i k) := by
  unfold popGlobal
  cases hl : s.mqGlobal.pop with
  | none => exact .crash (.badTail h hl)
  | some g => exact .unlinked h hl

theorem markRelease_effect (c : ℕ) (k : After) :
    Effect s i ok (.markRelease c k) (s.markRelease i c k) := by
  unfold markRelease
  cases hq : (s.ctxs c).queue with
  | none => exact .crash (.markNull hq)
  | some q =>
    simp only
    split_ifs with hr hg
    · exact .crash (.markTwice hq hr)
    · exact .marked hq (by simpa using hr) hg
    · cases hl : s.mqGlobal.push q with
      | none => exact .crash (.markLinked hq (by simpa using hr) (by simpa using hg) hl)
      | some g => exact .markedIdle hq (by simpa using hr) (by simpa using hg) hl

theorem push_effect (c : ℕ) (msg : Message) (k : After) :
    Effect s i ok (.push c msg k) (s.push i c msg k) := by
  unfold push
  cases hq : (s.ctxs c).queue with
  | none => exact .crash (.pushNull hq)
  | some q =>
    simp only
    split_ifs with hg
    · exact .accepted hq hg
    · cases hl : s.mqGlobal.push q with
      | none => exact .crash (.pushLinked hq (by simpa using hg) hl)
      | some g => exact .acceptedIdle hq (by simpa using hg) hl

/-- What `grab` finds decides between the two outcomes. -/
theorem find_effect {h : ℕ} {found : ℕ → State} {missing : State}
    (hsome : ∀ c, s.find h = some c → Effect s i ok p (found c))
    (hnone : s.find h = none → Effect s i ok p missing) :
    Effect s i ok p (match s.find h with | some c => found c | none => missing) := by
  cases hf : s.find h with
  | none => exact hnone hf
  | some c => exact hsome c hf

/-- **Inversion**: every step has one of the effects. -/
theorem advance_effect (ht : s.advance i ok p = some t) : Effect s i ok p t := by
  cases p with cases ht
  | release c k =>
    unfold releaseService
    split_ifs with hz
    · exact .lastReleased hz
    · exact .released hz
  | markRelease c k => exact markRelease_effect c k
  | delete c k => exact .deleted c k
  | register c =>
    unfold registerService
    cases hr : s.table.registerService (fun c => (s.ctxs c).svcHandle) c with
    | error f => exact .crash (.register hr)
    | ok r => exact .registered hr
  | storeHandle c h => exact .stored c h
  | createQueue c => exact .built c
  | init c q =>
    unfold initDone
    split_ifs with hok
    · exact .control (.initDone c q)
    · exact .initFailed (by simpa using hok)
  | launch q => exact pushGlobal_effect (.launch q)
  | unregister h =>
    exact find_effect (fun c hf => .unregistered hf) fun hf => .control (.unregister hf)
  | send dst msg k =>
    exact find_effect (fun c hf => .grabbed hf (.send dst c msg k)) fun hf => .control (.send hf)
  | push c msg k => exact push_effect c msg k
  | grab h => exact find_effect (fun c hf => .grabbed hf (.grab h c)) fun hf => .control (.grab hf)
  | hold c => exact .control (.hold c)
  | dispatch w o =>
    cases o with
    | none => exact popGlobal_effect (.dispatch w)
    | some q => exact .control (.dispatch w q)
  | lookup w q =>
    exact find_effect (fun c hf => .grabbed hf (.lookup w q c)) fun hf => .control (.lookup hf)
  | releaseQueue w q h =>
    unfold releaseQueue
    split_ifs with hr
    · exact .control (.releaseQueue hr)
    · exact pushGlobal_effect (.releaseQueue (by simpa using hr))
  | dropQueue w q h =>
    unfold dropQueue
    cases hm : (s.queues q).msgs with
    | nil => exact .dropEmptied hm
    | cons e rest => exact .dropTaken hm
  | dropMessage w q h e =>
    unfold dropMessage
    split_ifs with hh hsrc
    · subst hh
      exact .crash (.zeroHandle w q e)
    · exact .reported hh (.inl ⟨hsrc, rfl⟩)
    · exact .reported hh (.inr ⟨hsrc, rfl⟩)
  | deleteQueue w q =>
    unfold deleteQueue
    split_ifs with hn
    · exact .crash (.droppedLinked hn)
    · exact .queueDeleted (of_not_not hn)
  | popMessage w q c j n =>
    unfold popMessage
    cases hm : (s.queues q).msgs with
    | nil => exact .emptied hm
    | cons e rest =>
      refine .taken hm ?_
      split_ifs
      · exact .inl rfl
      · exact .inr rfl
  | length w q c => exact .control (.length w q c _)
  | callback w q c j n =>
    unfold callbackDone
    split_ifs
    · exact .control (.again w q c j n)
    · exact .control (.next w q c j n)
  | next w q c =>
    unfold next
    split_ifs with hq
    · exact .crash (.wrongQueue hq)
    · exact popGlobal_effect (.next (of_not_not hq))
  | pushBack w q c q' => exact pushGlobal_effect (.pushBack w q c q')
  | popNext w => exact popGlobal_effect (.popNext w)

theorem step_cases {a : Action} (hs : s.step a = some t) :
    s.fault = none ∧ ((∃ task, a = .start task ∧ t = s.start task) ∨
      ∃ i ok p, a = .run i ok ∧ s.acts[i]? = some p ∧ Effect s i ok p t) := by
  unfold step at hs
  split_ifs at hs with hf
  refine ⟨of_not_not hf, ?_⟩
  cases a with
  | start task => exact .inl ⟨task, rfl, (Option.some.inj hs).symm⟩
  | run i ok =>
    obtain ⟨p, hp, hadv⟩ := Option.bind_eq_some_iff.mp hs
    exact .inr ⟨i, ok, p, rfl, hp, advance_effect hadv⟩

theorem find_eq_some {h c : ℕ} (hf : s.find h = some c) :
    s.table.at? h = some c ∧ (s.ctxs c).svcHandle = h := by
  unfold find at hf
  cases ha : s.table.at? h with
  | none => simp [ha] at hf
  | some d =>
    simp only [ha] at hf
    split_ifs at hf with hd
    cases hf
    exact ⟨rfl, hd⟩

/-- A field that an update of context `c` leaves alone. -/
theorem setCtx_field {α : Type} (f : ServiceContext → α) {c : ℕ} {x : ServiceContext}
    (hx : f x = f (s.ctxs c)) (d : ℕ) : f ((s.setCtx c x).ctxs d) = f (s.ctxs d) :=
  (forall_update_iff s.ctxs fun d y => f y = f (s.ctxs d)).mpr ⟨hx, fun _ _ => rfl⟩ d

theorem setQueue_queues (s : State) (q : ℕ) (x : MqPrivate) :
    (s.setQueue q x).queues q = x ∧ ∀ d, d ≠ q → (s.setQueue q x).queues d = s.queues d :=
  ⟨update_self _ _ _, fun _ hd => update_of_ne hd _ _⟩

/-- What holds of the new queue `q` and of the other queues. -/
theorem setQueue_forall {P : ℕ → MqPrivate → Prop} {x : MqPrivate} (hx : P q x)
    (h : ∀ d, P d (s.queues d)) (d : ℕ) : P d ((s.setQueue q x).queues d) :=
  (forall_update_iff s.queues P).mpr ⟨hx, fun d _ => h d⟩ d

/-- A field that an update of queue `q` leaves alone. -/
theorem setQueue_field {α : Type} (f : MqPrivate → α) {x : MqPrivate} (hx : f x = f (s.queues q))
    (d : ℕ) : f ((s.setQueue q x).queues d) = f (s.queues d) :=
  setQueue_forall (P := fun d y => f y = f (s.queues d)) hx (fun _ => rfl) d

theorem newService_ctxs (s : State) : s.newService.ctxs s.nctx = ⟨true, 0, none, 2, 0⟩ ∧
    ∀ c, c ≠ s.nctx → s.newService.ctxs c = s.ctxs c :=
  ⟨update_self _ _ _, fun _ hc => update_of_ne hc _ _⟩

theorem createQueue_ctxs (s : State) (i c : ℕ) :
    (s.createQueue i c).ctxs c = { s.ctxs c with queue := some s.nq } ∧
      ∀ d, d ≠ c → (s.createQueue i c).ctxs d = s.ctxs d :=
  ⟨update_self _ _ _, fun _ hd => update_of_ne hd _ _⟩

theorem createQueue_queues (s : State) (i c : ℕ) : (s.createQueue i c).queues s.nq =
      ⟨true, (s.ctxs c).svcHandle, false, true, [], false, c⟩ ∧
      ∀ q, q ≠ s.nq → (s.createQueue i c).queues q = s.queues q :=
  ⟨update_self _ _ _, fun _ hq => update_of_ne hq _ _⟩

end State

end Skynet.Node
