import Skynet.NodeOwners

/-! # Where private queues are

`Placed strict s l`: the global queue represents the list `l`, and for every private queue the
number of places it is in (`l`, the threads that hold it, the `create_service` that is
building it) is what its flags say (`MqPrivate.Fine`).  A queue with `is_in_global_` set is in exactly one
place, unless `init` of its service failed, and a queue without it is empty and, unless it
is marked for release, in no place at all.

The invariant holds in every run; reissued handles and failed `init`s do not break it.  Its
strict form needs that they do not happen. -/

namespace Skynet.Node

open List ThreadPool Pc

/-! ### Queues held by threads -/

namespace After

def held (q : ℕ) : After → ℕ
  | .dispatch _ q' | .dropQueue _ q' _ => if q' = q then 1 else 0
  | _ => 0

def building (q : ℕ) : After → ℕ
  | .launch q' => if q' = q then 1 else 0
  | _ => 0

/-- `_drop_queue` only runs on a queue marked for release. -/
def Dropping (queues : ℕ → MqPrivate) : After → Prop
  | .dropQueue _ q _ => (queues q).isRelease = true
  | _ => True

end After

namespace Pc

/-- The worker holds queue `q`. -/
def held (q : ℕ) : Pc → ℕ
  | .release _ k | .markRelease _ k | .delete _ k | .send _ _ k | .push _ _ k => k.held q
  | .dispatch _ (some q') | .lookup _ q' | .releaseQueue _ q' _ | .dropQueue _ q' _
  | .dropMessage _ q' _ _ | .deleteQueue _ q' | .popMessage _ q' _ _ _ | .length _ q' _
  | .callback _ q' _ _ _ | .next _ q' _ => if q' = q then 1 else 0
  | .pushBack _ q' _ nextQ => (if q' = q then 1 else 0) + if nextQ = q then 1 else 0
  | _ => 0

/-- The thread is in `create_service` with queue `q` between its creation and its launch. -/
def building (q : ℕ) : Pc → ℕ
  | .release _ k | .markRelease _ k | .delete _ k | .send _ _ k | .push _ _ k => k.building q
  | .init _ q' | .launch q' => if q' = q then 1 else 0
  | _ => 0

def holds (q : ℕ) (p : Pc) : ℕ := p.held q + p.building q

/-- What `_drop_queue` relies on. -/
def Dropping (queues : ℕ → MqPrivate) : Pc → Prop
  | .release _ k | .markRelease _ k | .delete _ k | .send _ _ k | .push _ _ k => k.Dropping queues
  | .dropQueue _ q _ | .dropMessage _ q _ _ => (queues q).isRelease = true
  | .deleteQueue _ q => (queues q).isRelease = true ∧ (queues q).isInGlobal = false
  | _ => True

end Pc

@[simp] theorem After.held_resume (k : After) (q : ℕ) : k.resume.held q = k.held q := by
  cases k <;> rfl

@[simp] theorem After.building_resume (k : After) (q : ℕ) : k.resume.building q = k.building q := by
  cases k <;> rfl

variable {queues : ℕ → MqPrivate}

theorem After.dropping_resume {k : After} (h : k.Dropping queues) : k.resume.Dropping queues := by
  cases k <;> exact h

/-! ### One queue -/

/-- A queue that is in `n` places.  With `strict`, a queue marked for release is in one place
until it is deleted. -/
structure MqPrivate.Fine (strict : Prop) (x : MqPrivate) (n : ℕ) : Prop where
  active : x.alive = true → x.isInGlobal = true → x.failed = false → n = 1
  stranded : x.alive = true → x.failed = true → x.isInGlobal = true ∧ n = 0
  idle : x.alive = true → x.isInGlobal = false → x.msgs = [] ∧ n ≤ 1 ∧ (x.isRelease = false → n = 0)
  dead : x.alive = false → n = 0 ∧ x.msgs = []
  kept : strict → x.alive = true → x.failed = false ∧ (x.isRelease = true → n = 1)

namespace MqPrivate

/-- Marks for release stay, and nothing is pushed to a marked queue. -/
def Later (x y : MqPrivate) : Prop :=
  x.isRelease = true → y.isRelease = true ∧ (x.isInGlobal = false → y.isInGlobal = false)

theorem Later.refl (x : MqPrivate) : x.Later x := fun h => ⟨h, id⟩

namespace Fine

variable {strict : Prop} {x : MqPrivate} {n : ℕ}

theorem le_one (h : x.Fine strict n) : n ≤ 1 := by
  cases ha : x.alive with
  | false => exact (h.dead ha).1 ▸ Nat.zero_le 1
  | true =>
    cases hg : x.isInGlobal with
    | false => exact (h.idle ha hg).2.1
    | true =>
      cases hf : x.failed with
      | false => exact (h.active ha hg hf).le
      | true => exact (h.stranded ha hf).2 ▸ Nat.zero_le 1

theorem not_failed (h : x.Fine strict n) (ha : x.alive = true) (hg : x.isInGlobal = false) :
    x.failed = false := by
  by_contra hf
  simp [(h.stranded ha (by simpa using hf)).1] at hg

theorem alive_of_pos (h : x.Fine strict n) (hn : 0 < n) : x.alive = true := by
  cases ha : x.alive with
  | false =>
    have := (h.dead ha).1
    omega
  | true => rfl

theorem not_failed_of_pos (h : x.Fine strict n) (hn : 0 < n) : x.failed = false := by
  cases hf : x.failed with
  | false => rfl
  | true =>
    have := (h.stranded (h.alive_of_pos hn) hf).2
    omega

theorem msgs_nil (h : x.Fine strict n) (hg : x.isInGlobal = false) : x.msgs = [] := by
  cases ha : x.alive with
  | false => exact (h.dead ha).2
  | true => exact (h.idle ha hg).1

end Fine

end MqPrivate

variable {queues' : ℕ → MqPrivate} {strict : Prop}

theorem After.Dropping.mono {k : After} (h : k.Dropping queues)
    (hl : ∀ q, (queues q).Later (queues' q)) : k.Dropping queues' := by
  cases k with
  | dropQueue w q k => exact (hl q h).1
  | _ => trivial

theorem Pc.Dropping.mono {p : Pc} (h : p.Dropping queues) (hl : ∀ q, (queues q).Later (queues' q)) :
    p.Dropping queues' := by
  cases p with
  | release c k | markRelease c k | delete c k | send dst msg k | push c msg k =>
    exact After.Dropping.mono h hl
  | dropQueue w q k | dropMessage w q k e => exact (hl q h).1
  | deleteQueue w q => exact ⟨(hl q h.1).1, (hl q h.1).2 h.2⟩
  | _ => trivial

/-! ### All queues -/

/-- The faults that bad placement would cause. -/
def Fault.misplaced (f : Option Fault) : Prop :=
  f = some .linked ∨ f = some .badTail ∨ f = some .droppedLinked ∨ f = some .releasedTwice

/-- Every queue is where its flags say; the global queue is `l`. -/
structure Placed (strict : Prop) (s : State) (l : List ℕ) : Prop where
  rep : IntrusiveQueue.Represents s.mqGlobal l
  fine : ∀ q, (s.queues q).Fine strict (l.count q + total (holds q) s.acts)
  fresh : ∀ q, s.nq ≤ q → (s.queues q).alive = false ∧ (s.queues q).isRelease = false
  live : ∀ q, q < s.nq → (s.queues q).isRelease = false → (s.queues q).alive = true
  building : ∀ q, 0 < total (building q) s.acts → (s.queues q).isInGlobal = true
  dropping : ∀ p ∈ s.acts, p.Dropping s.queues
  fault : ¬ Fault.misplaced s.fault

namespace Placed

variable {strict : Prop} {s t : State} {l l' : List ℕ} {i : ℕ} {p p' : Pc} {c q : ℕ}

theorem init : Placed strict State.init [] where
  rep := IntrusiveQueue.represents_empty
  fine q := ⟨nofun, nofun, nofun, fun _ => ⟨rfl, rfl⟩, nofun⟩
  fresh _ _ := ⟨rfl, rfl⟩
  live q h := by simp [State.init] at h
  building q h := by simp [State.init] at h
  dropping p h := by simp [State.init] at h
  fault := by simp [Fault.misplaced, State.init]

variable (h : Placed strict s l)

include h

theorem crash {f : Fault} (hf : ¬ Fault.misplaced (some f)) :
    Placed strict (s.crash f) l := ⟨h.rep, h.fine, h.fresh, h.live, h.building, h.dropping, hf⟩

variable (hp : s.acts[i]? = some p)

include hp

theorem holds_le (q : ℕ) : l.count q + p.holds q ≤ 1 := by
  have h1 := (h.fine q).le_one
  have h2 := le_total (holds q) hp
  omega

theorem not_mem (hq : 0 < p.holds q) : q ∉ l := by
  have := h.holds_le hp q
  rw [← count_eq_zero]
  omega

theorem alive_of_holds (hq : 0 < p.holds q) : (s.queues q).alive = true := by
  have := le_total (holds q) hp
  exact (h.fine q).alive_of_pos (by omega)

/-- Thread `i` moves from `p` to `p'`, the global queue becomes `l'`. -/
theorem move (hacts : t.acts = s.acts.set i p') (hrep : IntrusiveQueue.Represents t.mqGlobal l')
    (hfault : t.fault = s.fault)
    (hfine : ∀ q n, n + l.count q + p.holds q =
      l.count q + total (Pc.holds q) s.acts + l'.count q + p'.holds q → (t.queues q).Fine strict n)
    (hlater : ∀ q, (s.queues q).Later (t.queues q))
    (hfresh : ∀ q, t.nq ≤ q → (t.queues q).alive = false ∧ (t.queues q).isRelease = false)
    (hlive : ∀ q, q < t.nq → (t.queues q).isRelease = false → (t.queues q).alive = true)
    (hbuild : ∀ q, 0 < total (Pc.building q) t.acts → (t.queues q).isInGlobal = true)
    (hdrop : p'.Dropping t.queues) : Placed strict t l' := by
  refine ⟨hrep, fun q => hfine q _ ?_, hfresh, hlive, hbuild, ?_, hfault ▸ h.fault⟩
  · have := total_set (Pc.holds q) p' hp
    rw [hacts]
    omega
  · rw [hacts]
    exact forall_set h.dropping (fun p _ hd => hd.mono hlater) hdrop

theorem handOver (hacts : t.acts = s.acts.set i p') (hrep : IntrusiveQueue.Represents t.mqGlobal l')
    (hfault : t.fault = s.fault) (hqueues : t.queues = s.queues) (hnq : t.nq = s.nq)
    (hbal : ∀ q, l'.count q + p'.holds q = l.count q + p.holds q)
    (hbuild : ∀ q, p'.building q ≤ p.building q)
    (hdrop : p.Dropping s.queues → p'.Dropping s.queues) : Placed strict t l' := by
  refine h.move hp hacts hrep hfault (fun q n hn => ?_) (fun q => ?_) ?_ ?_ (fun q hq => ?_) ?_
  · have := hbal q
    obtain rfl : n = l.count q + total (Pc.holds q) s.acts := by omega
    rw [hqueues]
    exact h.fine q
  · rw [hqueues]
    exact MqPrivate.Later.refl _
  · rw [hqueues, hnq]
    exact h.fresh
  · rw [hqueues, hnq]
    exact h.live
  · rw [hqueues]
    have h1 := total_set (Pc.building q) p' hp
    have h2 := hbuild q
    rw [hacts] at hq
    exact h.building q (by omega)
  · rw [hqueues]
    exact hdrop (h.dropping p (mem_of_getElem? hp))

theorem change {x : MqPrivate} (hacts : t.acts = s.acts.set i p')
    (hqueues : t.queues = (s.setQueue q x).queues) (hrep : IntrusiveQueue.Represents t.mqGlobal l')
    (hfault : t.fault = s.fault) (hnq : t.nq = s.nq)
    (hbal : ∀ d, d ≠ q → l'.count d + p'.holds d = l.count d + p.holds d)
    (hfine : ∀ m n, (s.queues q).Fine strict m → m = l.count q + total (Pc.holds q) s.acts →
      n + l.count q + p.holds q = m + l'.count q + p'.holds q → x.Fine strict n)
    (hlater : (s.queues q).Later x) (hlt : q < s.nq) (hlive : x.isRelease = false → x.alive = true)
    (hbuild : ∀ d, p'.building d ≤ p.building d)
    (hx : 0 < total (Pc.building q) (s.acts.set i p') → x.isInGlobal = true)
    (hdrop : p.Dropping t.queues → p'.Dropping t.queues) : Placed strict t l' := by
  obtain ⟨hself, hother⟩ := s.setQueue_queues q x
  have hall : ∀ d, (s.queues d).Later (t.queues d) := fun d => by
    rw [hqueues]
    by_cases hdq : d = q
    · rw [hdq, hself]
      exact hlater
    · rw [hother d hdq]
      exact MqPrivate.Later.refl _
  refine h.move hp hacts hrep hfault (fun d n hn => ?_) hall (fun d hd => ?_)
    (fun d hd hr => ?_) (fun d hd => ?_)
    (hdrop ((h.dropping p (mem_of_getElem? hp)).mono hall))
  · rw [hqueues]
    by_cases hdq : d = q
    · subst hdq
      rw [hself]
      exact hfine _ n (h.fine d) rfl hn
    · rw [hother d hdq]
      have := hbal d hdq
      obtain rfl : n = l.count d + total (Pc.holds d) s.acts := by omega
      exact h.fine d
  · rw [hnq] at hd
    rw [hqueues, hother d (by omega)]
    exact h.fresh d hd
  · rw [hnq] at hd
    rw [hqueues] at hr ⊢
    by_cases hdq : d = q
    · rw [hdq, hself] at hr ⊢
      exact hlive hr
    · rw [hother d hdq] at hr ⊢
      exact h.live d hd hr
  · rw [hacts] at hd
    rw [hqueues]
    by_cases hdq : d = q
    · subst hdq
      rw [hself]
      exact hx hd
    · rw [hother d hdq]
      have h1 := total_set (Pc.building d) p' hp
      have h2 := hbuild d
      exact h.building d (by omega)

omit hp

theorem lt_nq (ha : (s.queues q).alive = true) : q < s.nq := by
  by_contra hge
  rw [(h.fresh q (by omega)).1] at ha
  cases ha

theorem building_eq_zero (hp : s.acts[i]? = some p) (hq : 0 < p.held q) :
    total (Pc.building q) s.acts = 0 := by
  have h1 := (h.fine q).le_one
  have h2 := le_total (Pc.held q) hp
  have h3 : total (Pc.holds q) s.acts = total (Pc.held q) s.acts + total (Pc.building q) s.acts :=
    total_add _ _ _
  omega

theorem fork (hacts : t.acts = s.acts ++ [p]) (hqueues : t.queues = s.queues) (hnq : t.nq = s.nq)
    (hg : t.mqGlobal = s.mqGlobal) (hfault : t.fault = s.fault) (hp : ∀ q, p.holds q = 0)
    (hd : p.Dropping s.queues) : Placed strict t l := by
  have hb : ∀ q, p.building q = 0 := fun q => by
    have := hp q
    unfold holds at this
    omega
  refine ⟨hg ▸ h.rep, fun q => ?_, hqueues ▸ hnq ▸ h.fresh, hqueues ▸ hnq ▸ h.live, fun q hq => ?_,
    fun p' hp' => ?_, hfault ▸ h.fault⟩
  · rw [hqueues, hacts, total_append, total_cons, total_nil, hp q]
    exact h.fine q
  · rw [hacts, total_append, total_cons, total_nil, hb q] at hq
    rw [hqueues]
    exact h.building q hq
  · rw [hacts] at hp'
    rw [hqueues]
    rcases mem_append.mp hp' with hp' | hp'
    · exact h.dropping p' hp'
    · rw [mem_singleton.mp hp']
      exact hd

theorem start (task : Task) : Placed strict (s.start task) l := by
  cases task <;> exact h.fork rfl rfl rfl rfl rfl (fun _ => rfl) trivial

/-! ### Effects on one queue -/

variable {k : After}

theorem pushed (ho : Owners s) (hr : Refs s) {msg : Message}
    (hp : s.acts[i]? = some (.push c msg k)) (hq : (s.ctxs c).queue = some q) :
    q < s.nq ∧ (s.queues q).isRelease = false ∧ (s.queues q).alive = true := by
  have hpc : 0 < (push c msg k).refs c := by simp [refs]
  have halive := hr.alive_of_refs hp hpc
  have hrel := ho.not_isRelease hr halive (hr.ref_pos_of_refs hp hpc) hq
  have hlt := (ho.owned c q halive hq).1
  exact ⟨hlt, hrel, h.live q hlt hrel⟩

theorem unmarked (ho : Owners s) (hr : Refs s) (hp : s.acts[i]? = some (.markRelease c k))
    (hq : (s.ctxs c).queue = some q) :
    q < s.nq ∧ (s.queues q).isRelease = false ∧ (s.queues q).alive = true := by
  have halive := hr.alive_of_dying (c := c) hp (by simp [dying])
  have hlt := (ho.owned c q halive hq).1
  have hrel : (s.queues q).isRelease = false := by
    have := ho.released c q halive hq
    rw [hr.deleting_eq_zero_of_marking hp] at this
    simpa using this
  exact ⟨hlt, hrel, h.live q hlt hrel⟩

theorem not_mem_of_idle (ha : (s.queues q).alive = true) (hg : (s.queues q).isInGlobal = false)
    (hr : (s.queues q).isRelease = false) : q ∉ l := by
  have := ((h.fine q).idle ha hg).2.2 hr
  rw [← count_eq_zero]
  omega

theorem not_crash_linked (hq : q ∉ l) : s.mqGlobal.push q ≠ none := by
  obtain ⟨g, hg, _⟩ := h.rep.push hq
  rw [hg]
  simp

omit h

theorem links_holds (hl : Links s p q p') : 0 < p.holds q := by
  cases hl <;> simp [Pc.holds, Pc.held, Pc.building]

include h

section

variable (hrep : IntrusiveQueue.Represents t.mqGlobal l') (hfault : t.fault = s.fault)
  (hnq : t.nq = s.nq) (hother : ∀ d, d ≠ q → l'.count d = l.count d)
  (hcount : l'.count q = l.count q + if (s.queues q).isInGlobal then 0 else 1)
include hrep hfault hnq hother hcount

/-- `is_release_ = true`; an idle queue is linked. -/
theorem marked (ho : Owners s) (hr : Refs s) (hp : s.acts[i]? = some (.markRelease c k))
    (hq : (s.ctxs c).queue = some q) (hacts : t.acts = s.acts.set i (.delete c k))
    (hqueues : t.queues = (s.setQueue q { s.queues q with isRelease := true }).queues) :
    Placed strict t l' := by
  obtain ⟨hlt, hrel, ha⟩ := h.unmarked ho hr hp hq
  refine h.change hp hacts hqueues hrep hfault hnq (fun d hd => by rw [hother d hd]; rfl)
    (fun m n hm _ hn => ?_) (fun hx => by rw [hrel] at hx; cases hx) hlt nofun (fun d => le_rfl)
    (fun hb => h.building q ?_) id
  · rw [hcount] at hn
    simp only [Pc.holds, Pc.held, Pc.building] at hn
    have hn' : n = m + if (s.queues q).isInGlobal then 0 else 1 := by omega
    cases hg : (s.queues q).isInGlobal with
    | true =>
      rw [hg, if_pos rfl, add_zero] at hn'
      subst hn'
      exact ⟨hm.active, hm.stranded, fun _ hg' => by simp [hg] at hg', hm.dead, fun hs _ =>
        ⟨(hm.kept hs ha).1, fun _ => hm.active ha hg (hm.kept hs ha).1⟩⟩
    | false =>
      obtain ⟨h1, h2, h3⟩ := hm.idle ha hg
      rw [hg, h3 hrel] at hn'
      have hf := hm.not_failed ha hg
      exact ⟨fun _ hg' => by simp [hg] at hg', fun _ hf' => by simp [hf] at hf',
        fun _ _ => ⟨h1, by simp [hn'], nofun⟩, fun ha' => by simp [ha] at ha',
        fun _ _ => ⟨hf, fun _ => by simp [hn']⟩⟩
  · have := total_set (Pc.building q) (.delete c k) hp
    simp only [Pc.building] at this
    omega

theorem accepted (ho : Owners s) (hr : Refs s) {msg : Message}
    (hp : s.acts[i]? = some (.push c msg k)) (hq : (s.ctxs c).queue = some q)
    (hacts : t.acts = s.acts.set i (.release c k)) (hqueues : t.queues = (s.accept q msg).queues) :
    Placed strict t l' := by
  obtain ⟨hlt, hrel, ha⟩ := h.pushed ho hr hp hq
  refine h.change hp hacts hqueues hrep hfault hnq (fun d hd => by rw [hother d hd]; rfl)
    (fun m n hm _ hn => ?_) (fun hx => by rw [hrel] at hx; cases hx) hlt (fun _ => ha)
    (fun d => le_rfl) (fun _ => rfl) id
  · rw [hcount] at hn
    simp only [Pc.holds, Pc.held, Pc.building] at hn
    have hn' : n = m + if (s.queues q).isInGlobal then 0 else 1 := by omega
    cases hg : (s.queues q).isInGlobal with
    | true =>
      rw [hg, if_pos rfl, add_zero] at hn'
      subst hn'
      exact ⟨fun h1 _ h3 => hm.active h1 hg h3, fun h1 h2 => ⟨rfl, (hm.stranded h1 h2).2⟩,
        nofun, fun ha' => by simp [ha] at ha', hm.kept⟩
    | false =>
      rw [hg, ((hm.idle ha hg).2.2 hrel)] at hn'
      have hf := hm.not_failed ha hg
      exact ⟨fun _ _ _ => by simp [hn'], fun _ hf' => by simp [hf] at hf', nofun,
        fun ha' => by simp [ha] at ha', fun _ _ => ⟨hf, fun _ => by simp [hn']⟩⟩

end

/-- A held queue is found empty: `is_in_global_ = false`. -/
theorem emptied (hp : s.acts[i]? = some p) (hm : (s.queues q).msgs = [])
    (hs : strict → p'.holds q = 0 → (s.queues q).isRelease = false) (hheld : p.held q = 1)
    (hother : ∀ d, d ≠ q → p'.holds d = p.holds d)
    (hp' : p'.holds q = 0 ∨ p'.holds q = 1 ∧ (s.queues q).isRelease = true)
    (hbuild : ∀ d, p'.building d ≤ p.building d)
    (hdrop : p.Dropping ((s.setQueue q { s.queues q with isInGlobal := false }).queues) →
      p'.Dropping ((s.setQueue q { s.queues q with isInGlobal := false }).queues)) :
    Placed strict ((s.setQueue q { s.queues q with isInGlobal := false }).goto i p') l := by
  have hle := h.holds_le hp q
  have hholds : p.holds q = 1 := by
    unfold Pc.holds at hle ⊢
    omega
  have ha := h.alive_of_holds hp (q := q) (by omega)
  have hb := h.building_eq_zero hp (q := q) (by omega)
  refine h.change hp rfl rfl h.rep rfl rfl (fun d hd => by rw [hother d hd]) (fun m n hfm hmeq hn => ?_)
    (fun hr => ⟨hr, fun _ => rfl⟩) (h.lt_nq ha) (fun _ => ha) hbuild (fun hpos => ?_) hdrop
  · have hm1 : 0 < m := by
      have := le_total (Pc.holds q) hp
      omega
    have hf := hfm.not_failed_of_pos hm1
    have hle1 := hfm.le_one
    refine ⟨nofun, fun _ hf' => by simp [hf] at hf', fun _ _ => ⟨hm, by omega, fun hrel => ?_⟩,
      fun ha' => by simp [ha] at ha', fun hst _ => ⟨hf, fun hrel => ?_⟩⟩
    · rcases hp' with h0 | ⟨_, h1⟩
      · omega
      · simp [h1] at hrel
    · rcases hp' with h0 | ⟨h1, _⟩
      · have : (s.queues q).isRelease = true := hrel
        rw [hs hst h0] at this
        cases this
      · omega
  · have h1 := total_set (Pc.building q) p' hp
    have h2 := hbuild q
    omega

theorem taken (hp : s.acts[i]? = some p) {e : Queued} {rest : List Queued}
    (hm : (s.queues q).msgs = e :: rest) (hacts : t.acts = s.acts.set i p')
    (hqueues : t.queues = (s.setQueue q { s.queues q with msgs := rest }).queues)
    (hg : t.mqGlobal = s.mqGlobal) (hfault : t.fault = s.fault) (hnq : t.nq = s.nq)
    (hheld : 0 < p.holds q) (hholds : ∀ d, p'.holds d = p.holds d)
    (hbuild : ∀ d, p'.building d ≤ p.building d)
    (hdrop : p.Dropping t.queues → p'.Dropping t.queues) : Placed strict t l := by
  have ha := h.alive_of_holds hp hheld
  refine h.change hp hacts hqueues (hg ▸ h.rep) hfault hnq (fun d _ => by rw [hholds d])
    (fun m n hfm _ hn => ?_) (MqPrivate.Later.refl (s.queues q)) (h.lt_nq ha) (fun _ => ha) hbuild
    (fun hpos => h.building q ?_) hdrop
  · obtain rfl : n = m := by
      rw [hholds q] at hn
      omega
    refine ⟨hfm.active, hfm.stranded, fun h1 h2 => ?_, fun ha' => by simp [ha] at ha', hfm.kept⟩
    have := hfm.msgs_nil h2
    rw [hm] at this
    cases this
  · have h1 := total_set (Pc.building q) p' hp
    have h2 := hbuild q
    omega

/-- `delete q` at the end of `_drop_queue`. -/
theorem queueDeleted {w : ℤ} (hp : s.acts[i]? = some (.deleteQueue w q)) :
    Placed strict ((s.setQueue q { s.queues q with alive := false }).goto i (.popNext w)) l := by
  obtain ⟨hrel, hg⟩ := h.dropping _ (mem_of_getElem? hp)
  have hheld : 0 < (Pc.deleteQueue w q).holds q := by simp [Pc.holds, Pc.held]
  have ha := h.alive_of_holds hp hheld
  refine h.change hp rfl rfl h.rep rfl rfl (fun d hd => ?_) (fun m n hfm hmeq hn => ?_)
    (MqPrivate.Later.refl (s.queues q)) (h.lt_nq ha) (fun hr => by simp [hrel] at hr)
    (fun d => le_rfl) (fun hpos => ?_) fun _ => trivial
  · simp [Pc.holds, Pc.held, Pc.building, Ne.symm hd]
  · have hle := hfm.le_one
    refine ⟨nofun, nofun, nofun, fun _ => ⟨?_, hfm.msgs_nil hg⟩, nofun⟩
    simp only [Pc.holds, Pc.held, Pc.building, if_true] at hn
    omega
  · have h1 := total_set (Pc.building q) (.popNext w) hp
    have h2 := h.building_eq_zero hp (q := q) (by simp [Pc.held])
    simp only [Pc.building] at h1
    omega

/-- `mq_private::create` -/
theorem built (hp : s.acts[i]? = some (.createQueue c)) : Placed strict (s.createQueue i c) l := by
  obtain ⟨hnew, hold⟩ := s.createQueue_queues i c
  obtain ⟨hdead, hrel⟩ := h.fresh s.nq le_rfl
  refine h.move hp rfl h.rep rfl (fun d n hn => ?_) (fun d => ?_) (fun d hd => ?_)
    (fun d hd hr => ?_) (fun d hd => ?_) trivial
  · by_cases hdn : d = s.nq
    · subst hdn
      have hz := ((h.fine s.nq).dead hdead).1
      rw [hnew]
      simp only [Pc.holds, Pc.held, Pc.building, if_true] at hn
      exact ⟨fun _ _ _ => by omega, nofun, nofun, nofun, fun _ _ => ⟨rfl, nofun⟩⟩
    · rw [hold d hdn]
      simp only [Pc.holds, Pc.held, Pc.building, if_neg (Ne.symm hdn)] at hn
      obtain rfl : n = l.count d + total (Pc.holds d) s.acts := by omega
      exact h.fine d
  · by_cases hdn : d = s.nq
    · rw [hdn]
      exact fun hx => by rw [hrel] at hx; cases hx
    · rw [hold d hdn]
      exact MqPrivate.Later.refl _
  · have hlt : s.nq < d := hd
    rw [hold d (by omega)]
    exact h.fresh d (by omega)
  · by_cases hdn : d = s.nq
    · rw [hdn, hnew]
    · have hlt : d < s.nq + 1 := hd
      rw [hold d hdn] at hr ⊢
      exact h.live d (by omega) hr
  · by_cases hdn : d = s.nq
    · rw [hdn, hnew]
    · rw [hold d hdn]
      have h1 := total_set (Pc.building d) (.init c s.nq) hp
      have hd' : 0 < total (Pc.building d) (s.acts.set i (.init c s.nq)) := hd
      simp only [Pc.building, if_neg (Ne.symm hdn)] at h1
      exact h.building d (by omega)

/-- `init` fails: the queue is in no place any more. -/
theorem initFailed (hs : ¬ strict) {k : ℕ} (hp : s.acts[i]? = some (.init c q)) :
    Placed strict ((s.setQueue q { s.queues q with failed := true }).goto i
      (.release c (.abandon k))) l := by
  have hholds : 0 < (Pc.init c q).holds q := by simp [Pc.holds, Pc.building]
  have ha := h.alive_of_holds hp hholds
  have hb := le_total (Pc.building q) hp
  simp only [Pc.building, if_true] at hb
  have hg := h.building q (by omega)
  refine h.change hp rfl rfl h.rep rfl rfl (fun d hd => ?_) (fun m n hfm _ hn => ?_)
    (MqPrivate.Later.refl (s.queues q)) (h.lt_nq ha) (fun _ => ha) (fun d => Nat.zero_le _)
    (fun _ => hg) fun _ => trivial
  · simp [Pc.holds, Pc.held, Pc.building, After.held, After.building, Ne.symm hd]
  · have hle := hfm.le_one
    simp only [Pc.holds, Pc.held, Pc.building, After.held, After.building, if_true] at hn
    exact ⟨nofun, fun _ _ => ⟨hg, by omega⟩, fun _ hg' => by simp [hg] at hg',
      fun ha' => by simp [ha] at ha', fun hst => absurd hst hs⟩

theorem crashed (ho : Owners s) (hr : Refs s) {f : Fault} (hp : s.acts[i]? = some p)
    (hc : Crashes s p f) : Placed strict (s.crash f) l := by
  cases hc with
  | register he =>
    apply h.crash
    rcases Table.registerLoop_fault he with rfl | rfl | rfl <;> simp [Fault.misplaced]
  | markNull | pushNull | zeroHandle | wrongQueue => exact h.crash (by simp [Fault.misplaced])
  | markTwice hq hm =>
    rw [(h.unmarked ho hr hp hq).2.1] at hm
    cases hm
  | markLinked hq hm hg hl =>
    exact absurd hl (h.not_crash_linked (h.not_mem_of_idle (h.unmarked ho hr hp hq).2.2 hg hm))
  | pushLinked hq hg hl =>
    obtain ⟨_, hm, ha⟩ := h.pushed ho hr hp hq
    exact absurd hl (h.not_crash_linked (h.not_mem_of_idle ha hg hm))
  | linked hlinks hl => exact absurd hl (h.not_crash_linked (h.not_mem hp (links_holds hlinks)))
  | badTail _ hl =>
    cases l with
    | nil =>
      rw [h.rep.pop_nil] at hl
      cases hl
    | cons x l =>
      obtain ⟨g, hg, _⟩ := h.rep.pop_cons
      rw [hg] at hl
      cases hl
  | droppedLinked hn =>
    exact absurd (h.rep.outside _ (h.not_mem hp (by simp [holds, held]))) hn

/-- `mq_global::push` of a queue the thread holds. -/
theorem linked (hp : s.acts[i]? = some p) (hlinks : Links s p q p') {g : IntrusiveQueue ℕ}
    (hl : s.mqGlobal.push q = some g) :
    Placed strict ({ s with mqGlobal := g }.goto i p') (l ++ [q]) := by
  obtain ⟨g', hg', hrep⟩ := h.rep.push (h.not_mem hp (links_holds hlinks))
  obtain rfl : g = g' := Option.some.inj (hl.symm.trans hg')
  refine h.handOver hp rfl hrep rfl rfl rfl (fun d => ?_) (fun d => ?_) (fun _ => ?_)
  · rw [count_append, count_singleton]
    cases hlinks <;>
      simp only [Pc.holds, Pc.held, Pc.building, After.held, After.building, beq_iff_eq] <;> omega
  · cases hlinks <;> simp [Pc.building, After.building]
  · cases hlinks <;> trivial

/-- `mq_global::pop` by a worker. -/
theorem unlinked (hp : s.acts[i]? = some p) {k : Option ℕ → Pc} (hu : Unlinks s p k)
    {g : IntrusiveQueue ℕ} {o : Option ℕ} (hl : s.mqGlobal.pop = some (g, o)) :
    Placed strict ({ s with mqGlobal := g }.goto i (k o)) l.tail := by
  have hbuild : ∀ d, (k o).building d ≤ p.building d := fun d => by
    cases hu <;> cases o <;> exact le_rfl
  have hdrop : p.Dropping s.queues → (k o).Dropping s.queues := fun _ => by
    cases hu <;> cases o <;> trivial
  cases l with
  | nil =>
    rw [h.rep.pop_nil] at hl
    cases hl
    refine h.handOver hp rfl h.rep rfl rfl rfl (fun d => ?_) hbuild hdrop
    cases hu <;> rfl
  | cons x l =>
    obtain ⟨g', hg', hrep⟩ := h.rep.pop_cons
    rw [hg'] at hl
    cases hl
    refine h.handOver hp rfl hrep rfl rfl rfl (fun d => ?_) hbuild hdrop
    rw [tail_cons, count_cons]
    cases hu <;> simp only [Pc.holds, Pc.held, Pc.building, beq_iff_eq] <;> omega

theorem control (hp : s.acts[i]? = some p) (hacts : t.acts = s.acts.set i p')
    (hg : t.mqGlobal = s.mqGlobal) (hfault : t.fault = s.fault) (hqueues : t.queues = s.queues)
    (hnq : t.nq = s.nq) (hpc : ∀ q, p'.held q = p.held q ∧ p'.building q = p.building q)
    (hdrop : p.Dropping s.queues → p'.Dropping s.queues) : Placed strict t l := by
  refine h.handOver hp hacts (hg ▸ h.rep) hfault hqueues hnq (fun q => ?_)
    (fun q => (hpc q).2.le) hdrop
  rw [holds, holds, (hpc q).1, (hpc q).2]

omit h

/-- The steps under which the strict form is kept: `init` does not fail, and a worker that
runs the callback of a live service has a queue that is not marked for release. -/
def Tame (s : State) (ok : Bool) : Pc → Prop
  | .init _ _ => ok = true
  | .popMessage _ q _ _ _ => (s.queues q).isRelease = false
  | _ => True

/-- **Placement** is kept by every step of a thread. -/
theorem effect (h : Placed strict s l) (ho : Owners s) (hr : Refs s) {ok : Bool}
    (hp : s.acts[i]? = some p) (ht : Effect s i ok p t) (hs : strict → Tame s ok p) :
    ∃ l', Placed strict t l' := by
  cases ht with
  | control hc =>
    refine ⟨l, h.control hp rfl rfl rfl rfl rfl (fun q => ?_) fun hd => ?_⟩
    · cases hc with
      | send => exact ⟨After.held_resume _ q, After.building_resume _ q⟩
      | _ => exact ⟨rfl, rfl⟩
    · cases hc with
      | send => exact After.dropping_resume hd
      | releaseQueue hm => exact hm
      | _ => trivial
  | crash hc => exact ⟨l, h.crashed ho hr hp hc⟩
  | grabbed hf hg =>
    refine ⟨l, h.control hp rfl rfl rfl rfl rfl (fun q => ?_) fun hd => ?_⟩
    · cases hg <;> exact ⟨rfl, rfl⟩
    · cases hg <;> exact hd
  | released hne | deleted c k =>
    exact ⟨l, h.control hp rfl rfl rfl rfl rfl
      (fun q => ⟨After.held_resume _ q, After.building_resume _ q⟩) After.dropping_resume⟩
  | lastReleased | registered | stored =>
    exact ⟨l, h.control hp rfl rfl rfl rfl rfl (fun _ => ⟨rfl, rfl⟩) id⟩
  | unregistered _ =>
    exact ⟨l, h.control hp rfl rfl rfl rfl rfl (fun _ => ⟨rfl, rfl⟩) fun _ => trivial⟩
  | marked hq hm hg =>
    exact ⟨l, h.marked h.rep rfl rfl (fun _ _ => rfl) (by rw [hg]; rfl) ho hr hp hq rfl rfl⟩
  | @markedIdle c q k g hq hm hg hl =>
    obtain ⟨_, _, ha⟩ := h.unmarked ho hr hp hq
    obtain ⟨g', hg', hrep⟩ := h.rep.push (h.not_mem_of_idle ha hg hm)
    obtain rfl : g = g' := Option.some.inj (hl.symm.trans hg')
    refine ⟨l ++ [q], h.marked hrep rfl rfl (fun d hd => ?_) ?_ ho hr hp hq rfl rfl⟩
    · simp [count_append, Ne.symm hd]
    · simp [count_append, hg]
  | accepted hq hg =>
    exact ⟨l, h.accepted h.rep rfl rfl (fun _ _ => rfl) (by rw [hg]; rfl) ho hr hp hq rfl rfl⟩
  | @acceptedIdle c q msg k g hq hg hl =>
    obtain ⟨_, hm, ha⟩ := h.pushed ho hr hp hq
    obtain ⟨g', hg', hrep⟩ := h.rep.push (h.not_mem_of_idle ha hg hm)
    obtain rfl : g = g' := Option.some.inj (hl.symm.trans hg')
    refine ⟨l ++ [q], h.accepted hrep rfl rfl (fun d hd => ?_) ?_ ho hr hp hq rfl rfl⟩
    · simp [count_append, Ne.symm hd]
    · simp [count_append, hg]
  | built c => exact ⟨l, h.built hp⟩
  | initFailed hok => exact ⟨l, h.initFailed (fun hst => by simp [Tame, hok] at hs; exact hs hst) hp⟩
  | linked hlinks hl => exact ⟨_, h.linked hp hlinks hl⟩
  | unlinked hu hl => exact ⟨_, h.unlinked hp hu hl⟩
  | emptied hm =>
    refine ⟨l, h.emptied hp hm (fun hst _ => hs hst) (by simp [Pc.held]) (fun d hd => ?_) (.inl rfl)
      (fun _ => le_rfl) fun _ => trivial⟩
    simp [Pc.holds, Pc.held, Pc.building, After.held, After.building, Ne.symm hd]
  | taken hm hp' =>
    refine ⟨l, h.taken hp hm rfl rfl rfl rfl rfl (by simp [Pc.holds, Pc.held]) (fun d => ?_)
      (fun d => ?_) fun _ => ?_⟩ <;> rcases hp' with rfl | rfl
    all_goals first | rfl | trivial
  | dropEmptied hm =>
    refine ⟨l, h.emptied hp hm (fun _ h0 => ?_) (by simp [Pc.held]) (fun d hd => ?_)
      (.inr ⟨?_, ?_⟩) (fun _ => le_rfl) fun hd => ⟨hd, ?_⟩⟩
    · simp [Pc.holds, Pc.held] at h0
    · rfl
    · simp [Pc.holds, Pc.held, Pc.building]
    · exact h.dropping _ (mem_of_getElem? hp)
    · simp [State.setQueue]
  | dropTaken hm =>
    exact ⟨l, h.taken hp hm rfl rfl rfl rfl rfl (by simp [Pc.holds, Pc.held]) (fun _ => rfl)
      (fun _ => le_rfl) id⟩
  | reported _ hp' =>
    refine ⟨l, h.control hp rfl rfl rfl rfl rfl (fun d => ?_) fun hd => ?_⟩ <;>
      rcases hp' with ⟨_, rfl⟩ | ⟨_, rfl⟩
    · exact ⟨rfl, rfl⟩
    · exact ⟨rfl, rfl⟩
    · exact hd
    · exact hd
  | queueDeleted _ => exact ⟨l, h.queueDeleted hp⟩

end Placed

/-! ### All together -/

/-- The invariant of every run. -/
structure Sane (strict : Prop) (s : State) : Prop where
  refs : Refs s
  owners : Owners s
  placed : ∃ l, Placed strict s l

theorem Sane.init : Sane strict State.init :=
  ⟨Refs.init, Owners.init, [], Placed.init⟩

theorem Sane.start {s : State} (h : Sane strict s) (task : Task) : Sane strict (s.start task) := by
  obtain ⟨l, hl⟩ := h.placed
  exact ⟨h.refs.start task, h.owners.start h.refs task, l, hl.start task⟩

/-- **Every step** keeps the references, the owners and the places. -/
theorem Sane.effect {s t : State} {i : ℕ} {ok : Bool} {p : Pc} (h : Sane strict s)
    (hp : s.acts[i]? = some p) (ht : Effect s i ok p t) (hs : strict → Placed.Tame s ok p) :
    Sane strict t := by
  obtain ⟨l, hl⟩ := h.placed
  exact ⟨h.refs.effect hp ht, h.owners.effect h.refs hp ht, hl.effect h.owners h.refs hp ht hs⟩

end Skynet.Node
