import Skynet.ServiceSteps

/-! # Session ids

`new_session` counts up to `2 ^ 31 - 1` and starts again from 1, without a look at
`session_thread_map`.  The session of allocation `b` is `sessionOf b` (`Numbered`), so a session
comes again after `2 ^ 31 - 1` allocations.  As long as no session is allocated while a
suspended coroutine is still stored under it, every suspended coroutine keeps its entry
(`Held`) and the response to its session resumes it. -/

namespace Skynet.Service

open Function Transition State

namespace Pc

/-- The session whose response the coroutine waits for. -/
def session : Pc → Option ℕ
  | fresh timer => timer
  | asleep _ _ n _ => some n
  | calling (.id n) _ => some n
  | _ => none

def Suspended (p : Pc) : Prop := p ≠ .running ∧ p ≠ .dead

instance (p : Pc) : Decidable p.Suspended := inferInstanceAs (Decidable (_ ∧ _))

theorem suspended_of_session {p : Pc} {n : ℕ} (h : p.session = some n) : p.Suspended := by
  constructor <;> rintro rfl <;> cases h

@[simp] theorem session_wake (p : Pc) (token : Token) : (p.wake token).session = p.session := by
  cases p <;> rfl

end Pc

/-- `session_thread_map` holds a suspended coroutine for session `n`. -/
def Sched.InUse (s : Sched) (n : ℕ) : Prop :=
  ∃ i b, s.sessionThreadMap (.id n) = some (.thread i b) ∧ (s.pcs i).Suspended

instance (s : Sched) (n : ℕ) : Decidable (s.InUse n) :=
  match h : s.sessionThreadMap (.id n) with
  | some (.thread i b) =>
    decidable_of_iff (s.pcs i).Suspended ⟨fun hi => ⟨i, b, h, hi⟩, fun ⟨j, b', hb, hj⟩ => by
      rw [h] at hb
      cases hb
      exact hj⟩
  | some .BREAK | none => isFalse fun ⟨_, _, hb, _⟩ => by rw [h] at hb; cases hb

/-- The step allocates a session. -/
def Label.allocates : Label → Bool
  | op .newSession | op .timeout | op (.wait _) | op (.sleep _) => true
  | op (.call _ .accepted) | op (.call _ .invalid) => true
  | _ => false

/-! ### The numbers of sessions -/

/-- The session of allocation `b`. -/
def sessionOf (b : ℕ) : ℕ := (b - 1) % (sessionLimit - 1) + 1

theorem sessionOf_ne {a b : ℕ} (ha : 1 ≤ a) (hab : a < b) (hb : b - a < sessionLimit - 1) :
    sessionOf b ≠ sessionOf a := by
  unfold sessionOf sessionLimit at *
  omega

/-- How a step changes `session_thread_map` and the counter. -/
structure Entries (s t : Sched) : Prop where
  counter : (t.nalloc = s.nalloc ∧ t.sessionId = s.sessionId) ∨
    (t.nalloc = s.nalloc + 1 ∧ t.sessionId = s.nextSession)
  entry : ∀ n i b, t.sessionThreadMap (.id n) = some (.thread i b) →
    s.sessionThreadMap (.id n) = some (.thread i b) ∨
    (t.nalloc = s.nalloc + 1 ∧ n = s.nextSession ∧ b = s.nalloc + 1)

namespace Entries

variable {s t u : Sched}

theorem of_eq (hm : t.sessionThreadMap = s.sessionThreadMap) (hn : t.nalloc = s.nalloc)
    (hid : t.sessionId = s.sessionId) : Entries s t :=
  ⟨.inl ⟨hn, hid⟩, fun _ _ _ h => .inl (hm ▸ h)⟩

theorem of_update {k : Key} {e : Option Entry} (he : ∀ i b, e ≠ some (.thread i b))
    (hm : t.sessionThreadMap = update s.sessionThreadMap k e)
    (hn : t.nalloc = s.nalloc) (hid : t.sessionId = s.sessionId) : Entries s t := by
  refine ⟨.inl ⟨hn, hid⟩, fun n i b h => ?_⟩
  rcases update_cases (hm ▸ h) with ⟨-, h⟩ | ⟨-, h⟩
  · exact absurd h (he i b)
  · exact .inl h

theorem of_alloc {i : ℕ}
    (hm : t.sessionThreadMap = s.sessionThreadMap ∨ t.sessionThreadMap =
      update s.sessionThreadMap (.id s.nextSession) (some (.thread i (s.nalloc + 1))))
    (hn : t.nalloc = s.nalloc + 1) (hid : t.sessionId = s.nextSession) : Entries s t := by
  refine ⟨.inr ⟨hn, hid⟩, fun n j b h => ?_⟩
  rcases hm with hm | hm <;> rw [hm] at h
  · exact .inl h
  · rcases update_cases h with ⟨⟨⟩, ⟨⟩⟩ | ⟨-, h⟩
    · exact .inr ⟨hn, rfl, rfl⟩
    · exact .inl h

theorem trans (h : Entries s t) (h0 : t.nalloc = s.nalloc ∧ t.sessionId = s.sessionId)
    (h' : Entries t u) : Entries s u := by
  have hnext : t.nextSession = s.nextSession := by simp only [Sched.nextSession, h0.2]
  refine ⟨?_, fun n i b he => ?_⟩
  · rw [← h0.1, ← h0.2, ← hnext]
    exact h'.counter
  · rcases h'.entry n i b he with he | he
    · rcases h.entry n i b he with he | ⟨he, -⟩
      · exact .inl he
      · omega
    · rw [← h0.1, ← hnext]
      exact .inr he

theorem resume (s : State) (i : ℕ) (succ : Bool) : Entries s.toSched (s.resume i succ).toSched := by
  cases hpc : s.pcs i with
  | asleep timer token n woken =>
    cases timer
    · refine of_update (k := .id n) (e := none) nofun ?_ ?_ ?_ <;> simp [State.resume, hpc, State.setPc]
    · refine of_eq ?_ ?_ ?_ <;> simp [State.resume, hpc, State.setPc]
  | fresh _ | calling _ _ | pooled | quit =>
    refine of_eq ?_ ?_ ?_ <;> simp [State.resume, hpc, State.setPc, State.suspendReturn]
  | poisoned | dead | running =>
    refine of_eq ?_ ?_ ?_ <;> simp [State.resume, hpc, fail_toSched]

theorem calls {s : State} {i : ℕ} {o : Op} (h : Calls s i o t) : Entries s.toSched t := by
  cases h with
  | quiet | fork | term | exit => exact of_eq rfl rfl rfl
  | newSession => exact of_alloc (i := 0) (.inl rfl) rfl rfl
  | wakeup h => refine of_eq ?_ ?_ ?_ <;> simp [wakeup, h]
  | timeout =>
    unfold timeout
    split_ifs
    · exact of_alloc (.inr rfl) rfl rfl
    · exact of_alloc (i := 0) (.inl rfl) rfl rfl
  | wait | sleep =>
    unfold suspendSleep
    split_ifs <;> exact of_alloc (.inr rfl) rfl rfl
  | call => exact of_alloc (.inr rfl) rfl rfl
  | callTooLarge =>
    refine ⟨.inl ⟨rfl, rfl⟩, fun n j b he => .inl ?_⟩
    simpa [yieldCall, setEntry, setPc] using he
  | finish => simp only [finish_toSched]; exact of_eq rfl rfl rfl
  | fail => simp only [fail_toSched]; exact of_eq rfl rfl rfl

theorem receives {s : State} {m : Message} (h : Receives s m t) : Entries s.toSched t := by
  cases h with
  | broken => exact of_update (e := none) nofun rfl rfl rfl
  | @resumed n =>
    refine .trans (of_update (k := .id n) (e := none) nofun ?_ ?_ ?_) ⟨?_, ?_⟩
      (resume _ _ _) <;> rfl
  | started => refine .trans (of_eq ?_ ?_ ?_) ⟨?_, ?_⟩ (resume _ _ _) <;> rfl
  | notUnpacked | unknown => exact of_eq rfl rfl rfl
  | errors => simp only [finish_toSched]; exact of_eq rfl rfl rfl
  | errorsFail => simp only [fail_toSched]; exact of_eq rfl rfl rfl

theorem step {s : State} {a : Label} (h : Step s a t) : Entries s.toSched t := by
  cases h with
  | message _ h =>
    exact .trans (of_eq (t := { s.toSched with failed := [] }) rfl rfl rfl) ⟨rfl, rfl⟩
      (receives h)
  | op _ h => exact calls h
  | noWakeup | staleWakeup | noError | tooLarge | done | collect => exact of_eq rfl rfl rfl
  | wakeupRaises => exact of_update (e := some .BREAK) nofun rfl rfl rfl
  | errorRaises => exact of_update (e := none) nofun rfl rfl rfl
  | @wakes _ _ n =>
    refine .trans (of_update (k := .id n) (e := some .BREAK) nofun ?_ ?_ ?_) ⟨?_, ?_⟩
      (resume _ _ _) <;> rfl
  | @fails _ n =>
    refine .trans (of_update (k := .id n) (e := none) nofun ?_ ?_ ?_) ⟨?_, ?_⟩
      (resume _ _ _) <;> rfl
  | forked =>
    refine .trans (of_eq ?_ ?_ ?_) ⟨?_, ?_⟩ (resume _ _ _) <;> rfl

end Entries

/-- Sessions are numbered by their allocations. -/
structure Numbered (s : Sched) : Prop where
  pos : 1 ≤ s.nalloc
  counter : s.sessionId = sessionOf s.nalloc
  births : ∀ n i b, s.sessionThreadMap (.id n) = some (.thread i b) →
    1 ≤ b ∧ b ≤ s.nalloc ∧ n = sessionOf b

namespace Numbered

variable {s : Sched}

theorem next (h : Numbered s) : s.nextSession = sessionOf (s.nalloc + 1) := by
  have hpos := h.pos
  have hid := h.counter
  unfold Sched.nextSession
  unfold sessionOf sessionLimit at *
  split_ifs <;> omega

theorem init : Numbered State.init.toSched where
  pos := Nat.le_refl 1
  counter := rfl
  births n i b h := by
    by_cases hn : n = 1
    · subst hn
      cases h
      exact ⟨Nat.le_refl 1, Nat.le_refl 1, rfl⟩
    · have hkey : Key.id n ≠ .id 1 := by simpa using hn
      have : State.init.sessionThreadMap (.id n) = none := update_of_ne hkey _ _
      rw [this] at h
      cases h

theorem step {t : Sched} (h : Numbered s) (he : Entries s t) : Numbered t := by
  refine ⟨?_, ?_, fun n i b hb => ?_⟩
  · have := h.pos
    rcases he.counter with ⟨hn, -⟩ | ⟨hn, -⟩ <;> omega
  · rcases he.counter with ⟨hn, hid⟩ | ⟨hn, hid⟩
    · rw [hn, hid, h.counter]
    · rw [hn, hid, h.next]
  · rcases he.entry n i b hb with hb | ⟨hn, rfl, rfl⟩
    · obtain ⟨h1, h2, h3⟩ := h.births n i b hb
      refine ⟨h1, ?_, h3⟩
      rcases he.counter with ⟨hn, -⟩ | ⟨hn, -⟩ <;> omega
    · exact ⟨by omega, by omega, h.next⟩

theorem of_reachable {ok : State → Label → Prop} {s : State} (h : service.ReachableVia ok s) :
    Numbered s.toSched :=
  h.invariant (I := fun s => Numbered s.toSched) init
    fun _ _ _ hs _ ht => hs.step (Entries.step (step_cases ht))

end Numbered

/-! ### Suspended coroutines keep their entries -/

/-- A coroutine that waits for a response is stored under its session. -/
def Held (s : Sched) : Prop :=
  ∀ i n, (s.pcs i).session = some n → ∃ b, s.sessionThreadMap (.id n) = some (.thread i b)

/-- `Held` but for coroutine `i`, which shares its session with no other one. -/
def HeldBut (i : ℕ) (s : Sched) : Prop :=
  ∀ j n, j ≠ i → (s.pcs j).session = some n →
    (s.pcs i).session ≠ some n ∧ ∃ b, s.sessionThreadMap (.id n) = some (.thread j b)

theorem session_update {f : ℕ → Pc} {i : ℕ} {p : Pc} (h : p.session = none) (j : ℕ) :
    (update f i p j).session = none ∨
      (update f i p j).session = (f j).session := by
  by_cases hj : j = i
  · subst hj
    simp [h]
  · simp [hj]

theorem session_nextPc (s : Sched) : s.nextPc.session = none := by
  rcases nextPc_eq s with h | h <;> rw [h] <;> rfl

namespace Held

variable {s t : Sched} {i : ℕ}

theorem of_sessions (h : Held s)
    (hpc : ∀ j, (t.pcs j).session = none ∨ (t.pcs j).session = (s.pcs j).session)
    (hm : ∀ n, t.sessionThreadMap (.id n) = s.sessionThreadMap (.id n)) : Held t := by
  intro j n hj
  rcases hpc j with hnone | heq
  · rw [hnone] at hj
    cases hj
  · rw [hm]
    exact h j n (heq ▸ hj)

theorem of_update (h : Held s) {p : Pc} (hpc : p.session = none) (hpcs : t.pcs = update s.pcs i p)
    (hm : t.sessionThreadMap = s.sessionThreadMap) : Held t :=
  h.of_sessions (fun j => by rw [hpcs]; exact session_update hpc j) fun n => by rw [hm]

theorem but (h : Held s) (i : ℕ) : HeldBut i s := by
  intro j n hji hj
  obtain ⟨b, hb⟩ := h j n hj
  refine ⟨fun hi => ?_, b, hb⟩
  obtain ⟨b', hb'⟩ := h i n hi
  rw [hb] at hb'
  cases hb'
  exact hji rfl

theorem but_of_entry (h : Held s) {n b : ℕ} {e : Option Entry}
    (he : s.sessionThreadMap (.id n) = some (.thread i b)) (hpcs : t.pcs = s.pcs)
    (hm : t.sessionThreadMap = update s.sessionThreadMap (.id n) e) : HeldBut i t := by
  intro j k hji hj
  rw [hpcs] at hj ⊢
  obtain ⟨hne, b', hb'⟩ := h.but i j k hji hj
  refine ⟨hne, b', ?_⟩
  rw [hm, update_of_ne, hb']
  rintro hk
  rw [hk, he] at hb'
  cases hb'
  exact hji rfl

theorem fail {s : State} (h : HeldBut i s.toSched) : Held (s.fail i).toSched := by
  intro j n hj
  rw [fail_toSched] at hj ⊢
  rcases session_update
    (session_nextPc _) j with hnone | heq
  · rw [hnone] at hj
    cases hj
  · rw [heq] at hj
    by_cases hji : j = i
    · subst hji
      simp [Pc.session] at hj
    · rw [update_of_ne hji] at hj
      exact (h j n hji hj).2

theorem resume {s : State} (h : HeldBut i s.toSched) (succ : Bool) :
    Held (s.resume i succ).toSched := by
  have hrun {t : Sched} {p : Pc} (hpc : p.session = none)
      (hpcs : t.pcs = update s.pcs i p)
      (hm : ∀ n, (s.pcs i).session ≠ some n →
        t.sessionThreadMap (.id n) = s.sessionThreadMap (.id n)) : Held t := by
    intro j n hj
    rw [hpcs] at hj
    by_cases hji : j = i
    · subst hji
      simp [hpc] at hj
    · rw [update_of_ne hji] at hj
      obtain ⟨hne, hb⟩ := h j n hji hj
      rw [hm n hne]
      exact hb
  cases hpc : s.pcs i with simp only [State.resume, hpc]
  | fresh _ | calling _ _ | quit | pooled =>
    exact hrun rfl rfl fun _ _ => rfl
  | asleep timer token n woken =>
    refine hrun rfl rfl fun k hk => ?_
    rw [hpc] at hk
    have : k ≠ n := fun he => hk (by rw [he]; rfl)
    cases timer <;> simp [this]
  | poisoned | dead | running =>
    exact fail h

theorem of_alloc (h : Held s) (hfree : ¬ s.InUse s.nextSession) {b : ℕ} {p : Pc}
    (hpc : p.session = none ∨ p.session = some s.nextSession) (hpcs : t.pcs = update s.pcs i p)
    (hm : t.sessionThreadMap = update s.sessionThreadMap (.id s.nextSession) (some (.thread i b))) :
    Held t := by
  intro j n hj
  rw [hpcs] at hj
  by_cases hji : j = i
  · subst hji
    rw [update_self] at hj
    rcases hpc with hpc | hpc <;> rw [hpc] at hj
    · cases hj
    · cases hj
      exact ⟨b, by rw [hm, update_self]⟩
  · rw [update_of_ne hji] at hj
    obtain ⟨b', hb'⟩ := h j n hj
    have hn : Key.id n ≠ .id s.nextSession := by
      rintro he
      exact hfree ⟨j, b', he ▸ hb', Pc.suspended_of_session hj⟩
    exact ⟨b', by rw [hm, update_of_ne hn, hb']⟩

theorem timeout {s : State} (h : Held s.toSched) : Held s.timeout.toSched := by
  unfold State.timeout
  split_ifs with he
  · refine h.of_alloc ?_ ?_ rfl rfl
    · rintro ⟨i, b, hb, -⟩
      rw [he] at hb
      cases hb
    · rcases nextPc_eq s.toSched with hp | hp <;> simp [hp, Pc.timed, Pc.session]
  · exact h.of_update (session_nextPc s.toSched) rfl rfl

theorem suspendSleep {s : State} (h : Held s.toSched) (hi : s.pcs i = .running)
    (hfree : ¬ s.InUse s.nextSession) (timer : Bool) (token : Token) :
    Held (s.suspendSleep i timer token).toSched := by
  unfold State.suspendSleep
  split_ifs
  · exact h.of_alloc hfree (.inr rfl) rfl rfl
  · refine h.of_alloc hfree (p := .running) (.inl rfl) ?_ rfl
    rw [← hi, update_eq_self]
    rfl

theorem calls {s : State} {o : Op} (h : Held s.toSched) (hi : s.pcs i = .running)
    (hfree : Label.allocates (.op o) = true → ¬ s.InUse s.nextSession) (ho : Calls s i o t) :
    Held t := by
  cases ho with
  | quiet | term | newSession => exact h
  | wakeup htok =>
    refine h.of_sessions (fun j => .inr ?_) fun n => ?_ <;> simp [wakeup, htok]
  | fork => exact h.of_update (session_nextPc s.toSched) rfl rfl
  | timeout => exact h.timeout
  | wait | sleep => exact h.suspendSleep hi (hfree rfl) _ _
  | call => exact h.of_alloc (hfree rfl) (.inr rfl) rfl rfl
  | callTooLarge =>
    refine h.of_sessions (session_update rfl) fun n => ?_
    simp [yieldCall, setEntry, setPc]
  | exit => exact h.of_update rfl rfl rfl
  | finish => rw [finish_toSched]; exact h.of_update rfl rfl rfl
  | fail => exact fail (h.but i)

theorem receives {s : State} {m : Message} (h : Held s.toSched) (hm : Receives s m t) : Held t := by
  have hc : Held s.coCreate.toSched := h.of_update (session_nextPc s.toSched) rfl rfl
  cases hm with
  | broken he =>
    intro j n hj
    obtain ⟨b, hb⟩ := h j n hj
    refine ⟨b, ?_⟩
    show update _ _ _ _ = _
    rw [update_of_ne, hb]
    rintro hk
    rw [hk, he] at hb
    cases hb
  | resumed he => refine resume (h.but_of_entry (e := none) he ?_ ?_) true <;> rfl
  | started => exact resume (hc.but _) true
  | notUnpacked => exact hc
  | errors =>
    rw [finish_toSched]
    exact hc.of_update rfl rfl rfl
  | errorsFail => exact fail (hc.but _)
  | unknown => exact h

theorem step {s : State} {a : Label} (h : Held s.toSched) (hs : Sane s.toSched)
    (hfree : a.allocates = true → ¬ s.InUse s.nextSession) (ha : Step s a t) : Held t := by
  cases ha with
  | message _ hm => exact receives (s := { s with failed := [] }) h hm
  | op hc ho => exact h.calls (hs.running hc) hfree ho
  | noWakeup | staleWakeup | noError | tooLarge | done | collect => exact h
  | wakes _ _ _ he => refine resume (h.but_of_entry (e := some .BREAK) he ?_ ?_) false <;> rfl
  | fails _ _ he => refine resume (h.but_of_entry (e := none) he ?_ ?_) false <;> rfl
  | @forked i rest => exact resume (s := { s with forkQueue := rest }) (h.but i) false
  | @wakeupRaises token rest n _ _ _ he | @errorRaises _ n _ _ he =>
    intro j k hj
    obtain ⟨b, hb⟩ := h j k hj
    refine ⟨b, ?_⟩
    show update _ _ _ _ = _
    rw [update_of_ne, hb]
    rintro hk
    rw [hk] at hb
    exact he j b hb

theorem response {s : State} {n : ℕ} (h : Held s.toSched) (hc : s.control = .idle)
    (hi : (s.pcs i).session = some n) :
    ∃ t, s.step (.message (.response n)) = some t ∧ t.control = .run i := by
  obtain ⟨b, hb⟩ := h i n hi
  refine ⟨({ s with failed := [] }.setEntry (.id n) none).resume i true, ?_, ?_⟩
  · simp only [State.step, if_pos hc, State.rawDispatchMessage, hb]
  · cases hpc : s.pcs i <;> rw [hpc] at hi <;> first | cases hi | skip
    all_goals simp [State.resume, State.setEntry, hpc]

theorem init : Held State.init.toSched :=
  Held.timeout fun _ _ h => by cases h

end Held

/-! ### Sessions in use are not issued again -/

/-- Fewer than `2 ^ 31 - 1` allocations lie between that of a session under which a suspended
coroutine is stored and the one this step makes. -/
def State.Recent (s : State) (a : Label) : Prop :=
  a.allocates = true → ∀ n i b, s.sessionThreadMap (.id n) = some (.thread i b) →
    (s.pcs i).Suspended → s.nalloc + 1 - b < sessionLimit - 1

theorem Numbered.next_free {s : State} {a : Label} (h : Numbered s.toSched)
    (ha : a.allocates = true) (hr : s.Recent a) : ¬ s.InUse s.nextSession := by
  rintro ⟨i, b, hb, hi⟩
  obtain ⟨h1, h2, hn⟩ := h.births _ i b hb
  have hlt := hr ha _ i b hb hi
  rw [h.next] at hn
  exact sessionOf_ne h1 (by omega) hlt hn

theorem Numbered.recent {s : State} (h : Numbered s.toSched) (hn : s.nalloc < sessionLimit - 1)
    (a : Label) : s.Recent a := by
  intro _ n i b hb _
  have := (h.births n i b hb).1
  omega

theorem Held.of_reachable {ok : State → Label → Prop}
    (hok : ∀ s a, Numbered s.toSched → ok s a → a.allocates = true → ¬ s.InUse s.nextSession)
    {s : State} (h : service.ReachableVia ok s) : Held s.toSched := by
  have : Sane s.toSched ∧ Numbered s.toSched ∧ Held s.toSched := by
    refine h.invariant (I := fun s => Sane s.toSched ∧ Numbered s.toSched ∧ Held s.toSched)
      ⟨Sane.init, Numbered.init, Held.init⟩ ?_
    rintro s a t ⟨hs, hn, hh⟩ ha ht
    have hstep := step_cases ht
    exact ⟨hs.step ht, hn.step (Entries.step hstep), hh.step hs (hok s a hn ha) hstep⟩
  exact this.2.2

/-- **Sessions in use are never reissued**, in the runs in which every session is answered
before the counter comes round to it again: an allocation returns no session under which a
suspended coroutine is stored, every coroutine that waits for a session is stored under it, and
the response to the session resumes that coroutine. -/
theorem session_in_use_not_reissued {s : State} (h : service.ReachableVia State.Recent s) :
    (∀ a : Label, a.allocates = true → s.Recent a → ¬ s.InUse s.nextSession) ∧
    ∀ i n, (s.pcs i).session = some n →
      (∃ b, s.sessionThreadMap (.id n) = some (.thread i b)) ∧
      (s.control = .idle →
        ∃ t, s.step (.message (.response n)) = some t ∧ t.control = .run i) := by
  have hnum := Numbered.of_reachable h
  have hheld := Held.of_reachable (fun _ _ hn hr ha => hn.next_free ha hr) h
  exact ⟨fun a ha hr => hnum.next_free ha hr,
    fun i n hi => ⟨hheld i n hi, fun hc => hheld.response hc hi⟩⟩

/-- The first coroutine waits. -/
theorem session_in_use_not_reissued_of_wait : ∃ s, service.ReachableVia State.Recent s ∧
    (s.pcs 0).session = some 2 ∧ ¬ s.InUse s.nextSession := by
  have h0 : service.ReachableVia State.Recent service.init := .init
  have h1 := h0.next (.message (.response 1)) nofun rfl
  have h2 := h1.next (.op (.wait none))
    ((Numbered.of_reachable h1).recent (by decide) _) rfl
  have hrecent := (Numbered.of_reachable h2).recent (by decide) (.op .newSession)
  exact ⟨_, h2, rfl, (session_in_use_not_reissued h2).1 (.op .newSession) rfl hrecent⟩

theorem exec_newSession {i : ℕ} (k : ℕ) : ∀ s : State, s.control = .run i →
    ∃ t, service.exec s (List.replicate k (.op .newSession)) = some t ∧
      t.control = s.control ∧ t.pcs = s.pcs ∧ t.sessionThreadMap = s.sessionThreadMap ∧
      t.nalloc = s.nalloc + k := by
  induction k with
  | zero => exact fun s _ => ⟨s, rfl, rfl, rfl, rfl, rfl⟩
  | succ k ih =>
    intro s hc
    obtain ⟨t, ht, h1, h2, h3, h4⟩ := ih s.newSession hc
    refine ⟨t, ?_, h1, h2, h3, ?_⟩
    · rw [List.replicate_succ, System.exec]
      simp only [service, step, hc, exec, Option.bind_some]
      exact ht
    · rw [h4]
      simp only [newSession]
      omega

/-- One coroutine waits, another one is started. -/
def waitRun : List Label :=
  [.message (.response 1), .op (.wait none), .next, .next, .next, .message (.request 0 7 true)]

/-- A coroutine waits on session 2 while another one allocates `2 ^ 31 - 2` sessions: the next
one is session 2 again. -/
theorem session_reissued : ∃ s,
    service.exec init
      (waitRun ++ List.replicate (sessionLimit - 2) (.op .newSession)) = some s ∧
    s.control = .run 1 ∧ (s.pcs 0).session = some 2 ∧
    s.nextSession = 2 ∧ s.InUse s.nextSession := by
  obtain ⟨s, hs, hc, hpc, he, hn⟩ := service.exists_exec waitRun
    (fun s => s.control = .run 1 ∧ s.pcs 0 = .asleep false (.thread 0) 2 false ∧
      s.sessionThreadMap (.id 2) = some (.thread 0 2) ∧ s.nalloc = 2) (by decide +kernel)
  obtain ⟨t, ht, hct, hpct, het, hnt⟩ := exec_newSession (sessionLimit - 2) s hc
  have hrun : service.exec init
      (waitRun ++ List.replicate (sessionLimit - 2) (.op .newSession)) = some t :=
    System.exec_append hs ht
  have hnum : Numbered t.toSched :=
    System.exec_invariant (I := fun s => Numbered s.toSched)
      (fun _ _ _ h hu => h.step (Entries.step (step_cases hu))) _ _ _ Numbered.init hrun
  have hnext : t.nextSession = 2 := by
    rw [hnum.next, hnt, hn]
    decide
  refine ⟨t, hrun, hct.trans hc, by rw [hpct, hpc]; rfl, hnext, 0, 2, ?_, ?_⟩
  · rw [hnext, het, he]
  · rw [hpct, hpc]
    constructor <;> nofun

end Skynet.Service
