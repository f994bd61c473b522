import Skynet.SocketIds

/-! # The mutex and the life of a slot

`direct_write_mutex` has one holder, a worker in its second `can_direct_send` or in `write`,
or the socket thread in `send_write_buffer`.  A slot becomes free only under the mutex, so it
is open as long as a worker writes to it; a slot that is free or merely allocated has no data
(`Sane`). -/

namespace Skynet.Socket

open ThreadPool Transition Pc

/-- The worker holds the mutex. -/
def Pc.locks : Pc → ℕ
  | .canDirectSend true _ _ | .write _ | .unlock _ _ => 1
  | _ => 0

/-- The socket thread holds the mutex. -/
def PollPc.locks : PollPc → ℕ
  | .sendHigh | .sendLow | .closing _ .flushed => 1
  | _ => 0

/-- A worker writes to an open socket. -/
def Pc.Writes (s : State) : Pc → Prop
  | .write _ => s.sock.status.live = true
  | _ => True

/-- What holds in every run. -/
structure Sane (s : State) : Prop where
  tracked : Tracked s
  lock : total locks s.acts + s.poll.locks = if s.mutex then 1 else 0
  writes : ∀ (j : ℕ) p, s.acts[j]? = some p → p.Writes s
  emptied : s.sock.status.live = false →
    s.sock.high = [] ∧ s.sock.low = [] ∧ s.sock.direct = none
  closing : ∀ id k, s.poll = .closing id k → s.sock.status.live = true ∧ id = s.sock.socketId ∧
    s.sock.high = [] ∧ s.sock.low = []
  flushing : s.poll = .sendHigh ∨ s.poll = .sendLow → s.sock.direct = none
  flushingLow : s.poll = .sendLow → s.sock.high = []

namespace Sane

variable {s t : State} {i : ℕ} {p p' : Pc} {a : Action}

theorem init : Sane State.init where
  tracked := Tracked.init
  lock := rfl
  writes j p h := by simp [State.init] at h
  emptied _ := ⟨rfl, rfl, rfl⟩
  closing id k h := by cases h
  flushing h := by rcases h with h | h <;> cases h
  flushingLow h := by cases h

theorem writes_congr {f : Fault} (h : p.Writes s) : p.Writes (s.crash f) := by
  cases p <;> exact h

theorem crash (h : Sane s) (f : Fault) : Sane (s.crash f) :=
  ⟨h.tracked.crash f, h.lock, fun j p hp => writes_congr (h.writes j p hp), h.emptied, h.closing,
    h.flushing, h.flushingLow⟩

theorem writes_mono (h : p.Writes s) (hl : s.sock.status.live = true → t.sock.status.live = true) :
    p.Writes t := by
  cases p with
  | write => exact hl h
  | _ => trivial

theorem isWriteBufferEmpty (h : Sane s) (ha : s.sock.status = .alloced) :
    s.sock.isWriteBufferEmpty = true := by
  obtain ⟨hh, hl, _⟩ := h.emptied (by rw [ha]; rfl)
  simp [SocketObject.isWriteBufferEmpty, hh, hl]

theorem idle_step (h : Sane s) (ht : Tracked t) (hacts : t.acts = s.acts) (hm : t.mutex = s.mutex)
    (hlock : t.poll.locks = s.poll.locks) (hwrites : ∀ (j : ℕ) p, t.acts[j]? = some p → p.Writes t)
    (hempty : t.sock.status.live = false →
      t.sock.high = [] ∧ t.sock.low = [] ∧ t.sock.direct = none)
    (hp : t.poll = .idle ∨ ∃ id, t.poll = .dec id) : Sane t where
  tracked := ht
  lock := by rw [hacts, hm, hlock]; exact h.lock
  writes := hwrites
  emptied := hempty
  closing id k hk := by rcases hp with hp | ⟨_, hp⟩ <;> rw [hp] at hk <;> cases hk
  flushing hk := by rcases hp with hp | ⟨_, hp⟩ <;> rw [hp] at hk <;> rcases hk with hk | hk <;> cases hk
  flushingLow hk := by rcases hp with hp | ⟨_, hp⟩ <;> rw [hp] at hk <;> cases hk

theorem keep (h : Sane s) (ht : Tracked t) (hacts : t.acts = s.acts) (hm : t.mutex = s.mutex)
    (hi : s.poll.locks = 0) (hlive : t.sock.status.live = s.sock.status.live)
    (hhigh : t.sock.high = s.sock.high) (hlow : t.sock.low = s.sock.low)
    (hdirect : t.sock.direct = s.sock.direct) (hp : t.poll = .idle ∨ ∃ id, t.poll = .dec id) :
    Sane t := by
  refine h.idle_step ht hacts hm ?_ ?_ ?_ hp
  · rcases hp with hp | ⟨_, hp⟩ <;> rw [hp, hi] <;> rfl
  · rw [hacts]
    exact fun j p hj => writes_mono (h.writes j p hj) (by rw [hlive]; exact id)
  · rw [hlive, hhigh, hlow, hdirect]
    exact h.emptied

section

variable (h : Sane s) (ht : Tracked t) (hacts : t.acts = s.acts)
  (hp : s.poll = .sendHigh ∨ s.poll = .sendLow)
  (hempty : s.sock.high = [] ∧ s.sock.low = [] → t.sock.high = [] ∧ t.sock.low = [])
  (hdirect : t.sock.direct = s.sock.direct)
include h ht hacts hp hempty hdirect

theorem flush (hm : t.mutex = s.mutex) (hp' : t.poll = .sendHigh ∨ t.poll = .sendLow)
    (hlive : t.sock.status = s.sock.status) (hlow : t.poll = .sendLow → t.sock.high = []) :
    Sane t where
  tracked := ht
  lock := by
    have := h.lock
    rw [hacts, hm, ← this]
    rcases hp with hp | hp <;> rcases hp' with hp' | hp' <;> rw [hp, hp'] <;> rfl
  writes := by
    rw [hacts]
    exact fun j p hj => writes_mono (h.writes j p hj) (by rw [hlive]; exact id)
  emptied hl := by
    rw [hlive] at hl
    obtain ⟨hh, hl, hd⟩ := h.emptied hl
    obtain ⟨hh', hl'⟩ := hempty ⟨hh, hl⟩
    exact ⟨hh', hl', hdirect.trans hd⟩
  closing id k hk := by rcases hp' with hp' | hp' <;> rw [hp'] at hk <;> cases hk
  flushing _ := hdirect.trans (h.flushing hp)
  flushingLow := hlow

theorem endWrite (hm : t.mutex = false) (hp' : t.poll = .idle)
    (hlive : t.sock.status.live = s.sock.status.live) : Sane t where
  tracked := ht
  lock := by
    have hlock := h.lock
    have h1 : s.poll.locks = 1 := by rcases hp with hp | hp <;> rw [hp] <;> rfl
    rw [hacts, hm, hp', show PollPc.idle.locks = 0 from rfl, if_neg Bool.false_ne_true]
    split_ifs at hlock <;> omega
  writes := by
    rw [hacts]
    exact fun j p hj => writes_mono (h.writes j p hj) (by rw [hlive]; exact id)
  emptied hl := by
    rw [hlive] at hl
    obtain ⟨hh, hl, hd⟩ := h.emptied hl
    obtain ⟨hh', hl'⟩ := hempty ⟨hh, hl⟩
    exact ⟨hh', hl', hdirect.trans hd⟩
  closing id k hk := by rw [hp'] at hk; cases hk
  flushing hk := by rw [hp'] at hk; rcases hk with hk | hk <;> cases hk
  flushingLow hk := by rw [hp'] at hk; cases hk

end

theorem writes_of_not_live (h : Sane s) (hl : s.sock.status.live = false) {j : ℕ}
    (hp : s.acts[j]? = some p) : p.Writes t := by
  cases p with
  | write q =>
    have := h.writes j _ hp
    rw [Pc.Writes, hl] at this
    cases this
  | _ => trivial

theorem writes_of_locks (hz : total Pc.locks s.acts = 0) {j : ℕ} (hp : s.acts[j]? = some p) :
    p.Writes t := by
  have hle := le_total locks hp
  cases p with
  | write q =>
    have h1 : locks (.write q) = 1 := rfl
    omega
  | _ => trivial

theorem live_of_ne {st : Status} (hv : st ≠ .invalid) (ha : st ≠ .alloced) : st.live = true := by
  cases st <;> first | rfl | contradiction

variable (h : Sane s)

include h

theorem live_of_data (he : s.sock.isWriteBufferEmpty = false) : s.sock.status.live = true := by
  by_contra hl
  obtain ⟨hh, hlow, _⟩ := h.emptied (by simpa using hl)
  simp [SocketObject.isWriteBufferEmpty, hh, hlow] at he

theorem closed {id : ℕ} {k : After} (hp : s.poll = .closing id k)
    (hm : s.mutex = false ∨ k = .flushed) (ht : Tracked t)
    (heq : t = { s with
      sock := { s.sock with status := .invalid, direct := none }
      dropped := s.dropped ++ s.sock.direct.toList.map WriteBuffer.packet }.resume id k) :
    Sane t := by
  obtain ⟨_, _, hh, hl⟩ := h.closing id k hp
  have hlock := h.lock
  have hz : total locks s.acts = 0 ∧ t.mutex = false := by
    rw [hp] at hlock
    rcases hm with hm | rfl
    · rw [hm, if_neg Bool.false_ne_true] at hlock
      refine ⟨by omega, ?_⟩
      rw [heq]
      cases k with
      | flushed => rfl
      | _ => exact hm
    · rw [show (PollPc.closing id .flushed).locks = 1 from rfl] at hlock
      refine ⟨by split_ifs at hlock; omega, ?_⟩
      rw [heq]
      rfl
  have hacts : t.acts = s.acts := by rw [heq, State.resume_acts]
  have hpoll : t.poll = .idle := by rw [heq, State.resume_poll]
  refine ⟨ht, ?_, ?_, ?_, ?_, ?_, ?_⟩
  · rw [hacts, hz.1, hz.2, hpoll]
    rfl
  · rw [hacts]
    exact fun j p hj => writes_of_locks hz.1 hj
  · rw [heq, State.resume_sock]
    exact fun _ => ⟨hh, hl, rfl⟩
  all_goals
    rw [hpoll]
    exact nofun

/-- **Mutex and life** through a step of the socket thread. -/
theorem polls (hs : Polls s a t) (hf : t.fault = none) : Sane t := by
  have ht : Tracked t := h.tracked.polls hs hf h.isWriteBufferEmpty fun id k hk => (h.closing id k hk).1
  cases hs with
  | crash hf' => exact absurd hf hf'
  | flags _ hi | closing _ _ hi | decremented hi | skipped hi =>
    exact h.keep ht rfl rfl (by rw [hi]; rfl) rfl rfl rfl rfl (.inl rfl)
  | entered hp hi st hst =>
    refine h.keep ht rfl rfl (by rw [hi]; rfl) ?_ rfl rfl rfl (.inl rfl)
    rcases hst with ⟨hs, rfl⟩ | ⟨hs, rfl⟩ | ⟨hs, rfl⟩ <;> rw [hs] <;> rfl
  | opened hp hi ha hl st hst =>
    refine h.idle_step ht rfl rfl (by rw [hi]; rfl) (fun j p hj => ?_) (fun hno => ?_) (.inl rfl)
    · exact writes_mono (h.writes j p hj) fun _ => hst.1
    · rw [show st.live = false from hno] at hst
      cases hst.1
  | openFailed hp hi =>
    have hl : s.sock.status.live = false := by rw [(h.tracked.head_open hp).1]; rfl
    exact h.idle_step ht rfl rfl (by rw [hi]; rfl) (fun j p hj => h.writes_of_not_live hl hj)
      (fun _ => h.emptied hl) (.inl rfl)
  | openUndone hp hi ha =>
    have hl : s.sock.status.live = false := by rw [ha]; rfl
    obtain ⟨hh, hlow, _⟩ := h.emptied hl
    exact h.idle_step ht rfl rfl (by rw [hi]; rfl) (fun j p hj => h.writes_of_not_live hl hj)
      (fun _ => ⟨hh, hlow, rfl⟩) (.inl rfl)
  | appended hp hi hr =>
    have hlive := h.tracked.head_live hp rfl (SocketObject.refuses_eq_false hr).1
    refine h.idle_step ht rfl rfl (by rw [hi]; rfl) (fun j q hj => ?_) (fun hno => ?_) (.inr ⟨_, rfl⟩)
    · exact writes_mono (h.writes j q hj) fun _ => by simpa using hlive
    · simp [hlive] at hno
  | closes hp k st wr hl hst hk =>
    have hlive : st.live = true := by
      rcases hst with rfl | ⟨_, rfl⟩
      · exact hl
      · rfl
    refine ⟨ht, ?_, fun j p hj => writes_mono (h.writes j p hj) fun _ => hlive,
      fun hno => ?_, fun id k' hk' => ?_, nofun, nofun⟩
    · have hlock := h.lock
      rw [← hlock]
      congr 1
      rcases hk with ⟨hi, hk⟩ | ⟨hi | hi, rfl⟩
      · rw [hi]
        cases k with
        | flushed => contradiction
        | _ => rfl
      all_goals
        rw [hi]
        rfl
    · rw [show st.live = false from hno] at hlive
      cases hlive
    · obtain ⟨rfl, rfl⟩ := PollPc.closing.inj hk'
      exact ⟨hlive, rfl, rfl, rfl⟩
  | closingRead _ hp hi hv =>
    exact h.keep ht rfl rfl (by rw [hi]; rfl) (h.tracked.head_live hp rfl hv).symm rfl rfl rfl
      (.inl rfl)
  | closedRead hi htype hv =>
    have ha : s.sock.status ≠ .alloced := fun ha => by
      rw [h.tracked.untyped ha] at htype
      cases htype
    exact h.keep ht rfl rfl (by rw [hi]; rfl) (live_of_ne hv ha).symm rfl rfl rfl (.inl rfl)
  | flushes hi hm size =>
    refine ⟨ht, ?_, fun j p hj => writes_mono (h.writes j p hj) id, fun hno => ?_, nofun,
      fun _ => rfl, nofun⟩
    · have hlock := h.lock
      rw [hi, hm] at hlock
      show total locks s.acts + 1 = 1
      rw [if_neg Bool.false_ne_true] at hlock
      omega
    · obtain ⟨hh, hl, hd⟩ := h.emptied hno
      refine ⟨?_, hl, rfl⟩
      rw [hd, hh]
      rfl
  | toLow hp hh =>
    exact h.flush ht rfl (.inl hp) id rfl rfl (.inr rfl) rfl fun _ => hh
  | spins => exact h
  | ends hp => exact h.endWrite ht rfl hp id rfl rfl rfl rfl
  | wroteHigh hp hh =>
    exact h.flush ht rfl (.inl hp) (fun he => by rw [hh] at he; cases he.1) rfl rfl (.inl hp) rfl
      fun hp' => by rw [hp] at hp'; cases hp'
  | partHigh hp hh =>
    exact h.endWrite ht rfl (.inl hp) (fun he => by rw [hh] at he; cases he.1) rfl rfl rfl rfl
  | wroteLow hp hl =>
    exact h.flush ht rfl (.inr hp) (fun he => by rw [hl] at he; cases he.2) rfl rfl (.inr hp) rfl
      fun _ => h.flushingLow hp
  | partLow hp hl =>
    exact h.endWrite ht rfl (.inr hp) (fun he => by rw [hl] at he; cases he.2) rfl rfl rfl rfl
  | closedWrite hp _ _ he =>
    exact h.endWrite ht rfl hp id rfl rfl rfl (h.live_of_data he).symm
  | closed hp hm => exact h.closed hp hm ht rfl
  | accepts hi hv o =>
    have hno : s.sock.status.live = false := by rw [hv]; rfl
    obtain ⟨hh, hl, hd⟩ := h.emptied hno
    refine h.idle_step ht ?_ ?_ ?_ ?_ ?_ ?_
    · cases o <;> rfl
    · cases o <;> rfl
    · rw [hi]
      cases o <;> simp [State.acceptHere, hi, PollPc.locks]
    · intro j p hj
      refine h.writes_of_not_live hno (j := j) ?_
      cases o <;> exact hj
    · cases o with
      | addFailed => exact fun _ => ⟨hh, hl, hd⟩
      | enableFailed => exact fun _ => ⟨hh, hl, rfl⟩
      | _ => exact nofun
    · left
      cases o <;> exact hi

theorem works_quiet (ht : Tracked t) (hp : s.acts[i]? = some p) (hacts : t.acts = s.acts.set i p')
    (hpoll : t.poll = s.poll) (hst : t.sock.status = s.sock.status)
    (hid : t.sock.socketId = s.sock.socketId) (hhigh : t.sock.high = s.sock.high)
    (hlow : t.sock.low = s.sock.low) (hdirect : t.sock.direct = s.sock.direct)
    (hlock : p'.locks + (if s.mutex then 1 else 0) = p.locks + if t.mutex then 1 else 0)
    (hp' : p'.Writes s) : Sane t := by
  refine ⟨ht, ?_, ?_, ?_, ?_, ?_, ?_⟩
  · have hset := total_set locks p' hp
    have := h.lock
    rw [hacts, hpoll]
    omega
  · rw [hacts]
    exact forall_set_index h.writes (fun j r _ _ hr => writes_mono hr (by rw [hst]; exact id))
      (writes_mono hp' (by rw [hst]; exact id))
  · rw [hst, hhigh, hlow, hdirect]
    exact h.emptied
  · rw [hpoll, hst, hid, hhigh, hlow]
    exact h.closing
  · rw [hpoll, hdirect]
    exact h.flushing
  · rw [hpoll, hhigh]
    exact h.flushingLow

theorem poll_locks_eq_zero (hp : s.acts[i]? = some p) (hl : p.locks = 1) : s.poll.locks = 0 := by
  have hlock := h.lock
  have hle := le_total locks hp
  split_ifs at hlock <;> omega

theorem lock_unique {j : ℕ} {q : Pc} (hp : s.acts[i]? = some p) (hq : s.acts[j]? = some q)
    (hlp : p.locks = 1) (hlq : q.locks = 1) : i = j := by
  have hlock := h.lock
  refine owner_unique (f := locks) ?_ hp hq (by omega) (by omega)
  split_ifs at hlock <;> omega

/-- **Mutex and life** through a step of a worker. -/
theorem works {r : WriteResult} (hp : s.acts[i]? = some p) (hw : Works s i r p t) : Sane t := by
  have ht := h.tracked.works hp hw
  have hmutex : p.locks = 1 → s.mutex = true := fun hl => by
    have hlock := h.lock
    have hle := le_total locks hp
    by_contra hm
    rw [if_neg hm] at hlock
    omega
  cases hw with
  | moves hm =>
    refine h.works_quiet ht hp rfl rfl rfl rfl rfl rfl rfl ?_ ?_
    · cases hm with
      | @passes l => cases l <;> rfl
      | _ => rfl
    · cases hm with
      | passedTwice hs =>
        have hs' : s.sock.status = .connected := by simpa [SocketObject.passes] using hs
        show s.sock.status.live = true
        rw [hs']
        rfl
      | _ => trivial
  | locked hm =>
    refine h.works_quiet ht hp rfl rfl rfl rfl rfl rfl rfl ?_ trivial
    simp [hm, locks, State.goto]
  | returned | unlocked =>
    refine h.works_quiet ht hp rfl rfl rfl rfl rfl rfl rfl ?_ trivial
    simp [hmutex rfl, locks, State.goto]
  | @wrotePart p n _ hn =>
    have hfree := h.poll_locks_eq_zero hp rfl
    have hset := total_set locks (.unlock (some true) p) hp
    have h1 : locks (.write p) = 1 := rfl
    have h2 : locks (.unlock (some true) p) = 1 := rfl
    refine ⟨ht, ?_, ?_, fun hno => ?_, h.closing, fun hk => ?_, h.flushingLow⟩
    · have hlock := h.lock
      show total locks (s.acts.set i _) + s.poll.locks = if s.mutex then 1 else 0
      omega
    · exact forall_set_index h.writes (fun j r _ _ hr => writes_mono hr id) trivial
    · have hlive := h.writes i _ hp
      rw [Pc.Writes, show s.sock.status.live = false from hno] at hlive
      cases hlive
    · rcases hk with hk | hk
      · rw [show s.poll = .sendHigh from hk] at hfree
        cases hfree
      · rw [show s.poll = .sendLow from hk] at hfree
        cases hfree
  | opened | wrote | counted | triggers | pushed =>
    exact h.works_quiet ht hp rfl rfl rfl rfl rfl rfl rfl rfl trivial

theorem alloc (hp : s.acts[i]? = some .idle) (hs : s.sock.status = .invalid) (k : OpenKind) :
    Sane ({ s with sock := s.sock.alloc, wire := [] }.goto i
      (.opening k (s.sock.socketId + 1))) := by
  have hno : s.sock.status.live = false := by rw [hs]; rfl
  have hset := total_set locks (.opening k (s.sock.socketId + 1)) hp
  have h1 : locks (.opening k (s.sock.socketId + 1)) = 0 := rfl
  have h2 : locks .idle = 0 := rfl
  refine ⟨h.tracked.alloc hp hs k, ?_, ?_, fun _ => h.emptied hno, fun id k' hk => ?_, h.flushing,
    h.flushingLow⟩
  · have hlock := h.lock
    show total locks (s.acts.set i _) + s.poll.locks = if s.mutex then 1 else 0
    omega
  · exact forall_set_index h.writes (fun j r _ hr _ => h.writes_of_not_live hno hr) trivial
  · have hlive := (h.closing id k' hk).1
    rw [hno] at hlive
    cases hlive

/-- **Mutex and life** through any step. -/
theorem acts (ht : Acts s a t) (hf : t.fault = none) : Sane t := by
  have htr : Tracked t :=
    h.tracked.acts ht hf h.isWriteBufferEmpty fun id k hk => (h.closing id k hk).1
  cases ht with
  | thread =>
    exact ⟨htr, by rw [total_append]; exact h.lock, forall_append_index h.writes trivial,
      h.emptied, h.closing, h.flushing, h.flushingLow⟩
  | send hp => exact h.works_quiet htr hp rfl rfl rfl rfl rfl rfl rfl rfl trivial
  | @alloc i k hp hs => exact h.alloc hp hs k
  | run hp hw => exact h.works hp hw
  | control =>
    exact ⟨htr, h.lock, h.writes, h.emptied, h.closing, h.flushing, h.flushingLow⟩
  | poll hp => exact h.polls hp hf

theorem step (hs : s.step a = some t) : Sane t := by
  obtain ⟨_, u, hu, ⟨hf, rfl⟩ | ⟨f, _, rfl⟩⟩ := State.step_cases hs
  · exact h.acts hu hf
  · exact h.crash f

omit h

end Sane

end Skynet.Socket
