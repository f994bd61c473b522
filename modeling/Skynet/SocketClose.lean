import Skynet.SocketSane

/-! # Closing a socket

`SOCKET_EVENT_CLOSE` is reported for an id by the close command, by a `recv` of 0 bytes and by
the `eof` branch of `poll_socket_event`.  The first two look at the status before they report:
after the event the socket is half closed or free (`Closes`).  The `eof` branch looks at the
status after `force_close` has overwritten it, so it reports the event in any case;
`close_reported_once` is about the runs in which it is not taken for a half closed socket.

A graceful close sets `closing` and leaves the rest to the next write: when the lists become
empty the socket is closed.  This works as long as there is something to write (`Drains`), and
the close command does not look for that: it waits also for what `sending_count` still counts.
`closing_socket_closed` is about the runs in which the two agree. -/

namespace Skynet.Socket

open List ThreadPool Transition State SocketObject PollPc

/-! ### The close event -/

/-- The socket thread is about to report `SOCKET_EVENT_CLOSE` for `id`. -/
def PollPc.pending (id : ℕ) : PollPc → ℕ
  | .closing id' k => if id' = id ∧ k.closes = true then 1 else 0
  | _ => 0

/-- The close events so far. -/
structure Closes (s : State) : Prop where
  fresh : ∀ id, s.sock.socketId < id → s.events.count (.close, id) = 0
  once : ∀ id, s.events.count (.close, id) + s.poll.pending id ≤ 1
  spent : 0 < s.events.count (.close, s.sock.socketId) →
    s.sock.status = .halfCloseRead ∨ s.sock.status = .invalid

theorem count_report (e : Option SocketEvent) (he : e ≠ some .close) (s : State) (id d : ℕ) :
    (s.report e id).events.count (.close, d) = s.events.count (.close, d) := by
  unfold report
  rw [count_append, Nat.add_eq_left]
  cases e with
  | none => rfl
  | some e =>
    refine count_eq_zero.2 fun hmem => he ?_
    have := mem_singleton.1 hmem
    rw [(Prod.mk.inj this).1]

namespace Closes

variable {s t : State} {a : Action}

theorem init : Closes State.init where
  fresh _ _ := rfl
  once _ := Nat.zero_le _
  spent h := by simp [State.init] at h

theorem crash (h : Closes s) (f : Fault) : Closes (s.crash f) := ⟨h.fresh, h.once, h.spent⟩

theorem quiet (h : Closes s) (hid : t.sock.socketId = s.sock.socketId)
    (he : ∀ d, t.events.count (.close, d) = s.events.count (.close, d))
    (hp : ∀ d, t.poll.pending d ≤ s.poll.pending d)
    (hst : s.sock.status = .halfCloseRead ∨ s.sock.status = .invalid →
      t.sock.status = .halfCloseRead ∨ t.sock.status = .invalid) : Closes t where
  fresh d hd := by rw [he]; exact h.fresh d (hid ▸ hd)
  once d := by
    have h1 := h.once d
    have h2 := hp d
    rw [he]
    omega
  spent hpos := by
    rw [hid, he] at hpos
    exact hst (h.spent hpos)

theorem renewed (h : Closes s) (hid : t.sock.socketId = s.sock.socketId + 1)
    (he : t.events = s.events) (hp : t.poll = s.poll) : Closes t where
  fresh d hd := by rw [he]; exact h.fresh d (by omega)
  once := by rw [he, hp]; exact h.once
  spent hpos := by
    rw [hid, he, h.fresh _ (Nat.lt_succ_self _)] at hpos
    cases hpos

theorem reported (h : Closes s) (hid : t.sock.socketId = s.sock.socketId)
    (he : t.events = s.events ++ [(.close, s.sock.socketId)]) (hp : t.poll = .idle)
    (hs : s.sock.status ≠ .halfCloseRead ∧ s.sock.status ≠ .invalid)
    (hst : t.sock.status = .halfCloseRead) : Closes t := by
  have hzero : s.events.count (.close, s.sock.socketId) = 0 := by
    by_contra hne
    rcases h.spent (pos_of_ne_zero hne) with h' | h'
    · exact hs.1 h'
    · exact hs.2 h'
  refine ⟨fun d hd => ?_, fun d => ?_, fun _ => .inl hst⟩
  · rw [hid] at hd
    rw [he, count_append, h.fresh d hd, count_singleton]
    simp [hd.ne]
  · have := h.once d
    rw [hp, he, count_append, count_singleton]
    by_cases hd : s.sock.socketId = d
    · rw [← hd, hzero]
      simp [pending]
    · simp only [pending]
      simp [hd]
      omega

/-- `force_close` is done. -/
theorem closed (h : Closes s) (hsane : Sane s) {id : ℕ} {k : After} (hp : s.poll = .closing id k)
    (hid : t.sock.socketId = s.sock.socketId) (hpoll : t.poll = .idle)
    (hst : t.sock.status = .invalid)
    (he : ∀ d, t.events.count (.close, d) = s.events.count (.close, d) + s.poll.pending d) :
    Closes t := by
  obtain ⟨_, hcur, _⟩ := hsane.closing id k hp
  refine ⟨fun d hd => ?_, fun d => ?_, fun _ => .inr hst⟩
  · rw [hid] at hd
    have hne : id ≠ d := by omega
    rw [he, h.fresh d hd, hp]
    simp [pending, hne]
  · rw [he, hpoll]
    exact h.once d

theorem resume_count {id : ℕ} {k : After} (hs : s.sock.status = .invalid) (d : ℕ) :
    (s.resume id k).events.count (.close, d) =
      s.events.count (.close, d) + (closing id k).pending d := by
  have hclose : ∀ d, (s.report (some .close) id).events.count (.close, d) =
      s.events.count (.close, d) + if id = d then 1 else 0 := fun d => by
    simp [report, count_append, count_singleton]
  cases k with
  | report e =>
    by_cases he : e = some .close
    · subst he
      simpa [resume, pending, After.closes] using hclose d
    · have hk : (After.report e).closes = false := by
        cases e with
        | none => rfl
        | some e => cases e <;> first | rfl | exact absurd rfl he
      have := count_report e he s id d
      simpa [resume, pending, hk] using this
  | eof =>
    have hr : s.sock.isCloseRead = false := by simp [isCloseRead, hs]
    simpa [resume, hr, pending, After.closes] using hclose d
  | flushed => simp [resume, report, pending, After.closes]

/-- **Close events** through a step of the socket thread. -/
theorem polls (h : Closes s) (hsane : Sane s) (hs : Polls s a t) (hf : t.fault = none)
    (hok : ∀ e o r, a = .event e o r → e.eofOnly = true → s.sock.status ≠ .halfCloseRead) :
    Closes t := by
  cases hs with
  | crash hf' => exact absurd hf hf'
  | flags hp hi rd wr e id he =>
    exact h.quiet rfl (count_report e he _ id) (fun _ => Nat.zero_le _) fun hst => hst
  | entered hp hi st hst =>
    refine h.quiet rfl (count_report (some .opened) nofun _ _) (fun _ => Nat.zero_le _) fun hs => ?_
    rcases hst with ⟨hs', _⟩ | ⟨hs', _⟩ | ⟨hs', _⟩ <;> rw [hs'] at hs <;>
      rcases hs with hs | hs <;> cases hs
  | opened hp hi ha hl st hst rd wr e he =>
    refine h.quiet (hsane.tracked.head_open hp).2.1 (count_report e he _ _)
      (fun _ => Nat.zero_le _) fun hs => ?_
    rw [ha] at hs
    rcases hs with hs | hs <;> cases hs
  | openFailed =>
    exact h.quiet rfl (count_report (some .error) nofun _ _) (fun _ => Nat.zero_le _)
      fun _ => .inr rfl
  | openUndone hp =>
    exact h.quiet (hsane.tracked.head_open hp).2.1 (count_report (some .error) nofun _ _)
      (fun _ => Nat.zero_le _) fun _ => .inr rfl
  | flushes | toLow | decremented | skipped =>
    exact h.quiet rfl (fun _ => rfl) (fun _ => Nat.zero_le _) fun hst => hst
  | appended hp hi hr wr ws es he =>
    refine h.quiet (by simp) (fun d => ?_) (fun _ => Nat.zero_le _) fun hst => by simpa using hst
    rw [count_append, count_eq_zero.2 (he d), add_zero]
  | closes hp k st wr hl hst hk hc =>
    refine ⟨h.fresh, fun d => ?_, fun hpos => ?_⟩
    · have hle := h.once d
      simp only [pending]
      split_ifs with hpend
      · obtain ⟨rfl, hk⟩ := hpend
        have hread : s.sock.status ≠ .halfCloseRead := by
          rcases hc hk with hr | ⟨e, o, r, ha, heof⟩
          · exact hr
          · exact hok e o r ha heof
        have hzero : ¬ 0 < s.events.count (.close, s.sock.socketId) := fun hpos => by
          rcases h.spent hpos with hs | hs
          · exact hread hs
          · rw [hs] at hl
            cases hl
        omega
      · omega
    · rcases h.spent hpos with hs | hs
      · rcases hst with rfl | ⟨hc, _⟩
        · exact .inl hs
        · rw [hs] at hc
          cases hc
      · rw [hs] at hl
        cases hl
  | closing _ hp hi hv hn hr | partHigh | partLow =>
    exact h.quiet rfl (count_report none nofun _ _) (fun _ => Nat.zero_le _) fun hst => hst
  | closingRead _ hp hi hv hn hr =>
    obtain ⟨hid, hne⟩ := isInvalid_eq_false hv
    refine h.reported rfl ?_ rfl ⟨?_, hne⟩ rfl
    · simp [report, setSock, hid]
    · simpa [isCloseRead] using hr
  | closedRead hi htype hv hc hr =>
    exact h.reported rfl (by simp [report, closeRead, setSock]) rfl
      ⟨by simpa [isCloseRead] using hr, hv⟩ rfl
  | spins | wroteHigh | wroteLow => exact h.quiet rfl (fun _ => rfl) (fun _ => le_rfl) fun hst => hst
  | ends hp wr ws e he =>
    exact h.quiet rfl (count_report e he _ _) (fun _ => Nat.zero_le _) fun hst => hst
  | closedWrite hp hc hr he =>
    refine h.quiet rfl (count_report (some .error) nofun _ _) (fun _ => Nat.zero_le _)
      fun hst => ?_
    have hlive := hsane.live_of_data he
    rcases hst with hst | hst
    · simp [isCloseRead, hst] at hr
    · rw [hst] at hlive
      cases hlive
  | @closed id k hp hm =>
    refine h.closed hsane hp (by simp) (by simp) (by simp) fun d => ?_
    rw [resume_count rfl, hp]
  | accepts hi hv o =>
    exact h.renewed (by cases o <;> rfl) (by cases o <;> rfl) (by cases o <;> rfl)

/-- **Close events** through any step. -/
theorem acts (h : Closes s) (hsane : Sane s) (ht : Acts s a t) (hf : t.fault = none)
    (hok : ∀ e o r, a = .event e o r → e.eofOnly = true → s.sock.status ≠ .halfCloseRead) :
    Closes t := by
  cases ht with
  | thread | send | control => exact ⟨h.fresh, h.once, h.spent⟩
  | alloc => exact h.renewed rfl rfl rfl
  | run hp hw =>
    cases hw <;> exact h.quiet rfl (fun _ => rfl) (fun _ => le_rfl) fun hst => hst
  | poll hp => exact h.polls hsane hp hf hok

end Closes

/-- The `eof` branch is not taken in this step for a socket that is closed for reading. -/
def State.EofOnce (s : State) : Action → Prop
  | .event e _ _ => e.eofOnly = true → s.sock.status ≠ .halfCloseRead
  | _ => True

/-- A connection is opened, the peer closes it, and then the poller reports the end of file. -/
def eofRun : List Action :=
  [.thread, .alloc 0 .connect, .run 0 .again, .command .done,
    .event ⟨true, false, false, false⟩ .done .zero, .event ⟨false, false, false, true⟩ .done .zero,
    .poll .again .done]

/-- The socket thread is writing or closing. -/
def PollPc.busy : PollPc → Bool
  | .idle | .dec _ => false
  | _ => true

/-- A closing socket has data to write, unless the socket thread is at it or done with it. -/
def Drains (s : State) : Prop :=
  s.sock.closing = true → s.sock.status.live = false ∨ s.sock.isWriteBufferEmpty = false ∨
    s.sock.direct ≠ none ∨ s.poll.busy = true

namespace Drains

variable {s t : State} {a : Action}

theorem quiet (h : Drains s) (hc : t.sock.closing = s.sock.closing)
    (hst : s.sock.status.live = false → t.sock.status.live = false)
    (hhigh : t.sock.high = s.sock.high) (hlow : t.sock.low = s.sock.low)
    (hd : t.sock.direct = s.sock.direct) (hp : s.poll.busy = false) : Drains t := by
  intro hclosing
  rcases h (hc ▸ hclosing) with hs | hs | hs | hs
  · exact .inl (hst hs)
  · refine .inr (.inl ?_)
    rw [isWriteBufferEmpty, hhigh, hlow]
    exact hs
  · exact .inr (.inr (.inl (hd ▸ hs)))
  · rw [hp] at hs
    cases hs

theorem of_not_closing (h : t.sock.closing = false) : Drains t := fun hc => by
  rw [h] at hc
  cases hc

variable (h : Drains s) (hf : t.fault = none)
  (hok : ∀ o, a = .command o → ∀ id rest, s.pipe = .close id false :: rest →
    s.sock.isInvalid id = false → s.sock.nomoreSendingData = false →
      s.sock.isWriteBufferEmpty = false ∨ s.sock.direct ≠ none)
include h hf hok

/-- **Data to write** through a step of the socket thread. -/
theorem polls (hs : Polls s a t) : Drains t := by
  cases hs with
  | crash hf' => exact absurd hf hf'
  | flags _ hi | decremented hi | skipped hi =>
    exact h.quiet rfl id rfl rfl rfl (by rw [hi]; rfl)
  | entered hp hi st hst =>
    refine h.quiet rfl (fun hno => ?_) rfl rfl rfl (by rw [hi]; rfl)
    rcases hst with ⟨hs, _⟩ | ⟨hs, _⟩ | ⟨hs, _⟩ <;> rw [hs] at hno <;> cases hno
  | opened | openUndone => exact of_not_closing rfl
  | openFailed => exact fun _ => .inl rfl
  | appended hp hi hr =>
    exact of_not_closing (by simpa using (refuses_eq_false hr).2)
  | closes | flushes | toLow => exact fun _ => .inr (.inr (.inr rfl))
  | closing ha hp hi hv hn | closingRead ha hp hi hv hn =>
    rcases hok _ ha _ _ hp hv hn with hd | hd
    · exact fun _ => .inr (.inl hd)
    · exact fun _ => .inr (.inr (.inl hd))
  | closedRead _ _ _ hc | closedWrite hp hc => exact of_not_closing hc
  | spins => exact h
  | wroteHigh hp | wroteLow hp =>
    refine fun _ => .inr (.inr (.inr ?_))
    rw [hp]
    rfl
  | ends hp wr ws e he hc =>
    intro hclosing
    rcases hc hclosing with hd | hs
    · exact .inr (.inl hd)
    · refine .inl ?_
      show s.sock.status.live = false
      rw [hs]
      rfl
  | partHigh | partLow => exact fun _ => .inr (.inl rfl)
  | closed hp => exact fun _ => .inl (by simp [Status.live])
  | accepts hi hv o =>
    cases o with
    | addFailed => exact fun _ => .inl rfl
    | _ => exact of_not_closing rfl

theorem acts (ht : Acts s a t) : Drains t := by
  cases ht with
  | thread | send | control => exact h
  | alloc => exact fun _ => .inl rfl
  | run hp hw =>
    cases hw with
    | wrotePart => exact fun _ => .inr (.inr (.inl nofun))
    | _ => exact h
  | poll hp => exact h.polls hf hok hp

end Drains

/-- In this step no close command is handled for a socket that has nothing to write while its
`sending_count` is not zero. -/
def State.Graceful (s : State) : Action → Prop
  | .command _ => ∀ id rest, s.pipe = .close id false :: rest → s.sock.isInvalid id = false →
      s.sock.isWriteBufferEmpty = true → s.sock.direct = none →
        s.sock.sendingCount.n = 0 ∨ s.sock.isCloseWrite = true
  | _ => True

/-- **A closing socket is closed** when it has nothing left to write and the socket thread waits
for the next event, in every run in which no close command is handled while only
`sending_count` says that there is data.  (A slot that is allocated again keeps the flag of the
socket before it until it is opened.) -/
theorem closing_socket_closed {s : State} (h : slot.ReachableVia State.Graceful s)
    (hc : s.sock.closing = true) (hi : s.poll = .idle) (hh : s.sock.high = [])
    (hl : s.sock.low = []) (hd : s.sock.direct = none) :
    s.sock.status = .invalid ∨ s.sock.status = .alloced := by
  have hinv : Drains s := by
    refine h.invariant (Drains.of_not_closing rfl) fun s a t hs hok ht => ?_
    obtain ⟨_, u, hu, ⟨hf, rfl⟩ | ⟨f, _, rfl⟩⟩ := step_cases ht
    · refine hs.acts hf (fun o ha id rest hp hv hmore => ?_) hu
      subst ha
      by_contra hno
      obtain ⟨hempty, hdirect⟩ : s.sock.isWriteBufferEmpty = true ∧ s.sock.direct = none := by
        simpa using hno
      rcases hok id rest hp hv hempty hdirect with hz | hz <;>
        simp [nomoreSendingData, hempty, hdirect, hz] at hmore
    · exact hs
  rcases hinv hc with hs | hs | hs | hs
  · cases hst : s.sock.status <;> simp_all [Status.live]
  · simp [isWriteBufferEmpty, hh, hl] at hs
  · exact absurd hd hs
  · rw [hi] at hs
    cases hs

/-- A socket is closed while a message waits to be written. -/
theorem closing_socket_closed_after_write : ∃ s, slot.ReachableVia State.Graceful s ∧
    s.wire = [7] ∧ s.sock.closing = true ∧
    (s.sock.status = .invalid ∨ s.sock.status = .alloced) := by
  have h0 : slot.ReachableVia State.Graceful init := .init
  have h18 := h0.next .thread trivial rfl |>.next (.alloc 0 .connect) trivial rfl
    |>.next (.run 0 .again) trivial rfl |>.next (.command .done) nofun rfl
    |>.next (.send 0 1 false [7]) trivial rfl |>.next (.run 0 .again) trivial rfl
    |>.next (.run 0 .again) trivial rfl |>.next (.run 0 .again) trivial rfl
    |>.next (.run 0 .again) trivial rfl |>.next (.run 0 .again) trivial rfl
    |>.next (.command .done) nofun rfl |>.next (.poll .again .done) trivial rfl
    |>.next (.control (.close 1 false)) trivial rfl
    |>.next (.command .done) (fun _ _ _ _ he => absurd he (by decide)) rfl
    |>.next (.event ⟨false, true, false, false⟩ .done .retry) trivial rfl
    |>.next (.poll (.bytes 1) .done) trivial rfl |>.next (.poll .again .done) trivial rfl
    |>.next (.poll .again .done) trivial rfl
  exact ⟨_, h18, rfl, rfl, closing_socket_closed h18 rfl rfl rfl rfl rfl⟩

/-- A direct write takes half of a message, the socket thread writes the rest, and then the
service closes the socket. -/
def strandedRun : List Action := List.flatten [
  [.thread, .alloc 0 .connect, .run 0 .again, .command .done, .send 0 1 true [7, 8]],
  replicate 15 (.run 0 .again),
  [.run 0 (.bytes 1)],
  replicate 4 (.run 0 .again),
  [.command .done, .event ⟨false, true, false, false⟩ .done .retry, .poll (.bytes 1) .done,
    .poll .again .done, .control (.close 1 false), .command .done]]

/-- The socket is closing and stays so: there is nothing to write, nobody sends and the pipe is
empty. -/
theorem close_waits_for_nothing :
    ∃ s, slot.exec init strandedRun = some s ∧ s.wire = [7, 8] ∧ s.sock.closing = true ∧
      s.poll = .idle ∧ s.sock.isWriteBufferEmpty = true ∧ s.sock.direct = none ∧ s.pipe = [] ∧
      s.acts = [.idle] ∧ s.sock.writing = false ∧ s.sock.status = .halfCloseRead :=
  ⟨_, rfl, rfl, rfl, rfl, rfl, rfl, rfl, rfl, rfl, rfl⟩

end Skynet.Socket
