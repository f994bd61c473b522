import Skynet.SocketSane

/-! # The sending count

`inc_sending_count` is meant to count the data commands for a socket that are on their way to
the socket thread, and `dec_sending_count` to take them off again.  The two do not balance by
themselves.

* `inc_sending_count` does nothing while the type of the socket is not TCP, and the type is set
  by the opening command; `dec_sending_count` looks at the type only when the data command has
  been handled, after the opening one.
* A direct write that takes part of a message counts its `W` command, and nothing takes it off.

`Counts` is the invariant.  Without the first case (`State.Counted`) the count is at least the
number of data commands on their way, which is what a direct write relies on; without the second
one as well (`State.Whole`) it is that number. -/

namespace Skynet.Socket

open ThreadPool Transition State Pc

namespace Pc

/-- The worker has counted a data command for `id` and not sent it yet. -/
def sending (id : ℕ) : Pc → ℕ
  | .push false p => if p.id = id then 1 else 0
  | _ => 0

/-- The worker is about to count a data command for `id`. -/
def counting (id : ℕ) : Pc → ℕ
  | .inc false p => if p.id = id then 1 else 0
  | _ => 0

/-- The worker is on its way to send a `W` command. -/
def triggers : Pc → ℕ
  | .unlock (some true) _ | .incType true _ | .inc true _ | .push true _ => 1
  | _ => 0

end Pc

/-- A data command for `id`. -/
def Cmd.sending (id : ℕ) : Cmd → ℕ
  | .send p => if p.id = id then 1 else 0
  | _ => 0

/-- The socket thread has handled a data command for `id` and not called `dec_sending_count`. -/
def PollPc.sending (id : ℕ) : PollPc → ℕ
  | .dec id' => if id' = id then 1 else 0
  | _ => 0

namespace State

variable (s : State)

/-- The number of data commands for `id` between `inc_sending_count` and `dec_sending_count`. -/
def inflight (id : ℕ) : ℕ :=
  total (sending id) s.acts + total (Cmd.sending id) s.pipe + s.poll.sending id

/-- In this step no worker looks at the type of its socket, to count a data command, before the
opening command has been handled. -/
def Counted : Action → Prop
  | .run i _ => ∀ p, s.acts[i]? = some (.incType false p) → p.id = s.sock.socketId →
      s.sock.type = .tcp
  | _ => True

/-- In this step no direct write takes only a part of its message. -/
def Whole : Action → Prop
  | .run i r => ∀ p, s.acts[i]? = some (.write p) → taken p.data.length r = p.data.length
  | _ => True

end State

/-- The count of the slot and what is on its way; `strict` if no `W` command is ever sent. -/
structure Counts (strict : Prop) (s : State) : Prop where
  count : s.sock.type = .tcp → s.sock.sendingCount.id = s.sock.socketId ∧
    s.inflight s.sock.socketId ≤ s.sock.sendingCount.n ∧
    (strict → s.sock.sendingCount.n = s.inflight s.sock.socketId)
  untyped : s.sock.type ≠ .tcp → s.inflight s.sock.socketId = 0 ∧
    total (counting s.sock.socketId) s.acts = 0
  whole : strict → total triggers s.acts = 0
  handled : ∀ id, s.poll = .dec id → id ≤ s.known

namespace Counts

variable {strict : Prop} {s t : State} {i : ℕ} {p p' : Pc} {a : Action}

theorem init : Counts strict State.init where
  count h := by cases h
  untyped _ := ⟨rfl, rfl⟩
  whole _ := rfl
  handled id h := by cases h

theorem crash (h : Counts strict s) (f : Fault) : Counts strict (s.crash f) :=
  { h with }

theorem inflight_fresh (h : Counts strict s) (hs : Tracked s) {id : ℕ} (hid : s.known < id) :
    s.inflight id = 0 ∧ total (counting id) s.acts = 0 := by
  have hne : ∀ d, d ≤ s.known → ¬ d = id := by omega
  have hpc : ∀ p ∈ s.acts, p.sending id = 0 ∧ p.counting id = 0 := fun p hp => by
    obtain ⟨j, hj⟩ := List.getElem?_of_mem hp
    have hk := hs.pcs j p hj
    cases p with
    | push w p | inc w p => cases w <;> simp [sending, counting, hne _ hk]
    | _ => exact ⟨rfl, rfl⟩
  have hcmd : ∀ c ∈ s.pipe, c.sending id = 0 := fun c hc => by
    have hk := hs.cmds c hc
    cases c with
    | send p => exact if_neg (hne p.id hk)
    | _ => rfl
  have hpoll : s.poll.sending id = 0 := by
    cases hp : s.poll with
    | dec d => simp [PollPc.sending, hne _ (h.handled d hp)]
    | _ => rfl
  refine ⟨?_, total_eq_zero fun p hp => (hpc p hp).2⟩
  rw [inflight, total_eq_zero fun p hp => (hpc p hp).1, total_eq_zero hcmd, hpoll]

variable {rest : List Cmd}

theorem sending_skips {pipe : List Cmd} (h : Skips pipe rest) (id : ℕ) :
    total (Cmd.sending id) rest = total (Cmd.sending id) pipe := by
  cases h with
  | same => rfl
  | @pop c _ _ hs =>
    have : c.sending id = 0 := by cases c <;> first | rfl | cases hs
    rw [total_cons, this, zero_add]

variable (h : Counts strict s)

include h

theorem keep (htype : t.sock.type = s.sock.type)
    (hcount : t.sock.sendingCount = s.sock.sendingCount) (hid : t.sock.socketId = s.sock.socketId)
    (hfly : t.inflight s.sock.socketId = s.inflight s.sock.socketId)
    (hwait : s.sock.type ≠ .tcp →
      total (counting s.sock.socketId) t.acts = total (counting s.sock.socketId) s.acts)
    (hwhole : strict → total triggers t.acts = total triggers s.acts)
    (hpoll : ∀ id, t.poll = .dec id → id ≤ t.known) : Counts strict t where
  count := by rw [htype, hcount, hid, hfly]; exact h.count
  untyped hne := by
    rw [htype] at hne
    rw [hid, hfly, hwait hne]
    exact h.untyped hne
  whole he := by rw [hwhole he]; exact h.whole he
  handled := hpoll

theorem quiet (htype : t.sock.type = s.sock.type)
    (hcount : t.sock.sendingCount = s.sock.sendingCount) (hid : t.sock.socketId = s.sock.socketId)
    (hacts : t.acts = s.acts)
    (hpipe : total (Cmd.sending s.sock.socketId) t.pipe = total (Cmd.sending s.sock.socketId) s.pipe)
    (hp : ∀ id, s.poll ≠ .dec id) (hp' : ∀ id, t.poll ≠ .dec id) : Counts strict t := by
  have hz : ∀ q : PollPc, (∀ id, q ≠ .dec id) → q.sending s.sock.socketId = 0 := fun q hq => by
    cases q with
    | dec id => exact absurd rfl (hq id)
    | _ => rfl
  refine h.keep htype hcount hid ?_ (fun _ => by rw [hacts]) (fun _ => by rw [hacts])
    fun id hd => absurd hd (hp' id)
  rw [inflight, inflight, hacts, hpipe, hz _ hp, hz _ hp']

theorem fresh (hfly : t.inflight t.sock.socketId = 0)
    (hwait : total (counting t.sock.socketId) t.acts = 0)
    (hcount : t.sock.type = .tcp → t.sock.sendingCount = ⟨t.sock.socketId, 0⟩)
    (hwhole : total triggers t.acts = total triggers s.acts) (hpoll : ∀ id, t.poll ≠ .dec id) :
    Counts strict t where
  count htype := by
    rw [hcount htype, hfly]
    exact ⟨rfl, le_rfl, fun _ => rfl⟩
  untyped _ := ⟨hfly, hwait⟩
  whole he := by rw [hwhole]; exact h.whole he
  handled id hd := absurd hd (hpoll id)

/-- `new_socket` for the opening command at the head of the pipe. -/
theorem opened (hs : Tracked s) {k : OpenKind} {id : ℕ} (hp : s.pipe = .opening k id :: rest)
    (hi : s.poll = .idle) (hid : t.sock.socketId = id) (hcount : t.sock.sendingCount = ⟨id, 0⟩)
    (hacts : t.acts = s.acts) (hpipe : t.pipe = rest) (hpoll : t.poll = .idle) :
    Counts strict t := by
  obtain ⟨ha, rfl, _⟩ := hs.head_open hp
  have htype : s.sock.type ≠ .tcp := by rw [hs.untyped ha]; exact nofun
  obtain ⟨hfly, hwait⟩ := h.untyped htype
  refine h.fresh ?_ ?_ (fun _ => hcount.trans (by rw [hid])) (by rw [hacts])
    fun id hd => by rw [hpoll] at hd; cases hd
  · rw [inflight, hp, hi, total_cons] at hfly
    rw [inflight, hid, hacts, hpipe, hpoll]
    omega
  · rw [hid, hacts]
    exact hwait

theorem handled_send (hs : Tracked s) {q : Packet} (hp : s.pipe = .send q :: rest)
    (hi : s.poll = .idle) (htype : t.sock.type = s.sock.type)
    (hcount : t.sock.sendingCount = s.sock.sendingCount) (hid : t.sock.socketId = s.sock.socketId)
    (hacts : t.acts = s.acts) (hk : t.known = s.known) (hpipe : t.pipe = rest)
    (hpoll : t.poll = .dec q.id) : Counts strict t := by
  refine h.keep htype hcount hid ?_ (fun _ => by rw [hacts]) (fun _ => by rw [hacts])
    fun id hd => ?_
  · rw [inflight, inflight, hacts, hpipe, hpoll, hp, hi, total_cons]
    simp only [Cmd.sending, PollPc.sending]
    omega
  · rw [hpoll] at hd
    obtain rfl := PollPc.dec.inj hd
    rw [hk]
    exact hs.cmds (.send q) (by rw [hp]; exact List.mem_cons_self)

/-- `dec_sending_count` finds a count to take off. -/
theorem dec_pos (hp : s.poll = .dec s.sock.socketId) (htype : s.sock.type = .tcp) :
    s.sock.sendingCount.n ≠ 0 := by
  have hle := (h.count htype).2.1
  rw [inflight, hp] at hle
  simp only [PollPc.sending, if_true] at hle
  omega

theorem decremented (hp : s.poll = .dec s.sock.socketId) (htype : s.sock.type = .tcp) :
    Counts strict { s with
      sock := { s.sock with
        sendingCount := ⟨s.sock.sendingCount.id, s.sock.sendingCount.n - 1⟩ }
      poll := .idle } := by
  obtain ⟨hid, hle, hexact⟩ := h.count htype
  have hfly : s.inflight s.sock.socketId =
      total (sending s.sock.socketId) s.acts + total (Cmd.sending s.sock.socketId) s.pipe + 1 := by
    rw [inflight, hp]
    simp only [PollPc.sending, if_true]
  rw [hfly] at hle hexact
  refine ⟨fun _ => ⟨hid, ?_, fun he => ?_⟩, fun hne => absurd htype hne, h.whole, nofun⟩
  · show total (sending s.sock.socketId) s.acts + total (Cmd.sending s.sock.socketId) s.pipe + 0 ≤
      s.sock.sendingCount.n - 1
    omega
  · have := hexact he
    show s.sock.sendingCount.n - 1 =
      total (sending s.sock.socketId) s.acts + total (Cmd.sending s.sock.socketId) s.pipe + 0
    omega

theorem skipped {id : ℕ} (hp : s.poll = .dec id)
    (hne : ¬ (s.sock.socketId = id ∧ s.sock.type = .tcp)) :
    Counts strict { s with poll := .idle } := by
  by_cases hid : s.sock.socketId = id
  · have htype : s.sock.type ≠ .tcp := fun htype => hne ⟨hid, htype⟩
    obtain ⟨hfly, hwait⟩ := h.untyped htype
    refine ⟨fun ht => absurd ht htype, fun _ => ⟨?_, hwait⟩, h.whole, nofun⟩
    rw [inflight] at hfly
    show total (sending s.sock.socketId) s.acts + total (Cmd.sending s.sock.socketId) s.pipe + 0 = 0
    omega
  · refine h.keep rfl rfl rfl ?_ (fun _ => rfl) (fun _ => rfl) nofun
    rw [inflight, inflight, hp]
    simp only [PollPc.sending, Ne.symm hid, if_false]

theorem renewed (hs : Tracked s) (hid : t.sock.socketId = s.sock.socketId + 1)
    (hcount : t.sock.type = .tcp → t.sock.sendingCount = ⟨s.sock.socketId + 1, 0⟩)
    (hsend : total (sending (s.sock.socketId + 1)) t.acts =
      total (sending (s.sock.socketId + 1)) s.acts)
    (hwait : total (counting (s.sock.socketId + 1)) t.acts =
      total (counting (s.sock.socketId + 1)) s.acts)
    (hwhole : total triggers t.acts = total triggers s.acts) (hpipe : t.pipe = s.pipe)
    (hpoll : t.poll = s.poll) (hk : s.known ≤ t.known) : Counts strict t := by
  obtain ⟨hfly, hnone⟩ := h.inflight_fresh hs (Nat.lt_succ_of_le hs.known)
  have hfly' : t.inflight (s.sock.socketId + 1) = 0 := by
    rw [inflight, hsend, hpipe, hpoll]
    exact hfly
  refine ⟨fun htype => ?_, fun _ => ?_, fun he => hwhole.trans (h.whole he), fun id hd => ?_⟩
  · rw [hid, hcount htype, hfly']
    exact ⟨rfl, le_rfl, fun _ => rfl⟩
  · rw [hid, hwait]
    exact ⟨hfly', hnone⟩
  · rw [hpoll] at hd
    exact (h.handled id hd).trans hk

/-- **The count** through a step of the socket thread. -/
theorem polls (hs : Sane s) (ht : Polls s a t) (hf : t.fault = none) : Counts strict t := by
  cases ht with
  | crash hf' => exact absurd hf hf'
  | flags hp hi | entered hp hi =>
    exact h.quiet rfl rfl rfl rfl (sending_skips hp _) (by rw [hi]; exact nofun) nofun
  | opened hp hi | openUndone hp hi => exact h.opened hs.tracked hp hi rfl rfl rfl rfl rfl
  | @openFailed rest k id hp hi =>
    refine h.quiet rfl rfl rfl rfl ?_ (by rw [hi]; exact nofun) nofun
    rw [hp, total_cons]
    exact (zero_add _).symm
  | appended hp hi =>
    exact h.handled_send hs.tracked hp hi (by simp) (by simp) (by simp) rfl rfl rfl rfl
  | closes hp k st wr hl hst hk =>
    refine h.quiet rfl rfl rfl rfl (sending_skips hp _) (fun id hd => ?_) nofun
    rcases hk with ⟨hk, _⟩ | ⟨hk | hk, _⟩ <;> rw [hd] at hk <;> cases hk
  | closing _ hp hi | closingRead _ hp hi =>
    exact h.quiet rfl rfl rfl rfl (by rw [hp]; exact sending_skips (.pop rfl rfl) _)
      (by rw [hi]; exact nofun) nofun
  | closedRead hp | flushes hp | toLow hp | partHigh hp | partLow hp =>
    exact h.quiet rfl rfl rfl rfl rfl (by rw [hp]; exact nofun) nofun
  | wroteHigh hp | wroteLow hp =>
    exact h.quiet rfl rfl rfl rfl rfl (by rw [hp]; exact nofun) (by
      rw [hp]
      exact nofun)
  | spins => exact h
  | ends hp | closedWrite hp =>
    refine h.quiet rfl rfl rfl rfl rfl (fun id hd => ?_) nofun
    rcases hp with hp | hp <;> rw [hd] at hp <;> cases hp
  | closed hp =>
    exact h.quiet (by simp) (by simp) (by simp) (by simp) (by simp)
      (by rw [hp]; exact nofun) (by simp)
  | decremented hp hid htype => exact h.decremented (by rw [hp, hid]) htype
  | skipped hp hne => exact h.skipped hp hne
  | accepts hi hv o =>
    have hk := hs.tracked.known
    cases o with
    | addFailed => exact h.renewed hs.tracked rfl nofun rfl rfl rfl rfl rfl le_rfl
    | enableFailed => exact h.renewed hs.tracked rfl (fun _ => rfl) rfl rfl rfl rfl rfl le_rfl
    | _ =>
      exact h.renewed hs.tracked rfl (fun _ => rfl) rfl rfl rfl rfl rfl
        (hk.trans (Nat.le_succ _))

theorem works_quiet (hp : s.acts[i]? = some p) (hacts : t.acts = s.acts.set i p')
    (htype : t.sock.type = s.sock.type) (hcount : t.sock.sendingCount = s.sock.sendingCount)
    (hid : t.sock.socketId = s.sock.socketId) (hpipe : t.pipe = s.pipe) (hpoll : t.poll = s.poll)
    (hk : s.known ≤ t.known) (hsend : p'.sending s.sock.socketId = p.sending s.sock.socketId)
    (hwait : s.sock.type ≠ .tcp → p'.counting s.sock.socketId = p.counting s.sock.socketId)
    (hwhole : strict → p'.triggers = p.triggers) : Counts strict t := by
  have hset : ∀ f : Pc → ℕ, f p' = f p → total f t.acts = total f s.acts := fun f hf => by
    rw [hacts]
    exact total_set_of_eq hp hf
  refine h.keep htype hcount hid ?_ (fun hne => hset _ (hwait hne)) (fun he => hset _ (hwhole he))
    fun id hd => ?_
  · rw [inflight, inflight, hset _ hsend, hpipe, hpoll]
  · rw [hpoll] at hd
    exact (h.handled id hd).trans hk

/-- A worker about to count a data command for this socket has seen that it is a TCP socket. -/
theorem counting_tcp {q : Packet} (hp : s.acts[i]? = some (.inc false q))
    (hid : q.id = s.sock.socketId) : s.sock.type = .tcp := by
  by_contra hne
  have hle := le_total (counting s.sock.socketId) hp
  rw [(h.untyped hne).2, counting, if_pos hid] at hle
  exact absurd hle (by decide)

theorem moves (hp : s.acts[i]? = some p) (hm : Moves s p p')
    (hok : ∀ q, p = .incType false q → q.id = s.sock.socketId → s.sock.type = .tcp) :
    Counts strict (s.goto i p') := by
  have hquiet := fun hsend hwait hwhole =>
    h.works_quiet (t := s.goto i p') hp rfl rfl rfl rfl rfl rfl le_rfl hsend hwait hwhole
  cases hm with
  | @tcp w q htype =>
    exact hquiet rfl (fun hne => absurd htype hne) (fun _ => by cases w <;> rfl)
  | @notTcp w q htype =>
    refine hquiet ?_ (fun _ => by cases w <;> rfl) (fun _ => by cases w <;> rfl)
    cases w with
    | true => rfl
    | false => exact if_neg fun hid => htype (hok q rfl hid)
  | @stale w q hne =>
    cases w with
    | true => exact hquiet rfl (fun _ => rfl) (fun _ => rfl)
    | false =>
      have hid : ¬ q.id = s.sock.socketId := fun hid =>
        hne ((h.count (h.counting_tcp hp hid)).1.trans hid.symm)
      exact hquiet (if_neg hid) (fun _ => (if_neg hid).symm) (fun _ => rfl)
  | _ => exact hquiet rfl (fun _ => rfl) (fun _ => rfl)

/-- With `W` commands around the count is not exact. -/
theorem not_exact (hp : s.acts[i]? = some p) (hw : p.triggers = 1) : ¬ strict := fun he => by
  have hle := le_total triggers hp
  rw [h.whole he, hw] at hle
  exact absurd hle (by decide)

theorem more (hno : ¬ strict) {n : ℕ} (hn : s.sock.sendingCount.n ≤ n) :
    Counts strict { s with sock := { s.sock with sendingCount := ⟨s.sock.sendingCount.id, n⟩ } } :=
  ⟨fun htype => ⟨(h.count htype).1, (h.count htype).2.1.trans hn, fun he => absurd he hno⟩,
    h.untyped, h.whole, h.handled⟩

/-- `inc_sending_count` counts. -/
theorem counted {w : Bool} {q : Packet} (hp : s.acts[i]? = some (.inc w q))
    (hid : s.sock.sendingCount.id = q.id) : Counts strict ({ s with sock := { s.sock with
      sendingCount := ⟨s.sock.sendingCount.id, s.sock.sendingCount.n + 1⟩ } }.goto i
        (.push w q)) := by
  have hset := fun f : Pc → ℕ => total_set f (.push w q) hp
  cases w with
  | true =>
    have hquiet := h.works_quiet (t := s.goto i (.push true q)) hp rfl rfl rfl rfl rfl rfl le_rfl
      rfl (fun _ => rfl) fun _ => rfl
    exact hquiet.more (fun he => h.not_exact hp rfl he) (Nat.le_succ _)
  | false =>
    by_cases hcur : q.id = s.sock.socketId
    · have htype := h.counting_tcp hp hcur
      obtain ⟨_, hle, hexact⟩ := h.count htype
      have hsend := hset (sending s.sock.socketId)
      have h1 : sending s.sock.socketId (.push false q) = 1 := if_pos hcur
      have h0 : sending s.sock.socketId (.inc false q) = 0 := rfl
      rw [inflight] at hle hexact
      refine ⟨fun _ => ⟨(h.count htype).1, ?_, fun he => ?_⟩, fun hne => absurd htype hne,
        fun he => ?_, h.handled⟩
      · show total (sending s.sock.socketId) (s.acts.set i _) +
          total (Cmd.sending s.sock.socketId) s.pipe + s.poll.sending s.sock.socketId ≤
            s.sock.sendingCount.n + 1
        omega
      · have := hexact he
        show s.sock.sendingCount.n + 1 = total (sending s.sock.socketId) (s.acts.set i _) +
          total (Cmd.sending s.sock.socketId) s.pipe + s.poll.sending s.sock.socketId
        omega
      · exact (hset triggers).trans (h.whole he)
    · have htype : s.sock.type ≠ .tcp := fun htype =>
        hcur (hid.symm.trans (h.count htype).1)
      have hquiet := h.works_quiet (t := s.goto i (.push false q)) hp rfl rfl rfl rfl rfl rfl le_rfl
        (if_neg hcur) (fun _ => (if_neg hcur).symm) fun _ => rfl
      exact ⟨fun ht => absurd ht htype, hquiet.untyped, hquiet.whole, hquiet.handled⟩

theorem pushed {q : Packet} (hp : s.acts[i]? = some (.push false q)) : Counts strict ({ s with
      pipe := s.pipe ++ [Cmd.send q], accepted := s.accepted ++ [q] }.goto i .idle) := by
  refine h.keep rfl rfl rfl ?_ (fun _ => total_set_of_eq hp rfl) (fun _ => total_set_of_eq hp rfl)
    h.handled
  have hsend := total_set (sending s.sock.socketId) .idle hp
  have hcmd : Cmd.sending s.sock.socketId (.send q) = sending s.sock.socketId (.push false q) := rfl
  have h0 : sending s.sock.socketId .idle = 0 := rfl
  simp only [inflight, goto, total_append, total_cons, total_nil]
  omega

omit h

theorem known_le_of_works (hs : Tracked s) {r : WriteResult} (hp : s.acts[i]? = some p)
    (hw : Works s i r p t) : s.known ≤ t.known := by
  cases hw with
  | opened k id => exact (hs.pcs i _ hp).2.le
  | _ => exact le_rfl

/-- **The count** through a step of a worker. -/
theorem works (h : Counts strict s) {r : WriteResult} (hp : s.acts[i]? = some p)
    (hw : Works s i r p t) (hk : s.known ≤ t.known)
    (hok : ∀ q, p = .incType false q → q.id = s.sock.socketId → s.sock.type = .tcp)
    (hwhole : strict → ∀ q, p = .write q → taken q.data.length r = q.data.length) :
    Counts strict t := by
  cases hw with
  | moves hm => exact h.moves hp hm hok
  | opened k id =>
    refine h.keep rfl rfl rfl ?_ (fun _ => total_set_of_eq hp rfl)
      (fun _ => total_set_of_eq hp rfl) fun id hd => (h.handled id hd).trans hk
    have hsend := total_set (sending s.sock.socketId) .idle hp
    have hcmd : Cmd.sending s.sock.socketId (.opening k id) = 0 := rfl
    have h0 : sending s.sock.socketId .idle = 0 := rfl
    have h1 : sending s.sock.socketId (.opening k id) = 0 := rfl
    simp only [inflight, sendOpen, goto, total_append, total_cons, total_nil]
    omega
  | locked | wrote | returned =>
    exact h.works_quiet hp rfl rfl rfl rfl rfl rfl le_rfl rfl (fun _ => rfl) (fun _ => rfl)
  | @wrotePart q n hr hn =>
    refine h.works_quiet hp rfl rfl rfl rfl rfl rfl le_rfl rfl (fun _ => rfl) (fun he => ?_)
    have := hwhole he q rfl
    omega
  | unlocked w q =>
    exact h.works_quiet hp rfl rfl rfl rfl rfl rfl le_rfl rfl (fun _ => rfl)
      (fun _ => by cases w <;> rfl)
  | counted hid hn => exact h.counted hp hid
  | triggers q =>
    refine h.keep rfl rfl rfl ?_ (fun _ => total_set_of_eq hp rfl)
      (fun he => absurd he (h.not_exact hp rfl)) h.handled
    have hsend := total_set (sending s.sock.socketId) .idle hp
    have hcmd : Cmd.sending s.sock.socketId (.triggerWrite q.id) = 0 := rfl
    have h0 : sending s.sock.socketId .idle = 0 := rfl
    have h1 : sending s.sock.socketId (.push true q) = 0 := rfl
    simp only [inflight, goto, total_append, total_cons, total_nil]
    omega
  | pushed q => exact h.pushed hp

/-- **The count** through any step. -/
theorem acts (h : Counts strict s) (hs : Sane s) (ht : Acts s a t) (hf : t.fault = none)
    (hok : s.Counted a) (hwhole : strict → s.Whole a) : Counts strict t := by
  cases ht with
  | thread =>
    refine h.keep rfl rfl rfl ?_ (fun _ => ?_) (fun _ => ?_) h.handled
    · simp only [inflight, total_append, total_cons, total_nil]
      rfl
    · rw [total_append]
      rfl
    · rw [total_append]
      rfl
  | send hp =>
    exact h.works_quiet hp rfl rfl rfl rfl rfl rfl le_rfl rfl (fun _ => rfl) fun _ => rfl
  | alloc hp =>
    exact h.renewed hs.tracked rfl nofun (total_set_of_eq hp rfl) (total_set_of_eq hp rfl)
      (total_set_of_eq hp rfl) rfl rfl le_rfl
  | @run i r p _ hp hw =>
    refine h.works hp hw (known_le_of_works hs.tracked hp hw) (fun q hq => ?_) fun he q hq => ?_
    · subst hq
      exact hok q hp
    · subst hq
      exact hwhole he q hp
  | @control c hc =>
    have hcmd : c.sending s.sock.socketId = 0 := by cases c <;> first | rfl | cases hc
    refine h.keep rfl rfl rfl ?_ (fun _ => rfl) (fun _ => rfl) h.handled
    simp only [inflight, total_append, total_cons, total_nil, hcmd, add_zero]
  | poll hp => exact h.polls hs hp hf

/-- No step runs into the assertion of `dec_sending_count`. -/
theorem acts_fault (h : Counts strict s) (hf : s.fault = none) (ht : Acts s a t) :
    t.fault ≠ some .noSending := by
  intro hbad
  cases ht with
  | thread | send | alloc | control => rw [show s.fault = _ from hbad] at hf; cases hf
  | run hp hw => cases hw <;> (rw [show s.fault = _ from hbad] at hf; cases hf)
  | poll hp =>
    cases hp with
    | crash _ hn =>
      obtain ⟨id, hpoll, rfl, htype, hz⟩ := hn hbad
      exact h.dec_pos hpoll htype hz
    | closed => simp [hf] at hbad
    | accepts _ _ o => cases o <;> (rw [show s.fault = _ from hbad] at hf; cases hf)
    | _ => rw [show s.fault = _ from hbad] at hf; cases hf

theorem step (h : Counts strict s) (hs : Sane s) (hstep : s.step a = some t) (hok : s.Counted a)
    (hwhole : strict → s.Whole a) : Counts strict t ∧ t.fault ≠ some .noSending := by
  obtain ⟨hf, u, hu, ⟨hfu, rfl⟩ | ⟨f, hfu, rfl⟩⟩ := step_cases hstep
  · exact ⟨h.acts hs hu hfu hok hwhole, by rw [hfu]; exact nofun⟩
  · refine ⟨h.crash f, fun hbad => h.acts_fault hf hu ?_⟩
    rw [hfu]
    exact hbad

end Counts

/-- A slot is a TCP socket once.  `alloc_socket` stores the new id before the new type: in a slot
that is used again, there is a moment with the new id, the type TCP and the old count. -/
def State.Once (s : State) : Action → Prop
  | .alloc _ _ => s.sock.type ≠ .tcp
  | _ => True

/-- `State.Counted`, `State.Whole` and `State.Once`. -/
def State.Balanced (s : State) (a : Action) : Prop := s.Counted a ∧ s.Whole a ∧ s.Once a

/-- A direct write takes half of a message, and the socket thread writes the rest. -/
def triggerRun : List Action := List.flatten [
  [.thread, .alloc 0 .connect, .run 0 .again, .command .done, .send 0 1 true [7, 8]],
  List.replicate 15 (.run 0 .again),
  [.run 0 (.bytes 1)],
  List.replicate 4 (.run 0 .again),
  [.command .done, .event ⟨false, true, false, false⟩ .done .retry, .poll (.bytes 1) .done,
    .poll .again .done]]

/-- A service sends to a socket before the opening command has been handled. -/
def earlyRun : List Action := List.flatten [
  [.thread, .alloc 0 .connect, .run 0 .again, .send 0 1 false [1]],
  List.replicate 4 (.run 0 .again),
  [.command .inProgress, .command .done, .poll .again .done]]

end Skynet.Socket
