import Skynet.Socket

/-! # What the steps of a slot do

Inversion of the step function: every step of a worker is one of the effects listed in
`Works`, every step of the socket thread one of those in `Polls`.  The invariants are proved
from these lists and never look into the handlers again. -/

namespace Skynet.Socket

open List State

/-- Not free and not merely allocated. -/
def Status.live : Status → Bool
  | .invalid | .alloced => false
  | _ => true

def Cmd.isOpen : Cmd → Bool
  | .opening _ _ => true
  | _ => false

def Cmd.isSend : Cmd → Bool
  | .send _ => true
  | _ => false

/-- The caller of `force_close` reports `SOCKET_EVENT_CLOSE`. -/
def After.closes : After → Bool
  | .report (some .close) | .eof => true
  | _ => false

/-- `poll_socket_event` takes the `eof` branch. -/
def Event.eofOnly (e : Event) : Bool := !e.isReadable && !e.isWriteable && !e.isError && e.isEof

namespace SocketObject

variable (x : SocketObject) (b : Bool) (p : Packet)

@[simp] theorem append_socketId : (x.append b p).socketId = x.socketId := by cases b <;> rfl
@[simp] theorem append_type : (x.append b p).type = x.type := by cases b <;> rfl
@[simp] theorem append_status : (x.append b p).status = x.status := by cases b <;> rfl
@[simp] theorem append_closing : (x.append b p).closing = x.closing := by cases b <;> rfl
@[simp] theorem append_direct : (x.append b p).direct = x.direct := by cases b <;> rfl
@[simp] theorem append_sendingCount : (x.append b p).sendingCount = x.sendingCount := by
  cases b <;> rfl

theorem isInvalid_eq_false {x : SocketObject} {id : ℕ} (h : x.isInvalid id = false) :
    x.socketId = id ∧ x.status ≠ .invalid := by
  simpa [isInvalid] using h

theorem refuses_eq_false {x : SocketObject} {id : ℕ} (h : x.refuses id = false) :
    x.isInvalid id = false ∧ x.closing = false := by
  simp only [refuses, Bool.or_eq_false_iff] at h
  exact ⟨h.1.1.1.1.1, h.1.1.2⟩

end SocketObject

/-! ### Workers -/

/-- Steps of a worker that only change its program counter. -/
inductive Moves (s : State) : Pc → Pc → Prop
  | current {p : Packet} (h : s.sock.socketId = p.id) : Moves s (.checkId p) (.checkStatus p)
  | outdated {p : Packet} (h : s.sock.socketId ≠ p.id) : Moves s (.checkId p) .idle
  | invalid {p : Packet} (h : s.sock.status = .invalid) : Moves s (.checkStatus p) .idle
  | high {p : Packet} (hp : p.high = true) : Moves s (.checkStatus p) (.canDirectSend false .id p)
  | low {p : Packet} (hp : p.high = false) : Moves s (.checkStatus p) (.incType false p)
  | passes {l : Bool} {r r' : Read} {p : Packet} (h : s.sock.passes p.id r = true)
      (hr : r.next = some r') : Moves s (.canDirectSend l r p) (.canDirectSend l r' p)
  | passed {p : Packet} (h : s.sock.passes p.id .status = true) :
      Moves s (.canDirectSend false .status p) (.tryLock p)
  | passedTwice {p : Packet} (h : s.sock.passes p.id .status = true) :
      Moves s (.canDirectSend true .status p) (.write p)
  | fails (r : Read) (p : Packet) : Moves s (.canDirectSend false r p) (.incType false p)
  | failsTwice (r : Read) (p : Packet) :
      Moves s (.canDirectSend true r p) (.unlock (some false) p)
  | busy (p : Packet) : Moves s (.tryLock p) (.incType false p)
  | tcp {w : Bool} {p : Packet} (h : s.sock.type = .tcp) : Moves s (.incType w p) (.inc w p)
  | notTcp {w : Bool} {p : Packet} (h : s.sock.type ≠ .tcp) : Moves s (.incType w p) (.push w p)
  | stale {w : Bool} {p : Packet} (h : s.sock.sendingCount.id ≠ p.id) :
      Moves s (.inc w p) (.push w p)
  | full {w : Bool} {p : Packet} : Moves s (.inc w p) (.inc w p)

/-- The effects of a step of worker `i`. -/
inductive Works (s : State) (i : ℕ) (r : WriteResult) : Pc → State → Prop
  | moves {p p' : Pc} (h : Moves s p p') : Works s i r p (s.goto i p')
  | opened (k : OpenKind) (id : ℕ) : Works s i r (.opening k id) (s.sendOpen i k id)
  | locked {p : Packet} (hm : s.mutex = false) :
      Works s i r (.tryLock p) ({ s with mutex := true }.goto i (.canDirectSend true .id p))
  | wrote {p : Packet} (hn : taken p.data.length r = p.data.length) :
      Works s i r (.write p)
        ({ s with wire := s.wire ++ p.data, accepted := s.accepted ++ [p] }.goto i
          (.unlock none p))
  | wrotePart {p : Packet} {n : ℕ} (hr : taken p.data.length r = n) (hn : n < p.data.length) :
      Works s i r (.write p)
        ({ s with
          wire := s.wire ++ p.data.take n
          accepted := s.accepted ++ [p]
          sock := { s.sock with direct := some ⟨p, n⟩ } }.goto i (.unlock (some true) p))
  | returned (p : Packet) : Works s i r (.unlock none p) ({ s with mutex := false }.goto i .idle)
  | unlocked (w : Bool) (p : Packet) :
      Works s i r (.unlock (some w) p) ({ s with mutex := false }.goto i (.incType w p))
  | counted {w : Bool} {p : Packet} (hid : s.sock.sendingCount.id = p.id)
      (hn : s.sock.sendingCount.n ≠ 0xFFFF) :
      Works s i r (.inc w p)
        ({ s with sock := { s.sock with
          sendingCount := ⟨s.sock.sendingCount.id, s.sock.sendingCount.n + 1⟩ } }.goto i (.push w p))
  | triggers (p : Packet) :
      Works s i r (.push true p)
        ({ s with pipe := s.pipe ++ [Cmd.triggerWrite p.id] }.goto i .idle)
  | pushed (p : Packet) :
      Works s i r (.push false p)
        ({ s with pipe := s.pipe ++ [Cmd.send p], accepted := s.accepted ++ [p] }.goto i .idle)

theorem taken_le (len : ℕ) (r : WriteResult) : State.taken len r ≤ len := by
  cases r with
  | bytes n => exact min_le_right _ _
  | _ => exact Nat.zero_le _

section Inversion

variable {s t : State} {i : ℕ} {r : WriteResult}

theorem directWrite_works (p : Packet) : Works s i r (.write p) (s.directWrite i p r) := by
  have hle := taken_le p.data.length r
  unfold directWrite
  extract_lets n u
  split_ifs with hn
  · have htake : p.data.take n = p.data := by rw [hn, take_length]
    simp only [u, htake]
    exact .wrote hn
  · exact .wrotePart rfl (by omega)

theorem canDirectSend_works (l : Bool) (rd : Read) (p : Packet) :
    Works s i r (.canDirectSend l rd p) (s.canDirectSend i l rd p) := by
  unfold canDirectSend
  cases hp : s.sock.passes p.id rd with
  | true =>
    rw [if_pos rfl]
    cases hn : rd.next with
    | some rd' => exact .moves (.passes hp hn)
    | none =>
      obtain rfl : rd = .status := by cases rd <;> simp [Read.next] at hn ⊢
      cases l with
      | true => exact .moves (.passedTwice hp)
      | false => exact .moves (.passed hp)
  | false =>
    rw [if_neg Bool.false_ne_true]
    cases l with
    | true => exact .moves (.failsTwice rd p)
    | false => exact .moves (.fails rd p)

theorem goto_self {p : Pc} (hi : s.acts[i]? = some p) : s.goto i p = s := by
  have : s.acts.set i p = s.acts := by
    apply ext_getElem?
    intro j
    rw [getElem?_set]
    split_ifs with h h'
    · rw [← h, hi]
    · rw [getElem?_eq_none (by omega)]
    · rfl
  simp only [goto, this]

theorem advance_works {p : Pc} (hp : s.acts[i]? = some p) (ht : s.advance i r p = some t) :
    Works s i r p t := by
  cases p with cases ht
  | opening k id => exact .opened k id
  | checkId p =>
    split_ifs with h
    · exact .moves (.current h)
    · exact .moves (.outdated h)
  | checkStatus p =>
    unfold checkStatus
    split_ifs with h hh
    · exact .moves (.invalid h)
    · exact .moves (.high hh)
    · exact .moves (.low (by simpa using hh))
  | canDirectSend l rd p => exact canDirectSend_works l rd p
  | tryLock p =>
    unfold tryLock
    split_ifs with h
    · exact .moves (.busy p)
    · exact .locked (by simpa using h)
  | write p => exact directWrite_works p
  | unlock k p =>
    cases k with
    | none => exact .returned p
    | some w => exact .unlocked w p
  | incType w p =>
    unfold incType
    split_ifs with h
    · exact .moves (.tcp h)
    · exact .moves (.notTcp h)
  | inc w p =>
    unfold incSendingCount
    simp only
    split_ifs with h hn
    · have hfull : Works s i r (.inc w p) (s.goto i (.inc w p)) := .moves .full
      rwa [goto_self hp] at hfull
    · exact .counted h hn
    · exact .moves (.stale h)
  | push w p =>
    cases w with
    | true => exact .triggers p
    | false => exact .pushed p

end Inversion

/-! ### The socket thread -/

/-- At most one command is read from the pipe, and it is none of `O`, `L`, `B`, `D`, `P`. -/
inductive Skips : List Cmd → List Cmd → Prop
  | same (l : List Cmd) : Skips l l
  | pop {c : Cmd} {l : List Cmd} (ho : c.isOpen = false) (hs : c.isSend = false) : Skips (c :: l) l

/-- The effects of a step of the socket thread. -/
inductive Polls (s : State) (a : Action) : State → Prop
  | crash {t : State} (hf : t.fault ≠ none)
      (hn : t.fault = some .noSending → ∃ id, s.poll = .dec id ∧ s.sock.socketId = id ∧
        s.sock.type = .tcp ∧ s.sock.sendingCount.n = 0) : Polls s a t
  | flags {rest : List Cmd} (hp : Skips s.pipe rest) (hi : s.poll = .idle) (rd wr : Bool)
      (e : Option SocketEvent) (id : ℕ) (he : e ≠ some .close) :
      Polls s a (({ s with pipe := rest }.setSock
        { s.sock with reading := rd, writing := wr }).report e id)
  | entered {rest : List Cmd} (hp : Skips s.pipe rest) (hi : s.poll = .idle) (st : Status)
      (hst : s.sock.status = .prepareAccept ∧ st = .connected ∨
        s.sock.status = .prepareListen ∧ st = .listen ∨
        s.sock.status = .connecting ∧ st = .connected) (rd wr : Bool) (id : ℕ) :
      Polls s a (({ s with pipe := rest }.setSock
        { s.sock with status := st, reading := rd, writing := wr }).report (some .opened) id)
  | opened {rest : List Cmd} {k : OpenKind} {id : ℕ} (hp : s.pipe = .opening k id :: rest)
      (hi : s.poll = .idle) (ha : s.sock.status = .alloced) (hl : s.sock.isWriteBufferEmpty = true)
      (st : Status) (hst : st.live = true ∧ st ≠ .halfCloseRead) (rd wr : Bool)
      (e : Option SocketEvent) (he : e ≠ some .close) :
      Polls s a (({ s with pipe := rest, wire := [] }.setSock
        { s.sock.newSocket id rd with status := st, writing := wr }).report e id)
  | openFailed {rest : List Cmd} {k : OpenKind} {id : ℕ} (hp : s.pipe = .opening k id :: rest)
      (hi : s.poll = .idle) :
      Polls s a (({ s with pipe := rest }.setSock
        { s.sock with status := .invalid }).report (some .error) id)
  | openUndone {rest : List Cmd} {k : OpenKind} {id : ℕ} (hp : s.pipe = .opening k id :: rest)
      (hi : s.poll = .idle) (ha : s.sock.status = .alloced) (rd wr : Bool) :
      Polls s a (({ s with pipe := rest }.setSock
        { s.sock.newSocket id rd with status := .invalid, writing := wr }).report (some .error) id)
  | appended {rest : List Cmd} {p : Packet} (hp : s.pipe = .send p :: rest) (hi : s.poll = .idle)
      (hr : s.sock.refuses p.id = false) (wr : Bool) (ws : ℤ) (es : List (SocketEvent × ℕ))
      (he : ∀ id, (.close, id) ∉ es) :
      Polls s a { s with
        pipe := rest
        sock := { s.sock.append (s.sock.isWriteBufferEmpty || p.high) p with
          writing := wr, warnSize := ws }
        events := s.events ++ es
        poll := .dec p.id }
  | closes {rest : List Cmd} (hp : Skips s.pipe rest) (k : After) (st : Status) (wr : Bool)
      (hl : s.sock.status.live = true)
      (hst : st = s.sock.status ∨ s.sock.status = .connecting ∧ st = .connected)
      (hk : s.poll = .idle ∧ k ≠ .flushed ∨ (s.poll = .sendHigh ∨ s.poll = .sendLow) ∧ k = .flushed)
      (hc : k.closes = true → s.sock.status ≠ .halfCloseRead ∨
        ∃ e o r, a = .event e o r ∧ e.eofOnly = true) :
      Polls s a { s with
        pipe := rest
        sock := { s.sock with status := st, writing := wr, high := [], low := [] }
        dropped := s.dropped ++ (s.sock.high ++ s.sock.low).map WriteBuffer.packet
        poll := .closing s.sock.socketId k }
  | closing {rest : List Cmd} {id : ℕ} {o : Outcome} (ha : a = .command o)
      (hp : s.pipe = .close id false :: rest) (hi : s.poll = .idle) (hv : s.sock.isInvalid id = false)
      (hn : s.sock.nomoreSendingData = false) (hr : s.sock.isCloseRead = true) :
      Polls s a (({ s with pipe := rest }.setSock { s.sock with closing := true }).report none id)
  | closingRead {rest : List Cmd} {id : ℕ} {o : Outcome} (ha : a = .command o)
      (hp : s.pipe = .close id false :: rest) (hi : s.poll = .idle) (hv : s.sock.isInvalid id = false)
      (hn : s.sock.nomoreSendingData = false) (hr : s.sock.isCloseRead = false) :
      Polls s a (({ s with pipe := rest }.setSock
        { s.sock with status := .halfCloseRead, reading := false, closing := true }).report
          (some .close) id)
  | closedRead (hi : s.poll = .idle) (ht : s.sock.type = .tcp) (hv : s.sock.status ≠ .invalid)
      (hc : s.sock.closing = false) (hr : s.sock.isCloseRead = false) :
      Polls s a (s.closeRead.report (some .close) s.sock.socketId)
  | flushes (hi : s.poll = .idle) (hm : s.mutex = false) (size : ℤ) :
      Polls s a { s with
        sock := { s.sock with
          high := s.sock.direct.toList ++ s.sock.high, writeBufferSize := size, direct := none }
        mutex := true
        poll := .sendHigh }
  | toLow (hp : s.poll = .sendHigh) (hh : s.sock.high = []) : Polls s a { s with poll := .sendLow }
  | spins : Polls s a s
  | ends (hp : s.poll = .sendHigh ∨ s.poll = .sendLow) (wr : Bool) (ws : ℤ)
      (e : Option SocketEvent) (he : e ≠ some .close)
      (hc : s.sock.closing = true → s.sock.isWriteBufferEmpty = false ∨ s.sock.status = .invalid) :
      Polls s a ((s.setSock { s.sock with writing := wr, warnSize := ws }).endWrite e)
  | wroteHigh {b : WriteBuffer} {rest : List WriteBuffer} (hp : s.poll = .sendHigh)
      (hh : s.sock.high = b :: rest) (size : ℤ) :
      Polls s a { s with
        wire := s.wire ++ b.packet.data.drop b.ptr
        sock := { s.sock with high := rest, writeBufferSize := size } }
  | partHigh {b : WriteBuffer} {rest : List WriteBuffer} {n : ℕ} (hp : s.poll = .sendHigh)
      (hh : s.sock.high = b :: rest) (hn : n < b.sz) (size : ℤ) :
      Polls s a ({ s with
        wire := s.wire ++ (b.packet.data.drop b.ptr).take n
        sock := { s.sock with
          high := ⟨b.packet, b.ptr + n⟩ :: rest, writeBufferSize := size } }.endWrite none)
  | wroteLow {b : WriteBuffer} {rest : List WriteBuffer} (hp : s.poll = .sendLow)
      (hl : s.sock.low = b :: rest) (size : ℤ) :
      Polls s a { s with
        wire := s.wire ++ b.packet.data.drop b.ptr
        sock := { s.sock with low := rest, writeBufferSize := size } }
  | partLow {b : WriteBuffer} {rest : List WriteBuffer} {n : ℕ} (hp : s.poll = .sendLow)
      (hl : s.sock.low = b :: rest) (hh : s.sock.high = []) (hn : n ≤ b.sz) (size : ℤ) :
      Polls s a ({ s with
        wire := s.wire ++ (b.packet.data.drop b.ptr).take n
        sock := { s.sock with
          high := [⟨b.packet, b.ptr + n⟩], low := rest, writeBufferSize := size } }.endWrite none)
  | closedWrite (hp : s.poll = .sendHigh ∨ s.poll = .sendLow) (hc : s.sock.closing = false)
      (hr : s.sock.isCloseRead = false) (he : s.sock.isWriteBufferEmpty = false) :
      Polls s a ((s.setSock { s.sock with
        status := .halfCloseWrite, writing := false }).endWrite (some .error))
  | closed {id : ℕ} {k : After} (hp : s.poll = .closing id k)
      (hm : s.mutex = false ∨ k = .flushed) :
      Polls s a ({ s with
        sock := { s.sock with status := .invalid, direct := none }
        dropped := s.dropped ++ s.sock.direct.toList.map WriteBuffer.packet }.resume id k)
  | decremented {id : ℕ} (hp : s.poll = .dec id) (hid : s.sock.socketId = id)
      (ht : s.sock.type = .tcp) (hn : s.sock.sendingCount.n ≠ 0) :
      Polls s a { s with
        sock := { s.sock with
          sendingCount := ⟨s.sock.sendingCount.id, s.sock.sendingCount.n - 1⟩ }
        poll := .idle }
  | skipped {id : ℕ} (hp : s.poll = .dec id) (h : ¬ (s.sock.socketId = id ∧ s.sock.type = .tcp)) :
      Polls s a { s with poll := .idle }
  | accepts (hi : s.poll = .idle) (hv : s.sock.status = .invalid) (o : Outcome) :
      Polls s a (s.acceptHere o)

section Inversion

variable {s t : State} {a : Action}

theorem forceClose_polls {rest : List Cmd} (hp : Skips s.pipe rest) {k : After} {st : Status}
    {wr : Bool} (hv : s.sock.status ≠ .invalid)
    (hst : st = s.sock.status ∨ s.sock.status = .connecting ∧ st = .connected)
    (hk : s.poll = .idle ∧ k ≠ .flushed ∨ (s.poll = .sendHigh ∨ s.poll = .sendLow) ∧ k = .flushed)
    (hc : k.closes = true → s.sock.status ≠ .halfCloseRead ∨
      ∃ e o r, a = .event e o r ∧ e.eofOnly = true) : Polls s a (({ s with pipe := rest }.setSock
      { s.sock with status := st, writing := wr }).forceClose k) := by
  by_cases ha : st = .alloced
  · subst ha
    exact .crash (by simp [forceClose, setSock, crash])
      (by simp [forceClose, setSock, crash])
  · have hst' : st ≠ .invalid := by
      rcases hst with rfl | ⟨_, rfl⟩
      · exact hv
      · exact nofun
    have hlive : s.sock.status.live = true := by
      rcases hst with rfl | ⟨h, _⟩
      · cases hs : s.sock.status <;> simp_all [Status.live]
      · rw [h]
        rfl
    have heq : ({ s with pipe := rest }.setSock
        { s.sock with status := st, writing := wr }).forceClose k = { s with
          pipe := rest
          sock := { s.sock with status := st, writing := wr, high := [], low := [] }
          dropped := s.dropped ++ (s.sock.high ++ s.sock.low).map WriteBuffer.packet
          poll := .closing s.sock.socketId k } := by
      cases st with
      | invalid => exact absurd rfl hst'
      | alloced => exact absurd rfl ha
      | _ => rfl
    rw [heq]
    exact .closes hp k st wr hlive hst hk hc

/-! ### Commands -/

section Commands

variable {rest : List Cmd} {id : ℕ} {o : Outcome}

theorem handleOpen_polls {k : OpenKind} (hp : s.pipe = .opening k id :: rest) (hi : s.poll = .idle) :
    Polls s a ({ s with pipe := rest }.handleOpen k id o) := by
  unfold handleOpen
  extract_lets free x
  split_ifs with hf ha hadd hl ho
  · exact .openFailed hp hi
  · exact .crash (by simp [crash]) (by simp [crash])
  · exact .openFailed hp hi
  · exact .crash (by simp [crash]) (by simp [crash])
  all_goals
    have ha' : s.sock.status = .alloced := of_not_not ha
    have hl' : s.sock.isWriteBufferEmpty = true := by simpa using hl
  · subst ho
    cases k with
    | connect => exact .openUndone hp hi ha' true true
    | listen => exact .openUndone hp hi ha' false false
    | bind => exact .opened hp hi ha' hl' .bind ⟨rfl, nofun⟩ true false (some .opened) nofun
  · cases k with
    | connect =>
      cases o with
      | inProgress =>
        exact .opened hp hi ha' hl' .connecting ⟨rfl, nofun⟩ true true none nofun
      | enableFailed => exact absurd rfl ho
      | _ => exact .opened hp hi ha' hl' .connected ⟨rfl, nofun⟩ true false (some .opened) nofun
    | listen => exact .opened hp hi ha' hl' .prepareListen ⟨rfl, nofun⟩ false false none nofun
    | bind => exact .opened hp hi ha' hl' .bind ⟨rfl, nofun⟩ true false (some .opened) nofun

theorem handleSend_polls {p : Packet} (hp : s.pipe = .send p :: rest) (hi : s.poll = .idle) :
    Polls s a ({ s with pipe := rest }.handleSend p o) := by
  unfold handleSend
  extract_lets x y failed warns e
  by_cases hr : x.refuses p.id = true
  · rw [if_pos hr]
    exact .crash (by simp [crash]) (by simp [crash])
  · rw [if_neg hr]
    refine .appended hp hi (by simpa using hr) _ _ _ fun id => ?_
    simp only [e]
    split_ifs <;> simp

theorem handleTriggerWrite_polls (hp : s.pipe = .triggerWrite id :: rest) (hi : s.poll = .idle) :
    Polls s a ({ s with pipe := rest }.handleTriggerWrite id o) := by
  have hskip : Skips s.pipe rest := hp ▸ .pop rfl rfl
  unfold handleTriggerWrite
  split_ifs
  · exact .flags hskip hi s.sock.reading s.sock.writing none id nofun
  · exact .flags hskip hi s.sock.reading true (some .error) id nofun
  · exact .flags hskip hi s.sock.reading true none id nofun

theorem handleClose_polls {shutdown : Bool} (ha : a = .command o)
    (hp : s.pipe = .close id shutdown :: rest) (hi : s.poll = .idle) :
    Polls s a ({ s with pipe := rest }.handleClose id shutdown) := by
  have hskip : Skips s.pipe rest := hp ▸ .pop rfl rfl
  unfold handleClose
  extract_lets u
  cases hv : s.sock.isInvalid id with
  | true =>
    rw [if_pos rfl]
    exact .flags hskip hi s.sock.reading s.sock.writing none id nofun
  | false =>
    rw [if_neg Bool.false_ne_true]
    by_cases hn : (shutdown || s.sock.nomoreSendingData) = true
    · rw [if_pos hn]
      refine forceClose_polls hskip (SocketObject.isInvalid_eq_false hv).2 (.inl rfl)
        (.inl ⟨hi, nofun⟩) fun hk => .inl fun hs => ?_
      have hr : s.sock.isCloseRead = true := by simp [SocketObject.isCloseRead, hs]
      simp [hr, After.closes] at hk
    · rw [if_neg hn]
      obtain ⟨rfl, hmore⟩ : shutdown = false ∧ s.sock.nomoreSendingData = false := by
        simpa using hn
      split_ifs with hr
      · exact .closing ha hp hi hv hmore hr
      · exact .closingRead ha hp hi hv hmore (by simpa using hr)

theorem handleResume_polls (hp : s.pipe = .resume id :: rest) (hi : s.poll = .idle) :
    Polls s a ({ s with pipe := rest }.handleResume id o) := by
  have hskip : Skips s.pipe rest := hp ▸ .pop rfl rfl
  unfold handleResume
  extract_lets x
  split_ifs
  · exact .flags hskip hi s.sock.reading s.sock.writing (some .error) id nofun
  · exact .flags hskip hi s.sock.reading s.sock.writing none id nofun
  · exact .flags hskip hi true s.sock.writing (some .error) id nofun
  · split
    case _ hs => exact .entered hskip hi .connected (.inl ⟨hs, rfl⟩) true s.sock.writing id
    case _ hs => exact .entered hskip hi .listen (.inr (.inl ⟨hs, rfl⟩)) true s.sock.writing id
    case _ => exact .flags hskip hi true s.sock.writing (some .opened) id nofun
    case _ => exact .flags hskip hi true s.sock.writing none id nofun

theorem handlePause_polls (hp : s.pipe = .pause id :: rest) (hi : s.poll = .idle) :
    Polls s a ({ s with pipe := rest }.handlePause id o) := by
  have hskip : Skips s.pipe rest := hp ▸ .pop rfl rfl
  unfold handlePause
  split_ifs
  · exact .flags hskip hi s.sock.reading s.sock.writing none id nofun
  · exact .flags hskip hi false s.sock.writing (some .error) id nofun
  · exact .flags hskip hi false s.sock.writing none id nofun

theorem handleCtrlCmd_polls {c : Cmd} (ha : a = .command o) (hp : s.pipe = c :: rest)
    (hi : s.poll = .idle) : Polls s a ({ s with pipe := rest }.handleCtrlCmd o c) := by
  cases c with
  | opening => exact handleOpen_polls hp hi
  | send => exact handleSend_polls hp hi
  | triggerWrite => exact handleTriggerWrite_polls hp hi
  | close => exact handleClose_polls ha hp hi
  | resume => exact handleResume_polls hp hi
  | pause => exact handlePause_polls hp hi

end Commands

/-! ### Events -/

section Events

variable {o : Outcome}

variable (hi : s.poll = .idle)

include hi

theorem handleConnect_polls (hs : s.sock.status = .connecting) : Polls s a (s.handleConnect o) := by
  have hv : s.sock.status ≠ .invalid := by rw [hs]; exact nofun
  unfold handleConnect
  extract_lets u v
  split_ifs
  · exact forceClose_polls (.same _) hv (.inl rfl) (.inl ⟨hi, nofun⟩) nofun
  · exact forceClose_polls (.same _) hv (.inr ⟨hs, rfl⟩) (.inl ⟨hi, nofun⟩) nofun
  · exact .entered (.same _) hi .connected (.inr (.inr ⟨hs, rfl⟩)) s.sock.reading false _
  · exact .entered (.same _) hi .connected (.inr (.inr ⟨hs, rfl⟩)) s.sock.reading s.sock.writing _

theorem report_polls (e : Option SocketEvent) (id : ℕ) (he : e ≠ some .close) :
    Polls s a (s.report e id) :=
  .flags (.same _) hi s.sock.reading s.sock.writing e id he

theorem handleAccept_polls : Polls s a (s.handleAccept o) := by
  cases o with
  | done | failed => exact report_polls hi _ _ nofun
  | _ => exact report_polls hi _ _ nofun

theorem forwardMessage_polls {r : ReadResult} (hv : s.sock.status ≠ .invalid) :
    Polls s a (s.forwardMessage r) := by
  unfold forwardMessage
  by_cases ht : s.sock.type = .tcp
  · rw [if_neg (not_not.2 ht)]
    cases r with
    | retry => exact report_polls hi _ _ nofun
    | error => exact forceClose_polls (.same _) hv (.inl rfl) (.inl ⟨hi, nofun⟩) nofun
    | zero =>
      simp only
      split_ifs with hc _ hr hw
      · exact forceClose_polls (.same _) hv (.inl rfl) (.inl ⟨hi, nofun⟩) nofun
      · exact report_polls hi _ _ nofun
      · exact report_polls hi _ _ nofun
      · refine forceClose_polls (.same _) hv (.inl rfl) (.inl ⟨hi, nofun⟩) fun _ =>
          .inl fun hs => ?_
        simp [SocketObject.isCloseRead, hs] at hr
      · exact .closedRead hi ht hv (by simpa using hc) (by simpa using hr)
    | bytes =>
      refine report_polls hi _ _ ?_
      split_ifs <;> exact nofun
  · rw [if_pos ht]
    exact forceClose_polls (.same _) hv (.inl rfl) (.inl ⟨hi, nofun⟩) nofun

theorem sendWriteBuffer_polls : Polls s a s.sendWriteBuffer := by
  unfold sendWriteBuffer
  extract_lets x
  split_ifs with hm hl
  · exact report_polls hi _ _ nofun
  · exact .crash (by simp [crash]) (by simp [crash])
  · exact .flushes hi (by simpa using hm) _

theorem handleEvent_polls {e : Event} {r : ReadResult} (ha : a = .event e o r) :
    Polls s a (s.handleEvent e o r) := by
  unfold handleEvent
  split
  case _ hs => exact handleConnect_polls hi hs
  case _ => exact handleAccept_polls hi
  case _ => exact report_polls hi _ _ nofun
  case _ _ _ hv =>
      split_ifs with hr hw he hf
      · exact forwardMessage_polls hi hv
      · exact sendWriteBuffer_polls hi
      · exact forceClose_polls (.same _) hv (.inl rfl) (.inl ⟨hi, nofun⟩) nofun
      · refine forceClose_polls (.same _) hv (.inl rfl) (.inl ⟨hi, nofun⟩) fun _ =>
          .inr ⟨e, o, r, ha, ?_⟩
        simp [Event.eofOnly, hr, hw, he, hf]
      · exact report_polls hi _ _ nofun

omit hi

end Events

/-! ### Writing -/

section Writing

variable {r : WriteResult} {o : Outcome}

variable (hp : s.poll = .sendHigh ∨ s.poll = .sendLow)

include hp

/-- Leaving `send_write_buffer` without a change. -/
theorem endWrite_polls (e : Option SocketEvent) (he : e ≠ some .close)
    (hc : s.sock.closing = true → s.sock.isWriteBufferEmpty = false ∨ s.sock.status = .invalid) :
    Polls s a (s.endWrite e) :=
  .ends hp s.sock.writing s.sock.warnSize e he hc

theorem forceClose_flushed_polls : Polls s a (s.forceClose .flushed) := by
  by_cases hv : s.sock.status = .invalid
  · have heq : s.forceClose .flushed = s.endWrite none := by
      unfold forceClose
      rw [hv]
      rfl
    rw [heq]
    exact endWrite_polls hp none nofun fun _ => .inr hv
  · exact forceClose_polls (.same _) hv (.inl rfl) (.inr ⟨hp, rfl⟩) nofun

theorem closeWrite_polls (he : s.sock.isWriteBufferEmpty = false) : Polls s a s.closeWrite := by
  unfold closeWrite
  split_ifs with hc hw
  · exact forceClose_flushed_polls hp
  · exact endWrite_polls hp none nofun fun _ => .inl he
  · obtain ⟨hc, hr⟩ : s.sock.closing = false ∧ s.sock.isCloseRead = false := by simpa using hc
    exact .closedWrite hp hc hr he

theorem finishWrite_polls : Polls s a (s.finishWrite o) := by
  unfold finishWrite
  extract_lets u
  split_ifs with hz hc
  · exact .crash (by simp [crash]) (by simp [crash])
  · exact forceClose_flushed_polls hp
  · exact .ends hp false s.sock.warnSize _ nofun fun h => absurd h hc
  · exact .ends hp false 0 _ nofun fun h => absurd h hc
  · exact .ends hp false s.sock.warnSize _ nofun fun h => absurd h hc

omit hp

variable {rest : List WriteBuffer}

variable {b : WriteBuffer}

theorem isWriteBufferEmpty_of_high {x : SocketObject} (h : x.high = b :: rest) :
    x.isWriteBufferEmpty = false := by
  simp [SocketObject.isWriteBufferEmpty, h]

theorem isWriteBufferEmpty_of_low {x : SocketObject} (h : x.low = b :: rest) :
    x.isWriteBufferEmpty = false := by
  simp [SocketObject.isWriteBufferEmpty, h]

theorem take_all {n : ℕ} (hn : min n b.sz = b.sz) :
    (b.packet.data.drop b.ptr).take (min n b.sz) = b.packet.data.drop b.ptr := by
  rw [hn, take_of_length_le (by simp [WriteBuffer.sz])]

theorem sendHigh_polls (hp : s.poll = .sendHigh) : Polls s a (s.sendHigh r o) := by
  unfold sendHigh
  cases hh : s.sock.high with
  | nil =>
    split_ifs
    · exact finishWrite_polls (.inl hp)
    · exact .toLow hp hh
  | cons b rest =>
    have he := isWriteBufferEmpty_of_high hh
    cases r with
    | interrupted => exact .spins
    | again => exact endWrite_polls (.inl hp) none nofun fun _ => .inl he
    | error => exact closeWrite_polls (.inl hp) he
    | bytes n =>
      simp only
      split_ifs with hn
      · simp only [wrote, setSock, State.WriteBuffer.advance, if_pos hn, take_all hn]
        exact .wroteHigh hp hh _
      · simp only [wrote, setSock, State.WriteBuffer.advance, if_neg hn]
        exact .partHigh hp hh (by omega) _

/-- Step 3 after `m` bytes of the head of the low list. -/
theorem raiseUncomplete_polls {m : ℕ} {size : ℤ} (hp : s.poll = .sendLow)
    (hl : s.sock.low = b :: rest) (hm : m ≤ b.sz) (hsize : m = 0 → size = s.sock.writeBufferSize) :
    Polls s a { s with
      wire := s.wire ++ (b.packet.data.drop b.ptr).take m
      sock := { s.sock with
        low := ⟨b.packet, b.ptr + m⟩ :: rest, writeBufferSize := size } }.raiseUncomplete := by
  unfold raiseUncomplete
  simp only
  split_ifs with hz hh
  · obtain ⟨hb, rfl⟩ : b.ptr = 0 ∧ m = 0 := by omega
    rw [hsize rfl, take_zero, append_nil, add_zero, ← hl]
    exact endWrite_polls (.inr hp) none nofun fun _ => .inl (isWriteBufferEmpty_of_low hl)
  · exact .partLow hp hl (isEmpty_iff.1 hh) hm size
  · exact .crash (by simp [crash]) (by simp [crash])

theorem sendLow_polls (hp : s.poll = .sendLow) : Polls s a (s.sendLow r o) := by
  unfold sendLow
  cases hl : s.sock.low with
  | nil => exact finishWrite_polls (.inr hp)
  | cons b rest =>
    have he := isWriteBufferEmpty_of_low hl
    cases r with
    | interrupted => exact .spins
    | again =>
      have := raiseUncomplete_polls (a := a) hp hl (Nat.zero_le _) fun _ => rfl
      rw [take_zero, append_nil, add_zero, ← hl] at this
      exact this
    | error => exact closeWrite_polls (.inr hp) he
    | bytes n =>
      simp only
      split_ifs with hn
      · simp only [wrote, setSock, State.WriteBuffer.advance, if_pos hn, take_all hn]
        exact .wroteLow hp hl _
      · simp only [wrote, setSock, State.WriteBuffer.advance, if_neg hn]
        exact raiseUncomplete_polls hp hl (by omega) fun h => by rw [h]; simp

theorem pollStep_polls (ht : s.pollStep r o = some t) : Polls s a t := by
  unfold pollStep at ht
  cases hp : s.poll with simp only [hp, Option.some.injEq] at ht
  | idle => cases ht
  | dec id =>
    subst ht
    unfold decSendingCount
    extract_lets x
    split_ifs with h hn
    · exact .crash (by simp [crash]) fun _ => ⟨id, hp, h.1, h.2, hn⟩
    · exact .decremented hp h.1 h.2 hn
    · exact .skipped hp h
  | closing id k =>
    simp only [hp, closeSocket] at ht
    split_ifs at ht with hm
    cases ht
    refine .closed hp ?_
    by_cases hk : k = .flushed
    · exact .inr hk
    · exact .inl (by simpa [hk] using hm)
  | sendHigh =>
    exact ht ▸ sendHigh_polls hp
  | sendLow =>
    exact ht ▸ sendLow_polls hp

end Writing

end Inversion

/-! ### After `force_close` -/

namespace State

variable (s : State) (id : ℕ) (k : After)

@[simp] theorem resume_sock : (s.resume id k).sock = s.sock := by cases k <;> rfl
@[simp] theorem resume_pipe : (s.resume id k).pipe = s.pipe := by cases k <;> rfl
@[simp] theorem resume_fault : (s.resume id k).fault = s.fault := by cases k <;> rfl
@[simp] theorem resume_acts : (s.resume id k).acts = s.acts := by cases k <;> rfl
@[simp] theorem resume_poll : (s.resume id k).poll = .idle := by cases k <;> rfl
@[simp] theorem resume_known : (s.resume id k).known = s.known := by cases k <;> rfl
@[simp] theorem resume_accepted : (s.resume id k).accepted = s.accepted := by cases k <;> rfl
@[simp] theorem resume_dropped : (s.resume id k).dropped = s.dropped := by cases k <;> rfl
@[simp] theorem resume_ncalls : (s.resume id k).ncalls = s.ncalls := by cases k <;> rfl

end State

/-! ### Steps -/

/-- The steps of the system before faults are looked at. -/
inductive Acts (s : State) : Action → State → Prop
  | thread : Acts s .thread { s with acts := s.acts ++ [Pc.idle] }
  | send {i id : ℕ} {high : Bool} {data : List UInt8} (hp : s.acts[i]? = some .idle)
      (hid : id ≤ s.known) : Acts s (.send i id high data) (s.call i id high data)
  | alloc {i : ℕ} {k : OpenKind} (hp : s.acts[i]? = some .idle) (hs : s.sock.status = .invalid) :
      Acts s (.alloc i k)
        ({ s with sock := s.sock.alloc, wire := [] }.goto i (.opening k (s.sock.socketId + 1)))
  | run {i : ℕ} {r : WriteResult} {p : Pc} {t : State} (hp : s.acts[i]? = some p)
      (ht : Works s i r p t) : Acts s (.run i r) t
  | control {c : Cmd} (hc : c.isControl = true) (hid : c.id ≤ s.known) :
      Acts s (.control c) { s with pipe := s.pipe ++ [c] }
  | poll {a : Action} {t : State} (ht : Polls s a t) : Acts s a t

namespace State

variable {s t : State} {a : Action}

theorem act_cases (h : s.act a = some t) : Acts s a t := by
  cases a with
  | thread =>
    cases h
    exact .thread
  | send i id high data =>
    simp only [act] at h
    split_ifs at h with hc
    cases h
    exact .send hc.1 hc.2
  | alloc i k =>
    simp only [act, alloc] at h
    split_ifs at h with hp hs
    cases h
    exact .alloc hp hs
  | run i r =>
    obtain ⟨p, hp, ht⟩ := Option.bind_eq_some_iff.mp h
    exact .run hp (advance_works hp ht)
  | control c =>
    simp only [act] at h
    split_ifs at h with hc
    cases h
    exact .control hc.1 hc.2
  | command o =>
    simp only [act] at h
    split at h
    case _ c rest hi hp =>
      cases h
      exact .poll (handleCtrlCmd_polls rfl hp hi)
    case _ => cases h
  | event e o r =>
    simp only [act] at h
    split_ifs at h with hi
    cases h
    exact .poll (handleEvent_polls hi rfl)
  | accept o =>
    simp only [act] at h
    split_ifs at h with hi
    cases h
    exact .poll (.accepts hi.1 hi.2 o)
  | poll r o => exact .poll (pollStep_polls h)

/-- A step does what `Acts` says, or stops the process. -/
theorem step_cases (h : s.step a = some t) : s.fault = none ∧
    ∃ u, Acts s a u ∧ (u.fault = none ∧ t = u ∨ ∃ f, u.fault = some f ∧ t = s.crash f) := by
  unfold step at h
  split_ifs at h with hf
  obtain ⟨u, hu, rfl⟩ := Option.map_eq_some_iff.mp h
  refine ⟨hf, u, act_cases hu, ?_⟩
  unfold stop
  cases hfu : u.fault with
  | none => exact .inl ⟨rfl, rfl⟩
  | some f => exact .inr ⟨f, rfl, rfl⟩

end State

end Skynet.Socket
