import Skynet.ByteReader
import Skynet.LuaText
import Skynet.MachineInt
import Skynet.Transition

/-! # Reading a socket

`skynet.socket` on top of the receive buffer of `lua-socket.cpp`, for one connected TCP socket that
one coroutine reads: `socket.read(id, sz)` and `socket.read_line(id, sep)`, and the handlers of the
`DATA` and `CLOSE` events.  A reader that has to wait says what it waits for in `read_required`;
the handler of `DATA` wakes it when that has arrived.  When the buffer is above `BUFFER_LIMIT` the
handler pauses the socket first, and `pause_socket` yields.

When `CLOSE` is handled in that yield, `socket.read_line` returns `false` although the line has
arrived (`line_lost_at_close`).  Otherwise the results are those of the flat stream, however it is
cut, and no reader is left behind (`reads_flat_stream`).

A step is a handler or a piece of the reader up to its next yield.  A coroutine that was woken goes
on before the next message is handled.

* The receive buffer is the list of its nodes, without the bytes of the first node that have been
  read; `size` is its field of that name.
* `waking` counts the handlers that are in the yield of `pause_socket` and call `wakeup_socket`
  after it.
* `paused` is whether `is_pause` was set when the reader was suspended.

`stream` and `results` record the history; no step reads them.  Reading without a size, limits set
by `socket.limit` and closing by the service are left out. -/

namespace Skynet.SocketRead

open List LuaText ByteReader MachineInt Transition

def bufferLimit : ℤ := 128 * 1024

/-! ### The receive buffer -/

def checkSep : List Bytes → Bytes → Bool
  | [], sep => sep.isEmpty
  | node :: nodes, sep =>
    if sep.length ≤ node.length then sep.isPrefixOf node
    else node.isPrefixOf sep && checkSep nodes (sep.drop node.length)

/-- One byte further on. -/
def advance : List Bytes → List Bytes
  | [] => []
  | node :: nodes => if node.length ≤ 1 then nodes else node.tail :: nodes

/-- The loop of `l_read_line`, for `n` more rounds: where the separator is. -/
def scan (sep : Bytes) : ℕ → List Bytes → Option ℕ
  | 0, _ => none
  | _ + 1, [] => none
  | n + 1, node :: nodes =>
    if checkSep (node :: nodes) sep then some 0
    else (scan sep n (advance (node :: nodes))).map (· + 1)

structure Buffer where
  nodes : List Bytes
  size : ℤ
deriving DecidableEq, Repr

namespace Buffer

/-- `l_push_socket_recv_buffer` -/
def push (b : Buffer) (data : Bytes) : Buffer :=
  ⟨b.nodes ++ [data], toInt (b.size + toInt data.length)⟩

/-- `_pop_lstring`: `sz` bytes are taken, and the last `skip` are left out. -/
def popLstring (b : Buffer) (sz skip : ℕ) : Option (Bytes × Buffer) :=
  (readExact sz b.nodes).map fun r => (r.1.take (sz - skip), ⟨r.2, b.size - sz⟩)

/-- `l_pop_socket_recv_buffer` -/
def pop (b : Buffer) (n : ℕ) : Option (Bytes × Buffer) :=
  if b.size < toInt n ∨ toInt n = 0 then none else b.popLstring (toInt n).toNat 0

/-- `l_read_line` without a pool -/
def hasLine (b : Buffer) (sep : Bytes) : Option ℕ :=
  scan sep (b.size - toInt sep.length + 1).toNat b.nodes

/-- `l_read_line` -/
def readLine (b : Buffer) (sep : Bytes) : Option (Bytes × Buffer) :=
  (b.hasLine sep).bind fun i => b.popLstring (i + sep.length) sep.length

/-- `l_read_all` -/
def readAll (_ : Buffer) : Buffer := ⟨[], 0⟩

end Buffer

/-! ### The socket -/

inductive Request where
  | read (sz : ℕ)
  | readLine (sep : Bytes)
deriving DecidableEq, Repr

inductive Result where
  | data (s : Bytes)
  /-- `false` and the rest -/
  | closed (rest : Bytes)
  /-- `nil` -/
  | nothing
deriving DecidableEq, Repr

inductive Reader where
  | idle
  | suspended (r : Request) (paused : Bool)
  | woken (r : Request) (paused : Bool)
deriving DecidableEq, Repr

structure State where
  buffer : Buffer
  connected : Bool
  readRequired : Option Request
  isPause : Bool
  reader : Reader
  waking : ℕ
  -- the history
  stream : Bytes
  results : List (Request × Result)
deriving DecidableEq, Repr

inductive Label where
  | data (s : Bytes)
  | close
  /-- a handler in `pause_socket` goes on -/
  | yielded
  | call (r : Request)
  /-- the reader goes on after it was woken -/
  | resume
deriving DecidableEq, Repr

/-- The first attempt of `socket.read` and `socket.read_line`. -/
def Buffer.take (b : Buffer) : Request → Option (Bytes × Buffer)
  | .read n => b.pop n
  | .readLine sep => b.readLine sep

/-- The buffer has what is required, as the handler of `DATA` sees it. -/
def Buffer.suffices (b : Buffer) : Request → Bool
  | .read n => (n : ℤ) ≤ b.size
  | .readLine sep => (b.hasLine sep).isSome

namespace State

/-- `wakeup_socket` -/
def wakeup (s : State) : State :=
  match s.reader with
  | .suspended r paused => { s with reader := .woken r paused }
  | _ => s

/-- The handler of `DATA`. -/
def onData (s : State) (data : Bytes) : State :=
  let t := { s with buffer := s.buffer.push data, stream := s.stream ++ data }
  let pausing := bufferLimit < t.buffer.size ∧ s.isPause = false
  match s.readRequired with
  | some r =>
    if t.buffer.suffices r then
      let t := { t with readRequired := none }
      if pausing then { t with isPause := true, waking := s.waking + 1 } else t.wakeup
    else t
  | none => if pausing then { t with isPause := true } else t

/-- The handler of `CLOSE`. -/
def onClose (s : State) : State := { s with connected := false }.wakeup

def finish (s : State) (r : Request) (b : Buffer) (res : Result) : State :=
  { s with buffer := b, reader := .idle, results := s.results ++ [(r, res)] }

/-- The result with all that is in the buffer. -/
def finishClosed (s : State) (r : Request) : State :=
  s.finish r s.buffer.readAll (.closed s.buffer.nodes.flatten)

/-- `socket.read` or `socket.read_line`, up to `suspend_socket`; the assertion is
`not sock_obj.read_required`. -/
def call (s : State) (r : Request) : Option State :=
  match s.buffer.take r with
  | some (data, b) => some (s.finish r b (.data data))
  | none =>
    if s.connected = false then some (s.finishClosed r)
    else if s.readRequired.isSome then none
    else some { s with readRequired := some r, reader := .suspended r s.isPause }

/-- What was taken from the buffer is returned, if there is anything. -/
def finishTaken (s : State) (r : Request) (taken : Option (Bytes × Buffer)) (otherwise : State) :
    State :=
  match taken with
  | some (data, b) => s.finish r b (.data data)
  | none => otherwise

/-- `socket.read` after `suspend_socket` -/
def resumeRead (s : State) (n : ℕ) : State :=
  s.finishTaken (.read n) (s.buffer.pop n) (s.finishClosed (.read n))

/-- `socket.read_line` after `suspend_socket` -/
def resumeReadLine (s : State) (sep : Bytes) : State :=
  if s.connected then
    s.finishTaken (.readLine sep) (s.buffer.readLine sep)
      (s.finish (.readLine sep) s.buffer .nothing)
  else s.finishClosed (.readLine sep)

/-- The end of `suspend_socket`, and of the reading function. -/
def resume (s : State) (r : Request) (paused : Bool) : State :=
  let t := if paused then { s with isPause := false } else s
  match r with
  | .read n => t.resumeRead n
  | .readLine sep => t.resumeReadLine sep

/-- A message is handled when no coroutine is to be resumed. -/
def ready (s : State) : Bool :=
  match s.reader with
  | .woken _ _ => false
  | _ => true

def step (s : State) : Label → Option State
  | .data data => if s.ready ∧ s.connected ∧ data ≠ [] then some (s.onData data) else none
  | .close => if s.ready ∧ s.connected then some s.onClose else none
  | .yielded =>
    if s.ready ∧ 0 < s.waking then some { s with waking := s.waking - 1 }.wakeup else none
  | .call r => if s.reader = .idle then s.call r else none
  | .resume =>
    match s.reader with
    | .woken r paused => some (s.resume r paused)
    | _ => none

def init : State := ⟨⟨[], 0⟩, true, none, false, .idle, 0, [], []⟩

end State

def socket : System State Label := ⟨State.init, State.step⟩

theorem socket_init : socket.init = State.init := rfl

variable (s : State)

theorem socket_step (a : Label) : socket.step s a = s.step a := rfl

/-! ### The flat stream -/

/-- A read of a stream that is complete, and the rest of it. -/
def flatRead (stream : Bytes) : Request → Result × Bytes
  | .read n =>
    if n ≤ stream.length then (.data (stream.take n), stream.drop n) else (.closed stream, [])
  | .readLine sep =>
    match find sep stream with
    | some i => (.data (stream.take i), stream.drop (i + sep.length))
    | none => (.closed stream, [])

/-- A sequence of reads. -/
def flatReads (stream : Bytes) : List Request → List Result × Bytes
  | [] => ([], stream)
  | r :: rs =>
    let (res, rest) := flatRead stream r
    let (ress, rest) := flatReads rest rs
    (res :: ress, rest)

/-! ### The buffer reads the flat stream -/

theorem checkSep_eq (nodes : List Bytes) (sep : Bytes) :
    checkSep nodes sep = sep.isPrefixOf nodes.flatten := by
  induction nodes generalizing sep with
  | nil => cases sep <;> rfl
  | cons node nodes ih =>
    rw [checkSep, flatten_cons, Bool.eq_iff_iff]
    split_ifs with hle
    · refine Iff.trans isPrefixOf_iff_prefix (Iff.trans ?_ isPrefixOf_iff_prefix.symm)
      refine ⟨fun h => h.trans (prefix_append _ _), fun h => ?_⟩
      exact prefix_of_prefix_length_le h (prefix_append _ _) hle
    · rw [Bool.and_eq_true, ih, isPrefixOf_iff_prefix, isPrefixOf_iff_prefix,
        isPrefixOf_iff_prefix]
      constructor
      · rintro ⟨⟨t, rfl⟩, h⟩
        rw [drop_left] at h
        exact (prefix_append_right_inj node).mpr h
      · intro h
        obtain ⟨t, rfl⟩ := prefix_of_prefix_length_le (prefix_append node _) h
          (Nat.le_of_not_le hle)
        rw [drop_left]
        exact ⟨prefix_append _ _, (prefix_append_right_inj node).mp h⟩

theorem advance_spec {nodes : List Bytes} (h : ∀ x ∈ nodes, x ≠ []) :
    (∀ x ∈ advance nodes, x ≠ []) ∧ (advance nodes).flatten = nodes.flatten.tail := by
  cases nodes with
  | nil => exact ⟨h, rfl⟩
  | cons node nodes =>
    obtain ⟨hnode, hnodes⟩ := forall_mem_cons.mp h
    match node, hnode with
    | [b], _ => exact ⟨hnodes, rfl⟩
    | b :: c :: node, _ =>
      refine ⟨forall_mem_cons.mpr ⟨cons_ne_nil _ _, hnodes⟩, rfl⟩

/-- The loop of `l_read_line` finds the first separator. -/
theorem scan_eq {nodes : List Bytes} (h : ∀ x ∈ nodes, x ≠ []) {sep : Bytes} (hsep : sep ≠ []) :
    scan sep (nodes.flatten.length + 1 - sep.length) nodes = find sep nodes.flatten := by
  have hpos : 0 < sep.length := length_pos_of_ne_nil hsep
  induction hlen : nodes.flatten.length generalizing nodes with
  | zero =>
    rw [eq_nil_of_length_eq_zero hlen, find, if_neg hsep]
    rw [show 0 + 1 - sep.length = 0 by omega, scan]
  | succ m ih =>
    obtain ⟨hadvance, hflat⟩ := advance_spec h
    have htail : (advance nodes).flatten.length = m := by
      rw [hflat, length_tail, hlen]
      rfl
    by_cases hlong : m + 1 < sep.length
    · have hnone : find sep nodes.flatten = none := by
        by_contra hne
        obtain ⟨k, hk⟩ := Option.ne_none_iff_exists'.mp hne
        have := find_le hk
        omega
      rw [hnone, show m + 1 + 1 - sep.length = 0 by omega, scan]
    · rw [show m + 1 + 1 - sep.length = (m + 1 - sep.length) + 1 by omega]
      have hrec := ih hadvance htail
      cases nodes with
      | nil => cases hlen
      | cons node nodes =>
        rw [scan, checkSep_eq, hrec, hflat]
        obtain ⟨b, rest, hrest⟩ := exists_cons_of_length_eq_add_one hlen
        rw [hrest, find, tail_cons]

/-- The fields of a buffer agree, and an `int` counts its bytes. -/
structure Buffer.Sane (b : Buffer) : Prop where
  nodes : ∀ x ∈ b.nodes, x ≠ []
  size : b.size = b.nodes.flatten.length
  small : b.nodes.flatten.length < 2 ^ 31

/-- Arguments for which the reading functions are meant. -/
def Request.Proper : Request → Prop
  | .read n => 1 ≤ n ∧ n < 2 ^ 31
  | .readLine sep => sep ≠ [] ∧ sep.length < 2 ^ 31

instance : DecidablePred Request.Proper
  | .read n => inferInstanceAs (Decidable (1 ≤ n ∧ n < 2 ^ 31))
  | .readLine sep => inferInstanceAs (Decidable (sep ≠ [] ∧ sep.length < 2 ^ 31))

namespace Buffer.Sane

variable {b : Buffer}

theorem push (h : b.Sane) {data : Bytes} (hdata : data ≠ [])
    (hlt : b.nodes.flatten.length + data.length < 2 ^ 31) :
    (b.push data).Sane ∧ (b.push data).nodes.flatten = b.nodes.flatten ++ data := by
  have hflat : (b.push data).nodes.flatten = b.nodes.flatten ++ data := by
    simp [Buffer.push]
  have hsize : (b.push data).size = (b.nodes.flatten ++ data).length := by
    have hsum : b.size + toInt data.length = ((b.nodes.flatten ++ data).length : ℕ) := by
      rw [h.size, toInt_of_lt (by omega), length_append]
      rfl
    rw [Buffer.push]
    simp only [hsum]
    exact toInt_of_lt (by rwa [length_append])
  refine ⟨⟨?_, by rw [hsize, hflat], by rwa [hflat, length_append]⟩, hflat⟩
  intro x hx
  rcases mem_append.mp hx with hx | hx
  · exact h.nodes x hx
  · rw [mem_singleton.mp hx]
    exact hdata

theorem hasLine_eq (h : b.Sane) {sep : Bytes} (hsep : sep ≠ []) (hlt : sep.length < 2 ^ 31) :
    b.hasLine sep = find sep b.nodes.flatten := by
  rw [Buffer.hasLine, h.size, toInt_of_lt hlt, ← scan_eq h.nodes hsep]
  congr 1
  omega

theorem popLstring (h : b.Sane) {sz : ℕ} (skip : ℕ) (hsz : sz ≤ b.nodes.flatten.length) :
    ∃ c, b.popLstring sz skip = some (b.nodes.flatten.take (sz - skip), c) ∧ c.Sane ∧
      c.nodes.flatten = b.nodes.flatten.drop sz := by
  obtain ⟨rest, hread, hrest⟩ := readExact_of_flatten (take_append_drop sz _).symm
    (length_take_of_le hsz)
  have hsize : b.size - sz = (b.nodes.flatten.drop sz).length := by
    rw [h.size, length_drop]
    omega
  refine ⟨⟨rest, b.size - sz⟩, ?_, ⟨readExact_ne_nil h.nodes hread, ?_, ?_⟩, hrest⟩
  · rw [Buffer.popLstring, hread, Option.map_some, take_take,
      min_eq_left (Nat.sub_le _ _)]
  · rw [hrest, hsize]
  · have := h.small
    rw [hrest, length_drop]
    omega

theorem take_cases (h : b.Sane) {r : Request} (hr : r.Proper) :
    (∃ data c, b.take r = some (data, c) ∧ b.suffices r = true ∧ c.Sane ∧
      ∀ more, flatRead (b.nodes.flatten ++ more) r = (.data data, c.nodes.flatten ++ more)) ∨
    b.take r = none ∧ b.suffices r = false ∧
      flatRead b.nodes.flatten r = (.closed b.nodes.flatten, []) := by
  cases r with
  | read n =>
    obtain ⟨hpos, hlt⟩ := hr
    have hint := toInt_of_lt hlt
    by_cases hle : n ≤ b.nodes.flatten.length
    · obtain ⟨c, hc, hsane, hflat⟩ := h.popLstring 0 hle
      refine .inl ⟨b.nodes.flatten.take n, c, ?_, ?_, hsane, fun more => ?_⟩
      · rw [Buffer.take, Buffer.pop, hint, h.size, if_neg (by omega), Int.toNat_natCast]
        exact hc
      · rw [Buffer.suffices, h.size]
        exact decide_eq_true (Int.ofNat_le.mpr hle)
      · rw [flatRead, if_pos (by rw [length_append]; omega),
          take_append_of_le_length hle, drop_append_of_le_length hle, hflat]
    · refine .inr ⟨?_, ?_, ?_⟩
      · rw [Buffer.take, Buffer.pop, hint, h.size, if_pos (.inl (by omega))]
      · rw [Buffer.suffices, h.size]
        exact decide_eq_false fun h => hle (Int.ofNat_le.mp h)
      · rw [flatRead, if_neg hle]
  | readLine sep =>
    obtain ⟨hne, hlt⟩ := hr
    have hline := h.hasLine_eq hne hlt
    cases hfind : find sep b.nodes.flatten with
    | some i =>
      have hle := find_le hfind
      obtain ⟨c, hc, hsane, hflat⟩ := h.popLstring sep.length hle
      rw [Nat.add_sub_cancel] at hc
      refine .inl ⟨b.nodes.flatten.take i, c, ?_, ?_, hsane, fun more => ?_⟩
      · rw [Buffer.take, Buffer.readLine, hline, hfind, Option.bind_some]
        exact hc
      · rw [Buffer.suffices, hline, hfind]
        rfl
      · rw [flatRead, find_append hfind]
        simp only
        rw [take_append_of_le_length (by omega), drop_append_of_le_length hle, hflat]
    | none =>
      refine .inr ⟨?_, ?_, ?_⟩
      · rw [Buffer.take, Buffer.readLine, hline, hfind]
        rfl
      · rw [Buffer.suffices, hline, hfind]
        rfl
      · rw [flatRead, hfind]

end Buffer.Sane

/-! ### Runs -/

theorem flatReads_append {stream rest rest' : Bytes} {rs : List Request} {ress : List Result}
    {r : Request} {res : Result} (h : flatReads stream rs = (ress, rest))
    (h' : flatRead rest r = (res, rest')) :
    flatReads stream (rs ++ [r]) = (ress ++ [res], rest') := by
  induction rs generalizing stream ress with
  | nil =>
    obtain ⟨rfl, rfl⟩ := Prod.mk.inj h
    simp [flatReads, h']
  | cons x rs ih =>
    simp only [flatReads, Prod.mk.injEq] at h
    obtain ⟨rfl, hrest⟩ := h
    have hih := ih (Prod.ext rfl hrest)
    simp [flatReads, hih]

/-- What the reader and the handlers are doing. -/
inductive Phase (b : Buffer) : Bool → Option Request → Reader → ℕ → Prop
  | idle : Phase b true none .idle 0
  /-- what the reader waits for has not arrived -/
  | waiting {r : Request} {p : Bool} (hr : r.Proper) (h : b.suffices r = false) :
      Phase b true (some r) (.suspended r p) 0
  /-- a handler in `pause_socket` is going to wake the reader -/
  | pausing {r : Request} {p : Bool} (hr : r.Proper) (h : b.suffices r = true) :
      Phase b true none (.suspended r p) 1
  | woken {r : Request} {p : Bool} (hr : r.Proper) (h : b.suffices r = true) :
      Phase b true none (.woken r p) 0
  | closed (rr : Option Request) (w : ℕ) : Phase b false rr .idle w
  /-- the reader was woken by `CLOSE` -/
  | closing (rr : Option Request) (w : ℕ) {r : Request} {p : Bool} (hr : r.Proper)
      (h : ∀ sep, r = .readLine sep → b.suffices r = false) : Phase b false rr (.woken r p) w

/-- The results agree with the flat stream, whatever follows. -/
def Agrees (s : State) : Prop :=
  ∀ more, (s.connected = false → more = []) →
    flatReads (s.stream ++ more) (s.results.map (·.1)) =
      (s.results.map (·.2), s.buffer.nodes.flatten ++ more)

structure Good (s : State) : Prop where
  sane : s.buffer.Sane
  phase : Phase s.buffer s.connected s.readRequired s.reader s.waking
  agrees : Agrees s

theorem good_init : Good State.init :=
  ⟨⟨nofun, rfl, by decide⟩, .idle, fun _ _ => rfl⟩

/-- A handler is about to wake a reader of a line. -/
def State.wakingLine (s : State) : Bool :=
  match s.reader with
  | .suspended (.readLine _) _ => 0 < s.waking
  | _ => false

/-- No `CLOSE` while a handler is about to wake a reader of a line; an `int` counts the bytes in the
buffer; arguments are proper. -/
def Label.Settled (s : State) : Label → Prop
  | .data bytes => s.buffer.nodes.flatten.length + bytes.length < 2 ^ 31
  | .close => s.wakingLine = false
  | .call r => r.Proper
  | .yielded | .resume => True

section Steps

variable {s : State}

variable {data : Bytes}

variable {b : Buffer}

theorem suffices_push (h : b.Sane) (hdata : data ≠ [])
    (hlt : b.nodes.flatten.length + data.length < 2 ^ 31) {r : Request} (hr : r.Proper)
    (hs : b.suffices r = true) : (b.push data).suffices r = true := by
  obtain ⟨hsane, hflat⟩ := h.push hdata hlt
  rcases h.take_cases hr with ⟨d, c, -, -, -, hread⟩ | ⟨-, hfalse, -⟩
  · rcases hsane.take_cases hr with ⟨_, _, -, htrue, -⟩ | ⟨-, -, hclosed⟩
    · exact htrue
    · rw [hflat, hread data] at hclosed
      cases hclosed
  · rw [hs] at hfalse
    cases hfalse

variable {t : State}

theorem good_finish (hs : Good s) {r : Request} {res : Result} (hbuffer : b.Sane)
    (ht : t = s.finish r b res) (hphase : Phase b s.connected s.readRequired .idle s.waking)
    (hread : ∀ more, (s.connected = false → more = []) →
      flatRead (s.buffer.nodes.flatten ++ more) r = (res, b.nodes.flatten ++ more)) : Good t := by
  subst ht
  refine ⟨hbuffer, hphase, fun more hmore => ?_⟩
  have h := flatReads_append (hs.agrees more hmore) (hread more hmore)
  simpa [State.finish] using h

theorem Phase.finished {c : Buffer} {rr : Option Request} {rd : Reader} {w : ℕ} {con : Bool}
    (h : Phase b con rr rd w) (hrd : ∀ r p, rd ≠ .suspended r p) : Phase c con rr .idle w := by
  cases h with
  | idle => exact .idle
  | waiting | pausing => exact absurd rfl (hrd _ _)
  | woken => exact .idle
  | closed rr w | closing rr w => exact .closed rr w

/-- All that is left is returned after `CLOSE`. -/
theorem good_finishClosed (hs : Good s) {r : Request} (hr : r.Proper)
    (hsuffices : s.buffer.suffices r = false) (hconnected : s.connected = false)
    (hreader : ∀ r p, s.reader ≠ .suspended r p) : Good (s.finishClosed r) := by
  refine good_finish hs ⟨by simp [Buffer.readAll], rfl, by simp [Buffer.readAll]⟩ rfl
    (hs.phase.finished hreader) ?_
  intro more hmore
  obtain rfl := hmore hconnected
  rcases hs.sane.take_cases hr with ⟨_, _, -, htrue, -⟩ | ⟨-, -, hclosed⟩
  · rw [hsuffices] at htrue
    cases htrue
  · rw [append_nil, hclosed]
    rfl

theorem good_take (hs : Good s) {r : Request} (hr : r.Proper)
    (htake : s.buffer.take r = some (data, b)) (hreader : ∀ r p, s.reader ≠ .suspended r p) :
    Good (s.finish r b (.data data)) := by
  rcases hs.sane.take_cases hr with ⟨d, c, htake', -, hsane, hread⟩ | ⟨hnone, -, -⟩
  · rw [htake] at htake'
    cases htake'
    exact good_finish hs hsane rfl (hs.phase.finished hreader) fun more _ => hread more
  · rw [htake] at hnone
    cases hnone

theorem call_suspends {r : Request} (htake : s.buffer.take r = none) (hconnected : s.connected = true)
    (hrr : s.readRequired = none) :
    s.call r = some { s with readRequired := some r, reader := .suspended r s.isPause } := by
  rw [State.call, htake]
  simp [hconnected, hrr]

theorem good_call (hs : Good s) {r : Request} (hr : r.Proper) (hidle : s.reader = .idle) :
    ∃ t, s.call r = some t ∧ Good t := by
  have hreader : ∀ r p, s.reader ≠ .suspended r p := by simp [hidle]
  rcases hs.sane.take_cases hr with ⟨data, c, htake, -⟩ | ⟨htake, hsuffices, -⟩
  · exact ⟨_, by rw [State.call, htake], good_take hs hr htake hreader⟩
  · obtain ⟨b, _, _, _, _, _, _, _⟩ := s
    cases hidle
    cases hs.phase with
    | idle => exact ⟨_, call_suspends htake rfl rfl, hs.sane, .waiting hr hsuffices, hs.agrees⟩
    | closed =>
      refine ⟨_, ?_, good_finishClosed hs hr hsuffices rfl hreader⟩
      rw [State.call, htake]
      rfl

variable {p : Bool}

theorem Good.of_woken (hs : Good s) {r : Request} (hwoken : s.reader = .woken r p) :
    r.Proper ∧ (s.connected = true ∧ s.buffer.suffices r = true ∨
      s.connected = false ∧ ∀ sep, r = .readLine sep → s.buffer.suffices r = false) := by
  have hphase := hs.phase
  rw [hwoken] at hphase
  generalize s.connected = c, s.readRequired = rr, s.waking = w at hphase ⊢
  cases hphase with
  | woken hr h => exact ⟨hr, .inl ⟨rfl, h⟩⟩
  | closing _ _ hr h => exact ⟨hr, .inr ⟨rfl, h⟩⟩

theorem good_resumeRead (hs : Good s) {n : ℕ} (hwoken : s.reader = .woken (.read n) p) :
    Good (s.resumeRead n) := by
  have hreader : ∀ r p, s.reader ≠ .suspended r p := by simp [hwoken]
  obtain ⟨hr, hstate⟩ := hs.of_woken hwoken
  rcases hs.sane.take_cases hr with ⟨data, c, htake, -⟩ | ⟨htake, hsuffices, -⟩
  · rw [State.resumeRead, show s.buffer.pop n = some (data, c) from htake, State.finishTaken]
    exact good_take hs hr htake hreader
  · rw [State.resumeRead, show s.buffer.pop n = none from htake, State.finishTaken]
    rcases hstate with ⟨-, h⟩ | ⟨hconnected, -⟩
    · rw [h] at hsuffices
      cases hsuffices
    · exact good_finishClosed hs hr hsuffices hconnected hreader

theorem good_resumeReadLine (hs : Good s) {sep : Bytes}
    (hwoken : s.reader = .woken (.readLine sep) p) : Good (s.resumeReadLine sep) := by
  have hreader : ∀ r p, s.reader ≠ .suspended r p := by simp [hwoken]
  obtain ⟨hr, ⟨hconnected, h⟩ | ⟨hconnected, h⟩⟩ := hs.of_woken hwoken
  · rcases hs.sane.take_cases hr with ⟨data, c, htake, -⟩ | ⟨-, hsuffices, -⟩
    · rw [State.resumeReadLine, if_pos hconnected,
        show s.buffer.readLine sep = some (data, c) from htake, State.finishTaken]
      exact good_take hs hr htake hreader
    · rw [h] at hsuffices
      cases hsuffices
  · rw [State.resumeReadLine, if_neg (by simp [hconnected])]
    exact good_finishClosed hs hr (h sep rfl) hconnected hreader

theorem good_resume (hs : Good s) {r : Request} (hwoken : s.reader = .woken r p) :
    Good (s.resume r p) := by
  have hgood : Good (if p then { s with isPause := false } else s) := by
    split_ifs
    · exact ⟨hs.sane, hs.phase, hs.agrees⟩
    · exact hs
  have hreader : (if p then { s with isPause := false } else s).reader = .woken r p := by
    split_ifs
    · exact hwoken
    · exact hwoken
  cases r with
  | read n => exact good_resumeRead hgood hreader
  | readLine sep => exact good_resumeReadLine hgood hreader

theorem good_data (hs : Good s) (hdata : data ≠ []) (hready : s.ready = true)
    (hlt : s.buffer.nodes.flatten.length + data.length < 2 ^ 31) (hconnected : s.connected = true) :
    Good (s.onData data) := by
  obtain ⟨hsane, hflat⟩ := hs.sane.push hdata hlt
  have hagrees (t : State) (hstream : t.stream = s.stream ++ data)
      (hresults : t.results = s.results) (hbuffer : t.buffer = s.buffer.push data) : Agrees t := by
    intro more _
    rw [hstream, hresults, hbuffer, hflat, append_assoc, append_assoc]
    exact hs.agrees (data ++ more) fun hc => by rw [hconnected] at hc; cases hc
  obtain ⟨b, _, _, _, _, _, _, _⟩ := s
  cases hs.phase with simp only [State.onData]
  | idle => split_ifs <;> exact ⟨hsane, .idle, hagrees _ rfl rfl rfl⟩
  | waiting hr =>
    split_ifs with hsuffices
    · exact ⟨hsane, .pausing hr hsuffices, hagrees _ rfl rfl rfl⟩
    · exact ⟨hsane, .woken hr hsuffices, hagrees _ rfl rfl rfl⟩
    · exact ⟨hsane, .waiting hr (by simpa using hsuffices), hagrees _ rfl rfl rfl⟩
  | pausing hr h =>
    have hphase := suffices_push hs.sane hdata hlt hr h
    split_ifs <;> exact ⟨hsane, .pausing hr hphase, hagrees _ rfl rfl rfl⟩
  | woken => cases hready
  | closed | closing => cases hconnected

theorem good_close (hs : Good s) (hready : s.ready = true) (hconnected : s.connected = true)
    (hok : Label.close.Settled s) : Good s.onClose := by
  obtain ⟨b, _, _, _, _, _, _, _⟩ := s
  cases hs.phase with
  | idle => exact ⟨hs.sane, .closed _ _, fun more _ => hs.agrees more nofun⟩
  | waiting hr h =>
    exact ⟨hs.sane, .closing _ _ hr fun _ _ => h, fun more _ => hs.agrees more nofun⟩
  | pausing hr h =>
    refine ⟨hs.sane, .closing _ _ hr fun sep hsep => ?_, fun more _ => hs.agrees more nofun⟩
    subst hsep
    cases hok
  | woken => cases hready
  | closed | closing => cases hconnected

theorem good_yielded (hs : Good s) (hready : s.ready = true) (hw : 0 < s.waking) :
    Good ({ s with waking := s.waking - 1 } : State).wakeup := by
  obtain ⟨b, _, _, _, _, _, _, _⟩ := s
  cases hs.phase with
  | idle | waiting => cases hw
  | pausing hr h => exact ⟨hs.sane, .woken hr h, hs.agrees⟩
  | woken | closing => cases hready
  | closed => exact ⟨hs.sane, .closed _ _, hs.agrees⟩

end Steps

theorem Good.step {s t : State} {a : Label} (hs : Good s) (ha : a.Settled s)
    (h : s.step a = some t) : Good t := by
  cases a with simp only [State.step] at h
  | data bytes =>
    split_ifs at h with hok
    obtain ⟨hready, hconnected, hne⟩ := hok
    cases h
    exact good_data hs hne hready ha hconnected
  | close =>
    split_ifs at h with hok
    cases h
    exact good_close hs hok.1 hok.2 ha
  | yielded =>
    split_ifs at h with hok
    cases h
    exact good_yielded hs hok.1 hok.2
  | call r =>
    split_ifs at h with hidle
    obtain ⟨u, hu, hgood⟩ := good_call hs ha hidle
    obtain rfl := Option.some.inj (hu.symm.trans h)
    exact hgood
  | resume =>
    split at h
    · rename_i r p hwoken
      cases h
      exact good_resume hs hwoken
    · cases h

theorem finishTaken_idle (r : Request) (taken : Option (Bytes × Buffer)) {t : State}
    (ht : t.reader = .idle) : (s.finishTaken r taken t).reader = .idle := by
  cases taken with
  | none => exact ht
  | some x => rfl

theorem resume_idle (r : Request) (p : Bool) : (s.resume r p).reader = .idle := by
  cases r with
  | read n => exact finishTaken_idle _ _ _ rfl
  | readLine sep =>
    unfold State.resume
    generalize (if p then _ else s) = t
    simp only [State.resumeReadLine]
    split_ifs
    · exact finishTaken_idle _ _ _ rfl
    · rfl

/-- **Reads do not depend on the packets**: as long as no `CLOSE` falls between the arrival of a
separator and the wakeup of the reader, the results are those of the flat stream, whatever is still
to come before `CLOSE`.  A reader that is suspended although what it waits for has arrived is about
to be woken, and a reader that was woken returns. -/
theorem reads_flat_stream {s : State} (h : socket.ReachableVia (fun s a => a.Settled s) s) :
    (∀ more, (s.connected = false → more = []) →
      (flatReads (s.stream ++ more) (s.results.map (·.1))).1 = s.results.map (·.2)) ∧
    (∀ r p, s.reader = .suspended r p →
      (s.connected = false ∨
        ∃ d, (flatRead (flatReads s.stream (s.results.map (·.1))).2 r).1 = .data d) →
      ∃ t, s.step .yielded = some t ∧ t.reader = .woken r p) ∧
    (∀ r p, s.reader = .woken r p → ∃ t, s.step .resume = some t ∧ t.reader = .idle) ∧
    ∀ r, r.Proper → s.reader = .idle → ∃ t, s.step (.call r) = some t := by
  have hgood : Good s := h.invariant good_init fun _ _ _ hs ha hstep => hs.step ha hstep
  refine ⟨fun more hmore => congrArg Prod.fst (hgood.agrees more hmore), fun r p hrd hmet => ?_,
    fun r p hrd => ⟨s.resume r p, by simp [State.step, hrd], resume_idle s r p⟩,
    fun r hr hidle => ?_⟩
  · have hflat := hgood.agrees [] fun _ => rfl
    rw [append_nil, append_nil] at hflat
    rw [hflat] at hmet
    obtain ⟨b, _, _, _, _, _, _, _⟩ := s
    cases hrd
    cases hgood.phase with
    | waiting hr hfalse =>
      rcases hgood.sane.take_cases hr with ⟨_, _, -, htrue, -⟩ | ⟨-, -, hclosed⟩
      · rw [hfalse] at htrue
        cases htrue
      · simp [hclosed] at hmet
    | pausing => exact ⟨_, rfl, rfl⟩
  · obtain ⟨t, ht, -⟩ := good_call hgood hr hidle
    exact ⟨t, by rw [State.step, if_pos hidle, ht]⟩

instance (s : State) : DecidablePred (Label.Settled s)
  | .data bytes =>
    inferInstanceAs (Decidable (s.buffer.nodes.flatten.length + bytes.length < 2 ^ 31))
  | .close => inferInstanceAs (Decidable (s.wakingLine = false))
  | .call r => inferInstanceAs (Decidable r.Proper)
  | .yielded => inferInstanceAs (Decidable True)
  | .resume => inferInstanceAs (Decidable True)

/-- Two reads of a stream in three packets. -/
theorem reads_flat_stream_of_packets : ∃ s, socket.ReachableVia (fun s a => a.Settled s) s ∧
    s.connected = false ∧
    (flatReads s.stream (s.results.map (·.1))).1 = s.results.map (·.2) ∧
    s.results = [(.read 3, .data (ofString "abc")), (.readLine (ofString "\r\n"),
      .data (ofString "de")), (.read 2, .closed (ofString "f"))] := by
  obtain ⟨s, hs, hconnected, hresults⟩ := socket.exists_reachable (fun s a => a.Settled s)
    [.call (.read 3), .data (ofString "ab"), .data (ofString "cde\r"), .resume,
      .call (.readLine (ofString "\r\n")), .data (ofString "\nf"), .resume, .close,
      .call (.read 2)]
    (fun s => s.connected = false ∧
      s.results = [(.read 3, .data (ofString "abc")), (.readLine (ofString "\r\n"),
        .data (ofString "de")), (.read 2, .closed (ofString "f"))]) (by decide +kernel)
  have hflat := (reads_flat_stream hs).1 [] fun _ => rfl
  rw [append_nil] at hflat
  exact ⟨s, hs, hconnected, hflat, hresults⟩

/-! ### A line that is lost -/

/-- The first packet has the separator and is longer than `BUFFER_LIMIT`: the handler pauses the
socket and yields, `CLOSE` is handled, and the reader returns `false` with all of the stream. -/
theorem line_lost {sep data : Bytes} {i : ℕ} (hsep : sep ≠ []) (hlt : data.length < 2 ^ 31)
    (hlimit : 128 * 1024 < data.length) (hfind : find sep data = some i) :
    ∃ s, socket.Reachable s ∧ s.stream = data ∧
      s.results = [(.readLine sep, .closed data)] := by
  have hne : data ≠ [] := by
    rintro rfl
    exact absurd hlimit (Nat.not_lt_zero _)
  have hempty : Buffer.Sane ⟨[], 0⟩ := good_init.sane
  obtain ⟨hsane, hflat⟩ := hempty.push hne (by simpa using hlt)
  simp only [flatten_nil, nil_append] at hflat
  have hle := find_le hfind
  have hsuffices : (Buffer.push ⟨[], 0⟩ data).suffices (.readLine sep) = true := by
    rw [Buffer.suffices, hsane.hasLine_eq hsep (by omega), hflat, hfind]
    rfl
  have hpause : bufferLimit < (Buffer.push ⟨[], 0⟩ data).size := by
    rw [hsane.size, hflat, bufferLimit]
    omega
  generalize hb : Buffer.push ⟨[], 0⟩ data = b at hflat hsuffices hpause
  -- the states after each step
  let s₁ : State :=
    { State.init with readRequired := some (.readLine sep), reader := .suspended (.readLine sep) false }
  let s₂ : State :=
    { s₁ with
      buffer := b, stream := data, readRequired := none, isPause := true, waking := 1 }
  let s₃ : State := { s₂ with connected := false, reader := .woken (.readLine sep) false }
  have hnone : State.init.buffer.take (.readLine sep) = none := by
    rw [Buffer.take, Buffer.readLine, good_init.sane.hasLine_eq hsep (by omega)]
    exact congrArg (Option.bind · _) (if_neg hsep)
  have hcall : socket.step socket.init (.call (.readLine sep)) = some s₁ := by
    rw [socket_init, socket_step, State.step, if_pos (show State.init.reader = .idle from rfl)]
    exact call_suspends hnone rfl rfl
  have hdata : socket.step s₁ (.data data) = some s₂ := by
    have hon : s₁.onData data = s₂ := by
      simp [State.onData, s₁, s₂, State.init, hb, hsuffices, hpause]
    rw [← hon]
    exact if_pos ⟨rfl, rfl, hne⟩
  have hclose : socket.step s₂ .close = some s₃ := rfl
  have hresume : socket.step s₃ .resume = some (s₃.finishClosed (.readLine sep)) := rfl
  have hreach : socket.Reachable (s₃.finishClosed (.readLine sep)) :=
    (((System.ReachableVia.init.next _ trivial hcall).next _ trivial hdata).next _ trivial
      hclose).next _ trivial hresume
  refine ⟨_, hreach, rfl, ?_⟩
  simp [State.finishClosed, State.finish, s₃, s₂, s₁, State.init, hflat]

/-- A line feed and then more than fits into the buffer. -/
def longData : Bytes := 10 :: replicate (128 * 1024) 0

/-- A line has arrived before `CLOSE`, and the reader gets `false`. -/
theorem line_lost_at_close : ∃ s, socket.Reachable s ∧
    s.stream = longData ∧ s.results = [(.readLine [10], .closed longData)] ∧
    (flatReads longData [.readLine [10]]).1 = [.data []] := by
  have hlen : longData.length = 128 * 1024 + 1 := by
    rw [longData, length_cons, length_replicate]
  have hfind : find [10] longData = some 0 := by
    rw [longData, find, if_pos]
    rfl
  obtain ⟨s, hs, hstream, hresults⟩ := line_lost
    (cons_ne_nil 10 []) (by rw [hlen]; decide) (by rw [hlen]; decide) hfind
  refine ⟨s, hs, hstream, hresults, ?_⟩
  simp only [flatReads, flatRead, hfind, take_zero]

end Skynet.SocketRead
