import Skynet.ThreadPool
import Skynet.Transition

/-! # A slot of the socket pool

One slot of `socket_object_pool` with everybody who touches it: worker threads inside
`socket_server::send`, `send_low_priority`, `connect`, `listen` and `bind_os_fd`, the pipe of
control commands, and the socket thread that handles commands and poll events.

* **Socket ids.** All ids of a slot have the same low 16 bits, so an id is named by its high
  half: `socketId` counts how often the slot has been allocated.
* **Workers.** `send` writes directly when `can_direct_send` holds twice, the second time
  under `direct_write_mutex`; every value read by `can_direct_send` is a step of its own.
  When data is pending `is_close_write()` makes `nomore_sending_data` hold too, but then the
  status is not `CONNECTED`: the check fails anyway.  A `compare_exchange` loop is one step,
  which does nothing while the counter is full.
* **The socket thread.** A command handler or an event handler is one step up to the point
  where it calls `write`, waits for the mutex or finishes; every `write` is a step, and what
  it returns is part of the label.  `force_close` frees the lists first and takes the mutex
  afterwards.
* **Poll events** come at any time and in any combination.
* **Faults.** A failing assertion stops the process; the rest of the state stays what it was.

Lists of write buffers are Lean lists.  UDP sockets, user objects, statistics, service handles
and the texts of events are not part of the model; `alloc_socket` is one step.  The fields
`wire`, `accepted`, `dropped`, `events` and `ncalls` record the history and are read by no
step. -/

namespace Skynet.Socket

open Transition

/-! ### Data -/

/-- `socket_status` -/
inductive Status where
  | invalid | alloced | prepareListen | listen | connecting | connected | halfCloseRead
  | halfCloseWrite | prepareAccept | bind
deriving DecidableEq, Repr

inductive SocketType where
  | tcp | unknown
deriving DecidableEq, Repr

/-- What `poll_socket_event` reports. -/
inductive SocketEvent where
  | data | close | opened | accept | error | warning
deriving DecidableEq, Repr

/-- The data of a `send` (`high`) or `send_low_priority` call, with the id it is sent to, the
worker that sends it and the number of the call. -/
structure Packet where
  id : ℕ
  sender : ℕ
  seq : ℕ
  high : Bool
  data : List UInt8
deriving DecidableEq, Repr

/-- A `write_buffer`, and also the direct write buffer with its offset. -/
structure WriteBuffer where
  packet : Packet
  ptr : ℕ
deriving DecidableEq, Repr

def WriteBuffer.sz (b : WriteBuffer) : ℕ := b.packet.data.length - b.ptr

/-- `sending_count`: the high half names the socket id, the low half counts. -/
structure SendingCount where
  id : ℕ
  n : ℕ
deriving DecidableEq, Repr

structure SocketObject where
  socketId : ℕ
  type : SocketType
  status : Status
  reading : Bool
  writing : Bool
  closing : Bool
  high : List WriteBuffer
  low : List WriteBuffer
  writeBufferSize : ℤ
  warnSize : ℤ
  sendingCount : SendingCount
  direct : Option WriteBuffer
deriving DecidableEq, Repr

inductive OpenKind where
  | connect | listen | bind
deriving DecidableEq, Repr

/-- The commands in the pipe. -/
inductive Cmd where
  /-- `O`, `L` and `B` -/
  | opening (k : OpenKind) (id : ℕ)
  /-- `D` and `P` -/
  | send (p : Packet)
  /-- `W` -/
  | triggerWrite (id : ℕ)
  /-- `K` -/
  | close (id : ℕ) (shutdown : Bool)
  /-- `R` -/
  | resume (id : ℕ)
  /-- `S` -/
  | pause (id : ℕ)
deriving DecidableEq, Repr

def Cmd.id : Cmd → ℕ
  | .opening _ id | .triggerWrite id | .close id _ | .resume id | .pause id => id
  | .send p => p.id

/-- The values `can_direct_send` reads, in this order. -/
inductive Read where
  | id | high | low | buffer | count | status
deriving DecidableEq, Repr

def Read.next : Read → Option Read
  | .id => some .high
  | .high => some .low
  | .low => some .buffer
  | .buffer => some .count
  | .count => some .status
  | .status => none

/-- Program counters of workers.  `trigger` tells the command `W` from `D` and `P`. -/
inductive Pc where
  | idle
  | opening (k : OpenKind) (id : ℕ)
  | checkId (p : Packet)
  | checkStatus (p : Packet)
  | canDirectSend (locked : Bool) (r : Read) (p : Packet)
  | tryLock (p : Packet)
  | write (p : Packet)
  | unlock (trigger : Option Bool) (p : Packet)
  | incType (trigger : Bool) (p : Packet)
  | inc (trigger : Bool) (p : Packet)
  | push (trigger : Bool) (p : Packet)
deriving DecidableEq, Repr

/-- What the caller of `force_close` does next. -/
inductive After where
  /-- return this event -/
  | report (e : Option SocketEvent)
  /-- the `eof` branch of `poll_socket_event` -/
  | eof
  /-- `send_write_buffer`, which holds the mutex -/
  | flushed
deriving DecidableEq, Repr

/-- Program counters of the socket thread. -/
inductive PollPc where
  | idle
  | dec (id : ℕ)
  | closing (id : ℕ) (k : After)
  | sendHigh
  | sendLow
deriving DecidableEq, Repr

/-- Assertions. -/
inductive Fault where
  /-- `new_socket`: the status is `ALLOCED` -/
  | notAlloced
  /-- `new_socket`: the lists are empty -/
  | listsNotEmpty
  /-- `force_close`: the status is not `ALLOCED` -/
  | closeAlloced
  /-- `do_send_write_buffer`: the head of the low list has not been written in part -/
  | uncompleteLow
  /-- `raise_uncomplete`: the high list is empty -/
  | highNotEmpty
  /-- `do_send_write_buffer`: `write_buffer_size == 0` -/
  | sizeNotZero
  /-- `dec_sending_count`: the count is not zero -/
  | noSending
  /-- `handle_ctrl_cmd_send_socket`: the `free_func` of a refused buffer is not set -/
  | freeFunc
deriving DecidableEq, Repr

/-- Results of the system calls in a handler. -/
inductive Outcome where
  | done
  /-- `connect` is in progress -/
  | inProgress
  /-- name resolution, `connect`, `accept` or the connection failed -/
  | failed
  /-- `poller::add` failed -/
  | addFailed
  /-- `poller::enable` failed -/
  | enableFailed
deriving DecidableEq, Repr

inductive WriteResult where
  | bytes (n : ℕ) | interrupted | again | error
deriving DecidableEq, Repr

inductive ReadResult where
  | bytes | zero | retry | error
deriving DecidableEq, Repr

/-- The flags of a poll event. -/
structure Event where
  isReadable : Bool
  isWriteable : Bool
  isError : Bool
  isEof : Bool
deriving DecidableEq, Repr

structure State where
  sock : SocketObject
  /-- `direct_write_mutex` is locked -/
  mutex : Bool
  pipe : List Cmd
  acts : List Pc
  poll : PollPc
  /-- the newest id that has been returned to a service -/
  known : ℕ
  fault : Option Fault
  ncalls : ℕ
  wire : List UInt8
  accepted : List Packet
  dropped : List Packet
  events : List (SocketEvent × ℕ)
deriving DecidableEq, Repr

/-! ### The socket object -/

namespace SocketObject

variable (x : SocketObject)

def init : SocketObject :=
  ⟨0, .unknown, .invalid, false, false, false, [], [], 0, 0, ⟨0, 0⟩, none⟩

def isInvalid (id : ℕ) : Bool := x.socketId != id || x.status == .invalid

def isWriteBufferEmpty : Bool := x.high.isEmpty && x.low.isEmpty

def isCloseRead : Bool := x.status == .halfCloseRead

def isCloseWrite : Bool := x.status == .halfCloseWrite

def nomoreSendingData : Bool :=
  (x.isWriteBufferEmpty && x.direct.isNone && x.sendingCount.n == 0) || x.isCloseWrite

/-- One read of `can_direct_send` finds what it asks for. -/
def passes (id : ℕ) : Read → Bool
  | .id => x.socketId == id
  | .high => x.high.isEmpty
  | .low => x.low.isEmpty
  | .buffer => x.direct.isNone
  | .count => x.sendingCount.n == 0
  | .status => x.status == .connected

/-- `alloc_socket` -/
def alloc : SocketObject :=
  { x with socketId := x.socketId + 1, type := .unknown, status := .alloced }

/-- The fields set by `new_socket`. -/
def newSocket (id : ℕ) (reading : Bool) : SocketObject :=
  { x with
    socketId := id
    reading := reading
    writing := false
    closing := false
    sendingCount := ⟨id, 0⟩
    type := .tcp
    writeBufferSize := 0
    warnSize := 0
    direct := none }

/-- `append_send_buffer` -/
def append (isHigh : Bool) (p : Packet) : SocketObject :=
  if isHigh then
    { x with high := x.high ++ [⟨p, 0⟩], writeBufferSize := x.writeBufferSize + p.data.length }
  else
    { x with low := x.low ++ [⟨p, 0⟩], writeBufferSize := x.writeBufferSize + p.data.length }

/-- `enable_write` changes the interest of the poller, and this fails. -/
def enableWriteFails (enable : Bool) (o : Outcome) : Bool := x.writing != enable && o == .enableFailed

def enableReadFails (enable : Bool) (o : Outcome) : Bool := x.reading != enable && o == .enableFailed

def listUncomplete : List WriteBuffer → Bool
  | [] => false
  | b :: _ => b.ptr != 0

/-- A send command is not for this socket in this state. -/
def refuses (id : ℕ) : Bool :=
  x.isInvalid id || x.isCloseWrite || x.status == .prepareAccept || x.closing ||
    x.status == .prepareListen || x.status == .listen

end SocketObject

def WARNING_SIZE : ℤ := 1024 * 1024

namespace State

def init : State := ⟨.init, false, [], [], .idle, 0, none, 0, [], [], [], []⟩

variable (s : State)

def crash (f : Fault) : State := { s with fault := some f }

def setSock (x : SocketObject) : State := { s with sock := x }

def goto (i : ℕ) (p : Pc) : State := { s with acts := s.acts.set i p }

/-! ### Workers -/

/-- `alloc_socket` picks the slot. -/
def alloc (i : ℕ) (k : OpenKind) : Option State :=
  if s.sock.status = .invalid then
    some ({ s with sock := s.sock.alloc, wire := [] }.goto i (.opening k (s.sock.socketId + 1)))
  else none

/-- The command for the new socket is sent and its id returned. -/
def sendOpen (i : ℕ) (k : OpenKind) (id : ℕ) : State :=
  { s with pipe := s.pipe ++ [Cmd.opening k id], known := id }.goto i .idle

def checkStatus (i : ℕ) (p : Packet) : State :=
  if s.sock.status = .invalid then s.goto i .idle
  else if p.high then s.goto i (.canDirectSend false .id p)
  else s.goto i (.incType false p)

def canDirectSend (i : ℕ) (locked : Bool) (r : Read) (p : Packet) : State :=
  if s.sock.passes p.id r then
    match r.next with
    | some r => s.goto i (.canDirectSend locked r p)
    | none => s.goto i (if locked then .write p else .tryLock p)
  else s.goto i (if locked then .unlock (some false) p else .incType false p)

def tryLock (i : ℕ) (p : Packet) : State :=
  if s.mutex then s.goto i (.incType false p)
  else { s with mutex := true }.goto i (.canDirectSend true .id p)

/-- The number of bytes that a `write` of `len` bytes takes. -/
def taken (len : ℕ) : WriteResult → ℕ
  | .bytes n => min n len
  | _ => 0

/-- The direct write; what it leaves goes to the direct write buffer. -/
def directWrite (i : ℕ) (p : Packet) (r : WriteResult) : State :=
  let n := taken p.data.length r
  let s := { s with wire := s.wire ++ p.data.take n, accepted := s.accepted ++ [p] }
  if n = p.data.length then s.goto i (.unlock none p)
  else { s with sock := { s.sock with direct := some ⟨p, n⟩ } }.goto i (.unlock (some true) p)

def unlock (i : ℕ) (trigger : Option Bool) (p : Packet) : State :=
  { s with mutex := false }.goto i
    (match trigger with
    | some w => .incType w p
    | none => .idle)

def incType (i : ℕ) (trigger : Bool) (p : Packet) : State :=
  s.goto i (if s.sock.type = .tcp then .inc trigger p else .push trigger p)

def incSendingCount (i : ℕ) (trigger : Bool) (p : Packet) : State :=
  let count := s.sock.sendingCount
  if count.id = p.id then
    if count.n = 0xFFFF then s
    else { s with sock := { s.sock with sendingCount := ⟨count.id, count.n + 1⟩ } }.goto i
      (.push trigger p)
  else s.goto i (.push trigger p)

/-- `_send_ctrl_cmd` of `send` and `send_low_priority` -/
def push (i : ℕ) (trigger : Bool) (p : Packet) : State :=
  if trigger then { s with pipe := s.pipe ++ [Cmd.triggerWrite p.id] }.goto i .idle
  else { s with pipe := s.pipe ++ [Cmd.send p], accepted := s.accepted ++ [p] }.goto i .idle

/-- The next step of worker `i`; `r` is the result of its `write`. -/
def advance (i : ℕ) (r : WriteResult) : Pc → Option State
  | .idle => none
  | .opening k id => some (s.sendOpen i k id)
  | .checkId p => some (s.goto i (if s.sock.socketId = p.id then .checkStatus p else .idle))
  | .checkStatus p => some (s.checkStatus i p)
  | .canDirectSend locked rd p => some (s.canDirectSend i locked rd p)
  | .tryLock p => some (s.tryLock i p)
  | .write p => some (s.directWrite i p r)
  | .unlock k p => some (s.unlock i k p)
  | .incType w p => some (s.incType i w p)
  | .inc w p => some (s.incSendingCount i w p)
  | .push w p => some (s.push i w p)

/-! ### Closing -/

/-- The socket thread reports `e` for `id`, if anything, and is done. -/
def report (e : Option SocketEvent) (id : ℕ) : State :=
  { s with poll := .idle, events := s.events ++ (e.map fun e => (e, id)).toList }

/-- After `force_close`. -/
def resume (id : ℕ) : After → State
  | .report e => s.report e id
  | .eof => s.report (if s.sock.isCloseRead then none else some .close) id
  | .flushed => { s with mutex := false }.report none id

/-- `force_close` up to `sl.lock()` -/
def forceClose (k : After) : State :=
  match s.sock.status with
  | .invalid => s.resume s.sock.socketId k
  | .alloced => s.crash .closeAlloced
  | _ =>
    { s with
      sock := { s.sock with high := [], low := [] }
      dropped := s.dropped ++ (s.sock.high ++ s.sock.low).map WriteBuffer.packet
      poll := .closing s.sock.socketId k }

/-- The rest of `force_close`, under the mutex. -/
def closeSocket (id : ℕ) (k : After) : Option State :=
  if s.mutex = true ∧ k ≠ .flushed then none
  else some ({ s with
    sock := { s.sock with status := .invalid, direct := none }
    dropped := s.dropped ++ s.sock.direct.toList.map WriteBuffer.packet }.resume id k)

def closeRead : State :=
  s.setSock { s.sock with status := .halfCloseRead, reading := false }

/-- The mutex is released and `send_write_buffer` returns `e`. -/
def endWrite (e : Option SocketEvent) : State := { s with mutex := false }.report e s.sock.socketId

/-- `close_write`, called by `send_write_buffer` -/
def closeWrite : State :=
  if s.sock.closing || s.sock.isCloseRead then s.forceClose .flushed
  else if s.sock.isCloseWrite then s.endWrite none
  else (s.setSock { s.sock with status := .halfCloseWrite, writing := false }).endWrite (some .error)

/-! ### Control commands -/

/-- `handle_ctrl_cmd_connect_socket`, `handle_ctrl_cmd_listen_socket` and
`handle_ctrl_cmd_bind_os_fd` -/
def handleOpen (k : OpenKind) (id : ℕ) (o : Outcome) : State :=
  let free (x : SocketObject) : State :=
    (s.setSock { x with status := .invalid }).report (some .error) id
  let x := s.sock.newSocket id (k != .listen)
  if k = .connect ∧ o = .failed then free s.sock
  else if s.sock.status ≠ .alloced then s.crash .notAlloced
  else if o = .addFailed then free s.sock
  else if s.sock.isWriteBufferEmpty = false then s.crash .listsNotEmpty
  else
    let s := { s with wire := [] }
    match k with
    | .connect =>
      match o with
      | .inProgress =>
        (s.setSock { x with status := .connecting, writing := true }).report none id
      | .enableFailed => free { x with writing := true }
      | _ => (s.setSock { x with status := .connected }).report (some .opened) id
    | .listen =>
      if o = .enableFailed then free x
      else (s.setSock { x with status := .prepareListen }).report none id
    | .bind => (s.setSock { x with status := .bind }).report (some .opened) id

/-- `handle_ctrl_cmd_send_socket`, then `dec_sending_count`. -/
def handleSend (p : Packet) (o : Outcome) : State :=
  let x := s.sock
  if x.refuses p.id then s.crash .freeFunc
  else
    let y := x.append (x.isWriteBufferEmpty || p.high) p
    let failed := x.isWriteBufferEmpty && x.enableWriteFails true o
    let warns := !failed && WARNING_SIZE ≤ y.writeBufferSize && y.warnSize ≤ y.writeBufferSize
    let e := if failed then some .error else if warns then some .warning else none
    { s with
      sock := { y with
        writing := x.writing || x.isWriteBufferEmpty
        warnSize := if warns then (if y.warnSize = 0 then WARNING_SIZE * 2 else y.warnSize * 2)
          else y.warnSize }
      events := s.events ++ (e.map fun e => (e, p.id)).toList
      poll := .dec p.id }

def decSendingCount (id : ℕ) : State :=
  let x := s.sock
  if x.socketId = id ∧ x.type = .tcp then
    if x.sendingCount.n = 0 then s.crash .noSending
    else { s with
      sock := { x with sendingCount := ⟨x.sendingCount.id, x.sendingCount.n - 1⟩ }, poll := .idle }
  else { s with poll := .idle }

/-- `handle_ctrl_cmd_trigger_write` -/
def handleTriggerWrite (id : ℕ) (o : Outcome) : State :=
  if s.sock.isInvalid id then s.report none id
  else (s.setSock { s.sock with writing := true }).report
    (if s.sock.enableWriteFails true o then some .error else none) id

/-- `handle_ctrl_cmd_close_socket` -/
def handleClose (id : ℕ) (shutdown : Bool) : State :=
  if s.sock.isInvalid id then s.report none id
  else if shutdown || s.sock.nomoreSendingData then
    s.forceClose (.report (if s.sock.isCloseRead then none else some .close))
  else
    let t := s.setSock { s.sock with closing := true }
    if s.sock.isCloseRead then t.report none id else t.closeRead.report (some .close) id

/-- `handle_ctrl_cmd_resume_socket` -/
def handleResume (id : ℕ) (o : Outcome) : State :=
  let x := { s.sock with reading := true }
  if s.sock.isInvalid id then s.report (some .error) id
  else if s.sock.isCloseRead then s.report none id
  else if s.sock.enableReadFails true o then (s.setSock x).report (some .error) id
  else match s.sock.status with
    | .prepareAccept => (s.setSock { x with status := .connected }).report (some .opened) id
    | .prepareListen => (s.setSock { x with status := .listen }).report (some .opened) id
    | .connected => (s.setSock x).report (some .opened) id
    | _ => (s.setSock x).report none id

/-- `handle_ctrl_cmd_pause_socket` -/
def handlePause (id : ℕ) (o : Outcome) : State :=
  if s.sock.isInvalid id then s.report none id
  else (s.setSock { s.sock with reading := false }).report
    (if s.sock.enableReadFails false o then some .error else none) id

/-- `handle_ctrl_cmd`, with the command read from the pipe. -/
def handleCtrlCmd (o : Outcome) : Cmd → State
  | .opening k id => s.handleOpen k id o
  | .send p => s.handleSend p o
  | .triggerWrite id => s.handleTriggerWrite id o
  | .close id shutdown => s.handleClose id shutdown
  | .resume id => s.handleResume id o
  | .pause id => s.handlePause id o

/-! ### Writing the lists -/

/-- `send_write_buffer` up to the first `write` -/
def sendWriteBuffer : State :=
  if s.mutex then s.report none s.sock.socketId
  else
    let x := { s.sock with
      high := s.sock.direct.toList ++ s.sock.high
      writeBufferSize := s.sock.writeBufferSize + (s.sock.direct.map fun b => (b.sz : ℤ)).getD 0
      direct := none }
    if SocketObject.listUncomplete x.low then s.crash .uncompleteLow
    else { s with sock := x, mutex := true, poll := .sendHigh }

/-- Step 4 of `do_send_write_buffer`: both lists are empty. -/
def finishWrite (o : Outcome) : State :=
  if s.sock.writeBufferSize ≠ 0 then s.crash .sizeNotZero
  else if s.sock.closing then s.forceClose .flushed
  else
    let t := s.setSock { s.sock with writing := false }
    if s.sock.enableWriteFails false o then t.endWrite (some .error)
    else if 0 < s.sock.warnSize then
      (s.setSock { s.sock with writing := false, warnSize := 0 }).endWrite (some .warning)
    else t.endWrite none

/-- `n` bytes of `b` go out; what is left of the list `b :: rest`. -/
def WriteBuffer.advance (b : WriteBuffer) (n : ℕ) (rest : List WriteBuffer) : List WriteBuffer :=
  if n = b.sz then rest else { b with ptr := b.ptr + n } :: rest

/-- A `write` of the first buffer of a list takes `n` bytes. -/
def wrote (b : WriteBuffer) (n : ℕ) : State :=
  { s with
    wire := s.wire ++ (b.packet.data.drop b.ptr).take n
    sock := { s.sock with writeBufferSize := s.sock.writeBufferSize - n } }

/-- `send_write_buffer_list_tcp` on the high list, one `write`. -/
def sendHigh (r : WriteResult) (o : Outcome) : State :=
  match s.sock.high with
  | [] => if s.sock.low.isEmpty then s.finishWrite o else { s with poll := .sendLow }
  | b :: rest =>
    match r with
    | .interrupted => s
    | .again => s.endWrite none
    | .error => s.closeWrite
    | .bytes n =>
      let n := min n b.sz
      let s := s.wrote b n
      let s := s.setSock { s.sock with high := WriteBuffer.advance b n rest }
      if n = b.sz then s else s.endWrite none

/-- Step 3 of `do_send_write_buffer`, with `raise_uncomplete`: `low` is not empty. -/
def raiseUncomplete : State :=
  match s.sock.low with
  | [] => s.endWrite none
  | b :: rest =>
    if b.ptr = 0 then s.endWrite none
    else if s.sock.high.isEmpty then
      (s.setSock { s.sock with high := [b], low := rest }).endWrite none
    else s.crash .highNotEmpty

/-- `send_write_buffer_list_tcp` on the low list, one `write`, and step 3. -/
def sendLow (r : WriteResult) (o : Outcome) : State :=
  match s.sock.low with
  | [] => s.finishWrite o
  | b :: rest =>
    match r with
    | .interrupted => s
    | .again => s.raiseUncomplete
    | .error => s.closeWrite
    | .bytes n =>
      let n := min n b.sz
      let s := s.wrote b n
      let s := s.setSock { s.sock with low := WriteBuffer.advance b n rest }
      if n = b.sz then s else s.raiseUncomplete

/-! ### Poll events -/

def handleConnect (o : Outcome) : State :=
  if o = .failed then s.forceClose (.report (some .error))
  else
    let s := s.setSock { s.sock with status := .connected }
    if s.sock.nomoreSendingData then
      let t := s.setSock { s.sock with writing := false }
      if s.sock.enableWriteFails false o then t.forceClose (.report (some .error))
      else t.report (some .opened) s.sock.socketId
    else s.report (some .opened) s.sock.socketId

/-- `handle_accept` on this slot; the new connection gets another slot. -/
def handleAccept (o : Outcome) : State :=
  match o with
  | .done => s.report (some .accept) s.sock.socketId
  | .failed => s.report (some .error) s.sock.socketId
  | _ => s.report none s.sock.socketId

/-- `forward_message_tcp`.  A slot that has no type yet has no fd either: `recvfrom` fails. -/
def forwardMessage (r : ReadResult) : State :=
  if s.sock.type ≠ .tcp then s.forceClose (.report (some .error))
  else match r with
  | .retry => s.report none s.sock.socketId
  | .error => s.forceClose (.report (some .error))
  | .zero =>
    if s.sock.closing then
      if s.sock.nomoreSendingData then s.forceClose (.report none)
      else s.report none s.sock.socketId
    else if s.sock.isCloseRead then s.report none s.sock.socketId
    else if s.sock.isCloseWrite then s.forceClose (.report (some .close))
    else s.closeRead.report (some .close) s.sock.socketId
  | .bytes => s.report (if s.sock.isCloseRead then none else some .data) s.sock.socketId

/-- `poll_socket_event` with an event of this slot. -/
def handleEvent (e : Event) (o : Outcome) (r : ReadResult) : State :=
  match s.sock.status with
  | .connecting => s.handleConnect o
  | .listen => s.handleAccept o
  | .invalid => s.report none s.sock.socketId
  | _ =>
    if e.isReadable then s.forwardMessage r
    else if e.isWriteable then s.sendWriteBuffer
    else if e.isError then s.forceClose (.report (some .error))
    else if e.isEof then s.forceClose .eof
    else s.report none s.sock.socketId

/-- `handle_accept` on another slot gets this slot for the new connection. -/
def acceptHere (o : Outcome) : State :=
  let id := s.sock.socketId + 1
  let x := s.sock.alloc.newSocket id false
  match o with
  | .addFailed => { s with sock := { s.sock.alloc with status := .invalid }, wire := [] }
  | .enableFailed => { s with sock := { x with status := .invalid }, wire := [] }
  | _ => { s with sock := { x with status := .prepareAccept }, wire := [], known := id }

end State

/-! ### The system -/

inductive Action where
  /-- A new worker thread. -/
  | thread
  /-- Worker `i` calls `send` (`high`) or `send_low_priority`. -/
  | send (i id : ℕ) (high : Bool) (data : List UInt8)
  /-- Worker `i` calls `connect`, `listen` or `bind_os_fd`, and gets this slot. -/
  | alloc (i : ℕ) (k : OpenKind)
  /-- The next step of worker `i`. -/
  | run (i : ℕ) (r : WriteResult)
  /-- A worker calls `close`, `shutdown`, `start` or `pause`. -/
  | control (c : Cmd)
  /-- The socket thread handles the next command. -/
  | command (o : Outcome)
  /-- The socket thread handles an event of this slot. -/
  | event (e : Event) (o : Outcome) (r : ReadResult)
  /-- The socket thread accepts a connection and gets this slot for it. -/
  | accept (o : Outcome)
  /-- The next step of the socket thread inside a handler. -/
  | poll (r : WriteResult) (o : Outcome)
deriving DecidableEq, Repr

/-- The commands that are a single write to the pipe. -/
def Cmd.isControl : Cmd → Bool
  | .close _ _ | .resume _ | .pause _ => true
  | _ => false

namespace State

variable (s : State)

/-- The socket thread inside a handler. -/
def pollStep (r : WriteResult) (o : Outcome) : Option State :=
  match s.poll with
  | .idle => none
  | .dec id => some (s.decSendingCount id)
  | .closing id k => s.closeSocket id k
  | .sendHigh => some (s.sendHigh r o)
  | .sendLow => some (s.sendLow r o)

/-- Worker `i` enters `send`. -/
def call (i id : ℕ) (high : Bool) (data : List UInt8) : State :=
  { s with ncalls := s.ncalls + 1 }.goto i (.checkId ⟨id, i, s.ncalls, high, data⟩)

def act : Action → Option State
  | .thread => some { s with acts := s.acts ++ [.idle] }
  | .send i id high data =>
    if s.acts[i]? = some .idle ∧ id ≤ s.known then some (s.call i id high data) else none
  | .alloc i k => if s.acts[i]? = some .idle then s.alloc i k else none
  | .run i r => s.acts[i]?.bind (s.advance i r)
  | .control c =>
    if c.isControl ∧ c.id ≤ s.known then some { s with pipe := s.pipe ++ [c] } else none
  | .command o =>
    match s.poll, s.pipe with
    | .idle, c :: rest => some ({ s with pipe := rest }.handleCtrlCmd o c)
    | _, _ => none
  | .event e o r => if s.poll = .idle then some (s.handleEvent e o r) else none
  | .accept o => if s.poll = .idle ∧ s.sock.status = .invalid then some (s.acceptHere o) else none
  | .poll r o => s.pollStep r o

/-- A step that stops the process leaves the rest as it was. -/
def stop (t : State) : State :=
  match t.fault with
  | some f => s.crash f
  | none => t

def step (a : Action) : Option State := if s.fault = none then (s.act a).map s.stop else none

end State

/-- The slot with its workers and the socket thread. -/
def slot : System State Action := ⟨State.init, State.step⟩

end Skynet.Socket
