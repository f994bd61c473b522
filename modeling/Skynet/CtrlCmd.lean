import Skynet.ByteMemory
import Skynet.Transition

/-! # Control commands of the socket server

The operations of `socket_server` are carried out by the socket thread: an operation fills a
`ctrl_cmd_package` and writes it to a pipe, and `handle_ctrl_cmd` reads it and calls the handler
for its type.  On the pipe a command is one byte for its type, one byte for the length of its
data, and the data, a C struct that writer and reader lay out alike (`x86-64`).  A package has at
most 257 bytes, so a write to the pipe is atomic: the operations of all threads are a sequence,
in the order of their writes.

What an operation has to find out before it knows its command (whether it could bind an address,
which socket id it got, whether the data could be sent at once) is part of the call. -/

namespace Skynet.CtrlCmd

open ByteMemory Transition

/-- An `int` or a `uint32_t`, by its bits. -/
abbrev Int32 := BitVec 32

/-- A `size_t` or a pointer. -/
abbrev Int64 := BitVec 64

/-! ### Packages -/

/-- `ctrl_cmd_package`: the bytes `6` and `7` of the header, and the union of the requests. -/
structure Package where
  type : UInt8 := 0
  len : UInt8 := 0
  u : Memory := .zero

/-- The type of a command is a letter. -/
def letter (c : Char) : UInt8 := c.val.toUInt8

def setInt (m : Memory) (off : ℕ) (v : Int32) : Memory := m.setField 4 off v.toNat
def setPtr (m : Memory) (off : ℕ) (v : Int64) : Memory := m.setField 8 off v.toNat
def getInt (m : Memory) (off : ℕ) : Int32 := BitVec.ofNat 32 (m.field 4 off)
def getPtr (m : Memory) (off : ℕ) : Int64 := BitVec.ofNat 64 (m.field 8 off)

/-- Set the header, as all `prepare` functions do in the end. -/
def Package.header (cmd : Package) (c : Char) (len : ℕ) : Package :=
  { cmd with type := letter c, len := UInt8.ofNat len }

/-- The structs of two and three `int`s: `cmd_request_resume_pause`, and `cmd_request_close`,
`cmd_request_bind_os_fd`, `cmd_request_listen` and `cmd_request_set_opt`. -/
def Package.ints (cmd : Package) (a b : Int32) : Package :=
  { cmd with u := setInt (setInt cmd.u 0 a) 4 b }

def Package.ints₃ (cmd : Package) (a b c : Int32) : Package :=
  { cmd with u := setInt (setInt (setInt cmd.u 0 a) 4 b) 8 c }

def prepareResume (cmd : Package) (svcHandle socketId : Int32) : Package :=
  (cmd.ints socketId svcHandle).header 'R' 8

def preparePause (cmd : Package) (svcHandle socketId : Int32) : Package :=
  (cmd.ints socketId svcHandle).header 'S' 8

def prepareClose (cmd : Package) (svcHandle socketId : Int32) : Package :=
  (cmd.ints₃ socketId 0 svcHandle).header 'K' 12

def prepareShutdown (cmd : Package) (svcHandle socketId : Int32) : Package :=
  (cmd.ints₃ socketId 1 svcHandle).header 'K' 12

def prepareBind (cmd : Package) (svcHandle socketId osFd : Int32) : Package :=
  (cmd.ints₃ socketId osFd svcHandle).header 'B' 12

/-- `cmd_request_listen` has a last field `host[1]`, which is padded and left zero. -/
def prepareListen (cmd : Package) (svcHandle socketId listenFd : Int32) : Package :=
  (cmd.ints₃ socketId listenFd svcHandle).header 'L' 16

def tcpNodelay : Int32 := 1

def prepareSetOpt (cmd : Package) (socketId : Int32) : Package :=
  (cmd.ints₃ socketId tcpNodelay 1).header 'T' 12

/-- The bytes of a C string. -/
def cstr (s : List UInt8) : List UInt8 := s.takeWhile (· ≠ 0)

/-- The address follows the struct, whose last field is its first byte; it is refused when the
data would not fit. -/
def prepareConnect (cmd : Package) (svcHandle socketId : Int32) (remoteIp : List UInt8)
    (remotePort : BitVec 16) : Option Package :=
  let host := cstr remoteIp
  if 256 ≤ 16 + host.length then none
  else
    let cmd := cmd.ints₃ socketId (remotePort.setWidth 32) svcHandle
    let cmd := { cmd with u := (cmd.u.store 12 host).store (12 + host.length) [0] }
    some (cmd.header 'O' (host.length + 16))

/-- `cmd_request_send`; the size has been stored by `clone_send_data`. -/
def Package.send (cmd : Package) (socketId : Int32) (dataPtr : Int64) : Package :=
  { cmd with u := setPtr (setInt cmd.u 0 socketId) 16 dataPtr }

def prepareSend (cmd : Package) (socketId : Int32) (dataPtr : Int64) (isHigh : Bool) : Package :=
  (cmd.send socketId dataPtr).header (if isHigh then 'D' else 'P') 24

def prepareTriggerWrite (cmd : Package) (socketId : Int32) : Package :=
  let cmd := { cmd with u := setPtr (setInt cmd.u 0 socketId) 8 0 }
  { cmd with u := setPtr cmd.u 16 0 }.header 'W' 24

def prepareUdpSocket (cmd : Package) (svcHandle socketId socketFd family : Int32) : Package :=
  let cmd := cmd.ints₃ socketId socketFd family
  { cmd with u := setInt cmd.u 12 svcHandle }.header 'U' 16

def socketTypeUdp : UInt8 := 1
def socketTypeUdpV6 : UInt8 := 2

/-- `socket_endpoint`: an address and a port, as they stand in memory. -/
inductive Endpoint where
  | v4 (port : BitVec 16) (addr : BitVec 32)
  | v6 (port : BitVec 16) (addr : BitVec 128)

/-- The type that `udp_connect` picks for the family. -/
def Endpoint.type : Endpoint → UInt8
  | .v4 .. => socketTypeUdp
  | .v6 .. => socketTypeUdpV6

/-- `to_udp_address`: the bytes it writes. -/
def Endpoint.toUdpAddress : Endpoint → List UInt8
  | .v4 port addr => socketTypeUdp :: (ByteOrder.toLE 2 port.toNat ++ ByteOrder.toLE 4 addr.toNat)
  | .v6 port addr =>
    socketTypeUdpV6 :: (ByteOrder.toLE 2 port.toNat ++ ByteOrder.toLE 16 addr.toNat)

/-- `cmd_request_set_udp` is padded by one byte, which is sent as well. -/
def prepareSetUdp (cmd : Package) (socketId : Int32) (endpoint : Endpoint) : Package :=
  let address := endpoint.toUdpAddress
  { cmd with u := (setInt cmd.u 0 socketId).store 4 address }.header 'C' (24 - 19 + address.length)

def prepareSendUdp (cmd : Package) (socketId : Int32) (dataPtr : Int64) (address : List UInt8) :
    Package :=
  let cmd := cmd.send socketId dataPtr
  { cmd with u := cmd.u.store 24 address }.header 'A' (24 + address.length)

/-! ### Operations -/

/-- How far `send` gets on its own. -/
inductive SendRoute where
  /-- the socket id is invalid, the data is sent, or there is no address to send it to -/
  | done
  /-- the rest of the data is left in the direct write buffer -/
  | direct
  | queued
  deriving DecidableEq, Repr

/-- A call of a public operation, with what it learns on its way. -/
inductive Call where
  /-- `listenFd`: the bound socket; `socketId`: what `alloc_socket` returns -/
  | listen (svcHandle : Int32) (listenFd socketId : Option Int32)
  | connect (svcHandle : Int32) (remoteIp : List UInt8) (remotePort : BitVec 16)
      (socketId : Option Int32)
  | start (svcHandle socketId : Int32)
  | pause (svcHandle socketId : Int32)
  | exit
  | close (svcHandle socketId : Int32)
  | shutdown (svcHandle socketId : Int32)
  | send (socketId : Int32) (dataSize dataPtr : Int64) (route : SendRoute)
  | sendLowPriority (socketId : Int32) (dataSize dataPtr : Int64) (invalid : Bool)
  | bindOsFd (svcHandle osFd : Int32) (socketId : Option Int32)
  | nodelay (socketId : Int32)
  /-- the bound socket and its family -/
  | udpSocket (svcHandle : Int32) (bound : Option (Int32 × Int32)) (socketId : Option Int32)
  /-- `done`: the socket id is invalid, or the data is sent -/
  | udpSend (socketId : Int32) (addr : Memory) (dataSize dataPtr : Int64) (done : Bool)
  /-- the first address found for the name, if it is of a known family -/
  | udpConnect (socketId : Int32) (endpoint : Option Endpoint)

/-- The length of a UDP address of the given type. -/
def addrSize (type : UInt8) : Option ℕ :=
  if type = socketTypeUdp then some (1 + 2 + 4)
  else if type = socketTypeUdpV6 then some (1 + 2 + 16)
  else none

/-- A new package whose `data_size` has been set. -/
def withSize (dataSize : Int64) : Package := { u := setPtr .zero 8 dataSize }

/-- The package that a call writes, if it gets that far. -/
def Call.package : Call → Option Package
  | .listen svcHandle listenFd socketId => do
      let listenFd ← listenFd
      let socketId ← socketId
      some (prepareListen {} svcHandle socketId listenFd)
  | .connect svcHandle remoteIp remotePort socketId => do
      let socketId ← socketId
      prepareConnect {} svcHandle socketId remoteIp remotePort
  | .start svcHandle socketId => some (prepareResume {} svcHandle socketId)
  | .pause svcHandle socketId => some (preparePause {} svcHandle socketId)
  | .exit => some {}
  | .close svcHandle socketId => some (prepareClose {} svcHandle socketId)
  | .shutdown svcHandle socketId => some (prepareShutdown {} svcHandle socketId)
  | .send socketId dataSize dataPtr route =>
    match route with
    | .done => none
    | .direct => some (prepareTriggerWrite {} socketId)
    | .queued => some (prepareSend (withSize dataSize) socketId dataPtr true)
  | .sendLowPriority socketId dataSize dataPtr invalid =>
    if invalid then none else some (prepareSend (withSize dataSize) socketId dataPtr false)
  | .bindOsFd svcHandle osFd socketId => do
      let socketId ← socketId
      some (prepareBind {} svcHandle socketId osFd)
  | .nodelay socketId => some (prepareSetOpt {} socketId)
  | .udpSocket svcHandle bound socketId => do
      let bound ← bound
      let socketId ← socketId
      some (prepareUdpSocket {} svcHandle socketId bound.1 bound.2)
  | .udpSend socketId addr dataSize dataPtr done => do
      let n ← addrSize (addr 0)
      if done then none
      else some (prepareSendUdp (withSize dataSize) socketId dataPtr (addr.load 0 n))
  | .udpConnect socketId endpoint => do
      let endpoint ← endpoint
      some (prepareSetUdp {} socketId endpoint)

/-! ### Handlers -/

inductive Priority where
  | high | low
  deriving DecidableEq, Repr

/-- A handler and the fields of the request it is given. -/
inductive Command where
  | resumeSocket (socketId svcHandle : Int32)
  | pauseSocket (socketId svcHandle : Int32)
  | bindOsFd (socketId osFd svcHandle : Int32)
  | listenSocket (socketId socketFd svcHandle : Int32)
  | closeSocket (socketId shutdown svcHandle : Int32)
  | connectSocket (socketId port svcHandle : Int32) (host : List UInt8)
  /-- the handler after which `poll_socket_event` returns `SOCKET_EVENT_EXIT` -/
  | exitSocket
  | triggerWrite (socketId : Int32)
  | sendSocket (socketId : Int32) (dataSize dataPtr : Int64) (priority : Priority)
  | sendUdp (socketId : Int32) (dataSize dataPtr : Int64) (address : List UInt8)
  | setUdpAddress (socketId : Int32) (address : List UInt8)
  | setOpt (socketId what value : Int32)
  | udpSocket (socketId socketFd family svcHandle : Int32)
  /-- "Unknown ctrl command" -/
  | unknown (type : UInt8)
  deriving DecidableEq, Repr

/-- The bytes of a UDP address that the handlers read: its first byte says how many. -/
def getAddress (m : Memory) (off : ℕ) : List UInt8 :=
  m.load off (if m off = socketTypeUdp then 1 + 2 + 4 else 1 + 2 + 16)

/-- The `switch` of `handle_ctrl_cmd`, on the type and the buffer the data was read to. -/
def dispatch (type : UInt8) (buf : Memory) : Command :=
  if type = letter 'R' then .resumeSocket (getInt buf 0) (getInt buf 4)
  else if type = letter 'S' then .pauseSocket (getInt buf 0) (getInt buf 4)
  else if type = letter 'B' then .bindOsFd (getInt buf 0) (getInt buf 4) (getInt buf 8)
  else if type = letter 'L' then .listenSocket (getInt buf 0) (getInt buf 4) (getInt buf 8)
  else if type = letter 'K' then .closeSocket (getInt buf 0) (getInt buf 4) (getInt buf 8)
  else if type = letter 'O' then
    .connectSocket (getInt buf 0) (getInt buf 4) (getInt buf 8) (cstr (buf.load 12 (256 - 12)))
  else if type = letter 'X' then .exitSocket
  else if type = letter 'W' then .triggerWrite (getInt buf 0)
  else if type = letter 'D' then .sendSocket (getInt buf 0) (getPtr buf 8) (getPtr buf 16) .high
  else if type = letter 'P' then .sendSocket (getInt buf 0) (getPtr buf 8) (getPtr buf 16) .low
  else if type = letter 'A' then
    .sendUdp (getInt buf 0) (getPtr buf 8) (getPtr buf 16) (getAddress buf 24)
  else if type = letter 'C' then .setUdpAddress (getInt buf 0) (getAddress buf 4)
  else if type = letter 'T' then .setOpt (getInt buf 0) (getInt buf 4) (getInt buf 8)
  else if type = letter 'U' then
    .udpSocket (getInt buf 0) (getInt buf 4) (getInt buf 8) (getInt buf 12)
  else .unknown type

/-! ### The pipe -/

/-- What `_send_ctrl_cmd` writes: type, length, and as many bytes of data. -/
def Package.bytes (cmd : Package) : List UInt8 :=
  cmd.type :: cmd.len :: cmd.u.load 0 cmd.len.toNat

/-- `pipe::read`, which asserts that it got all the bytes. -/
def pipeRead (pipe : List UInt8) (sz : ℕ) : Option (List UInt8 × List UInt8) :=
  if pipe.length < sz then none else some (pipe.take sz, pipe.drop sz)

/-- `handle_ctrl_cmd`: the handler it calls, and what is left in the pipe. -/
def handleCtrlCmd (pipe : List UInt8) : Option (Command × List UInt8) := do
  let (header, pipe) ← pipeRead pipe 2
  let (data, pipe) ← pipeRead pipe (header.getD 1 0).toNat
  some (dispatch (header.getD 0 0) (Memory.zero.store 0 data), pipe)

/-- The pipe, with the calls made and the commands handled so far. -/
structure State where
  pipe : List UInt8
  calls : List Call
  handled : List Command
  /-- an assertion of `pipe::read` has failed -/
  failed : Bool

inductive Action where
  | call (c : Call)
  /-- `poll_socket_event` finds the pipe readable -/
  | handle

def State.step (s : State) : Action → Option State
  | .call c =>
    match c.package with
    | none => some { s with calls := s.calls ++ [c] }
    | some cmd => some { s with calls := s.calls ++ [c], pipe := s.pipe ++ cmd.bytes }
  | .handle =>
    if s.pipe = [] ∨ s.failed then none
    else
      match handleCtrlCmd s.pipe with
      | none => some { s with failed := true }
      | some (cmd, pipe) => some { s with pipe, handled := s.handled ++ [cmd] }

/-- The operations of any threads, and the socket thread. -/
def server : System State Action := ⟨⟨[], [], [], false⟩, State.step⟩

/-! ### What the operations are for -/

/-- The handler meant for an operation, with the values of the call; `none` when the operation is
over without the socket thread. -/
def Call.meant : Call → Option Command
  | .listen svcHandle (some listenFd) (some socketId) =>
    some (.listenSocket socketId listenFd svcHandle)
  | .connect svcHandle remoteIp remotePort (some socketId) =>
    if (cstr remoteIp).length < 240 then
      some (.connectSocket socketId (remotePort.setWidth 32) svcHandle (cstr remoteIp))
    else none
  | .start svcHandle socketId => some (.resumeSocket socketId svcHandle)
  | .pause svcHandle socketId => some (.pauseSocket socketId svcHandle)
  | .exit => some .exitSocket
  | .close svcHandle socketId => some (.closeSocket socketId 0 svcHandle)
  | .shutdown svcHandle socketId => some (.closeSocket socketId 1 svcHandle)
  | .send socketId _ _ .direct => some (.triggerWrite socketId)
  | .send socketId dataSize dataPtr .queued => some (.sendSocket socketId dataSize dataPtr .high)
  | .sendLowPriority socketId dataSize dataPtr false =>
    some (.sendSocket socketId dataSize dataPtr .low)
  | .bindOsFd svcHandle osFd (some socketId) => some (.bindOsFd socketId osFd svcHandle)
  | .nodelay socketId => some (.setOpt socketId tcpNodelay 1)
  | .udpSocket svcHandle (some (fd, family)) (some socketId) =>
    some (.udpSocket socketId fd family svcHandle)
  | .udpSend socketId addr dataSize dataPtr false =>
    (addrSize (addr 0)).map fun n => .sendUdp socketId dataSize dataPtr (addr.load 0 n)
  | .udpConnect socketId (some endpoint) => some (.setUdpAddress socketId endpoint.toUdpAddress)
  | _ => none

end Skynet.CtrlCmd
