import Skynet.Transition

/-! # Socket channels in order mode

A channel without a `response` function of its own answers requests in the order in which they
were made: a requester pushes its response function and its coroutine into `__request` and
`__thread` and waits; one dispatch coroutine for each connection takes the first pair, applies the
function to the socket and wakes the coroutine.  A pair `(true, false)` is the signal that ends the
dispatch coroutine.

A step of the model is what one coroutine does between two yields.  A coroutine that waits goes on
only after it was woken.  The label says what the socket layer answers: whether a socket could be
opened, whether a `socket.send` was accepted, when a peer closes, when a read fails.

* `Line` is what requesters and the dispatch coroutine share; `State` adds what the functions
  that connect and close look at.
* A response function is a function of the stream of its connection.  `streams` is what the
  responses so far have left of the streams; how reads wait for data is left to the label.
* `__wait_response` is set while the dispatch coroutine is `waiting` and has not been woken.
* `__result` and `__result_data` of a coroutine are written and taken together, as `results`.
* Hosts, backup hosts and their number, overload warnings and the data of requests are left out.

`serial` and `conn` of an entry, the numbers in `Pc.waiting` and `Pc.woken`, `pushes`, `wakes` and
`resumed` record the history; no step reads them. -/

namespace Skynet.SocketChannel

open Function Transition

/-- A response function: `result_ok`, `result_data`, `padding` and the rest of the stream, or
`none` when it raises an error. -/
def Func (σ δ : Type) : Type := σ → Option ((Bool × δ × Bool) × σ)

/-- The data of a response, a table when it came in several parts. -/
inductive Data (δ : Type) where
  | one (d : δ)
  | table (ds : List δ)
deriving DecidableEq, Repr

namespace Func

variable {σ δ : Type} (f : Func σ δ)

/-- The loop of `get_response` over the parts after the first, with at most `n` rounds. -/
def rounds : ℕ → List δ → σ → Option ((Bool × Data δ) × σ)
  | 0, _, _ => none
  | n + 1, ds, x =>
    match f x with
    | none => none
    | some ((ok, d, padding), y) =>
      if ok = false then some ((false, .one d), y)
      else if padding then rounds n (ds ++ [d]) y
      else some ((true, .table (ds ++ [d])), y)

def getResponse (n : ℕ) (x : σ) : Option ((Bool × Data δ) × σ) :=
  match f x with
  | none => none
  | some ((ok, d, padding), y) =>
    if ok && padding then f.rounds n [d] y else some ((ok, .one d), y)

end Func

/-- What a requester finds in `__result` and `__result_data`. -/
inductive Answer (δ : Type) where
  | response (ok : Bool) (data : Data δ)
  | socketError (errmsg : Option String)
deriving DecidableEq, Repr

/-- A pair of `__request` and `__thread`; `conn` is the connection it was pushed on. -/
structure Entry (σ δ : Type) where
  thread : ℕ
  func : Func σ δ
  conn : ℕ
  serial : ℕ

/-- A call of the channel; `connect` when it is `channel:connect`. -/
inductive Op (σ δ : Type) where
  | request (response : Option (Func σ δ))
  | response (f : Func σ δ)
  | connect (once : Bool)

/-- The argument `once` of `block_connect`. -/
def Op.once {σ δ : Type} : Op σ δ → Bool
  | request _ => true
  | response _ => false
  | connect once => once

/-- Where a coroutine is. -/
inductive Pc (σ δ : Type) where
  | outside
  /-- in the `skynet.wait` of `block_connect` -/
  | connectWait (op : Op σ δ)
  | connectWoken (op : Op σ δ)
  /-- in `socket.open_tcp_client` -/
  | opening (op : Op σ δ)
  /-- in `_connect_once`, until the dispatch coroutine has ended; `connected` is the state of the
  new socket -/
  | draining (op : Op σ δ) (connected : Bool)
  /-- in the `skynet.sleep` of `try_connect` -/
  | retrying (op : Op σ δ)
  /-- in the `socket.close` after a failed `__auth` -/
  | authClosing (op : Op σ δ)
  /-- in the `skynet.wait` of `wait_for_response` -/
  | waiting (n : ℕ)
  | woken (n : ℕ)
  /-- in the `socket.close` of `sock_err` -/
  | sockErr

/-- `skynet.wakeup` -/
def Pc.wake {σ δ : Type} : Pc σ δ → Pc σ δ
  | connectWait op => connectWoken op
  | waiting n => woken n
  | pc => pc

/-- Where the dispatch coroutine is. -/
inductive Dispatcher (σ δ : Type) where
  /-- not started -/
  | forked
  /-- in the `skynet.wait` of `pop_response` -/
  | waiting (woken : Bool)
  /-- in `get_response` for entry `e`, with the socket of connection `sock` -/
  | reading (e : Entry σ δ) (sock : ℕ)
  /-- in the `socket.close` after `get_response` has raised an error -/
  | failing (e : Entry σ δ) (errmsg : Option String)
  /-- ended by an error, with `__dispatch_thread` still set -/
  | dead

/-- What the requesters and the dispatch coroutine share. -/
structure Line (σ δ : Type) where
  /-- `__request` and `__thread`; `none` is the close signal -/
  queue : List (Option (Entry σ δ))
  /-- `__dispatch_thread` -/
  dispatch : Option (Dispatcher σ δ)
  sock : Option ℕ
  results : ℕ → Option (Answer δ)
  pcs : ℕ → Pc σ δ
  /-- the number of connections so far -/
  nconns : ℕ
  streams : ℕ → σ
  -- the history
  pushes : List (Entry σ δ)
  wakes : List (Entry σ δ × Answer δ)
  /-- the requesters that have gone on, with what they took -/
  resumed : List (ℕ × Answer δ)

namespace Line

variable {σ δ : Type} (s : Line σ δ)

def setPc (i : ℕ) (pc : Pc σ δ) : Line σ δ := { s with pcs := update s.pcs i pc }

/-- `close_channel_socket`, up to the `socket.close` -/
def closeSocket : Line σ δ := { s with sock := none }

/-- A result is stored for a requester and the requester is woken. -/
def give (e : Entry σ δ) (a : Answer δ) : Line σ δ :=
  { s with
    results := update s.results e.thread (some a)
    pcs := update s.pcs e.thread (s.pcs e.thread).wake
    wakes := s.wakes ++ [(e, a)] }

/-- Each requester of `l` gets `socket_error`; close signals are passed over. -/
def giveAll (errmsg : Option String) : List (Option (Entry σ δ)) → Line σ δ → Line σ δ
  | [], s => s
  | none :: l, s => giveAll errmsg l s
  | some e :: l, s => giveAll errmsg l (s.give e (.socketError errmsg))

def wakeupAll (errmsg : Option String) : Line σ δ :=
  giveAll errmsg s.queue { s with queue := [] }

def pushResponse (item : Option (Entry σ δ)) : Line σ δ :=
  { s with
    queue := s.queue ++ [item]
    dispatch :=
      match s.dispatch with
      | some (.waiting false) => some (.waiting true)
      | d => d }

/-- `wait_for_response`, up to the `skynet.wait`; the connection is up. -/
def waitForResponse (i : ℕ) (f : Func σ δ) (c : ℕ) : Line σ δ :=
  let e : Entry σ δ := ⟨i, f, c, s.pushes.length⟩
  { s.pushResponse (some e) with
    pcs := update s.pcs i (.waiting e.serial)
    pushes := s.pushes ++ [e] }

/-- The requester goes on after its `skynet.wait`. -/
def resume (i n : ℕ) : Line σ δ :=
  { s.setPc i .outside with
    results := update s.results i none
    resumed :=
      match s.results i with
      | some a => s.resumed ++ [(n, a)]
      | none => s.resumed }

def termDispatchThread : Line σ δ :=
  if s.dispatch.isSome then s.pushResponse none else s

/-- The socket of a new connection, and its dispatch coroutine. -/
def establish : Line σ δ :=
  { s with sock := some s.nconns, nconns := s.nconns + 1, dispatch := some .forked }

/-! ### The dispatch coroutine -/

/-- `dispatch_by_order` returns. -/
def exit : Line σ δ := { s with dispatch := none }

/-- `dispatch_by_order` from the removal of the first pair in `pop_response` on. -/
def popResponse : Line σ δ :=
  match s.queue with
  | [] => { s with dispatch := some (.waiting false) }
  | none :: rest => ({ s with queue := rest }.wakeupAll (some "channel_closed")).exit
  | some e :: rest =>
    let t : Line σ δ := { s with queue := rest }
    match s.sock with
    | none => ((t.give e (.socketError none)).wakeupAll none).exit
    | some c => { t with dispatch := some (.reading e c) }

/-- The loop of `dispatch_by_order`. -/
def loop : Line σ δ := if s.sock.isSome then s.popResponse else s.exit

/-- What is stored for a response: the data is inserted in a table that is there already. -/
def responseData (i : ℕ) (ok : Bool) (d : Data δ) : Data δ :=
  match ok, s.results i, d with
  | true, some (.response _ (.table ds)), .one d => .table (ds ++ [d])
  | _, _, _ => d

/-- `get_response` has returned. -/
def respond (e : Entry σ δ) (c : ℕ) (ok : Bool) (d : Data δ) (rest : σ) : Line σ δ :=
  ({ s with streams := update s.streams c rest }.give e
    (.response ok (s.responseData e.thread ok d))).loop

/-- The requester and all others get the error of `get_response`. -/
def fail (e : Entry σ δ) (errmsg : Option String) : Line σ δ :=
  ((s.give e (.socketError errmsg)).wakeupAll errmsg).loop

end Line

/-- A channel. -/
structure State (σ δ : Type) extends Line σ δ where
  /-- `__connecting`, without its first entry; `none` when it is empty -/
  connecting : Option (List ℕ)
  closed : Bool
  /-- `__authcoroutine`, with the call it connects for -/
  auth : Option (ℕ × Op σ δ)
  /-- `connected` of the socket of each connection -/
  connected : ℕ → Bool
  /-- `autoclose_cb` is set for the socket -/
  onClose : ℕ → Bool
  /-- `__auth` is set -/
  hasAuth : Bool

inductive Label (σ δ : Type) where
  /-- coroutine `i` makes a call; `sent` when every `socket.send` is accepted, as in the labels
  that follow -/
  | call (i : ℕ) (op : Op σ δ) (sent : Bool)
  /-- the `skynet.wait` of `block_connect` has returned -/
  | goOn (i : ℕ) (sent : Bool)
  /-- `socket.open_tcp_client` has returned a socket -/
  | opened (i : ℕ) (sent : Bool)
  /-- it has not; `more` when there is another host to try, as in the labels that follow -/
  | openFailed (i : ℕ) (more sent : Bool)
  /-- the peer closes the new socket -/
  | newClosed (i : ℕ)
  /-- the dispatch coroutine has ended -/
  | drained (i : ℕ) (sent : Bool)
  | retry (i : ℕ) (sent : Bool)
  /-- `__auth` has returned, or failed when not `ok` -/
  | authDone (i : ℕ) (ok more sent : Bool)
  | authClosed (i : ℕ) (more sent : Bool)
  /-- the `socket.close` of `sock_err` has returned -/
  | sockErrClosed (i : ℕ)
  /-- the requester goes on -/
  | resume (i : ℕ)
  /-- `channel:close` -/
  | close
  /-- `channel:changehost` -/
  | changehost
  /-- a CLOSE event, or an ERROR event when not `clean` -/
  | peerClosed (c : ℕ) (clean : Bool)
  /-- the dispatch coroutine starts -/
  | start
  /-- it goes on in `pop_response` -/
  | wake
  /-- `get_response` returns, after at most `n` rounds of its loop -/
  | respond (n : ℕ)
  /-- `get_response` raises an error -/
  | readFailed (errmsg : Option String)
  /-- the `socket.close` after it has returned -/
  | readClosed

namespace State

variable {σ δ : Type} (s : State σ δ)

def setPc (i : ℕ) (pc : Pc σ δ) : State σ δ := { s with toLine := s.toLine.setPc i pc }

def closeSocket : State σ δ := { s with toLine := s.toLine.closeSocket }

/-- The socket of the channel is still connected, so that `socket.close` yields. -/
def closeYields : Bool := s.sock.any s.connected

/-- `check_connection`; a socket that is closed is not connected here. -/
def checkConnection (i : ℕ) : State σ δ × Option Bool :=
  match s.sock with
  | some c =>
    if s.connected c = false then (s.closeSocket, none)
    else if s.auth.all (·.1 = i) then (s, some true)
    else (s, if s.closed then some false else none)
  | none => (s, if s.closed then some false else none)

/-- `sock_err` of coroutine `i` -/
def sockErr (i : ℕ) : State σ δ :=
  if s.closeYields then s.closeSocket.setPc i .sockErr
  else { s.closeSocket with toLine := (s.toLine.closeSocket.wakeupAll none).setPc i .outside }

/-- What follows `block_connect`, which has returned `r`. -/
def proceed (i : ℕ) (op : Op σ δ) (r sent : Bool) : State σ δ :=
  match s.sock, r, op with
  | some c, true, .request (some f) =>
    if sent then { s with toLine := s.toLine.waitForResponse i f c } else s.sockErr i
  | some _, true, .request none => if sent then s.setPc i .outside else s.sockErr i
  | some c, true, .response f => { s with toLine := s.toLine.waitForResponse i f c }
  -- the assertion on the result of block_connect fails, or channel:connect returns
  | _, _, _ => s.setPc i .outside

/-- The end of `block_connect`. -/
def recheck (i : ℕ) (op : Op σ δ) (sent : Bool) : State σ δ :=
  match s.checkConnection i with
  | (t, some r) => t.proceed i op r sent
  | (t, none) => t.setPc i .outside

/-- `try_connect` has returned: the coroutines in `__connecting` are woken. -/
def finishConnect (i : ℕ) (op : Op σ δ) (sent : Bool) : State σ δ :=
  { s with
    connecting := none
    pcs := fun j => if j ∈ s.connecting.getD [] then (s.pcs j).wake else s.pcs j }.recheck i op sent

/-- The loop of `try_connect`. -/
def tryConnect (i : ℕ) (op : Op σ δ) (sent : Bool) : State σ δ :=
  if s.closed then s.finishConnect i op sent else s.setPc i (.opening op)

/-- `connect_once` has failed. -/
def connectFailed (i : ℕ) (op : Op σ δ) (sent : Bool) : State σ δ :=
  if op.once then s.finishConnect i op sent else s.setPc i (.retrying op)

/-- `connect_once` of a channel that is not connected, once more. -/
def connectOnce (i : ℕ) (op : Op σ δ) (sent : Bool) : State σ δ :=
  if s.closed then s.connectFailed i op sent else s.setPc i (.opening op)

/-- `_connect_once` from the point on where no dispatch coroutine is left. -/
def establish (i : ℕ) (op : Op σ δ) (connected sent : Bool) : State σ δ :=
  let t : State σ δ :=
    { s with
      toLine := s.toLine.establish
      connected := update s.connected s.nconns connected
      onClose := update s.onClose s.nconns false }
  if s.hasAuth then { t.setPc i .outside with auth := some (i, op) } else t.finishConnect i op sent

/-- `_connect_once` with a new socket. -/
def opened (i : ℕ) (op : Op σ δ) (sent : Bool) : State σ δ :=
  -- the assertion of _connect_once; __connecting is left as it is
  if s.sock.isSome || s.auth.isSome then s.setPc i .outside
  else if s.dispatch.isSome then
    { s with toLine := s.toLine.termDispatchThread.setPc i (.draining op true) }
  else s.establish i op true sent

/-- `__auth` has failed and the socket is closed. -/
def authFailed (i : ℕ) (op : Op σ δ) (more sent : Bool) : State σ δ :=
  let t : State σ δ := { s with auth := none }
  if more then t.setPc i (.opening op) else t.connectFailed i op sent

/-- `__auth` of coroutine `i` has returned. -/
def authDone (i : ℕ) (op : Op σ δ) (ok more sent : Bool) : State σ δ :=
  if ok then
    let t : State σ δ := { s with auth := none }
    if s.sock.isSome then t.finishConnect i op sent else t.connectOnce i op sent
  else if s.closeYields then s.closeSocket.setPc i (.authClosing op)
  else s.closeSocket.authFailed i op more sent

/-- `block_connect` of coroutine `i` and what follows. -/
def call (i : ℕ) (op : Op σ δ) (sent : Bool) : State σ δ :=
  let s' : State σ δ := match op with
    | .connect _ => { s with closed := false }
    | _ => s
  match s'.checkConnection i with
  | (t, some r) => t.proceed i op r sent
  | (t, none) =>
    match t.connecting with
    | some threads =>
      { t with connecting := some (threads ++ [i]) }.setPc i (.connectWait op)
    | none => { t with connecting := some [] }.tryConnect i op sent

def close : State σ δ :=
  if s.closed then s
  else { s with toLine := s.toLine.termDispatchThread.closeSocket, closed := true }

def changehost : State σ δ := if s.closed then s else s.closeSocket

/-- The CLOSE event, with `autoclose_cb`, and the ERROR event of a socket. -/
def peerClosed (c : ℕ) (clean : Bool) : State σ δ :=
  let t : State σ δ := { s with connected := update s.connected c false }
  match clean && s.onClose c, s.dispatch with
  | true, some (.waiting false) => if s.sock = some c then t.closeSocket else t
  | _, _ => t

/-- The dispatch coroutine starts; `dispatch_function` fails when the socket has gone. -/
def start : State σ δ :=
  match s.sock with
  | none => { s with dispatch := some .dead }
  | some c => { s with toLine := s.toLine.loop, onClose := update s.onClose c true }

/-- `get_response` of the dispatch coroutine has raised an error. -/
def readFailed (e : Entry σ δ) (errmsg : Option String) : State σ δ :=
  if s.closeYields then { s.closeSocket with dispatch := some (.failing e errmsg) }
  else { s with toLine := s.toLine.closeSocket.fail e errmsg }

def step : Label σ δ → Option (State σ δ)
  | .call i op sent =>
    match s.pcs i with
    | .outside => some (s.call i op sent)
    | _ => none
  | .goOn i sent =>
    match s.pcs i with
    | .connectWoken op => some (s.recheck i op sent)
    | _ => none
  | .opened i sent =>
    match s.pcs i with
    | .opening op => some (s.opened i op sent)
    | _ => none
  | .openFailed i more sent =>
    match s.pcs i with
    | .opening op => if more then some s else some (s.connectFailed i op sent)
    | _ => none
  | .newClosed i =>
    match s.pcs i with
    | .draining op _ => some (s.setPc i (.draining op false))
    | _ => none
  | .drained i sent =>
    match s.pcs i, s.dispatch with
    | .draining op connected, none => some (s.establish i op connected sent)
    | _, _ => none
  | .retry i sent =>
    match s.pcs i with
    | .retrying op => some (s.tryConnect i op sent)
    | _ => none
  | .authDone i ok more sent =>
    match s.pcs i, s.auth with
    | .outside, some (j, op) => if j = i then some (s.authDone i op ok more sent) else none
    | _, _ => none
  | .authClosed i more sent =>
    match s.pcs i with
    | .authClosing op => some (s.authFailed i op more sent)
    | _ => none
  | .sockErrClosed i =>
    match s.pcs i with
    | .sockErr => some { s with toLine := (s.toLine.wakeupAll none).setPc i .outside }
    | _ => none
  | .resume i =>
    match s.pcs i with
    | .woken n => some { s with toLine := s.toLine.resume i n }
    | _ => none
  | .close => some s.close
  | .changehost => some s.changehost
  | .peerClosed c clean => some (s.peerClosed c clean)
  | .start =>
    match s.dispatch with
    | some .forked => some s.start
    | _ => none
  | .wake =>
    match s.dispatch with
    | some (.waiting true) => some { s with toLine := s.toLine.popResponse }
    | _ => none
  | .respond n =>
    match s.dispatch with
    | some (.reading e c) =>
      match e.func.getResponse n (s.streams c) with
      | some ((ok, d), rest) => some { s with toLine := s.toLine.respond e c ok d rest }
      | none => none
    | _ => none
  | .readFailed errmsg =>
    match s.dispatch with
    | some (.reading e _) => some (s.readFailed e errmsg)
    | _ => none
  | .readClosed =>
    match s.dispatch with
    | some (.failing e errmsg) => some { s with toLine := s.toLine.fail e errmsg }
    | _ => none

/-- A new channel. -/
def init (hasAuth : Bool) (stream : ℕ → σ) : State σ δ where
  queue := []
  dispatch := none
  sock := none
  results _ := none
  pcs _ := .outside
  nconns := 0
  streams := stream
  pushes := []
  wakes := []
  resumed := []
  connecting := none
  closed := false
  auth := none
  connected _ := false
  onClose _ := false
  hasAuth := hasAuth

end State

/-- A channel in order mode; `stream c` is what the peer sends on connection `c`. -/
def channel {σ : Type} (δ : Type) (hasAuth : Bool) (stream : ℕ → σ) :
    System (State σ δ) (Label σ δ) :=
  ⟨State.init hasAuth stream, State.step⟩

end Skynet.SocketChannel
