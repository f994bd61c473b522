import Skynet.Transition

/-! # The coroutines of a Lua service

A service written in Lua handles one message at a time: `skynet.handle_service_message` runs
`raw_dispatch_message` and then the coroutines of `fork_queue`.  A coroutine runs until it
yields; `suspend` then resumes the coroutines of `wakeup_queue` and of `error_queue`, in a
recursion of `suspend`, `dispatch_wakeup` and `dispatch_error_queue`.

The model is a transition system.  A step is a message that arrives, one call that the
running coroutine makes into `skynet.lua`, or one round of the scheduler.

* The label of a step says what a coroutine does and what its environment answers (the
  result of a `skynet_core.send`, the order in which `pairs` visits a table), so every
  program made of these calls is covered.  An error that a call raises may be caught by the
  coroutine, which then goes on; one that is not caught is the call `error`.
* Of the recursion only the number of outer calls of `suspend` that still have their
  `dispatch_error_queue` to do is kept (`pending`); an error that leaves them is caught in
  `handle_service_message`.
* A thread of `thread_pool` that is resumed by anything but `co_create` takes what it is given
  for its next function and is of no use after that (`poisoned`).

Traces, the text of messages and the messages a service sends on its own are left out.
`nalloc`, `requests`, `sent`, `forgotten`, `failed` and `exited` record the history, as do the
allocation numbers in `session_thread_map` and `Pc.calling`, the flag `woken` and the
request number of a thread or a closure; no step reads them. -/

namespace Skynet.Service

open Function Transition

/-- The length of the range of a session id. -/
def sessionLimit : ℕ := 2 ^ 31

/-- A key of `session_thread_map`: a session id, or the `false` that `skynet_core.send`
returns for a package that is too large. -/
inductive Key where
  | id (n : ℕ)
  | tooLarge
deriving DecidableEq, Repr

/-- A value of `session_thread_map`; `birth` is the number of the allocation of the session. -/
inductive Entry where
  | thread (i birth : ℕ)
  | BREAK
deriving DecidableEq, Repr

/-- What a coroutine sleeps on: a coroutine or any other value. -/
inductive Token where
  | thread (i : ℕ)
  | value (n : ℕ)
deriving DecidableEq, Repr

/-- The address of a call. -/
inductive Addr where
  | handle (h : ℕ)
  | name (n : String)
deriving DecidableEq, Repr

/-- Where a coroutine is. -/
inductive Pc where
  /-- not started; `timer` is the session of the `skynet.timeout` that created it -/
  | fresh (timer : Option ℕ)
  | running
  /-- in `suspend_sleep`, of `skynet.sleep` when `timer` and of `skynet.wait` otherwise;
  `woken` when `skynet.wakeup` found it asleep -/
  | asleep (timer : Bool) (token : Token) (session : ℕ) (woken : Bool)
  /-- in `yield_call` -/
  | calling (key : Key) (birth : ℕ)
  /-- in `thread_pool` -/
  | pooled
  /-- in `thread_pool`, and resumed there -/
  | poisoned
  /-- in `skynet.exit` -/
  | quit
  | dead
deriving DecidableEq, Repr

namespace Pc

/-- `skynet.wakeup` finds the coroutine asleep on `token`. -/
def wake (token : Token) : Pc → Pc
  | asleep timer token' n woken => asleep timer token' n (woken || token' = token)
  | pc => pc

/-- A new thread is given to a timer. -/
def timed (n : ℕ) : Pc → Pc
  | fresh _ => fresh (some n)
  | pc => pc

end Pc

/-- A function returned by `skynet.response`. -/
structure Closure where
  session : ℕ
  svcHandle : ℕ
  req : ℕ
  /-- `pack` is not `nil`: it has not been fired -/
  pack : Bool
  /-- it is a key of `unresponse` -/
  unresponse : Bool
deriving DecidableEq, Repr

inductive ReplyType where
  | response
  | error
deriving DecidableEq, Repr

/-- A reply to request `req`. -/
structure Reply where
  req : ℕ
  type : ReplyType
  dst : ℕ
  session : ℕ
deriving DecidableEq, Repr

namespace Closure

/-- The closure after it was fired. -/
def fired (c : Closure) : Closure := { c with pack := false, unresponse := false }

def reply (c : Closure) (type : ReplyType) : Reply := ⟨c.req, type, c.svcHandle, c.session⟩

end Closure

/-- What `handle_service_message` does next. -/
inductive Control where
  /-- it has returned -/
  | idle
  /-- coroutine `i` is running -/
  | run (i : ℕ)
  | dispatchWakeup
  | dispatchErrorQueue
  /-- the loop over `fork_queue` -/
  | forks
deriving DecidableEq, Repr

/-- How a call of `skynet_core.send` ends. -/
inductive SendResult where
  | accepted
  /-- there is no service with this handle -/
  | invalid
  /-- there is no service with this name -/
  | unknownName
  | tooLarge
  /-- the arguments are refused with an error -/
  | raised
deriving DecidableEq, Repr

/-- What the scheduler reads and writes. -/
structure Sched where
  pcs : ℕ → Pc
  nthreads : ℕ
  threadPool : List ℕ
  forkQueue : List ℕ
  sessionThreadMap : Key → Option Entry
  sleepSessionMap : Token → Option ℕ
  watchingSessionMap : List (Key × Addr)
  errorQueue : List Key
  wakeupQueue : List Token
  control : Control
  pending : ℕ
  /-- `session_id_` of the service context -/
  sessionId : ℕ
  -- the history
  nalloc : ℕ
  /-- the coroutines whose calls failed while the last message was handled, with the
  allocation numbers of the calls -/
  failed : List (ℕ × ℕ)

namespace Sched

variable (s : Sched)

/-- The session that `service_context::new_session` returns. -/
def nextSession : ℕ := if s.sessionId + 1 < sessionLimit then s.sessionId + 1 else 1

/-- The thread that `co_create` returns: the last one of the pool, or a new one. -/
def nextThread : ℕ := s.threadPool.getLast?.getD s.nthreads

/-- The state of that thread; one of the pool has received its function. -/
def nextPc : Pc :=
  if s.threadPool = [] ∨ s.pcs s.nextThread = .pooled then .fresh none else .dead

/-- The sessions of the calls to `addr`. -/
def watchedBy (addr : Addr) : List Key :=
  (s.watchingSessionMap.filter (·.2 = addr)).map (·.1)

end Sched

/-- What a service knows of the requests it has been sent. -/
structure Accounts where
  threadSessionMap : ℕ → Option ℕ
  threadSvcHandleMap : ℕ → Option ℕ
  closures : ℕ → Closure
  nclosures : ℕ
  -- the history
  /-- the request a thread was last started for -/
  threadReq : ℕ → ℕ
  /-- the session and the source of each request -/
  requests : List (ℕ × ℕ)
  sent : List Reply
  /-- requests given up by their handler without a reply -/
  forgotten : List ℕ
  exited : Bool

namespace Accounts

variable (a : Accounts)

/-- The error report for the session that thread `i` still owns. -/
def threadReport (i : ℕ) : Option Reply :=
  match a.threadSessionMap i, a.threadSvcHandleMap i with
  | some (n + 1), some h => some ⟨a.threadReq i, .error, h, n + 1⟩
  | _, _ => none

/-- The error report for a closure of `unresponse`. -/
def closureReport (c : ℕ) : Option Reply :=
  if (a.closures c).unresponse then some ((a.closures c).reply .error) else none

end Accounts

structure State extends Sched, Accounts

namespace State

variable (s : State)

def setPc (i : ℕ) (pc : Pc) : State := { s with pcs := update s.pcs i pc }

def setEntry (k : Key) (e : Option Entry) : State :=
  { s with sessionThreadMap := update s.sessionThreadMap k e }

def newSession : State := { s with sessionId := s.nextSession, nalloc := s.nalloc + 1 }

def coCreate : State :=
  { s with
    pcs := update s.pcs s.nextThread s.nextPc
    nthreads := if s.threadPool = [] then s.nthreads + 1 else s.nthreads
    threadPool := s.threadPool.dropLast }

def fork : State := { s.coCreate with forkQueue := s.forkQueue ++ [s.nextThread] }

/-- An error goes up to the `pcall` of `handle_service_message`. -/
def raise : State := { s with control := .forks, pending := 0 }

/-- `suspend` returns. -/
def suspendReturn : State :=
  { s with
    control := if s.pending = 0 then .forks else .dispatchErrorQueue
    pending := s.pending - 1 }

def send (r : Reply) : State := { s with sent := s.sent ++ [r] }

/-- `thread_session_map` and `thread_svc_handle_map` lose the thread. -/
def clear (i : ℕ) : State :=
  { s with
    threadSessionMap := update s.threadSessionMap i none
    threadSvcHandleMap := update s.threadSvcHandleMap i none }

/-- The session that thread `i` still owns is answered with an error. -/
def reportError (i : ℕ) : State :=
  match s.threadReport i with
  | some r => s.send r
  | none => s

/-- `suspend` of a coroutine that has failed. -/
def fail (i : ℕ) : State := (((s.reportError i).clear i).setPc i .dead).fork.raise

/-- `suspend(thread, thread_resume(thread, succ, ...))`, up to the point where the coroutine
is back from the `thread_yield` it was in and has undone its entries. -/
def resume (i : ℕ) (succ : Bool) : State :=
  match s.pcs i with
  | .fresh _ | .quit => { s.setPc i .running with control := .run i }
  | .asleep timer token n _ =>
    { s.setPc i .running with
      sleepSessionMap := update s.sleepSessionMap token none
      sessionThreadMap :=
        if timer then s.sessionThreadMap else update s.sessionThreadMap (.id n) none
      control := .run i }
  | .calling k birth =>
    { s.setPc i .running with
      watchingSessionMap := s.watchingSessionMap.filter (·.1 ≠ k)
      failed := if succ then s.failed else (i, birth) :: s.failed
      control := .run i }
  | .pooled => (s.setPc i .poisoned).suspendReturn
  | .poisoned | .dead | .running => s.fail i

/-! ### The scheduler -/

/-- `dispatch_wakeup`, called by `suspend`. -/
def dispatchWakeup : State :=
  match s.wakeupQueue with
  | [] => { s with control := .dispatchErrorQueue }
  | token :: rest =>
    match s.sleepSessionMap token with
    | none => { s with wakeupQueue := rest, control := .dispatchErrorQueue }
    | some n =>
      let t : State := { s.setEntry (.id n) (some .BREAK) with wakeupQueue := rest }
      match s.sessionThreadMap (.id n) with
      | some (.thread i _) => { t with pending := s.pending + 1 }.resume i false
      | _ => t.raise

/-- `dispatch_error_queue`, called by `suspend`. -/
def dispatchErrorQueue : State :=
  match s.errorQueue with
  | [] => s.suspendReturn
  | .tooLarge :: rest => { s with errorQueue := rest }.suspendReturn
  | .id n :: rest =>
    let t : State := { s.setEntry (.id n) none with errorQueue := rest }
    match s.sessionThreadMap (.id n) with
    | some (.thread i _) => t.resume i false
    | _ => t.raise

/-- A round of the loop over `fork_queue`. -/
def runFork : State :=
  match s.forkQueue with
  | [] => { s with control := .idle }
  | i :: rest => { s with forkQueue := rest }.resume i false

/-! ### What a coroutine calls -/

def wakeup (token : Token) : State :=
  if s.sleepSessionMap token = none then s
  else
    { s with
      wakeupQueue := s.wakeupQueue ++ [token]
      pcs := fun i => (s.pcs i).wake token }

def timeout : State :=
  if s.sessionThreadMap (.id s.nextSession) = none then
    { s.newSession.coCreate with
      pcs := update s.pcs s.nextThread (s.nextPc.timed s.nextSession)
      sessionThreadMap := update s.sessionThreadMap (.id s.nextSession)
        (some (.thread s.nextThread (s.nalloc + 1))) }
  else s.newSession.coCreate

/-- `suspend_sleep` with a new session: the entry in `session_thread_map` is made before the
token is checked. -/
def suspendSleep (i : ℕ) (timer : Bool) (token : Token) : State :=
  let t := s.newSession.setEntry (.id s.nextSession) (some (.thread i (s.nalloc + 1)))
  if s.sleepSessionMap token = none then
    { t.setPc i (.asleep timer token s.nextSession false) with
      sleepSessionMap := update s.sleepSessionMap token (some s.nextSession)
      control := .dispatchWakeup }
  else t

def yieldCall (i : ℕ) (k : Key) (addr : Addr) : State :=
  { (s.setPc i (.calling k s.nalloc)).setEntry k (some (.thread i s.nalloc)) with
    watchingSessionMap := (k, addr) :: s.watchingSessionMap.filter (·.1 ≠ k)
    control := .dispatchWakeup }

def call (i : ℕ) (addr : Addr) : SendResult → State
  | .accepted => s.newSession.yieldCall i (.id s.nextSession) addr
  | .tooLarge => s.yieldCall i .tooLarge addr
  | .invalid => s.newSession
  | .unknownName | .raised => s

/-- The thread no longer owns the session of its request. -/
def disown (i : ℕ) : State :=
  { s with threadSessionMap := update s.threadSessionMap i none }

def ret (i : ℕ) (r : SendResult) : State :=
  match s.threadSessionMap i, s.threadSvcHandleMap i with
  | some (n + 1), some h =>
    match r with
    | .raised => s.disown i
    | .tooLarge => (s.disown i).send ⟨s.threadReq i, .error, h, n + 1⟩
    | _ => (s.disown i).send ⟨s.threadReq i, .response, h, n + 1⟩
  | _, _ => s.disown i

/-- A handler that owns a session gives it up. -/
def forget (i : ℕ) : State :=
  match s.threadSessionMap i with
  | some (_ + 1) => { s with forgotten := s.forgotten ++ [s.threadReq i] }
  | _ => s

def ignoreret (i : ℕ) : State := (s.forget i).disown i

def response (i : ℕ) : State :=
  match s.threadSessionMap i with
  | some (n + 1) =>
    { s.disown i with
      closures := update s.closures s.nclosures
        ⟨n + 1, (s.threadSvcHandleMap i).getD 0, s.threadReq i, true, true⟩
      nclosures := s.nclosures + 1 }
  | _ => s.disown i

/-- Closure `c` is fired: it has left `unresponse` and its `pack` is `nil`. -/
def setFired (c : ℕ) : State :=
  { s with closures := update s.closures c (s.closures c).fired }

def sendClosure (c : ℕ) (type : ReplyType) : State :=
  (s.setFired c).send ((s.closures c).reply type)

/-- The call of closure `c`. -/
def fire (c : ℕ) (ok : Bool) (r : SendResult) : State :=
  if (s.closures c).pack = false then s
  else if (s.closures c).unresponse = false then s.setFired c
  else
    match ok, r with
    | _, .raised => s
    | true, .tooLarge => s.sendClosure c .error
    | true, _ => s.sendClosure c .response
    | false, _ => s.sendClosure c .error

/-- `_error_dispatch` after `skynet.ignoreret`; `order` is the order of `pairs`. -/
def errorDispatch (session : ℕ) (src : Addr) (order : List Key) : Option State :=
  if session = 0 then
    if order.Perm (s.watchedBy src) then
      some { s with
        closures := fun c =>
          if .handle (s.closures c).svcHandle = src then { s.closures c with unresponse := false }
          else s.closures c
        errorQueue := s.errorQueue ++ order }
    else none
  else if .id session ∈ s.watchingSessionMap.map (·.1) then
    some { s with errorQueue := s.errorQueue ++ [.id session] }
  else some s

/-- `skynet.exit` answers the sessions of all threads and closures. -/
def exit (i : ℕ) : State :=
  { s.setPc i .quit with
    forkQueue := []
    sent := s.sent ++ (List.range s.nthreads).filterMap s.threadReport ++
      (List.range s.nclosures).filterMap s.closureReport
    closures := fun c => if (s.closures c).unresponse then (s.closures c).fired else s.closures c
    exited := true }.suspendReturn

/-- The function of the coroutine returns and the thread goes into the pool. -/
def finish (i : ℕ) : State :=
  let t := if s.threadSvcHandleMap i = none then s.forget i else (s.forget i).clear i
  { t.setPc i .pooled with
    threadPool := s.threadPool ++ [i]
    control := .dispatchWakeup }

end State

/-- A call made by the running coroutine. -/
inductive Op where
  | newSession
  | wakeup (token : Token)
  | fork
  | timeout
  /-- `skynet.wait`, `skynet.sleep`; the token is the coroutine itself when none is given -/
  | wait (token : Option Token)
  | sleep (token : Option Token)
  | call (addr : Addr) (r : SendResult)
  | ret (r : SendResult)
  | ignoreret
  | response
  | fire (c : ℕ) (ok : Bool) (r : SendResult)
  | term (addr : Addr) (order : List Key)
  | exit
  /-- the function of the coroutine returns -/
  | finish
  /-- the function of the coroutine fails -/
  | error
deriving DecidableEq, Repr

/-- A message of the service. -/
inductive Message where
  | response (session : ℕ)
  | error (session src : ℕ) (order : List Key)
  /-- a message whose type has a dispatch function; `unpacks` when `unpack` raises no error -/
  | request (session src : ℕ) (unpacks : Bool)
  /-- a message whose type has no dispatch function -/
  | unhandled (session src : ℕ)
deriving DecidableEq, Repr

inductive Label where
  | message (m : Message)
  | op (o : Op)
  /-- the next round of the scheduler -/
  | next
  /-- a thread that only the weak table `thread_pool` refers to is collected -/
  | collect (i : ℕ)
deriving DecidableEq, Repr

namespace State

variable (s : State)

/-- A coroutine for a message. -/
def accept (session src : ℕ) : State :=
  { s.coCreate with
    threadSessionMap := update s.threadSessionMap s.nextThread (some session)
    threadSvcHandleMap := update s.threadSvcHandleMap s.nextThread (some src)
    threadReq := update s.threadReq s.nextThread s.requests.length
    requests := s.requests ++ [(session, src)] }

def rawDispatchMessage : Message → Option State
  | .response n =>
    match s.sessionThreadMap (.id n) with
    | some .BREAK => some { s.setEntry (.id n) none with control := .forks }
    | some (.thread i _) => some ((s.setEntry (.id n) none).resume i true)
    | none => some s.raise
  | .request session src unpacks =>
    if unpacks then some ((s.accept session src).resume s.nextThread true)
    else some (s.accept session src).raise
  | .error session src order =>
    let t := s.accept session src
    match t.pcs s.nextThread with
    | .fresh _ =>
      ((t.ignoreret s.nextThread).errorDispatch session (.handle src) order).map
        (·.finish s.nextThread)
    | _ => some (t.fail s.nextThread)
  | .unhandled session src =>
    let t : State := { s with requests := s.requests ++ [(session, src)] }
    if session = 0 then some t.raise
    else some (t.send ⟨s.requests.length, .error, src, session⟩).raise

/-- Coroutine `i` makes a call. -/
def exec (i : ℕ) : Op → Option State
  | .newSession => some s.newSession
  | .wakeup token => some (s.wakeup token)
  | .fork => some s.fork
  | .timeout => some s.timeout
  | .wait token => some (s.suspendSleep i false (token.getD (.thread i)))
  | .sleep token => some (s.suspendSleep i true (token.getD (.thread i)))
  | .call addr r => some (s.call i addr r)
  | .ret r => some (s.ret i r)
  | .ignoreret => some (s.ignoreret i)
  | .response => some (s.response i)
  | .fire c ok r => if c < s.nclosures then some (s.fire c ok r) else none
  | .term addr order => (s.ignoreret i).errorDispatch 0 addr order
  | .exit => some (s.exit i)
  | .finish => some (s.finish i)
  | .error => some (s.fail i)

def step : Label → Option State
  | .message m =>
    if s.control = .idle then { s with failed := [] }.rawDispatchMessage m else none
  | .op o =>
    match s.control with
    | .run i => s.exec i o
    | _ => none
  | .next =>
    match s.control with
    | .dispatchWakeup => some s.dispatchWakeup
    | .dispatchErrorQueue => some s.dispatchErrorQueue
    | .forks => some s.runFork
    | _ => none
  | .collect i =>
    if i ∈ s.threadPool then some { s with threadPool := s.threadPool.erase i } else none

/-- A service before its script runs. -/
def empty : State where
  pcs _ := .dead
  nthreads := 0
  threadPool := []
  forkQueue := []
  sessionThreadMap _ := none
  sleepSessionMap _ := none
  watchingSessionMap := []
  errorQueue := []
  wakeupQueue := []
  control := .idle
  pending := 0
  sessionId := 0
  nalloc := 0
  failed := []
  threadSessionMap _ := none
  threadSvcHandleMap _ := none
  closures _ := ⟨0, 0, 0, false, false⟩
  nclosures := 0
  threadReq _ := 0
  requests := []
  sent := []
  forgotten := []
  exited := false

/-- The service after `skynet.start`. -/
def init : State := empty.timeout

end State

/-- A Lua service. -/
def service : System State Label := ⟨State.init, State.step⟩

end Skynet.Service
