import Skynet.HandleTable
import Skynet.IntrusiveQueue
import Skynet.Transition

/-! # Services, private queues and workers

The node as any number of threads see it: service contexts with their reference counts, one
private message queue for each service, the global queue of private queues, and the threads
that run `create_service`, `unregister_service`, `push_service_message` and
`node::dispatch_message`.

* **Atomic steps.** What happens under one mutex is one step: a critical section of
  `mq_private` together with the `mq_global::push` nested in it, `register_service` under the
  write lock, `grab` under the read lock.  Everything else is a step of its own; in
  particular `svc_ctx->svc_handle_ = handle` is separate from the registration that computed
  the handle, and the three parts of `release_service` are separate.
* **Threads.** A thread of execution is a program counter (`Pc`) with the local variables it
  still needs.  Service code (message callbacks and `init`) may call the API at any time; such
  a call is a thread of its own, so the model allows at least the orders that can happen.
* **Memory.** Contexts and queues are numbered; `alive` is cleared by `delete`.
* **Faults.** A failing assertion or a null dereference stops the node (`fault`); the rest of
  the state stays what it was before the step.

A ring buffer is the list of its messages.  Overload warnings, service names, statistics and
the message data are not part of the model.  The fields `issued`, `failed`, `owner`,
`accepted`, `dispatched`, `dropped` and `reported` record the history and are read by no
step. -/

namespace Skynet.Node

open Transition

/-! ### Data -/

/-- `service_message_type` -/
inductive MsgType where
  | text | response | multicast | client | system | socket | error | reservedQueue
  | reservedDebug | reservedLua | reservedSnax
deriving DecidableEq, Repr

/-- A `service_message` without its data. -/
structure Message where
  srcSvcHandle : ℕ
  sessionId : ℤ
  type : MsgType
deriving DecidableEq, Repr

/-- A message in a queue, with its number among the accepted ones. -/
structure Queued where
  id : ℕ
  msg : Message
deriving DecidableEq, Repr

structure ServiceContext where
  alive : Bool
  svcHandle : ℕ
  queue : Option ℕ
  ref : ℤ
  /-- the handle `register_service` returned for this context -/
  issued : ℕ
deriving DecidableEq, Repr

structure MqPrivate where
  alive : Bool
  svcHandle : ℕ
  isRelease : Bool
  isInGlobal : Bool
  msgs : List Queued
  /-- `init` of the service failed -/
  failed : Bool
  /-- the context the queue was created for -/
  owner : ℕ
deriving DecidableEq, Repr

/-- An error report: the dropped message, the service it is sent to and what is sent. -/
structure Report where
  id : ℕ
  dst : ℕ
  msg : Message
deriving DecidableEq, Repr

/-- Where a thread goes on when a `release_service` or `push_service_message` it called
returns; `w` is the weight of a worker. -/
inductive After where
  /-- nothing is left to do -/
  | finish
  /-- `create_service` after `init` succeeded -/
  | launch (q : ℕ)
  /-- `create_service` after `init` failed -/
  | abandon (h : ℕ)
  /-- `dispatch_message` ends with `return mq_global::instance()->pop()` -/
  | popNext (w : ℤ)
  /-- `dispatch_message` ends with `return q` -/
  | dispatch (w : ℤ) (q : ℕ)
  /-- the next round of `_drop_queue` -/
  | dropQueue (w : ℤ) (q h : ℕ)
deriving DecidableEq, Repr

/-- What a thread does next. -/
inductive Pc where
  | finished
  -- release_service
  | release (c : ℕ) (k : After)
  | markRelease (c : ℕ) (k : After)
  | delete (c : ℕ) (k : After)
  -- create_service
  | register (c : ℕ)
  | storeHandle (c h : ℕ)
  | createQueue (c : ℕ)
  | init (c q : ℕ)
  | launch (q : ℕ)
  -- unregister_service
  | unregister (h : ℕ)
  -- push_service_message
  | send (dst : ℕ) (msg : Message) (k : After)
  | push (c : ℕ) (msg : Message) (k : After)
  -- any other use of a context between grab and release_service
  | grab (h : ℕ)
  | hold (c : ℕ)
  -- node::dispatch_message
  | dispatch (w : ℤ) (q : Option ℕ)
  | lookup (w : ℤ) (q : ℕ)
  | releaseQueue (w : ℤ) (q h : ℕ)
  | dropQueue (w : ℤ) (q h : ℕ)
  | dropMessage (w : ℤ) (q h : ℕ) (e : Queued)
  | deleteQueue (w : ℤ) (q : ℕ)
  | popMessage (w : ℤ) (q c i n : ℕ)
  | length (w : ℤ) (q c : ℕ)
  | callback (w : ℤ) (q c i n : ℕ)
  | next (w : ℤ) (q c : ℕ)
  | pushBack (w : ℤ) (q c nextQ : ℕ)
  | popNext (w : ℤ)
deriving DecidableEq, Repr

def After.resume : After → Pc
  | .finish => .finished
  | .launch q => .launch q
  | .abandon h => .unregister h
  | .popNext w => .popNext w
  | .dispatch w q => .dispatch w (some q)
  | .dropQueue w q h => .dropQueue w q h

structure State where
  table : Table
  ctxs : ℕ → ServiceContext
  nctx : ℕ
  queues : ℕ → MqPrivate
  nq : ℕ
  mqGlobal : IntrusiveQueue ℕ
  acts : List Pc
  fault : Option Fault
  accepted : ℕ
  dispatched : List ℕ
  dropped : List Queued
  reported : List Report

namespace State

def init : State where
  table := Table.init
  ctxs := fun _ => ⟨false, 0, none, 0, 0⟩
  nctx := 0
  queues := fun _ => ⟨false, 0, false, false, [], false, 0⟩
  nq := 0
  mqGlobal := IntrusiveQueue.empty
  acts := []
  fault := none
  accepted := 0
  dispatched := []
  dropped := []
  reported := []

variable (s : State)

/-! ### Parts of a step -/

def goto (i : ℕ) (p : Pc) : State := { s with acts := s.acts.set i p }

def crash (f : Fault) : State := { s with fault := some f }

def setCtx (c : ℕ) (x : ServiceContext) : State := { s with ctxs := Function.update s.ctxs c x }

def setQueue (q : ℕ) (x : MqPrivate) : State := { s with queues := Function.update s.queues q x }

/-- The context `service_manager::grab` finds. -/
def find (h : ℕ) : Option ℕ :=
  match s.table.at? h with
  | some c => if (s.ctxs c).svcHandle = h then some c else none
  | none => none

/-- `++ref_` -/
def addRef (c : ℕ) : State := s.setCtx c { s.ctxs c with ref := (s.ctxs c).ref + 1 }

/-- `mq_global::push`, then on to `p`. -/
def pushGlobal (q i : ℕ) (p : Pc) : State :=
  match s.mqGlobal.push q with
  | some g => { s with mqGlobal := g }.goto i p
  | none => s.crash .linked

/-- `mq_global::pop`, then on to `k` with what it returned. -/
def popGlobal (i : ℕ) (k : Option ℕ → Pc) : State :=
  match s.mqGlobal.pop with
  | some (g, q) => { s with mqGlobal := g }.goto i (k q)
  | none => s.crash .badTail

/-! ### `service_manager` -/

/-- `new service_context` with `ref_ = 2`. -/
def newService : State :=
  { s with
    ctxs := Function.update s.ctxs s.nctx ⟨true, 0, none, 2, 0⟩
    nctx := s.nctx + 1
    acts := s.acts ++ [.register s.nctx] }

def registerService (i c : ℕ) : State :=
  match s.table.registerService (fun c => (s.ctxs c).svcHandle) c with
  | .ok (h, table) =>
    { s.setCtx c { s.ctxs c with issued := h } with table := table }.goto i (.storeHandle c h)
  | .error f => s.crash f

def storeHandle (i c h : ℕ) : State :=
  (s.setCtx c { s.ctxs c with svcHandle := h }).goto i (.createQueue c)

/-- `mq_private::create`, and `svc_ctx->queue_ = queue`. -/
def createQueue (i c : ℕ) : State :=
  { (s.setQueue s.nq ⟨true, (s.ctxs c).svcHandle, false, true, [], false, c⟩).setCtx c
      { s.ctxs c with queue := some s.nq } with nq := s.nq + 1 }.goto i (.init c s.nq)

/-- `init` returns. -/
def initDone (i c q : ℕ) (ok : Bool) : State :=
  if ok then s.goto i (.release c (.launch q))
  else
    (s.setQueue q { s.queues q with failed := true }).goto i
      (.release c (.abandon (s.ctxs c).svcHandle))

def unregisterService (i h : ℕ) : State :=
  match s.find h with
  | some c => { s with table := s.table.clear h }.goto i (.release c .finish)
  | none => s.goto i .finished

/-- `--svc_ctx->ref_ == 0` -/
def releaseService (i c : ℕ) (k : After) : State :=
  let s' := s.setCtx c { s.ctxs c with ref := (s.ctxs c).ref - 1 }
  if (s.ctxs c).ref - 1 = 0 then s'.goto i (.markRelease c k) else s'.goto i k.resume

def markRelease (i c : ℕ) (k : After) : State :=
  match (s.ctxs c).queue with
  | none => s.crash .nullQueue
  | some q =>
    if (s.queues q).isRelease then s.crash .releasedTwice
    else
      let s' := s.setQueue q { s.queues q with isRelease := true }
      if (s.queues q).isInGlobal then s'.goto i (.delete c k)
      else
        match s.mqGlobal.push q with
        | some g => { s' with mqGlobal := g }.goto i (.delete c k)
        | none => s.crash .linked

def deleteCtx (i c : ℕ) (k : After) : State :=
  (s.setCtx c { s.ctxs c with alive := false }).goto i k.resume

/-- The `grab` of `push_service_message`. -/
def pushServiceMessage (i dst : ℕ) (msg : Message) (k : After) : State :=
  match s.find dst with
  | some c => (s.addRef c).goto i (.push c msg k)
  | none => s.goto i k.resume

/-- The message in the ring buffer of `q`, which is now in `mq_global` or about to be. -/
def accept (q : ℕ) (msg : Message) : State :=
  { s.setQueue q { s.queues q with
      msgs := (s.queues q).msgs ++ [⟨s.accepted, msg⟩]
      isInGlobal := true } with accepted := s.accepted + 1 }

def push (i c : ℕ) (msg : Message) (k : After) : State :=
  match (s.ctxs c).queue with
  | none => s.crash .nullQueue
  | some q =>
    if (s.queues q).isInGlobal then (s.accept q msg).goto i (.release c k)
    else
      match s.mqGlobal.push q with
      | some g => { s.accept q msg with mqGlobal := g }.goto i (.release c k)
      | none => s.crash .linked

def grab (i h : ℕ) : State :=
  match s.find h with
  | some c => (s.addRef c).goto i (.hold c)
  | none => s.goto i .finished

/-! ### `node::dispatch_message` -/

/-- `if (q == nullptr) q = mq_global::instance()->pop()` -/
def dispatch (i : ℕ) (w : ℤ) : Option ℕ → State
  | some q => s.goto i (.lookup w q)
  | none => s.popGlobal i fun q? =>
    match q? with
    | some q => .lookup w q
    | none => .dispatch w none

def lookup (i : ℕ) (w : ℤ) (q : ℕ) : State :=
  let h := (s.queues q).svcHandle
  match s.find h with
  | some c => (s.addRef c).goto i (.popMessage w q c 0 1)
  | none => s.goto i (.releaseQueue w q h)

/-- `mq_private::release` -/
def releaseQueue (i : ℕ) (w : ℤ) (q h : ℕ) : State :=
  if (s.queues q).isRelease then s.goto i (.dropQueue w q h)
  else s.pushGlobal q i (.popNext w)

/-- A round of `mq_private::_drop_queue`. -/
def dropQueue (i : ℕ) (w : ℤ) (q h : ℕ) : State :=
  match (s.queues q).msgs with
  | [] => (s.setQueue q { s.queues q with isInGlobal := false }).goto i (.deleteQueue w q)
  | e :: rest =>
    { s.setQueue q { s.queues q with msgs := rest } with dropped := s.dropped ++ [e] }.goto i
      (.dropMessage w q h e)

/-- `drop_message` sends an error to the source of the message. -/
def dropMessage (i : ℕ) (w : ℤ) (q h : ℕ) (e : Queued) : State :=
  if h = 0 then s.crash .zeroHandle
  else
    let msg : Message := ⟨h, 0, .error⟩
    let s' : State := { s with reported := s.reported ++ [⟨e.id, e.msg.srcSvcHandle, msg⟩] }
    if e.msg.srcSvcHandle = 0 then s'.goto i (.dropQueue w q h)
    else s'.goto i (.send e.msg.srcSvcHandle msg (.dropQueue w q h))

def deleteQueue (i : ℕ) (w : ℤ) (q : ℕ) : State :=
  if s.mqGlobal.next q ≠ none then s.crash .droppedLinked
  else (s.setQueue q { s.queues q with alive := false }).goto i (.popNext w)

/-- `mq_private::pop` in round `j` of `n`. -/
def popMessage (i : ℕ) (w : ℤ) (q c j n : ℕ) : State :=
  match (s.queues q).msgs with
  | [] =>
    (s.setQueue q { s.queues q with isInGlobal := false }).goto i (.release c (.popNext w))
  | e :: rest =>
    { s.setQueue q { s.queues q with msgs := rest } with
        dispatched := s.dispatched ++ [e.id] }.goto i
      (if j = 0 ∧ 0 ≤ w then .length w q c else .callback w q c j n)

/-- The callback returns. -/
def callbackDone (i : ℕ) (w : ℤ) (q c j n : ℕ) : State :=
  s.goto i (if j + 1 < n then .popMessage w q c (j + 1) n else .next w q c)

/-- `assert(q == svc_ctx->queue_)`, then `mq_global::pop`. -/
def next (i : ℕ) (w : ℤ) (q c : ℕ) : State :=
  if (s.ctxs c).queue ≠ some q then s.crash .wrongQueue
  else s.popGlobal i fun q? =>
    match q? with
    | some nextQ => .pushBack w q c nextQ
    | none => .release c (.dispatch w q)

/-- The next step of thread `i`, which is at `p`; `ok` is the result of a service's `init`. -/
def advance (i : ℕ) (ok : Bool) : Pc → Option State
  | .finished => none
  | .release c k => some (s.releaseService i c k)
  | .markRelease c k => some (s.markRelease i c k)
  | .delete c k => some (s.deleteCtx i c k)
  | .register c => some (s.registerService i c)
  | .storeHandle c h => some (s.storeHandle i c h)
  | .createQueue c => some (s.createQueue i c)
  | .init c q => some (s.initDone i c q ok)
  | .launch q => some (s.pushGlobal q i .finished)
  | .unregister h => some (s.unregisterService i h)
  | .send dst msg k => some (s.pushServiceMessage i dst msg k)
  | .push c msg k => some (s.push i c msg k)
  | .grab h => some (s.grab i h)
  | .hold c => some (s.goto i (.release c .finish))
  | .dispatch w q => some (s.dispatch i w q)
  | .lookup w q => some (s.lookup i w q)
  | .releaseQueue w q h => some (s.releaseQueue i w q h)
  | .dropQueue w q h => some (s.dropQueue i w q h)
  | .dropMessage w q h e => some (s.dropMessage i w q h e)
  | .deleteQueue w q => some (s.deleteQueue i w q)
  | .popMessage w q c j n => some (s.popMessage i w q c j n)
  | .length w q c => some (s.goto i (.callback w q c 0 ((s.queues q).msgs.length >>> w.toNat)))
  | .callback w q c j n => some (s.callbackDone i w q c j n)
  | .next w q c => some (s.next i w q c)
  | .pushBack w q c nextQ => some (s.pushGlobal q i (.release c (.dispatch w nextQ)))
  | .popNext w => some (s.popGlobal i fun q? => .dispatch w q?)

end State

/-! ### The node -/

/-- What a new thread is started for. -/
inductive Task where
  | worker (w : ℤ)
  | createService
  | unregisterService (h : ℕ)
  | pushServiceMessage (dst : ℕ) (msg : Message)
  | grab (h : ℕ)
deriving DecidableEq, Repr

inductive Action where
  | start (t : Task)
  | run (i : ℕ) (ok : Bool)
deriving DecidableEq, Repr

namespace State

def start (s : State) : Task → State
  | .worker w => { s with acts := s.acts ++ [.dispatch w none] }
  | .createService => s.newService
  | .unregisterService h => { s with acts := s.acts ++ [.unregister h] }
  | .pushServiceMessage dst msg => { s with acts := s.acts ++ [.send dst msg .finish] }
  | .grab h => { s with acts := s.acts ++ [.grab h] }

def step (s : State) (a : Action) : Option State :=
  if s.fault ≠ none then none
  else
    match a with
    | .start t => some (s.start t)
    | .run i ok => (s.acts[i]?).bind (s.advance i ok)

end State

/-- The running node. -/
def node : System State Action := ⟨State.init, State.step⟩

end Skynet.Node
