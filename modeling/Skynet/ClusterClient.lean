import Skynet.ServiceErrors

/-! # The cluster client of a service

`cluster.call`, `cluster.query` and `cluster.send` go to a sender service, one for each node.
While the sender of a node is not known, what is to be sent is kept in `task_queue[node]`: the
arguments of a `cluster.send`, and the coroutine of a `cluster.call`, which waits in
`get_sender`.  A coroutine made with the queue (`request_sender`) asks `clusterd` for the sender
and then works off the queue.

The model is a layer over the coroutines of a service (`Skynet.Service`).  A coroutine that is in
a function of `cluster.lua` has a frame, and each step of the function is one or more calls that
the coroutine makes into `skynet.lua`; all other steps are those of the service. -/

namespace Skynet.ClusterClient

open Function Transition Service

/-- An entry of a task queue. -/
inductive Task (π : Type) where
  /-- the address and the arguments of a `cluster.send` -/
  | send (msg : π)
  /-- a coroutine in `get_sender` -/
  | thread (i : ℕ)
deriving DecidableEq, Repr

/-- A table of `task_queue`. -/
structure Queue (π : Type) where
  node : String
  tasks : List (Task π)
  thread : Option ℕ
  sender : Option ℕ
deriving DecidableEq, Repr

/-- Where a coroutine is in `cluster.lua`. -/
inductive Frame (π : Type) where
  /-- `request_sender`, not begun -/
  | requestSender (q : ℕ)
  /-- in the `skynet.call` of `request_sender` -/
  | asking (q : ℕ)
  /-- `request_sender`, about to look at task `k` -/
  | serving (q k : ℕ)
  /-- in the `skynet.wait` of `request_sender`, for task `k` -/
  | handing (q k : ℕ)
  /-- in the `skynet.wait` of `get_sender`, with the arguments of the call -/
  | getSender (q : ℕ) (msg : π)
deriving DecidableEq, Repr

/-- A `skynet.send` or `skynet.call` to a sender; `queue` is the queue it has been in. -/
structure Issue (π : Type) where
  sender : ℕ
  queue : Option ℕ
  msg : π
deriving DecidableEq, Repr

/-- The tables of `cluster.lua` and the coroutines in its functions. -/
structure Tables (π : Type) where
  sender : String → Option ℕ
  taskQueue : String → Option ℕ
  /-- the tables made by `get_queue` -/
  queues : ℕ → Queue π
  nqueues : ℕ
  frames : ℕ → Option (Frame π)
  -- the history
  issued : List (Issue π)

/-- What was sent from queue `q`. -/
def Tables.issuedFrom {π : Type} (a : Tables π) (q : ℕ) : List π :=
  (a.issued.filter (·.queue = some q)).map (·.msg)

structure State (π : Type) extends Tables π where
  svc : Service.State
  clusterd : ℕ

inductive Label (π : Type) where
  /-- a step of the service outside the functions of `cluster.lua` -/
  | service (a : Service.Label)
  /-- `cluster.call` or `cluster.query`; `r` is the result of the `skynet_core.send` to a sender
  that is known -/
  | call (node : String) (msg : π) (r : SendResult)
  | send (node : String) (msg : π) (r : SendResult)
  /-- the running coroutine goes on in `cluster.lua`; `c` is the answer of `clusterd` and `r` the
  result of a `skynet_core.send` -/
  | advance (c : Option ℕ) (r : SendResult)
deriving DecidableEq, Repr

namespace State

variable {π : Type} (s : State π)

def setFrame (i : ℕ) (f : Option (Frame π)) : State π :=
  { s with frames := update s.frames i f }

def setQueue (q : ℕ) (x : Queue π) : State π := { s with queues := update s.queues q x }

/-- `table.insert(q, task)` -/
def insert (q : ℕ) (task : Task π) : State π :=
  s.setQueue q { s.queues q with tasks := (s.queues q).tasks ++ [task] }

/-- A `skynet.send` or `skynet.call`, unless it or the packing of its arguments raises an error. -/
def issue (x : Issue π) (r : SendResult) : State π :=
  if r = .raised then s else { s with issued := s.issued ++ [x] }

/-- A call that the running coroutine makes into `skynet.lua`. -/
def op (o : Op) : Option (State π) := (s.svc.step (.op o)).map fun t => { s with svc := t }

def getQueue (node : String) : Option (State π) :=
  { s with
    taskQueue := update s.taskQueue node (some s.nqueues)
    queues := update s.queues s.nqueues ⟨node, [], none, none⟩
    nqueues := s.nqueues + 1
    frames := update s.frames s.svc.nextThread (some (.requestSender s.nqueues)) }.op .fork

/-- `table.insert(task_queue[node], task)`, with the number of the queue. -/
def enqueue (node : String) (task : Task π) : Option (ℕ × State π) :=
  match s.taskQueue node with
  | some q => some (q, s.insert q task)
  | none => (s.getQueue node).map fun t => (s.nqueues, t.insert s.nqueues task)

/-- `skynet.call(get_sender(node), ...)` of coroutine `i`, up to the first wait. -/
def call (i : ℕ) (node : String) (msg : π) (r : SendResult) : Option (State π) :=
  match s.sender node with
  | some c => (s.issue ⟨c, none, msg⟩ r).op (.call (.handle c) r)
  | none =>
    (s.enqueue node (.thread i)).bind fun (q, t) =>
      (t.op (.wait (some (.thread i)))).map fun u =>
        -- the assertion of suspend_sleep has failed if the coroutine still runs
        if u.svc.control = .run i then u else u.setFrame i (some (.getSender q msg))

def send (node : String) (msg : π) (r : SendResult) : Option (State π) :=
  match s.sender node with
  | some c => some (s.issue ⟨c, none, msg⟩ r)
  | none => (s.enqueue node (.send msg)).map (·.2)

/-- `request_sender` has the answer of `clusterd`. -/
def answered (i q : ℕ) (c : Option ℕ) : State π :=
  (s.setQueue q { s.queues q with thread := some i, sender := c }).setFrame i (some (.serving q 0))

/-- The end of `request_sender`. -/
def finish (i q : ℕ) : Option (State π) :=
  { s.setFrame i none with
    taskQueue := update s.taskQueue (s.queues q).node none
    sender := update s.sender (s.queues q).node (s.queues q).sender }.op .finish

/-- An error ends `request_sender`. -/
def error (i : ℕ) : Option (State π) := (s.setFrame i none).op .error

/-- `request_sender` at task `k`. -/
def serve (i q k : ℕ) (r : SendResult) : Option (State π) :=
  match (s.queues q).tasks[k]? with
  | none => s.finish i q
  | some (.send msg) =>
    match (s.queues q).sender with
    | none => some (s.setFrame i (some (.serving q (k + 1))))
    | some c =>
      if r = .raised then s.error i
      else some ((s.issue ⟨c, some q, msg⟩ r).setFrame i (some (.serving q (k + 1))))
  | some (.thread j) =>
    (s.op (.wakeup (.thread j))).bind fun t =>
      (t.op (.wait (some (.thread j)))).bind fun u =>
        if u.svc.control = .run i then u.error i else some (u.setFrame i (some (.handing q k)))

/-- Coroutine `i` goes on. -/
def advance (i : ℕ) (c : Option ℕ) (r : SendResult) : Frame π → Option (State π)
  | .requestSender q =>
    (s.op (.call (.handle s.clusterd) r)).map fun t =>
      -- the call has failed, which the pcall catches, if the coroutine still runs
      if t.svc.control = .run i then t.answered i q none else t.setFrame i (some (.asking q))
  | .asking q => some (s.answered i q c)
  | .serving q k => s.serve i q k r
  | .handing q k => some (s.setFrame i (some (.serving q (k + 1))))
  | .getSender q msg =>
    let t := s.setFrame i none
    (match (s.queues q).thread with
      | some j => t.op (.wakeup (.thread j))
      | none => some t).bind fun u =>
        match (s.queues q).sender with
        | some c => (u.issue ⟨c, some q, msg⟩ r).op (.call (.handle c) r)
        -- skynet.call(nil) raises an error
        | none => some u

/-- The frame of the running coroutine. -/
def frame : Option (Frame π) :=
  match s.svc.control with
  | .run i => s.frames i
  | _ => none

def step : Label π → Option (State π)
  | .service a =>
    match a, s.frame with
    | .op _, some _ => none
    | _, _ => (s.svc.step a).map fun t => { s with svc := t }
  | .call node msg r =>
    match s.svc.control, s.frame with
    | .run i, none => s.call i node msg r
    | _, _ => none
  | .send node msg r =>
    match s.svc.control, s.frame with
    | .run _, none => s.send node msg r
    | _, _ => none
  | .advance c r =>
    match s.svc.control, s.frame with
    | .run i, some f => s.advance i c r f
    | _, _ => none

/-- A service whose `clusterd` has handle `clusterd`. -/
def init (clusterd : ℕ) : State π where
  svc := Service.State.init
  clusterd := clusterd
  sender _ := none
  taskQueue _ := none
  queues _ := ⟨"", [], none, none⟩
  nqueues := 0
  frames _ := none
  issued := []

end State

/-- A service that uses `cluster.lua`. -/
def client (π : Type) (clusterd : ℕ) : System (State π) (Label π) :=
  ⟨State.init clusterd, State.step⟩

end Skynet.ClusterClient
