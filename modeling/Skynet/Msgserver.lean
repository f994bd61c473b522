import Skynet.Transition

/-! # The message server

`snax.msgserver` is the gate of the clients: `gateserver` hands it the events of the client
sockets.  The first message of a connection is a handshake that names a user who is online; all
further messages are requests of that user, each with a session.  A request is given to
`request_handler`, which may yield, and its response is kept in a cache so that a client that has
reconnected can ask for it again with the same session.

A step is an event of a socket, a call of `server.login` or `server.logout`, or the return of a
`request_handler`; nothing else yields.

* User objects and cache entries are numbered in the order in which they are made, since
  `connection` and `user_online` share the users, and `u.response` and the suspended requests
  share the entries.
* A version is a Lua number, of which only the order matters.
* The label of a message says how its text parses, as a handshake and as a request: whether
  `tonumber` and `base64decode` succeed and whether the hash is the right one.

Secrets, addresses, the text of messages and `disconnect_handler` are left out.  `starts` and
`sends` record the history; no step reads them. -/

namespace Skynet.Msgserver

open Function Transition

/-- A struct of `u.response`: `{ return_fd, response, version, index }`. -/
structure Entry (ν ρ : Type) where
  fd : Option ℕ
  response : Option ρ
  version : Option ν
  /-- read only once the request is complete -/
  index : ℕ
deriving DecidableEq, Repr

structure User (ν : Type) where
  username : String
  version : ν
  index : ℕ
  fd : Option ℕ
  /-- the number of the entry for a session -/
  response : AList fun _ : ℕ => ℕ

/-- A request whose `request_handler` has not returned. -/
structure Task where
  user : ℕ
  session : ℕ
  fd : ℕ
deriving DecidableEq, Repr

/-- A call of `request_handler`. -/
structure Start where
  user : ℕ
  session : ℕ
  entry : ℕ
deriving DecidableEq, Repr

/-- A response that is sent; `user` is the one who has the connection. -/
structure Send where
  entry : ℕ
  fd : ℕ
  user : ℕ
deriving DecidableEq, Repr

structure Conf where
  expiredNumber : ℕ := 128
  maxClient : ℕ := 1024

/-- A message read as a handshake. -/
structure Handshake (ν : Type) where
  /-- `none` when the pattern does not match -/
  username : Option String
  /-- `none` when `tonumber` fails -/
  index : Option ν
  /-- whether the hash is right; `none` when `base64decode` fails -/
  hmac : Option Bool
deriving DecidableEq, Repr

/-- A message of a client; `session` is `none` when it is too short for one. -/
structure Message (ν : Type) where
  handshake : Handshake ν
  session : Option ℕ
deriving DecidableEq, Repr

inductive AuthResult where
  | ok
  | badRequest
  | unauthorized
  | indexExpired
  | userNotFound
deriving DecidableEq, Repr

structure State (ν ρ : Type) where
  conf : Conf
  userOnline : String → Option ℕ
  users : ℕ → User ν
  nusers : ℕ
  handshake : ℕ → Bool
  connection : ℕ → Option ℕ
  /-- `connection` of `gateserver` -/
  gate : ℕ → Option Bool
  clientNumber : ℕ
  entries : ℕ → Entry ν ρ
  nentries : ℕ
  /-- the suspended request of an entry -/
  tasks : ℕ → Option Task
  -- the history
  starts : List Start
  sends : List Send

inductive Label (ν ρ : Type) where
  /-- `server.login` -/
  | login (username : String)
  /-- `server.logout` -/
  | logout (username : String)
  /-- a client is accepted -/
  | open (fd : ℕ)
  | data (fd : ℕ) (msg : Message ν)
  | close (fd : ℕ)
  | error (fd : ℕ)
  /-- `request_handler` has returned and the result is packed; `none` when that fails -/
  | finish (p : ℕ) (result : Option ρ)
deriving DecidableEq, Repr

namespace State

variable {ν ρ : Type} [LinearOrder ν] [Zero ν] (s : State ν ρ)

def setUser (u : ℕ) (x : User ν) : State ν ρ := { s with users := update s.users u x }

def setEntry (p : ℕ) (x : Entry ν ρ) : State ν ρ :=
  { s with entries := update s.entries p x }

def closeclient (fd : ℕ) : State ν ρ :=
  if s.gate fd = some true then { s with gate := update s.gate fd (some false) } else s

def login (username : String) : State ν ρ :=
  if s.userOnline username = none then
    { s with
      userOnline := update s.userOnline username (some s.nusers)
      users := update s.users s.nusers ⟨username, 0, 0, none, ∅⟩
      nusers := s.nusers + 1 }
  else s

def logout (username : String) : State ν ρ :=
  match s.userOnline username with
  | none => s
  | some u =>
    let t : State ν ρ := { s with userOnline := update s.userOnline username none }
    match (s.users u).fd with
    | none => t
    | some fd =>
      { t.closeclient fd with connection := update s.connection fd none }

def disconnect (fd : ℕ) : State ν ρ :=
  let t : State ν ρ := { s with handshake := update s.handshake fd false }
  match s.connection fd with
  | none => t
  | some c =>
    { t.setUser c { s.users c with fd := none } with
      connection := update s.connection fd none }

def closeFd (fd : ℕ) : State ν ρ :=
  if s.gate fd = none then s
  else
    { s with gate := update s.gate fd none, clientNumber := s.clientNumber - 1 }

def doAuth (fd : ℕ) (m : Handshake ν) : AuthResult × State ν ρ :=
  match m.username.bind s.userOnline with
  | none => (.userNotFound, s)
  | some u =>
    match m.index, m.hmac with
    | some idx, some right =>
      if idx ≤ (s.users u).version then (.indexExpired, s)
      else if right = false then (.unauthorized, s)
      else
        (.ok, { s.setUser u { s.users u with version := idx, fd := some fd } with
          connection := update s.connection fd (some u) })
    | _, _ => (.badRequest, s)

/-- `auth`, with the end of `handler.message` -/
def auth (fd : ℕ) (m : Handshake ν) : State ν ρ :=
  let (result, t) := s.doAuth fd m
  let t' := if result = .ok then t else t.closeclient fd
  { t' with handshake := update t'.handshake fd false }

/-- The entries of user `u` whose request is complete, with their sessions. -/
def complete (u : ℕ) : List (ℕ × ℕ) :=
  ((s.users u).response.entries.map fun x => (x.1, x.2)).filter fun x =>
    (s.entries x.2).fd = none

/-- The entries that `retire_response` drops. -/
def expired (u : ℕ) : List (ℕ × ℕ) :=
  (s.complete u).filter fun x => (s.entries x.2).index < s.conf.expiredNumber

/-- The entries that `retire_response` moves down. -/
def unexpired (u : ℕ) : List ℕ :=
  ((s.complete u).filter fun x => s.conf.expiredNumber ≤ (s.entries x.2).index).map (·.2)

def retireResponse (u : ℕ) : State ν ρ :=
  let x := s.users u
  if x.index < s.conf.expiredNumber * 2 then s
  else
    let lowered (p : ℕ) : ℕ := (s.entries p).index - s.conf.expiredNumber
    { s with
      entries := fun p =>
        if p ∈ s.unexpired u then { s.entries p with index := lowered p } else s.entries p
      users := update s.users u
        { x with
          response := (s.expired u).foldl (fun r y => r.erase y.1) x.response
          index := ((s.unexpired u).map lowered).foldl max 0 + 1 } }

/-- `do_request` from the increment of `u.index` to the reset of the return fd. -/
def sendResponse (u p : ℕ) : State ν ρ :=
  let t := (s.setUser u { s.users u with index := (s.users u).index + 1 }).setEntry p
    { s.entries p with fd := none }
  match (s.entries p).fd, (s.entries p).fd.bind s.connection with
  | some fd, some c => { t with sends := s.sends ++ [⟨p, fd, c⟩] }
  | _, _ => t

/-- `do_request` from the increment of `u.index` on. -/
def reply (u p : ℕ) : State ν ρ := (s.sendResponse u p).retireResponse u

/-- The call of `request_handler` for session `k`. -/
def start (fd u k : ℕ) : State ν ρ :=
  let t := s.setEntry s.nentries ⟨some fd, none, none, 0⟩
  { t.setUser u { s.users u with response := (s.users u).response.insert k s.nentries } with
    nentries := s.nentries + 1
    tasks := update s.tasks s.nentries (some ⟨u, k, fd⟩)
    starts := s.starts ++ [⟨u, k, s.nentries⟩] }

/-- A request of an earlier connection that is received again. -/
def again (fd u p : ℕ) : State ν ρ :=
  let t := s.setEntry p
    { s.entries p with
      fd := some fd, version := some (s.users u).version, index := (s.users u).index }
  if (s.entries p).response = none then t else t.reply u p

/-- The entry of a session that was used before on this connection is given up. -/
def forget (u k : ℕ) : State ν ρ :=
  s.setUser u { s.users u with response := (s.users u).response.erase k }

/-- `do_request` for user `u`, with the error handling of `request`. -/
def doRequest (fd u k : ℕ) : State ν ρ :=
  match (s.users u).response.lookup k with
  | none => s.start fd u k
  | some p =>
    if (s.entries p).version = some (s.users u).version then
      match (s.entries p).response with
      -- Conflict session
      | none => (s.forget u k).closeclient fd
      | some _ => (s.forget u k).start fd u k
    else s.again fd u p

def request (fd : ℕ) (session : Option ℕ) : State ν ρ :=
  match s.connection fd, session with
  | none, _ => s
  | some _, none => s.closeclient fd
  | some u, some k => s.doRequest fd u k

/-- `do_request` after `request_handler`, with the error handling of `request`. -/
def finish (p : ℕ) (task : Task) (result : Option ρ) : State ν ρ :=
  let t : State ν ρ := { s with tasks := update s.tasks p none }
  match result with
  | none => if s.connection task.fd = none then t else t.closeclient task.fd
  | some r =>
    (t.setEntry p
      { s.entries p with
        response := some r
        version := some (s.users task.user).version
        index := (s.users task.user).index }).reply task.user p

def step : Label ν ρ → Option (State ν ρ)
  | .login username => some (s.login username)
  | .logout username => some (s.logout username)
  | .open fd =>
    if s.gate fd ≠ none then none
    else if s.conf.maxClient ≤ s.clientNumber then some s
    else
      some { s with
        gate := update s.gate fd (some true)
        clientNumber := s.clientNumber + 1
        handshake := update s.handshake fd true }
  | .data fd msg =>
    if s.gate fd = some true then
      if s.handshake fd then some (s.auth fd msg.handshake) else some (s.request fd msg.session)
    else some s
  | .close fd | .error fd => some ((s.disconnect fd).closeFd fd)
  | .finish p result => (s.tasks p).map fun task => s.finish p task result

def init (conf : Conf) : State ν ρ where
  conf := conf
  userOnline _ := none
  users _ := ⟨"", 0, 0, none, ∅⟩
  nusers := 0
  handshake _ := false
  connection _ := none
  gate _ := none
  clientNumber := 0
  entries _ := ⟨none, none, none, 0⟩
  nentries := 0
  tasks _ := none
  starts := []
  sends := []

end State

/-- A message server. -/
def server (ν ρ : Type) [LinearOrder ν] [Zero ν] (conf : Conf) :
    System (State ν ρ) (Label ν ρ) :=
  ⟨State.init conf, State.step⟩

end Skynet.Msgserver
