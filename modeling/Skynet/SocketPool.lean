import Skynet.MaskArith
import Skynet.Socket

/-! # The pool of socket objects

`socket_object_pool` has `MAX_SOCKET` slots.  A socket id is a number of 31 bits: its low 16 bits
name the slot, and its high bits tell apart the ids that share a slot.  `alloc_socket` counts ids up
until it comes to one whose slot is free.  When the counter overflows it goes on with 0, so
`MAX_SOCKET` consecutive ids hit every slot, also across the overflow (`allocSocket_spec`).

`sending_count` carries the high bits of the id that the slot was opened for, and
`inc_sending_count` counts for this id only.

The functions run one after another here, so a `compare_exchange` succeeds.  The fields that no
function of this module reads or writes are left out. -/

namespace Skynet.SocketPool

open Function Transition
open Socket (Status)

def MAX_SOCKET_P : ℕ := 16
def MAX_SOCKET : ℕ := 1 <<< MAX_SOCKET_P

inductive SocketType where
  | tcp | udp | udpv6 | unknown
deriving DecidableEq, Repr

structure SocketObject where
  socketFd : ℤ := -1
  socketId : ℕ := 0
  socketType : SocketType := .unknown
  socketStatus : Status := .invalid
  /-- the high half names the socket id, the low half counts -/
  sendingCount : ℕ := 0
  udpConnectingCount : ℕ := 0
deriving DecidableEq, Repr

def socketArrayIndex (socketId : ℕ) : ℕ := socketId % MAX_SOCKET

def socketIdHigh16 (socketId : ℕ) : ℕ := socketId >>> MAX_SOCKET_P &&& 0xFFFF

/-- The fields that `alloc_socket` sets. -/
def SocketObject.allocFor (x : SocketObject) (socketId : ℕ) : SocketObject :=
  { x with
    socketStatus := .alloced
    socketId := socketId
    socketType := .unknown
    udpConnectingCount := 0
    socketFd := -1 }

structure Pool where
  socketArray : ℕ → SocketObject
  /-- the counter, an `int` -/
  allocSocketId : BitVec 32

namespace Pool

def init : Pool := ⟨fun _ => {}, 0⟩

variable (P : Pool)

def getSocket (socketId : ℕ) : SocketObject := P.socketArray (socketArrayIndex socketId)

def setSocket (socketId : ℕ) (x : SocketObject) : Pool :=
  { P with socketArray := update P.socketArray (socketArrayIndex socketId) x }

/-- `++alloc_socket_id_`, and what is done when this overflows. -/
def nextId (c : BitVec 32) : BitVec 32 :=
  if (c + 1).msb then (c + 1) &&& 0x7FFFFFFF else c + 1

/-- The loop of `alloc_socket` with `n` rounds to go. -/
def allocLoop (P : Pool) : ℕ → ℤ × Pool
  | 0 => (-1, P)
  | n + 1 =>
    let socketId := (nextId P.allocSocketId).toNat
    let P := { P with allocSocketId := nextId P.allocSocketId }
    let x := P.getSocket socketId
    if x.socketStatus ≠ .invalid then allocLoop P n
    else (socketId, P.setSocket socketId (x.allocFor socketId))

def allocSocket : ℤ × Pool := P.allocLoop MAX_SOCKET

def freeSocket (socketId : ℕ) : Pool :=
  P.setSocket socketId { P.getSocket socketId with socketStatus := .invalid }

end Pool

namespace SocketObject

variable (x : SocketObject)

def resetSendingCount (socketId : ℕ) : SocketObject :=
  { x with sendingCount := socketIdHigh16 socketId <<< 16 ||| 0 }

/-- `inc_sending_count`; the loop goes on without an end while the count is full. -/
def incSendingCount (socketId : ℕ) : Option SocketObject :=
  if x.socketType ≠ .tcp then some x
  else if x.sendingCount >>> 16 = socketIdHigh16 socketId then
    if x.sendingCount &&& 0xFFFF = 0xFFFF then none
    else some { x with sendingCount := x.sendingCount + 1 }
  else some x

/-- `dec_sending_count`; there is no next state if the assertion fails. -/
def decSendingCount (socketId : ℕ) : Option SocketObject :=
  if x.socketId = socketId ∧ x.socketType = .tcp then
    if x.sendingCount &&& 0xFFFF = 0 then none
    else some { x with sendingCount := x.sendingCount - 1 }
  else some x

/-- The fields of this module that `new_socket` sets. -/
def openFor (socketId : ℕ) (socketFd : ℤ) (type : SocketType) : SocketObject :=
  { ({ x with socketId, socketFd } : SocketObject).resetSendingCount socketId with
    socketType := type }

end SocketObject

namespace Pool

variable (P : Pool)

/-- `new_socket`, called by a handler that sets `status` when it succeeds.  `added` and `enabled`
tell whether the poller takes the socket and its interest in reading. -/
def newSocket (socketId : ℕ) (socketFd : ℤ) (type : SocketType) (added enabled : Bool)
    (status : Status) : Option Pool :=
  let x := P.getSocket socketId
  if x.socketStatus ≠ .alloced then none
  else if !added then some (P.freeSocket socketId)
  else
    let P := P.setSocket socketId (x.openFor socketId socketFd type)
    if !enabled then some (P.freeSocket socketId)
    else some (P.setSocket socketId { P.getSocket socketId with socketStatus := status })

/-- A function of the socket object of `socketId`. -/
def onSocket (socketId : ℕ) (f : SocketObject → Option SocketObject) : Option Pool :=
  (f (P.getSocket socketId)).map (P.setSocket socketId)

inductive Action where
  | alloc
  | open (socketId : ℕ) (socketFd : ℤ) (type : SocketType) (added enabled : Bool) (status : Status)
  | free (socketId : ℕ)
  | incSending (socketId : ℕ)
  | decSending (socketId : ℕ)
deriving DecidableEq, Repr

def step : Action → Option Pool
  | .alloc => some P.allocSocket.2
  | .open socketId fd type added enabled status =>
    if socketId < 2 ^ 31 then P.newSocket socketId fd type added enabled status else none
  | .free socketId => some (P.freeSocket socketId)
  | .incSending socketId => P.onSocket socketId fun x => x.incSendingCount socketId
  | .decSending socketId => P.onSocket socketId fun x => x.decSendingCount socketId

end Pool

/-- The pool under calls that follow one another. -/
def pool : System Pool Pool.Action := ⟨Pool.init, Pool.step⟩

/-! ### Ids and tags -/

theorem socketIdHigh16_eq {socketId : ℕ} (h : socketId < 2 ^ 31) :
    socketIdHigh16 socketId = socketId / MAX_SOCKET := by
  have hlt : socketId / 2 ^ 16 < 2 ^ 16 := by omega
  rw [socketIdHigh16, Nat.shiftRight_eq_div_pow, show (0xFFFF : ℕ) = 2 ^ 16 - 1 from rfl,
    Nat.and_two_pow_sub_one_eq_mod, show MAX_SOCKET_P = 16 from rfl, Nat.mod_eq_of_lt hlt]
  rfl

theorem eq_of_socketIdHigh16 {i j : ℕ} (hi : i < 2 ^ 31) (hj : j < 2 ^ 31)
    (hslot : socketArrayIndex i = socketArrayIndex j) (htag : socketIdHigh16 i = socketIdHigh16 j) :
    i = j := by
  rw [socketIdHigh16_eq hi, socketIdHigh16_eq hj] at htag
  rw [← Nat.div_add_mod i MAX_SOCKET, ← Nat.div_add_mod j MAX_SOCKET, htag]
  exact congrArg _ hslot

namespace Pool

theorem toNat_nextId (c : BitVec 32) : (nextId c).toNat = (c.toNat + 1) % 2 ^ 31 := by
  have hadd : (c + 1).toNat = (c.toNat + 1) % 2 ^ 32 := by rw [BitVec.toNat_add]; rfl
  rw [nextId, BitVec.msb_eq_decide]
  split_ifs with hmsb
  · rw [BitVec.toNat_and, hadd, show (0x7FFFFFFF : BitVec 32).toNat = 2 ^ 31 - 1 from rfl,
      Nat.and_two_pow_sub_one_eq_mod, Nat.mod_mod_of_dvd _ (show 2 ^ 31 ∣ 2 ^ 32 from ⟨2, rfl⟩)]
  · rw [hadd]
    rw [decide_eq_true_eq, hadd] at hmsb
    omega

theorem socketArrayIndex_nextId (c : BitVec 32) :
    socketArrayIndex (nextId c).toNat = (c.toNat + 1) % MAX_SOCKET := by
  rw [socketArrayIndex, toNat_nextId,
    Nat.mod_mod_of_dvd _ (show MAX_SOCKET ∣ 2 ^ 31 from ⟨2 ^ 15, rfl⟩)]

variable (P : Pool)

/-- What `n` rounds of the loop do: they find the slots of the next `n` ids in use, or take the
first that is free. -/
theorem allocLoop_spec (n : ℕ) :
    ((P.allocLoop n).1 = -1 ∧ (P.allocLoop n).2.socketArray = P.socketArray ∧
      ∀ i < n, (P.socketArray ((P.allocSocketId.toNat + 1 + i) % MAX_SOCKET)).socketStatus ≠
        .invalid) ∨
    ∃ socketId : ℕ, socketId < 2 ^ 31 ∧ (P.allocLoop n).1 = socketId ∧
      (P.getSocket socketId).socketStatus = .invalid ∧
      (P.allocLoop n).2.socketArray =
        (P.setSocket socketId ((P.getSocket socketId).allocFor socketId)).socketArray := by
  induction n generalizing P with
  | zero => exact .inl ⟨rfl, rfl, by simp⟩
  | succ n ih =>
    have hlt : (nextId P.allocSocketId).toNat < 2 ^ 31 := by
      rw [toNat_nextId]
      exact Nat.mod_lt _ (by decide)
    simp only [allocLoop]
    split_ifs with hused
    · -- the slot of this id is in use
      rcases ih { P with allocSocketId := nextId P.allocSocketId } with
        ⟨hres, hsame, hall⟩ | hfound
      · refine .inl ⟨hres, hsame, fun i hi => ?_⟩
        cases i with
        | zero =>
          rw [getSocket, socketArrayIndex_nextId] at hused
          exact hused
        | succ i =>
          have := hall i (by omega)
          rw [toNat_nextId] at this
          have hmod : ((P.allocSocketId.toNat + 1) % 2 ^ 31 + 1 + i) % MAX_SOCKET =
              (P.allocSocketId.toNat + 1 + (i + 1)) % MAX_SOCKET := by
            rw [show MAX_SOCKET = 2 ^ 16 from rfl]
            omega
          rwa [hmod] at this
      · exact .inr hfound
    · exact .inr ⟨_, hlt, rfl, not_not.mp hused, rfl⟩

/-- **`alloc_socket`** fails only if no slot is free, and otherwise takes a free slot. -/
theorem allocSocket_spec : (P.allocSocket.1 = -1 ∧ P.allocSocket.2.socketArray = P.socketArray ∧
      ∀ k < MAX_SOCKET, (P.socketArray k).socketStatus ≠ .invalid) ∨
    ∃ socketId : ℕ, socketId < 2 ^ 31 ∧ P.allocSocket.1 = socketId ∧
      (P.getSocket socketId).socketStatus = .invalid ∧
      P.allocSocket.2.socketArray =
        (P.setSocket socketId ((P.getSocket socketId).allocFor socketId)).socketArray := by
  rcases P.allocLoop_spec MAX_SOCKET with ⟨hres, hsame, hall⟩ | hfound
  · refine .inl ⟨hres, hsame, fun k hk => ?_⟩
    obtain ⟨i, hi, hik⟩ := MaskArith.exists_add_mod_eq (P.allocSocketId.toNat + 1) hk
    have := hall i hi
    rwa [hik] at this
  · exact .inr hfound

end Pool

/-! ### Whose sends are counted -/

/-- A TCP socket in slot `k` counts for its own id. -/
structure SocketObject.Tagged (x : SocketObject) (k : ℕ) : Prop where
  lt : x.sendingCount < 2 ^ 32
  own : x.socketType = .tcp → x.socketId < 2 ^ 31 ∧ socketArrayIndex x.socketId = k ∧
    x.sendingCount / 2 ^ 16 = socketIdHigh16 x.socketId

namespace SocketObject.Tagged

variable {x y : SocketObject} {k i : ℕ}

theorem init : Tagged {} k := ⟨by decide, nofun⟩

theorem allocFor (h : x.Tagged k) (i : ℕ) : (x.allocFor i).Tagged k := ⟨h.lt, nofun⟩

theorem status (h : x.Tagged k) (s : Status) :
    ({ x with socketStatus := s } : SocketObject).Tagged k := ⟨h.lt, h.own⟩

theorem openFor (hi : i < 2 ^ 31) (fd : ℤ) (type : SocketType) :
    (x.openFor i fd type).Tagged (socketArrayIndex i) := by
  have htag : socketIdHigh16 i < 2 ^ 15 := by
    rw [socketIdHigh16_eq hi, show MAX_SOCKET = 2 ^ 16 from rfl]
    omega
  have hcount : (x.openFor i fd type).sendingCount = socketIdHigh16 i * 2 ^ 16 := by
    show socketIdHigh16 i <<< 16 ||| 0 = _
    rw [Nat.or_zero, Nat.shiftLeft_eq]
  refine ⟨by omega, fun _ => ⟨hi, rfl, ?_⟩⟩
  rw [hcount, Nat.mul_div_cancel _ (by decide)]
  rfl

theorem count {n : ℕ} (h : x.Tagged k) (hn : n / 2 ^ 16 = x.sendingCount / 2 ^ 16) :
    ({ x with sendingCount := n } : SocketObject).Tagged k := by
  have hlt := h.lt
  exact ⟨by show n < 2 ^ 32; omega, fun ht => ⟨(h.own ht).1, (h.own ht).2.1,
    hn.trans (h.own ht).2.2⟩⟩

theorem incSendingCount (h : x.Tagged k) (hy : x.incSendingCount i = some y) : y.Tagged k := by
  unfold SocketObject.incSendingCount at hy
  split_ifs at hy with htype htag hfull
  · cases hy; exact h
  · cases hy
    rw [show (0xFFFF : ℕ) = 2 ^ 16 - 1 from rfl, Nat.and_two_pow_sub_one_eq_mod] at hfull
    exact h.count (by omega)
  · cases hy; exact h

theorem decSendingCount (h : x.Tagged k) (hy : x.decSendingCount i = some y) : y.Tagged k := by
  unfold SocketObject.decSendingCount at hy
  split_ifs at hy with hown hzero
  · cases hy
    rw [show (0xFFFF : ℕ) = 2 ^ 16 - 1 from rfl, Nat.and_two_pow_sub_one_eq_mod] at hzero
    exact h.count (by omega)
  · cases hy; exact h

theorem eq_of_incSendingCount (h : x.Tagged (socketArrayIndex i)) (hi : i < 2 ^ 31)
    (hy : x.incSendingCount i = some y) (hne : y.sendingCount ≠ x.sendingCount) :
    i = x.socketId := by
  unfold SocketObject.incSendingCount at hy
  split_ifs at hy with htype htag hfull
  · cases hy; exact absurd rfl hne
  · obtain ⟨hlt, hslot, hown⟩ := h.own (not_not.mp htype)
    rw [Nat.shiftRight_eq_div_pow, hown] at htag
    exact eq_of_socketIdHigh16 hi hlt hslot.symm htag.symm
  · cases hy; exact absurd rfl hne

end SocketObject.Tagged

namespace Pool

def Tagged (P : Pool) : Prop := ∀ k, (P.socketArray k).Tagged k

variable {P Q : Pool} {i : ℕ}

theorem Tagged.setSocket (hP : P.Tagged) {x : SocketObject} (hx : x.Tagged (socketArrayIndex i)) :
    (P.setSocket i x).Tagged := by
  intro k
  by_cases hk : k = socketArrayIndex i
  · subst hk
    simp only [Pool.setSocket, update_self]
    exact hx
  · simp only [Pool.setSocket, update_of_ne hk]
    exact hP k

theorem Tagged.freeSocket (hP : P.Tagged) (i : ℕ) : (P.freeSocket i).Tagged :=
  hP.setSocket ((hP _).status _)

theorem Tagged.allocSocket (hP : P.Tagged) : P.allocSocket.2.Tagged := by
  rcases P.allocSocket_spec with ⟨-, hsame, -⟩ | ⟨id, -, -, -, hset⟩
  · intro k
    rw [hsame]
    exact hP k
  · intro k
    rw [hset]
    exact (hP.setSocket ((hP _).allocFor id)) k

theorem Tagged.newSocket (hP : P.Tagged) (hi : i < 2 ^ 31) {fd : ℤ} {type : SocketType}
    {added enabled : Bool} {status : Status}
    (hQ : P.newSocket i fd type added enabled status = some Q) : Q.Tagged := by
  simp only [Pool.newSocket] at hQ
  have hopen := hP.setSocket (SocketObject.Tagged.openFor (x := P.getSocket i) hi fd type)
  split_ifs at hQ
  · cases hQ
    exact hP.freeSocket i
  · cases hQ
    exact hopen.freeSocket i
  · cases hQ
    exact hopen.setSocket ((hopen _).status status)

theorem Tagged.onSocket (hP : P.Tagged) {f : SocketObject → Option SocketObject}
    (hf : ∀ x y, x.Tagged (socketArrayIndex i) → f x = some y → y.Tagged (socketArrayIndex i))
    (hQ : P.onSocket i f = some Q) : Q.Tagged := by
  obtain ⟨y, hy, rfl⟩ := Option.map_eq_some_iff.mp hQ
  exact hP.setSocket (hf _ y (hP _) hy)

theorem tagged (h : pool.Reachable P) : P.Tagged := by
  refine h.invariant (fun _ => SocketObject.Tagged.init) fun P a Q hP _ hs => ?_
  cases a with
  | alloc =>
    cases hs
    exact hP.allocSocket
  | «open» i fd type added enabled status =>
    simp only [pool, step] at hs
    split_ifs at hs with hi
    exact hP.newSocket hi hs
  | free i =>
    cases hs
    exact hP.freeSocket i
  | incSending i => exact hP.onSocket (fun _ _ hx hy => hx.incSendingCount hy) hs
  | decSending i => exact hP.onSocket (fun _ _ hx hy => hx.decSendingCount hy) hs

end Pool

/-- **Socket ids**: whatever the counter, `alloc_socket` fails only if no slot is free and otherwise
returns an id whose slot was free and is allocated for it now; ids that share a slot have different
tags; and a send is only counted for the id that the slot has. -/
theorem alloc_socket_complete {P : Pool} (h : pool.Reachable P) (c : BitVec 32) :
    let r := ({ P with allocSocketId := c } : Pool).allocSocket
    (r.1 = -1 → ∀ k < MAX_SOCKET, (P.socketArray k).socketStatus ≠ .invalid) ∧
    (r.1 ≠ -1 → ∃ id : ℕ, id < 2 ^ 31 ∧ r.1 = id ∧ (P.getSocket id).socketStatus = .invalid ∧
      (r.2.getSocket id).socketStatus = .alloced ∧ (r.2.getSocket id).socketId = id ∧
      ∀ k ≠ socketArrayIndex id, r.2.socketArray k = P.socketArray k) ∧
    (∀ i j, i < 2 ^ 31 → j < 2 ^ 31 → socketArrayIndex i = socketArrayIndex j → i ≠ j →
      socketIdHigh16 i ≠ socketIdHigh16 j) ∧
    ∀ i y, i < 2 ^ 31 → (P.getSocket i).incSendingCount i = some y →
      y.sendingCount ≠ (P.getSocket i).sendingCount → i = (P.getSocket i).socketId := by
  refine ⟨fun hres => ?_, fun hres => ?_, fun i j hi hj hslot hne htag => ?_,
    fun i y hi hy hne => (Pool.tagged h _).eq_of_incSendingCount hi hy hne⟩
  · rcases Pool.allocSocket_spec { P with allocSocketId := c } with ⟨-, -, hall⟩ | ⟨id, -, hid, -⟩
    · exact hall
    · omega
  · rcases Pool.allocSocket_spec { P with allocSocketId := c } with
      ⟨hfail, -⟩ | ⟨id, hlt, hid, hfree, hset⟩
    · exact absurd hfail hres
    · have hslot : Pool.getSocket (Pool.allocSocket { P with allocSocketId := c }).2 id =
          (P.getSocket id).allocFor id := by
        rw [Pool.getSocket, hset]
        exact update_self ..
      refine ⟨id, hlt, hid, hfree, by rw [hslot]; rfl, by rw [hslot]; rfl, fun k hk => ?_⟩
      rw [hset]
      exact update_of_ne hk _ _
  · exact hne (eq_of_socketIdHigh16 hi hj hslot htag)

/-- The counter is at its greatest value, and the first slot is in use. -/
theorem alloc_socket_complete_of_overflow : ∃ P : Pool, pool.Reachable P ∧
    (P.getSocket 1).incSendingCount 1 ≠ some (P.getSocket 1) ∧ (P.getSocket 1).socketId = 1 ∧
    ∃ Q : Pool, ({ P with allocSocketId := 0x7FFFFFFF } : Pool).allocSocket = (0, Q) ∧
      (Q.getSocket 0).socketStatus = .alloced ∧ (Q.getSocket 0).socketId = 0 ∧
      Q.socketArray 1 = P.socketArray 1 := by
  obtain ⟨P, hP, hinc, hid, hres⟩ := pool.exists_reachable (fun _ _ => True)
    [.alloc, .open 1 5 .tcp true true .connected]
    (fun P : Pool => (P.getSocket 1).incSendingCount 1 ≠ some (P.getSocket 1) ∧
      (P.getSocket 1).socketId = 1 ∧
      ({ P with allocSocketId := 0x7FFFFFFF } : Pool).allocSocket.1 = 0) (by decide +kernel)
  obtain ⟨-, hfound, -, -⟩ := alloc_socket_complete hP 0x7FFFFFFF
  obtain ⟨id, -, hr, -, hstatus, hsocket, hother⟩ := hfound (by rw [hres]; decide)
  obtain rfl : id = 0 := by
    rw [hres] at hr
    exact_mod_cast hr.symm
  exact ⟨P, hP, hinc, hid, _, Prod.ext hres rfl, hstatus, hsocket, hother 1 (by decide)⟩

end Skynet.SocketPool
