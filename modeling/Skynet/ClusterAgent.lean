import Skynet.ClusterPack
import Skynet.Multiplex
import Skynet.Transition

/-! # Requests to a cluster node

A sender packs requests and pushes with `packrequest`; the parts of large ones may be mixed with
each other and with small ones on the connection.  The agent at the other end (`cluster_agent`)
unpacks each packet and puts large requests together in `large_request`, by session.

Requests of less than `2^31` bytes are recovered (`requests_recovered`).  `concat` takes the length
of a large request as an `int`: a longer one is not put together (`large_request_lost`).

A step is the arrival of a packet, so its order is that of the connection.  Traces, what the agent
does with a request and how it answers are left out. -/

namespace Skynet.ClusterAgent

open Function LuaText ByteOrder ClusterPack MachineInt Multiplex Transition
open List hiding concat append

/-! ### The agent -/

/-- An entry of `large_request`. -/
structure Large where
  addr : Option Addr
  isPush : Bool
  parts : List Part
deriving DecidableEq, Repr

/-- What the agent goes on with. -/
inductive Outcome where
  | request (addr : Option Addr) (session : ℕ) (msg : Bytes) (isPush : Bool)
  /-- the answer "Invalid large req" -/
  | invalid (session : ℕ)
deriving DecidableEq, Repr

/-- `dispatch_request` up to the message to the service. -/
def dispatchRequest (largeRequest : ℕ → Option Large) (packet : Bytes) :
    Except Fault ((ℕ → Option Large) × Option Outcome) :=
  match unpackrequest packet with
  | .error e => .error e
  | .ok (.trace _) => .ok (largeRequest, none)
  | .ok (.request u) =>
    if u.padding then
      let req := (largeRequest u.session).getD ⟨u.addr, u.isPush, []⟩
      .ok (update largeRequest u.session
        (some { req with parts := append req.parts u.msg u.sz }), none)
    else
      match largeRequest u.session with
      | some req =>
        match concat (append req.parts u.msg u.sz) with
        | .error e => .error e
        | .ok none =>
          .ok (update largeRequest u.session none, some (.invalid u.session))
        | .ok (some msg) =>
          .ok (update largeRequest u.session none,
            some (.request req.addr u.session msg req.isPush))
      | none =>
        match u.msg with
        | none => .ok (largeRequest, some (.invalid u.session))
        | some msg => .ok (largeRequest, some (.request u.addr u.session msg u.isPush))

/-! ### The sender -/

/-- A 32-bit number, or a name of 1 to 255 bytes. -/
def Valid : Addr → Prop
  | .number n => n < 2 ^ 32
  | .name s => 1 ≤ s.length ∧ s.length ≤ 255

instance : DecidablePred Valid
  | .number n => inferInstanceAs (Decidable (n < 2 ^ 32))
  | .name s => inferInstanceAs (Decidable (1 ≤ s.length ∧ s.length ≤ 255))

/-- A call of `packrequest` or `packpush`. -/
structure Call where
  addr : Addr
  valid : Valid addr
  session : ℕ
  session_pos : 0 < session
  session_lt : session < 2 ^ 31
  msg : Bytes
  isPush : Bool

namespace Call

/-- The packets of a call. -/
def packets (c : Call) : List Bytes :=
  ClusterPack.packets (packrequest c.addr c.session c.msg c.isPush)

/-- The session in the packets. -/
def key (c : Call) : ℕ := if c.isPush ∧ c.msg.length < multiPart then 0 else c.session

/-- What is sent. -/
def outcome (c : Call) : Outcome := .request (some c.addr) c.key c.msg c.isPush

/-- What the caller asked for. -/
def asked (c : Call) : Outcome := .request (some c.addr) c.session c.msg c.isPush

def source : Source ℕ Call Bytes := ⟨key, packets⟩

theorem source_key : source.key = key := rfl

theorem source_packets : source.packets = packets := rfl

end Call

/-- The two ends of a connection. -/
structure Link where
  pending : Pending ℕ Call Bytes
  largeRequest : ℕ → Option Large
  -- the history
  complete : List Call
  outcomes : List Outcome
  faults : List Fault

inductive Label where
  /-- the first packet of a call -/
  | first (c : Call)
  /-- another packet of the call with this session -/
  | part (session : ℕ)

namespace Link

/-- A packet arrives without its size. -/
def receive (s : Link) (p : Sent ℕ Call Bytes) : Link :=
  let t := { s with pending := p.pending, complete := s.complete ++ p.complete.toList }
  match dispatchRequest s.largeRequest (p.packet.drop 2) with
  | .error e => { t with faults := s.faults ++ [e] }
  | .ok (largeRequest, outcome) =>
    { t with largeRequest := largeRequest, outcomes := s.outcomes ++ outcome.toList }

def step (s : Link) : Label → Option Link
  | .first c => (Call.source.start s.pending c).map s.receive
  | .part k => (s.pending.next k).map s.receive

def init : Link := ⟨fun _ => none, fun _ => none, [], [], []⟩

end Link

def link : System Link Label := ⟨Link.init, Link.step⟩

/-! ### Unpacking -/

theorem unpackrequest_number (addr session : ℕ) (msg : Bytes) :
    unpackrequest ([0] ++ fillUint32 addr ++ fillUint32 session ++ msg) =
      .ok (.request ⟨some (.number (addr % 2 ^ 32)), session % 2 ^ 32, some msg, msg.length, false,
        session % 2 ^ 32 = 0⟩) := by
  have hlen : ¬4 + (4 + msg.length) + 1 < 9 := by omega
  have hsz : 4 + (4 + msg.length) - 8 = msg.length := by omega
  simp [unpackrequest, unpackreqNumber, hlen, hsz]

theorem unpackrequest_large_number (addr session sz : ℕ) (isPush : Bool) :
    unpackrequest ([if isPush then 0x41 else 1] ++ fillUint32 addr ++ fillUint32 session ++
      fillUint32 sz) =
      .ok (.request ⟨some (.number (addr % 2 ^ 32)), session % 2 ^ 32, none, sz % 2 ^ 32, true,
        isPush⟩) := by
  have hsz := unpackUint32_fillUint32 sz []
  rw [append_nil] at hsz
  cases isPush <;> simp [unpackrequest, unpackmreqNumber, hsz]

theorem unpackrequest_part {last : Bool} (session : ℕ) (msg : Bytes) :
    unpackrequest ([if last then 3 else 2] ++ fillUint32 session ++ msg) =
      .ok (.request ⟨none, session % 2 ^ 32, some msg, msg.length, !last, false⟩) := by
  have hlen : ¬4 + msg.length + 1 < 5 := by omega
  have hsz : 4 + msg.length - 4 = msg.length := by omega
  cases last <;> simp [unpackrequest, unpackmreqPart, hlen, hsz]

variable {name : Bytes} {k : ℕ} {p : Option (Call × List Bytes)} {s : Link}

theorem toNat_length (h : name.length ≤ 255) : (UInt8.ofNat name.length).toNat = name.length :=
  UInt8.toNat_ofNat_of_lt (Nat.lt_succ_of_le h)

theorem unpackrequest_name (h : name.length ≤ 255) (session : ℕ) (msg : Bytes) :
    unpackrequest ([0x80, UInt8.ofNat name.length] ++ name ++ fillUint32 session ++ msg) =
      .ok (.request ⟨some (.name name), session % 2 ^ 32, some msg, msg.length, false,
        session % 2 ^ 32 = 0⟩) := by
  have hname := toNat_length h
  have hlen : ¬name.length + (4 + msg.length) + 1 + 1 < 2 := by omega
  have hsz : name.length + (4 + msg.length) + 1 + 1 - name.length - 6 = msg.length := by omega
  have hdrop : (name ++ (fillUint32 session ++ msg)).drop (2 + name.length + 2) = msg := by
    rw [show 2 + name.length + 2 = name.length + 4 by omega, ← drop_drop, drop_left]
    exact drop_fillUint32 session msg 0
  simp [unpackrequest, unpackreqString, hname, hlen, hsz, hdrop]

theorem unpackrequest_large_name (h : name.length ≤ 255) (session sz : ℕ) (isPush : Bool) :
    unpackrequest ([if isPush then 0xc1 else 0x81, UInt8.ofNat name.length] ++ name ++
      fillUint32 session ++ fillUint32 sz) =
      .ok (.request ⟨some (.name name), session % 2 ^ 32, none, sz % 2 ^ 32, true, isPush⟩) := by
  have hname := toNat_length h
  have hsz := unpackUint32_fillUint32 sz []
  rw [append_nil] at hsz
  cases isPush <;> simp [unpackrequest, unpackmreqString, hname, hsz]

/-! ### The packets of a call -/

theorem sized_parts (session : ℕ) (msg : Bytes) :
    ∀ p ∈ parts (packreqPart session) msg, Sized p := by
  refine forall_parts (fun last m hm => ?_) msg
  have hm' : m.length ≤ 0x8000 := hm
  refine sized_fillHeader (by omega) ?_
  simp only [length_append, length_fillUint32, length_singleton]
  omega

namespace Call

variable {c : Call}

theorem packets_eq {head : Bytes} {n : ℕ} (hlt : c.msg.length < 2 ^ 32)
    (h : packreqFirst c.addr c.session c.msg c.msg.length c.isPush = .ok (head, n)) :
    c.packets = head :: if n = 0 then [] else packreqMulti c.session n c.msg c.msg.length := by
  have hpos := c.session_pos
  have hsession : toInt c.session = c.session := toInt_of_lt c.session_lt
  have hpacked : packrequest c.addr c.session c.msg c.isPush =
      packreq c.addr c.session c.msg c.msg.length c.isPush := by
    rw [packrequest, hsession, if_neg (by omega), Nat.mod_eq_of_lt hlt, Int.toNat_natCast]
  rw [packets, hpacked, packreq, h, ClusterPack.packets]
  split_ifs <;> rfl

theorem key_of_large (h : multiPart ≤ c.msg.length) : c.key = c.session :=
  if_neg fun hc => not_lt.mpr h hc.2

theorem key_of_small (h : c.msg.length < multiPart) :
    c.key = if c.isPush then 0 else c.session := by
  simp [key, h]

theorem key_lt (c : Call) : c.key < 2 ^ 32 := by
  have := c.session_lt
  rw [key]
  split_ifs <;> omega

theorem key_eq_zero_of_small (h : c.msg.length < multiPart) : decide (c.key = 0) = c.isPush := by
  have hpos := c.session_pos
  rw [key_of_small h]
  cases c.isPush with
  | true => rfl
  | false => exact decide_eq_false (ne_of_gt hpos)

theorem packets_small (h : c.msg.length < multiPart) :
    ∃ head, c.packets = [head] ∧ Sized head ∧ unpackrequest (head.drop 2) =
      .ok (.request ⟨some c.addr, c.key, some c.msg, c.msg.length, false, c.isPush⟩) := by
  have h' : c.msg.length < 0x8000 := h
  have hlt : c.msg.length < 2 ^ 32 := by omega
  have hkey : c.key % 2 ^ 32 = c.key := Nat.mod_eq_of_lt c.key_lt
  have hpush := key_eq_zero_of_small h
  have hvalid := c.valid
  cases haddr : c.addr with rw [haddr] at hvalid
  | number n =>
    refine ⟨fillHeader (c.msg.length + 9) ++
      ([0] ++ fillUint32 n ++ fillUint32 c.key ++ c.msg), ?_, ?_, ?_⟩
    · refine packets_eq (n := 0) hlt ?_
      rw [haddr, packreqFirst, packreqNumber, if_pos h, take_length, key_of_small h]
    · refine sized_fillHeader (by omega) ?_
      simp only [length_append, length_fillUint32, length_singleton]
      omega
    · rw [drop_fillHeader, unpackrequest_number, hkey, hpush, Nat.mod_eq_of_lt hvalid]
  | name s =>
    refine ⟨fillHeader (c.msg.length + 6 + s.length) ++
      ([0x80, UInt8.ofNat s.length] ++ s ++ fillUint32 c.key ++ c.msg), ?_, ?_, ?_⟩
    · refine packets_eq (n := 0) hlt ?_
      have hname : ¬(s.length < 1 ∨ 255 < s.length) := by
        have := hvalid.1
        have := hvalid.2
        omega
      rw [haddr, packreqFirst, packreqString, if_neg hname, if_pos h, take_length,
        key_of_small h]
    · have := hvalid.2
      refine sized_fillHeader (by omega) ?_
      simp only [length_append, length_fillUint32, length_cons, length_nil]
      omega
    · rw [drop_fillHeader, unpackrequest_name hvalid.2, hkey, hpush]

theorem packets_large (h : multiPart ≤ c.msg.length) (hlt : c.msg.length < 2 ^ 32) :
    ∃ head, c.packets = head :: parts (packreqPart c.session) c.msg ∧ Sized head ∧
      unpackrequest (head.drop 2) =
        .ok (.request ⟨some c.addr, c.session, none, c.msg.length, true, c.isPush⟩) := by
  have hlarge : ¬c.msg.length < multiPart := not_lt.mpr h
  have hsession : c.session % 2 ^ 32 = c.session :=
    Nat.mod_eq_of_lt (lt_trans c.session_lt (by decide))
  have hsz : c.msg.length % 2 ^ 32 = c.msg.length := Nat.mod_eq_of_lt hlt
  have hvalid := c.valid
  cases haddr : c.addr with rw [haddr] at hvalid
  | number n =>
    refine ⟨fillHeader 13 ++ ([if c.isPush then 0x41 else 1] ++ fillUint32 n ++
      fillUint32 c.session ++ fillUint32 c.msg.length), ?_, ?_, ?_⟩
    · refine packets_eq (n := partCount c.msg.length) hlt ?_
      rw [haddr, packreqFirst, packreqNumber, if_neg hlarge]
    · exact sized_fillHeader (by decide) (by simp)
    · rw [drop_fillHeader, unpackrequest_large_number, hsession, hsz, Nat.mod_eq_of_lt hvalid]
  | name s =>
    refine ⟨fillHeader (10 + s.length) ++ ([if c.isPush then 0xc1 else 0x81,
      UInt8.ofNat s.length] ++ s ++ fillUint32 c.session ++ fillUint32 c.msg.length), ?_, ?_, ?_⟩
    · refine packets_eq (n := partCount c.msg.length) hlt ?_
      have hname : ¬(s.length < 1 ∨ 255 < s.length) := by
        have := hvalid.1
        have := hvalid.2
        omega
      rw [haddr, packreqFirst, packreqString, if_neg hname, if_neg hlarge]
    · have := hvalid.2
      refine sized_fillHeader (by omega) ?_
      simp only [length_append, length_fillUint32, length_cons, length_nil]
      omega
    · rw [drop_fillHeader, unpackrequest_large_name hvalid.2, hsession, hsz]

end Call

/-! ### What the agent has of a call -/

/-- For each session, what is pending and what the agent has of it; messages are shorter than
`n`. -/
inductive Holds (n k : ℕ) : Option (Call × List Bytes) → Option Large → Prop
  | none : Holds n k none none
  | some {c : Call} {s : List Bytes} {msg : Bytes} (hk : c.session = k)
      (hlarge : multiPart ≤ c.msg.length) (hlt : c.msg.length < n)
      (hmsg : s.flatten ++ msg = c.msg) :
      Holds n k (some (c, parts (packreqPart k) msg))
        (some ⟨some c.addr, c.isPush, .size c.msg.length :: s.map .data⟩)

theorem Holds.eq_none {n : ℕ} {l : Option Large} (h : Holds n k p l) (hp : p = Option.none) :
    l = Option.none := by
  cases h with
  | none => rfl
  | some => cases hp

theorem Holds.of_some {n : ℕ} {x : Call × List Bytes} {l : Option Large} (h : Holds n k p l)
    (hp : p = Option.some x) :
    x.1.session = k ∧ multiPart ≤ x.1.msg.length ∧ x.1.msg.length < n ∧
      ∃ (sent : List Bytes) (msg : Bytes), sent.flatten ++ msg = x.1.msg ∧
      x.2 = parts (packreqPart k) msg ∧
      l = Option.some ⟨x.1.addr, x.1.isPush, .size x.1.msg.length :: sent.map .data⟩ := by
  cases h with
  | none => cases hp
  | some hk hlarge hlt hmsg =>
    cases hp
    exact ⟨hk, hlarge, hlt, _, _, hmsg, rfl, rfl⟩

theorem dispatchRequest_last {largeRequest : ℕ → Option Large} {packet : Bytes} {u : Request}
    (hu : unpackrequest packet = .ok (.request u)) (hpadding : u.padding = false) {req : Large}
    (hreq : largeRequest u.session = some req) {r : Except Fault (Option Bytes)}
    (hconcat : concat (append req.parts u.msg u.sz) = r) :
    dispatchRequest largeRequest packet = r.map fun msg => (update largeRequest u.session none,
      some (msg.elim (.invalid u.session) (.request req.addr u.session · req.isPush))) := by
  simp only [dispatchRequest, hu, hpadding, hreq, hconcat]
  rcases r with _ | _ | _ <;> rfl

/-- The agent handles a packet: it goes on with the call if that is complete, and what it has of
the session fits what is pending. -/
def Handles (n k : ℕ) (largeRequest : ℕ → Option Large) (p : Sent ℕ Call Bytes) : Prop :=
  ∃ t, dispatchRequest largeRequest (p.packet.drop 2) = .ok (t, p.complete.map Call.outcome) ∧
    (∀ k', k' ≠ k → t k' = largeRequest k') ∧ Holds n k (p.pending k) (t k)

theorem unpackrequest_drop_part (hk : k < 2 ^ 31) (last : Bool) (msg : Bytes) :
    unpackrequest ((packreqPart k last msg.length msg).drop 2) =
      .ok (.request ⟨none, k, some msg, msg.length, !last, false⟩) := by
  rw [packreqPart, drop_fillHeader, unpackrequest_part, Nat.mod_eq_of_lt (by omega)]

theorem append_data (n : ℕ) (sent : List Bytes) (msg : Bytes) (sz : ℕ) :
    append (.size n :: sent.map .data) (some msg) sz =
      .size n :: (sent ++ [msg]).map .data := by
  simp [append]

section Steps

variable {n : ℕ} {pending : Pending ℕ Call Bytes} {largeRequest : ℕ → Option Large}
  {p : Sent ℕ Call Bytes}

theorem handles_first (hn : n ≤ 2 ^ 32)
    (hholds : ∀ k, Holds n k (pending k) (largeRequest k)) {c : Call} (hlt : c.msg.length < n)
    (h : Call.source.start pending c = some p) : Handles n c.key largeRequest p := by
  obtain ⟨hnone, hstep⟩ := Source.start_step h
  rw [Call.source_key, Call.source_packets] at hstep
  have hfree : largeRequest c.key = none := (hholds c.key).eq_none hnone
  by_cases hsmall : c.msg.length < multiPart
  · obtain ⟨head, hhead, -, hu⟩ := Call.packets_small hsmall
    rw [hhead] at hstep
    obtain ⟨rfl, hcomplete, hpending⟩ := hstep.last
    refine ⟨largeRequest, ?_, fun _ _ => rfl, ?_⟩
    · rw [hcomplete]
      simp [dispatchRequest, hu, hfree, Call.outcome]
    · rw [hpending, hfree]
      exact .none
  · have hlarge : multiPart ≤ c.msg.length := Nat.le_of_not_lt hsmall
    have hkey := Call.key_of_large hlarge
    obtain ⟨head, hhead, -, hu⟩ := Call.packets_large hlarge (lt_of_lt_of_le hlt hn)
    rw [hhead] at hstep
    obtain ⟨rfl, hcomplete, hpending⟩ := hstep.middle (parts_ne_nil _ _)
    rw [hkey] at hfree
    refine ⟨_, by simp [dispatchRequest, hu, hfree, hcomplete]; rfl, fun k' hk' => ?_, ?_⟩
    · rw [hkey] at hk'
      exact update_of_ne hk' _ _
    · rw [hpending, hkey, update_self]
      exact Holds.some (s := []) rfl hlarge hlt rfl

variable {k : ℕ} {c : Call} {sent : List Bytes} {msg : Bytes} (hsession : c.session = k)
  (hlarge : multiPart ≤ c.msg.length) (hmsg : sent.flatten ++ msg = c.msg)
  (hreq : largeRequest k = some ⟨some c.addr, c.isPush, .size c.msg.length :: sent.map .data⟩)
  (hstep : Step pending k c (parts (packreqPart k) msg) p)
include hsession hlarge hmsg hreq hstep

theorem handles_middle (hlt : c.msg.length < n) (hlong : multiPart < msg.length) :
    Handles n k largeRequest p := by
  rw [parts_of_lt hlong] at hstep
  obtain ⟨hpacket, hcomplete, hpending⟩ := hstep.middle (parts_ne_nil _ _)
  have hu := unpackrequest_drop_part (hsession ▸ c.session_lt) false (msg.take multiPart)
  rw [← hpacket] at hu
  refine ⟨_, by simp [dispatchRequest, hu, hreq, hcomplete]; rfl, fun k' hk' => ?_, ?_⟩
  · exact update_of_ne hk' _ _
  · rw [hpending, update_self]
    simp only [append_data]
    refine .some hsession hlarge hlt ?_
    rw [flatten_append, flatten_singleton, append_assoc, take_append_drop, hmsg]

/-- The last packet of a large request whose length is an `int`. -/
theorem handles_last (hlast : msg.length ≤ multiPart) (hint : c.msg.length < 2 ^ 31) :
    Handles n k largeRequest p := by
  rw [parts_of_le hlast] at hstep
  obtain ⟨hpacket, hcomplete, hpending⟩ := hstep.last
  have hu := unpackrequest_drop_part (hsession ▸ c.session_lt) true msg
  rw [← hpacket] at hu
  have hflatten : (sent ++ [msg]).flatten = c.msg := by
    rw [flatten_append, flatten_singleton, hmsg]
  have hconcat : concat (append (.size c.msg.length :: sent.map .data) (some msg) msg.length) =
      .ok (some c.msg) := by
    rw [append_data, ← hflatten]
    exact concat_parts (by rwa [hflatten])
  have hkey : c.key = k := (Call.key_of_large hlarge).trans hsession
  have houtcome : p.complete.map Call.outcome = some (.request (some c.addr) k c.msg c.isPush) := by
    rw [hcomplete, Option.map_some, Call.outcome, hkey]
  refine ⟨_, by rw [houtcome]; exact dispatchRequest_last hu rfl hreq hconcat, fun k' hk' => ?_, ?_⟩
  · exact update_of_ne hk' _ _
  · rw [hpending, update_self]
    exact .none

end Steps

/-! ### Runs -/

/-- What has been recovered is what was sent. -/
structure Good (n : ℕ) (s : Link) : Prop where
  holds : ∀ k, Holds n k (s.pending k) (s.largeRequest k)
  outcomes : s.outcomes = s.complete.map Call.outcome
  faults : s.faults = []

variable {c : Call}

theorem Link.receive_sent (s : Link) (p : Sent ℕ Call Bytes) : (s.receive p).pending = p.pending ∧
    (s.receive p).complete = s.complete ++ p.complete.toList := by
  rw [Link.receive]
  split <;> exact ⟨rfl, rfl⟩

theorem Link.receive_of_handles {n : ℕ} {p : Sent ℕ Call Bytes} {l : List Bytes} (hs : Good n s)
    (hstep : Step s.pending k c l p) (h : Handles n k s.largeRequest p) : Good n (s.receive p) := by
  obtain ⟨t, hdispatch, hother, hk⟩ := h
  have hreceive : s.receive p = ⟨p.pending, t, s.complete ++ p.complete.toList,
      s.outcomes ++ (p.complete.map Call.outcome).toList, s.faults⟩ := by
    simp only [Link.receive, hdispatch]
  rw [hreceive]
  refine ⟨?_, ?_, hs.faults⟩
  · exact hstep.forall_key hs.holds hother hk
  · rw [hs.outcomes, map_append]
    cases p.complete <;> rfl

theorem good_init (n : ℕ) : Good n Link.init := ⟨fun _ => .none, rfl, rfl⟩

/-- The message of a new call is shorter than `2^31` bytes. -/
def Label.Short : Label → Prop
  | .first c => c.msg.length < 2 ^ 31
  | .part _ => True

theorem Good.step {t : Link} {a : Label} (hs : Good (2 ^ 31) s) (ha : a.Short)
    (h : s.step a = some t) : Good (2 ^ 31) t := by
  cases a with obtain ⟨p, hp, rfl⟩ := Option.map_eq_some_iff.mp h
  | first c =>
    have hstep := (Source.start_step hp).2
    exact Link.receive_of_handles hs hstep (handles_first (by decide) hs.holds ha hp)
  | part k =>
    obtain ⟨c, l, hk, hstep⟩ := Pending.next_step hp
    obtain ⟨hsession, hlarge, hlt, sent, msg, hmsg, rfl, hreq⟩ := (hs.holds k).of_some hk
    refine Link.receive_of_handles hs hstep ?_
    by_cases hlast : msg.length ≤ multiPart
    · exact handles_last hsession hlarge hmsg hreq hstep hlast hlt
    · exact handles_middle hsession hlarge hmsg hreq hstep hlt (Nat.lt_of_not_le hlast)

theorem sized_packets (hlt : c.msg.length < 2 ^ 31) : ∀ p ∈ c.packets, Sized p := by
  by_cases hsmall : c.msg.length < multiPart
  · obtain ⟨head, hhead, hsized, -⟩ := Call.packets_small hsmall
    rw [hhead]
    intro p hp
    rw [mem_singleton.mp hp]
    exact hsized
  · obtain ⟨head, hhead, hsized, -⟩ :=
      Call.packets_large (Nat.le_of_not_lt hsmall) (Nat.lt_trans hlt (by decide))
    rw [hhead]
    intro p hp
    rcases mem_cons.mp hp with rfl | hp
    · exact hsized
    · exact sized_parts _ _ p hp

theorem Call.packets_ne_nil (hlt : c.msg.length < 2 ^ 32) : c.packets ≠ [] := by
  by_cases hsmall : c.msg.length < multiPart
  · obtain ⟨head, hhead, -⟩ := Call.packets_small hsmall
    rw [hhead]
    exact cons_ne_nil _ _
  · obtain ⟨head, hhead, -⟩ := Call.packets_large (Nat.le_of_not_lt hsmall) hlt
    rw [hhead]
    exact cons_ne_nil _ _

theorem Call.outcome_eq_asked_iff :
    c.outcome = c.asked ↔ ¬ (c.isPush = true ∧ c.msg.length < multiPart) := by
  have hpos := c.session_pos
  simp only [Call.outcome, Call.asked, Call.key, Outcome.request.injEq, true_and, and_true]
  split_ifs with h
  · simp only [h, and_self, not_true_eq_false, iff_false]
    omega
  · simp [h]

/-- The packets of a call that is pending arrive, up to the last one. -/
theorem exists_last {n : ℕ} {P : Link → Label → Prop} (hP : ∀ s, P s (.part k))
    (hreach : link.ReachableVia P s) (hs : Good n s) {l : List Bytes}
    (hk : s.pending k = some (c, l)) : ∃ t msg, link.ReachableVia P t ∧ Good n t ∧
      t.complete = s.complete ∧ t.pending k = some (c, parts (packreqPart k) msg) ∧
      msg.length ≤ multiPart := by
  -- on the packets to come
  induction hlen : l.length generalizing s l with
  | zero =>
    obtain ⟨-, -, -, -, msg, -, hl, -⟩ := (hs.holds k).of_some hk
    rw [eq_nil_of_length_eq_zero hlen] at hl
    exact absurd hl.symm (parts_ne_nil _ msg)
  | succ m ih =>
    obtain ⟨hsession, hlarge, hlt, sent, msg, hmsg, rfl, hreq⟩ := (hs.holds k).of_some hk
    by_cases hlast : msg.length ≤ multiPart
    · exact ⟨s, msg, hreach, hs, rfl, hk, hlast⟩
    · obtain ⟨p, hp, hstep⟩ := Pending.exists_next hk (parts_ne_nil _ msg)
      have hnext := hreach.next (.part k) (hP s) (congrArg (Option.map s.receive) hp)
      have hmiddle := Nat.lt_of_not_le hlast
      obtain ⟨hpending, hc⟩ := s.receive_sent p
      have hgood := Link.receive_of_handles hs hstep
        (handles_middle hsession hlarge hmsg hreq hstep hlt hmiddle)
      rw [parts_of_lt hmiddle] at hstep hlen
      obtain ⟨-, hnone, hrest⟩ := hstep.middle (parts_ne_nil _ _)
      rw [hnone, Option.toList_none, append_nil] at hc
      rw [← hc]
      exact ih hnext hgood (by rw [hpending, hrest]) (Nat.succ.inj hlen)

/-- A large call is started. -/
theorem exists_first {n : ℕ} {P : Link → Label → Prop} (hP : ∀ s, P s (.first c)) (hn : n ≤ 2 ^ 32)
    (hlarge : multiPart ≤ c.msg.length) (hlt : c.msg.length < n) (hreach : link.ReachableVia P s)
    (hs : Good n s) (hfree : s.pending c.key = none) : ∃ t l, link.ReachableVia P t ∧ Good n t ∧
      t.complete = s.complete ∧ t.pending c.session = some (c, l) := by
  have hlt' := lt_of_lt_of_le hlt hn
  obtain ⟨p, hp, hstep⟩ :=
    Source.exists_start (S := Call.source) hfree (Call.packets_ne_nil hlt')
  have hnext := hreach.next (.first c) (hP s) (congrArg (Option.map s.receive) hp)
  obtain ⟨hpending, hc⟩ := s.receive_sent p
  have hgood := Link.receive_of_handles hs hstep (handles_first hn hs.holds hlt hp)
  obtain ⟨head, hhead, -⟩ := Call.packets_large hlarge hlt'
  rw [Call.source_key, Call.source_packets, hhead, Call.key_of_large hlarge] at hstep
  obtain ⟨-, hnone, hrest⟩ := hstep.middle (parts_ne_nil _ _)
  rw [hnone, Option.toList_none, append_nil] at hc
  exact ⟨_, _, hnext, hgood, hc, by rw [hpending, hrest]⟩

theorem good_of_short (h : link.ReachableVia (fun _ a => a.Short) s) : Good (2 ^ 31) s :=
  h.invariant (good_init _) fun _ _ _ hs ha hstep => hs.step ha hstep

/-- **Requests are recovered**: however the packets of requests and pushes of less than `2^31`
bytes are mixed, the agent goes on with those that are complete, in order.  Address, session, flag
and message are what the caller asked for exactly when no push fits in one packet: such a push has
the session `0`.  The packets have the right sizes in front. -/
theorem requests_recovered {s : Link} (h : link.ReachableVia (fun _ a => a.Short) s) :
    s.faults = [] ∧ s.outcomes = s.complete.map Call.outcome ∧
      (s.outcomes = s.complete.map Call.asked ↔
        ∀ c ∈ s.complete, ¬ (c.isPush = true ∧ c.msg.length < multiPart)) ∧
      ∀ c : Call, c.msg.length < 2 ^ 31 → c.packets ≠ [] ∧ ∀ p ∈ c.packets, Sized p := by
  have hgood := good_of_short h
  refine ⟨hgood.faults, hgood.outcomes, ?_, fun c hlt =>
    ⟨Call.packets_ne_nil (lt_trans hlt (by decide)), sized_packets hlt⟩⟩
  rw [hgood.outcomes, map_inj_left]
  exact forall₂_congr fun c _ => Call.outcome_eq_asked_iff

def hello : Call :=
  ⟨.name (ofString "@db"), by decide, 7, by decide, by decide, ofString "hello", false⟩

/-- A push in three packets. -/
def bulk : Call :=
  ⟨.number 9, by decide, 8, by decide, by decide, replicate (multiPart + 1) 0, true⟩

/-- A request in one packet and a push in three. -/
theorem requests_recovered_of_bulk : ∃ s, link.ReachableVia (fun _ a => a.Short) s ∧
    s.complete = [hello, bulk] ∧ s.faults = [] ∧ s.outcomes = [hello.asked, bulk.asked] := by
  have hlen : bulk.msg.length = multiPart + 1 := length_replicate
  have hshort : bulk.msg.length < 2 ^ 31 := by
    rw [hlen]
    decide
  have hlarge : multiPart ≤ bulk.msg.length := hlen ▸ Nat.le_succ _
  -- the request arrives
  have hsmall : hello.msg.length < multiPart := by decide
  obtain ⟨p, hp, hstep⟩ := Source.exists_start (S := Call.source) (p := Link.init.pending)
    rfl (Call.packets_ne_nil (hsmall.trans (by decide)))
  have hs : link.ReachableVia (fun _ a => a.Short) (Link.init.receive p) :=
    System.ReachableVia.init.next (.first hello) (hsmall.trans (by decide))
      (congrArg (Option.map _) hp)
  obtain ⟨head, hhead, -⟩ := Call.packets_small hsmall
  have hfree := hstep.others bulk.key (by rw [Call.key_of_large hlarge]; decide)
  rw [Call.source_packets, hhead] at hstep
  obtain ⟨hpending, hcomplete⟩ := Link.init.receive_sent p
  rw [hstep.last.2.1] at hcomplete
  -- and then the packets of the push
  obtain ⟨t, l, ht, hgood, htc, hk⟩ := exists_first (fun _ => hshort) (by decide) hlarge hshort hs
    (good_of_short hs) (by rw [hpending, hfree]; rfl)
  obtain ⟨u, msg, hu, -, huc, hk, hlast⟩ := exists_last (fun _ => trivial) ht hgood hk
  obtain ⟨p, hp, hstep⟩ := Pending.exists_next hk (parts_ne_nil _ msg)
  have hnext := hu.next (.part 8) trivial (congrArg (Option.map u.receive) hp)
  rw [parts_of_le hlast] at hstep
  have hall : (u.receive p).complete = [hello, bulk] := by
    rw [(u.receive_sent p).2, huc, htc, hcomplete, hstep.last.2.1]
    rfl
  obtain ⟨hfaults, -, hasked, -⟩ := requests_recovered hnext
  refine ⟨_, hnext, hall, hfaults, ?_⟩
  rw [hall] at hasked
  refine hasked.mpr ?_
  simp [hello, hlarge]

/-! ### A message that is too long -/

/-- The last packet of a message whose length is no `int`. -/
theorem receive_too_long (hs : Good (2 ^ 32) s) {sent : List Bytes} {msg : Bytes}
    {p : Sent ℕ Call Bytes} (hsession : c.session = k) (hlong : 2 ^ 31 ≤ c.msg.length)
    (hlt : c.msg.length < 2 ^ 32)
    (hreq : s.largeRequest k = some ⟨some c.addr, c.isPush, .size c.msg.length :: sent.map .data⟩)
    (hlast : msg.length ≤ multiPart) (hstep : Step s.pending k c (parts (packreqPart k) msg) p) :
    (s.receive p).complete = s.complete ++ [c] ∧ (s.receive p).outcomes = s.outcomes ∧
      (s.receive p).faults = [.negativeSize] := by
  rw [parts_of_le hlast] at hstep
  obtain ⟨hpacket, hcomplete, -⟩ := hstep.last
  have hu := unpackrequest_drop_part (hsession ▸ c.session_lt) true msg
  rw [← hpacket] at hu
  have hconcat : concat (append (.size c.msg.length :: sent.map .data) (some msg) msg.length) =
      .error .negativeSize := by
    rw [append_data]
    exact concat_negative hlong hlt _
  have hdispatch := dispatchRequest_last hu rfl hreq hconcat
  refine ⟨?_, ?_, ?_⟩ <;> simp [Link.receive, hdispatch, hcomplete, hs.faults, Except.map]

/-- A request with a message of `2^31` bytes. -/
def longCall : Call :=
  ⟨.number 1, by decide, 1, by decide, by decide, replicate (2 ^ 31) 0, false⟩

/-- All packets of the request arrive, and the agent fails to put it together. -/
theorem large_request_lost : ∃ s, link.Reachable s ∧ s.complete = [longCall] ∧ s.outcomes = [] ∧
      s.faults = [.negativeSize] := by
  have hlen : longCall.msg.length = 2 ^ 31 := length_replicate
  have hlarge : multiPart ≤ longCall.msg.length := by
    rw [hlen]
    decide
  have hlt : longCall.msg.length < 2 ^ 32 := by
    rw [hlen]
    decide
  obtain ⟨s, l, hs, hgood, hsc, hk⟩ := exists_first (P := fun _ _ => True) (fun _ => trivial) le_rfl
    hlarge hlt .init (good_init _) rfl
  obtain ⟨t, msg, ht, hgood, htc, hk, hlast⟩ := exists_last (fun _ => trivial) hs hgood hk
  obtain ⟨p, hp, hstep⟩ := Pending.exists_next hk (parts_ne_nil _ msg)
  obtain ⟨-, -, -, sent, msg', -, hmsg, hreq⟩ := (hgood.holds _).of_some hk
  obtain ⟨hc, ho, hf⟩ := receive_too_long hgood rfl hlen.ge hlt hreq hlast hstep
  have hnil : t.complete = [] := htc.trans hsc
  refine ⟨_, ht.next (.part _) trivial (congrArg (Option.map t.receive) hp), ?_, ?_, hf⟩
  · rw [hc, hnil]
    rfl
  · rw [ho, hgood.outcomes, hnil]
    rfl

end Skynet.ClusterAgent
