import Skynet.ByteReader
import Skynet.ClusterPack
import Skynet.Multiplex
import Skynet.SocketChannel

/-! # Responses of a cluster node

`cluster_sender` waits for responses in a socket channel in session mode.  The packets of the
responses come from `l_packresponse` at the other end, those of large responses mixed with others.
`read_response` reads one packet, and `dispatch_by_session` collects the parts of a response in
`__result_data` and wakes the coroutine that waits for the session.

Responses of less than `2^31` bytes are delivered (`responses_delivered`).  `concat` takes the
length of a large response as an `int`: a longer one is lost (`large_response_lost`).

A step is a new request, the arrival of a packet or the resumption of a coroutine that was woken.
The stream is left to `readResponse`; connecting and closing are left out, and so are sessions and
coroutines that are used again while they are in use. -/

namespace Skynet.ClusterChannel

open Function LuaText ByteOrder ByteReader ClusterPack MachineInt Multiplex Transition SocketChannel Option
open List hiding concat append

/-! ### The channel -/

/-- The tables of a channel in session mode. -/
structure Channel where
  /-- `__thread` -/
  thread : ℕ → Option ℕ
  /-- `__result` -/
  result : ℕ → Option Bool
  /-- `__result_data` -/
  resultData : ℕ → Option (Data Part)

/-- `read_response`; the response is `none` when `l_unpackresponse` returns nothing. -/
def readResponse (pieces : List Bytes) : Option (Option Response × List Bytes) :=
  (readExact 2 pieces).bind fun (header, pieces) =>
    (readExact (ofBE header) pieces).map fun (msg, pieces) => (unpackresponse msg, pieces)

/-- `table.insert`, which fails for a string. -/
def insert (t : Option (Data Part)) (d : Part) : Option (Data Part) :=
  match t with
  | none => some (.table [d])
  | some (.table ds) => some (.table (ds ++ [d]))
  | some (.one _) => none

/-- A round of `dispatch_by_session` with the coroutine that it wakes; `none` when it raises an
error. -/
def dispatchBySession (c : Channel) (r : Response) : Option (Channel × Option ℕ) :=
  match c.thread r.session with
  | none => some ({ c with thread := update c.thread r.session none }, none)
  | some t =>
    if r.padding ∧ r.ok then
      (insert (c.resultData t) r.data).map fun d =>
        ({ c with resultData := update c.resultData t (some d) }, none)
    else
      let data : Option (Data Part) :=
        if r.ok ∧ c.resultData t ≠ none then insert (c.resultData t) r.data
        else some (.one r.data)
      data.map fun d =>
        (⟨update c.thread r.session none, update c.result t (some r.ok),
          update c.resultData t (some d)⟩, some t)

/-- How a request of a cluster sender ends. -/
inductive Outcome where
  | payload (msg : Bytes)
  | error (msg : Bytes)
  /-- `skynet.ret` without a message -/
  | nothing
deriving DecidableEq, Repr

/-- `skynet.ret(cluster.concat(msg))` -/
def returned : Except Fault (Option Bytes) → Except Fault Outcome
  | .error e => .error e
  | .ok none => .ok .nothing
  | .ok (some msg) => .ok (.payload msg)

/-- The end of `wait_for_response` and of `CMD.req`. -/
def finish (result : Option Bool) (data : Option (Data Part)) : Except Fault Outcome :=
  match result, data with
  | some true, some (.table ds) => returned (concat ds)
  | some true, some (.one (.data s)) => .ok (.payload s)
  | some false, some (.one (.data s)) => .ok (.error s)
  | _, _ => .ok .nothing

/-! ### The other end -/

/-- A call of `l_packresponse`. -/
structure Answer where
  session : ℕ
  session_lt : session < 2 ^ 32
  ok : Bool
  msg : Bytes

namespace Answer

def packets (a : Answer) : List Bytes := packresponse a.session a.ok a.msg

def outcome (a : Answer) : Outcome :=
  if a.ok then .payload a.msg else .error (a.msg.take multiPart)

def source : Source ℕ Answer Bytes := ⟨session, packets⟩

end Answer

inductive Status where
  | idle
  /-- in `wait_for_response` for a session -/
  | waiting (session : ℕ)
  | woken (session : ℕ)
deriving DecidableEq, Repr

def Status.wakeup : Status → Status
  | .waiting k => .woken k
  | st => st

/-- The end of a request; `answer` is the response that the coroutine is to get. -/
structure Return where
  thread : ℕ
  session : ℕ
  answer : Option Answer
  outcome : Except Fault Outcome

structure Link where
  pending : Pending ℕ Answer Bytes
  channel : Channel
  status : ℕ → Status
  -- the history
  /-- the response that a coroutine is to get -/
  due : ℕ → Option Answer
  returns : List Return
  /-- packets that end the dispatch coroutine -/
  bad : List Bytes

inductive Label where
  /-- a coroutine makes a request -/
  | request (session t : ℕ)
  /-- the first packet of a response -/
  | first (a : Answer)
  /-- another packet of the response for this session -/
  | part (session : ℕ)
  /-- a coroutine that was woken goes on -/
  | resume (t : ℕ)

namespace Link

/-- The coroutine that waits for a response that is complete. -/
def awaits (s : Link) (complete : Option Answer) (t : ℕ) : Option Answer :=
  complete.filter fun a => s.channel.thread a.session = some t

def receive (s : Link) (p : Sent ℕ Answer Bytes) : Link :=
  let u := { s with pending := p.pending, due := fun t => (s.awaits p.complete t).or (s.due t) }
  match (readResponse [p.packet]).bind fun r => r.1.bind (dispatchBySession s.channel) with
  | none => { u with bad := s.bad ++ [p.packet] }
  | some (channel, none) => { u with channel := channel }
  | some (channel, some t) =>
    { u with channel := channel, status := update s.status t (s.status t).wakeup }

def step (s : Link) : Label → Option Link
  | .request k t =>
    if s.status t = .idle ∧ s.channel.thread k = none ∧ (s.pending k).isNone then
      some { s with
        channel := { s.channel with thread := update s.channel.thread k (some t) }
        status := update s.status t (.waiting k) }
    else none
  | .first a => (Answer.source.start s.pending a).map s.receive
  | .part k => (s.pending.next k).map s.receive
  | .resume t =>
    match s.status t with
    | .woken k =>
      some { s with
        channel := { s.channel with
          result := update s.channel.result t none
          resultData := update s.channel.resultData t none }
        status := update s.status t .idle
        due := update s.due t none
        returns := s.returns ++
          [⟨t, k, s.due t, finish (s.channel.result t) (s.channel.resultData t)⟩] }
    | _ => none

def init : Link where
  pending _ := none
  channel := ⟨fun _ => none, fun _ => none, fun _ => none⟩
  status _ := .idle
  due _ := none
  returns := []
  bad := []

end Link

def link : System Link Label := ⟨Link.init, Link.step⟩

/-! ### Packets -/

variable {session k : ℕ} {x : Option (Option (Data Part))}

theorem unpackresponse_single (hs : session < 2 ^ 32) (ok : Bool) (msg : Bytes) :
    unpackresponse (fillUint32 session ++ [if ok then 1 else 0] ++ msg) =
      some ⟨session, ok, .data msg, false⟩ := by
  have hlen : ¬4 + (msg.length + 1) < 5 := by omega
  have hs' : session < 4294967296 := hs
  cases ok <;> simp [unpackresponse, hlen, hs']

theorem unpackresponse_begin {sz : ℕ} (hs : session < 2 ^ 32) (hsz : sz < 2 ^ 32) :
    unpackresponse (fillUint32 session ++ [2] ++ fillUint32 sz) =
      some ⟨session, true, .size sz, true⟩ := by
  have hs' : session < 4294967296 := hs
  have hsz' : unpackUint32 (fillUint32 sz) = sz := by
    have h := unpackUint32_fillUint32 sz []
    rwa [append_nil, Nat.mod_eq_of_lt hsz] at h
  simp [unpackresponse, hs', hsz']

theorem unpackresponse_part (hs : session < 2 ^ 32) (last : Bool) (msg : Bytes) :
    unpackresponse (fillUint32 session ++ [if last then 4 else 3] ++ msg) =
      some ⟨session, true, .data msg, !last⟩ := by
  have hlen : ¬4 + (msg.length + 1) < 5 := by omega
  have hs' : session < 4294967296 := hs
  cases last <;> simp [unpackresponse, hlen, hs']

theorem readResponse_sized {packet rest : Bytes} (h : Sized packet) {pieces : List Bytes}
    (hflat : pieces.flatten = packet ++ rest) :
    ∃ ps, readResponse pieces = some (unpackresponse (packet.drop 2), ps) ∧
      ps.flatten = rest := by
  obtain ⟨hlen, hsize⟩ := h
  have hsplit : pieces.flatten = packet.take 2 ++ (packet.drop 2 ++ rest) := by
    rw [hflat, ← append_assoc, take_append_drop]
  obtain ⟨ps₁, hread₁, hrest₁⟩ := readExact_of_flatten hsplit (length_take_of_le hlen)
  obtain ⟨ps, hread, hrest⟩ := readExact_of_flatten hrest₁
    ((length_drop ..).trans hsize.symm)
  exact ⟨ps, by simp [readResponse, hread₁, hread], hrest⟩

theorem unpackresponse_drop_part (hs : session < 2 ^ 32) (last : Bool) (msg : Bytes) :
    unpackresponse ((packresponsePart session last msg.length msg).drop 2) =
      some ⟨session, true, .data msg, !last⟩ := by
  rw [packresponsePart, drop_fillHeader, unpackresponse_part hs]

theorem sized_part (session : ℕ) (last : Bool) (m : Bytes) (hm : m.length ≤ multiPart) :
    Sized (packresponsePart session last m.length m) := by
  have hm' : m.length ≤ 0x8000 := hm
  refine sized_fillHeader (by omega) ?_
  simp only [length_append, length_fillUint32, length_singleton]
  omega

namespace Answer

/-- The response has more than one packet. -/
def Large (a : Answer) : Prop := a.ok = true ∧ multiPart < a.msg.length

theorem packets_small {a : Answer} (h : ¬a.Large) :
    ∃ p, a.packets = [p] ∧ Sized p ∧ unpackresponse (p.drop 2) =
      some ⟨a.session, a.ok, .data (a.msg.take multiPart), false⟩ := by
  have hmin : (if multiPart < a.msg.length then multiPart else a.msg.length) =
      min multiPart a.msg.length := by
    rw [Nat.min_def]
    split_ifs <;> omega
  have hle : min multiPart a.msg.length ≤ 0x8000 := min_le_left _ _
  refine ⟨_, by rw [packets, packresponse]; exact if_neg h, ?_, ?_⟩
  · rw [hmin]
    refine sized_fillHeader (by omega) ?_
    simp only [length_append, length_fillUint32, length_singleton, length_take]
    omega
  · rw [hmin, drop_fillHeader, unpackresponse_single a.session_lt, take_eq_take_min,
      Nat.min_assoc, min_self, ← take_eq_take_min]

theorem packets_large {a : Answer} (h : a.Large) (hlt : a.msg.length < 2 ^ 32) :
    ∃ p, a.packets = p :: parts (packresponsePart a.session) a.msg ∧ Sized p ∧
      unpackresponse (p.drop 2) = some ⟨a.session, true, .size a.msg.length, true⟩ := by
  have hcount : toInt (partCount a.msg.length) = partCount a.msg.length := by
    refine toInt_of_lt ?_
    unfold partCount multiPart
    omega
  refine ⟨fillHeader 9 ++ (fillUint32 a.session ++ [2] ++ fillUint32 a.msg.length), ?_, ?_, ?_⟩
  · rw [packets, packresponse]
    refine (if_pos h).trans ?_
    simp only [hcount, Int.toNat_natCast]
    rfl
  · exact sized_fillHeader (by decide) (by simp)
  · rw [drop_fillHeader, unpackresponse_begin a.session_lt hlt]

end Answer

/-! ### What a packet does -/

variable {s : Link} {p : Sent ℕ Answer Bytes} {n : ℕ} {a : Answer}

theorem receive_eq {r : Response} (hsized : Sized p.packet)
    (hu : unpackresponse (p.packet.drop 2) = some r) {channel : Channel} {w : Option ℕ}
    (hdispatch : dispatchBySession s.channel r = some (channel, w)) : s.receive p =
      { s with
        pending := p.pending
        due := fun t => (s.awaits p.complete t).or (s.due t)
        channel := channel
        status := fun t => if w = some t then (s.status t).wakeup else s.status t } := by
  have hflat : [p.packet].flatten = p.packet ++ [] := by simp
  obtain ⟨ps, hread, -⟩ := readResponse_sized hsized hflat
  have hbind : ((readResponse [p.packet]).bind fun r => r.1.bind (dispatchBySession s.channel)) =
      some (channel, w) := by
    rw [hread, hu]
    exact hdispatch
  rw [Link.receive, hbind]
  cases w with
  | none => simp
  | some t =>
    have hstatus : update s.status t (s.status t).wakeup =
        fun t' => if some t = some t' then (s.status t').wakeup else s.status t' := by
      funext t'
      by_cases ht : t' = t
      · rw [ht, update_self, if_pos rfl]
      · rw [update_of_ne ht, if_neg fun h => ht (some.inj h).symm]
    simp only [hstatus]

theorem receive_pending (s : Link) (p : Sent ℕ Answer Bytes) :
    (s.receive p).pending = p.pending := by
  unfold Link.receive
  split <;> rfl

theorem receive_due (s : Link) (p : Sent ℕ Answer Bytes) (t : ℕ) :
    (s.receive p).due t = (s.awaits p.complete t).or (s.due t) := by
  unfold Link.receive
  split <;> rfl

section Dispatch

variable {c : Channel} {r : Response}

theorem dispatch_absent (h : c.thread r.session = none) :
    dispatchBySession c r = some (c, none) := by
  have hthread : update c.thread r.session none = c.thread := by
    rw [← h]
    exact update_eq_self _ _
  simp [dispatchBySession, h, hthread]

theorem dispatch_padding {t : ℕ} (h : c.thread r.session = some t) (hok : r.ok = true)
    (hpadding : r.padding = true) {d : Data Part} (hd : insert (c.resultData t) r.data = some d) :
    dispatchBySession c r =
      some ({ c with resultData := update c.resultData t (some d) }, none) := by
  simp [dispatchBySession, h, hok, hpadding, hd]

theorem dispatch_last {t : ℕ} (h : c.thread r.session = some t) (hpadding : r.padding = false)
    {d : Data Part}
    (hd : (if r.ok ∧ c.resultData t ≠ none then insert (c.resultData t) r.data
      else some (.one r.data)) = some d) : dispatchBySession c r =
      some (⟨update c.thread r.session none, update c.result t (some r.ok),
        update c.resultData t (some d)⟩, some t) := by
  simp only [dispatchBySession, h, hpadding, hd]
  simp

end Dispatch

/-! ### What the channel has of a response -/

/-- The data collected for a session, if somebody waits for it. -/
def Channel.slot (c : Channel) (k : ℕ) : Option (Option (Data Part)) :=
  (c.thread k).map c.resultData

/-- For each session, what is pending and what has been collected; messages are shorter than
`n`. -/
inductive Holds (n k : ℕ) : Option (Answer × List Bytes) → Option (Option (Data Part)) → Prop
  | none {x : Option (Option (Data Part))} (hx : ∀ d, x = some d → d = none) : Holds n k none x
  | some {a : Answer} {s : List Bytes} {msg : Bytes} {x : Option (Option (Data Part))}
      (hk : a.session = k) (hlarge : a.Large) (hlt : a.msg.length < n)
      (hmsg : s.flatten ++ msg = a.msg)
      (hx : ∀ d, x = some d → d = some (.table (.size a.msg.length :: s.map .data))) :
      Holds n k (some (a, parts (packresponsePart k) msg)) x

structure Good (n : ℕ) (s : Link) : Prop where
  waits : ∀ t k, s.channel.thread k = some t ↔ s.status t = .waiting k
  holds : ∀ k, Holds n k (s.pending k) (s.channel.slot k)
  idle : ∀ t, s.status t = .idle → s.channel.resultData t = none
  woken : ∀ t k, s.status t = .woken k ↔ ∃ a, s.due t = some a ∧ a.session = k
  outcome : ∀ t a, s.due t = some a →
    finish (s.channel.result t) (s.channel.resultData t) = .ok a.outcome
  returns : ∀ x ∈ s.returns, ∃ a, x.answer = some a ∧ a.session = x.session ∧
    x.outcome = .ok a.outcome
  bad : s.bad = []

section Receive

variable {n k : ℕ} {s : Link} {p : Sent ℕ Answer Bytes} {a : Answer} {l : List Bytes}
  {r : Response}

theorem awaits_none (t : ℕ) : s.awaits none t = none := rfl

theorem Good.thread_ne (hs : Good n s) {k' t t' : ℕ} (h : s.channel.thread k = some t)
    (h' : s.channel.thread k' = some t') (hk : k' ≠ k) : t' ≠ t := by
  rintro rfl
  have hstatus := (hs.waits t' k).mp h
  rw [(hs.waits t' k').mp h'] at hstatus
  exact hk (Status.waiting.inj hstatus)

theorem slot_update (hs : Good n s) {t : ℕ} (h : s.channel.thread k = some t) {k' : ℕ} (hk : k' ≠ k)
    (d : Option (Data Part)) : (s.channel.thread k').map (update s.channel.resultData t d) =
      s.channel.slot k' := by
  rw [Channel.slot]
  cases h' : s.channel.thread k' with
  | none => rfl
  | some t' =>
    rw [map_some, map_some, update_of_ne (hs.thread_ne h h' hk)]

theorem good_absent (hs : Good n s) (hstep : Step s.pending k a l p)
    (hthread : s.channel.thread k = none) (hcomplete : ∀ a, p.complete = some a → a.session = k)
    (hsized : Sized p.packet) (hu : unpackresponse (p.packet.drop 2) = some r) (hr : r.session = k)
    (hnone : Holds n k (p.pending k) none) :
    Good n (s.receive p) ∧ (s.receive p).channel.thread = s.channel.thread := by
  have hdispatch := dispatch_absent (by rw [hr, hthread])
  rw [receive_eq hsized hu hdispatch]
  have hslot : s.channel.slot k = none := by rw [Channel.slot, hthread]; rfl
  have hawaits (t : ℕ) : s.awaits p.complete t = none := by
    cases hp : p.complete with
    | none => rfl
    | some a => simp [Link.awaits, hcomplete a hp, hthread]
  refine ⟨⟨hs.waits, ?_, hs.idle, ?_, ?_, hs.returns, hs.bad⟩, rfl⟩
  · exact hstep.forall_key hs.holds (fun _ _ => rfl) (by rw [hslot]; exact hnone)
  · simpa [hawaits] using hs.woken
  · simpa [hawaits] using hs.outcome

theorem good_collect (hs : Good n s) (hstep : Step s.pending k a l p)
    (hcomplete : p.complete = none) (hsized : Sized p.packet)
    (hu : unpackresponse (p.packet.drop 2) = some r) (hr : r.session = k) (hok : r.ok = true)
    (hpadding : r.padding = true) (hnone : Holds n k (p.pending k) none)
    (hsome : ∀ d, s.channel.slot k = some d →
      ∃ d', insert d r.data = some d' ∧ Holds n k (p.pending k) (some (some d'))) :
    Good n (s.receive p) ∧ (s.receive p).channel.thread = s.channel.thread := by
  cases hthread : s.channel.thread k with
  | none => exact good_absent hs hstep hthread (by rw [hcomplete]; nofun) hsized hu hr hnone
  | some t =>
    have hslot : s.channel.slot k = some (s.channel.resultData t) := by
      rw [Channel.slot, hthread]
      rfl
    obtain ⟨d', hinsert, hholds⟩ := hsome _ hslot
    have hdispatch := dispatch_padding (by rw [hr, hthread]) hok hpadding hinsert
    rw [receive_eq hsized hu hdispatch]
    have hwaiting := (hs.waits t k).mp hthread
    refine ⟨⟨hs.waits, ?_, ?_, ?_, ?_, hs.returns, hs.bad⟩, rfl⟩
    · refine hstep.forall_key hs.holds (fun k' hk' => ?_) ?_
      · exact slot_update hs hthread hk' _
      · simp only [Channel.slot, hthread, map_some, update_self]
        exact hholds
    · intro t' ht'
      simp only [reduceCtorEq, if_false] at ht'
      have hne : t' ≠ t := by
        rintro rfl
        rw [hwaiting] at ht'
        cases ht'
      exact (update_of_ne hne _ _).trans (hs.idle t' ht')
    · simpa [hcomplete, awaits_none] using hs.woken
    · intro t' a' hdue
      simp only [hcomplete, awaits_none, none_or] at hdue
      have hne : t' ≠ t := by
        rintro rfl
        have hwoken := (hs.woken t' a'.session).mpr ⟨a', hdue, rfl⟩
        rw [hwaiting] at hwoken
        cases hwoken
      have houtcome := hs.outcome t' a' hdue
      simp only [update_of_ne hne]
      exact houtcome

theorem good_wake (hs : Good n s) (hstep : Step s.pending k a l p) (hsession : a.session = k)
    (hcomplete : p.complete = some a) (hpending : p.pending k = none) (hsized : Sized p.packet)
    (hu : unpackresponse (p.packet.drop 2) = some r) (hr : r.session = k)
    (hpadding : r.padding = false)
    (hsome : ∀ d, s.channel.slot k = some d →
      ∃ d', (if r.ok ∧ d ≠ none then insert d r.data else some (.one r.data)) = some d' ∧
        finish (some r.ok) (some d') = .ok a.outcome) : Good n (s.receive p) := by
  cases hthread : s.channel.thread k with
  | none =>
    refine (good_absent hs hstep hthread (fun b hb => ?_) hsized hu hr ?_).1
    · rw [← some.inj (hcomplete.symm.trans hb), hsession]
    · rw [hpending]
      exact .none nofun
  | some t =>
    have hslot : s.channel.slot k = some (s.channel.resultData t) := by
      rw [Channel.slot, hthread]
      rfl
    obtain ⟨d', hdata, hfinish⟩ := hsome _ hslot
    have hdispatch := dispatch_last (by rw [hr, hthread]) hpadding hdata
    rw [receive_eq hsized hu hdispatch, hr]
    have hwaiting := (hs.waits t k).mp hthread
    have hawaits (t' : ℕ) : s.awaits p.complete t' = if t' = t then some a else none := by
      by_cases ht : t' = t
      · simp [Link.awaits, hcomplete, hsession, hthread, ht]
      · simp [Link.awaits, hcomplete, hsession, hthread, ht, Ne.symm ht]
    have hstatus (t' : ℕ) : (if some t = some t' then (s.status t').wakeup else s.status t') =
        if t' = t then .woken k else s.status t' := by
      by_cases ht : t' = t
      · rw [if_pos ht, ht, if_pos rfl, hwaiting]
        rfl
      · rw [if_neg ht, if_neg fun h => ht (some.inj h).symm]
    simp only [hstatus, hawaits]
    refine ⟨fun t' k' => ?_, ?_, fun t' ht' => ?_, fun t' k' => ?_, fun t' a' hdue => ?_,
      hs.returns, hs.bad⟩
    · by_cases hk : k' = k
      · rw [hk]
        simp only [update_self]
        refine ⟨nofun, fun h => ?_⟩
        split_ifs at h with ht
        exact absurd (some.inj ((hthread.symm.trans ((hs.waits t' k).mpr h)))).symm ht
      · simp only [update_of_ne hk]
        by_cases ht : t' = t
        · rw [if_pos ht, ht]
          exact ⟨fun h => absurd rfl (hs.thread_ne hthread h hk), nofun⟩
        · rw [if_neg ht]
          exact hs.waits t' k'
    · refine hstep.forall_key hs.holds (fun k' hk' => ?_) ?_
      · simp only [Channel.slot, update_of_ne hk']
        exact slot_update hs hthread hk' _
      · rw [hpending]
        simp only [Channel.slot, update_self, map_none]
        exact .none nofun
    · simp only at ht'
      split_ifs at ht' with ht
      exact (update_of_ne ht _ _).trans (hs.idle t' ht')
    · by_cases ht : t' = t
      · simp [ht, hsession]
      · simp [ht, hs.woken t' k']
    · simp only at hdue
      by_cases ht : t' = t
      · rw [if_pos ht, some_or] at hdue
        cases hdue
        simp only [ht, update_self]
        exact hfinish
      · rw [if_neg ht, none_or] at hdue
        simp only [update_of_ne ht]
        exact hs.outcome t' a' hdue

end Receive

/-! ### Runs -/

theorem Answer.source_key : Answer.source.key = Answer.session := rfl

theorem Answer.source_packets : Answer.source.packets = Answer.packets := rfl

theorem Holds.eq_none {p : Option (Answer × List Bytes)} (h : Holds n k p x) (hp : p = Option.none)
    {d : Option (Data Part)} (hd : x = Option.some d) :
    d = Option.none := by
  cases h with
  | none hx => exact hx d hd
  | some => cases hp

theorem Holds.of_some {y : Answer × List Bytes} {p : Option (Answer × List Bytes)}
    (h : Holds n k p x) (hp : p = Option.some y) :
    y.1.session = k ∧ y.1.Large ∧ y.1.msg.length < n ∧
      ∃ (sent : List Bytes) (msg : Bytes), sent.flatten ++ msg = y.1.msg ∧
        y.2 = parts (packresponsePart k) msg ∧
        ∀ d, x = Option.some d →
          d = Option.some (.table (.size y.1.msg.length :: sent.map .data)) := by
  cases h with
  | none => cases hp
  | some hk hlarge hlt hmsg hx =>
    cases hp
    exact ⟨hk, hlarge, hlt, _, _, hmsg, rfl, hx⟩

theorem good_header (hn : n ≤ 2 ^ 32) (hs : Good n s) (hlarge : a.Large) (hlt : a.msg.length < n)
    (hnone : s.pending a.session = none) (hstep : Step s.pending a.session a a.packets p) :
    Good n (s.receive p) ∧ (s.receive p).channel.thread = s.channel.thread := by
  obtain ⟨head, hhead, hsized, hu⟩ := Answer.packets_large hlarge (lt_of_lt_of_le hlt hn)
  rw [hhead] at hstep
  obtain ⟨rfl, hcomplete, hpending⟩ := hstep.middle (parts_ne_nil _ _)
  have hholds (x : Option (Option (Data Part)))
      (hx : ∀ d, x = some d → d = some (.table [.size a.msg.length])) :
      Holds n a.session (p.pending a.session) x := by
    rw [hpending]
    exact .some (s := []) rfl hlarge hlt rfl hx
  refine good_collect hs hstep hcomplete hsized hu rfl rfl rfl (hholds _ nofun) fun d hd => ?_
  rw [(hs.holds a.session).eq_none hnone hd]
  refine ⟨.table [.size a.msg.length], rfl, hholds _ fun d' hd' => ?_⟩
  exact (Option.some.inj hd').symm

theorem good_single (hs : Good n s) (hlarge : ¬a.Large) (hnone : s.pending a.session = none)
    (hstep : Step s.pending a.session a a.packets p) : Good n (s.receive p) := by
  obtain ⟨head, hhead, hsized, hu⟩ := Answer.packets_small hlarge
  rw [hhead] at hstep
  obtain ⟨rfl, hcomplete, hpending⟩ := hstep.last
  refine good_wake hs hstep rfl hcomplete hpending hsized hu rfl rfl fun d hd => ?_
  rw [(hs.holds a.session).eq_none hnone hd]
  refine ⟨.one (.data (a.msg.take multiPart)), by simp, ?_⟩
  cases hok : a.ok with
  | true =>
    have hle : a.msg.length ≤ multiPart := Nat.le_of_not_lt fun hlt => hlarge ⟨hok, hlt⟩
    simp [finish, Answer.outcome, hok, take_of_length_le hle]
  | false => simp [finish, Answer.outcome, hok]

section Parts

variable {n k : ℕ} {s : Link} {a : Answer} {sent : List Bytes} {msg : Bytes}
  {p : Sent ℕ Answer Bytes} (hs : Good n s) (hsession : a.session = k) (hlarge : a.Large)
  (hmsg : sent.flatten ++ msg = a.msg)
  (hslot : ∀ d, s.channel.slot k = some d → d = some (.table (.size a.msg.length :: sent.map .data)))
  (hstep : Step s.pending k a (parts (packresponsePart k) msg) p)
include hs hsession hlarge hmsg hslot hstep

theorem good_middle (hlt : a.msg.length < n) (hlong : multiPart < msg.length) :
    Good n (s.receive p) ∧ (s.receive p).channel.thread = s.channel.thread := by
  rw [parts_of_lt hlong] at hstep
  obtain ⟨hpacket, hcomplete, hpending⟩ := hstep.middle (parts_ne_nil _ _)
  have hu := unpackresponse_drop_part (hsession ▸ a.session_lt) false (msg.take multiPart)
  have hsized := sized_part k false (msg.take multiPart) (length_take_le _ _)
  rw [← hpacket] at hu hsized
  have hmsg' : (sent ++ [msg.take multiPart]).flatten ++ msg.drop multiPart = a.msg := by
    rw [flatten_append, flatten_singleton, append_assoc, take_append_drop, hmsg]
  have hholds (x : Option (Option (Data Part))) (hx : ∀ d, x = some d →
      d = some (.table (.size a.msg.length :: (sent ++ [msg.take multiPart]).map .data))) :
      Holds n k (p.pending k) x := by
    rw [hpending]
    exact .some hsession hlarge hlt hmsg' hx
  refine good_collect hs hstep hcomplete hsized hu rfl rfl rfl (hholds _ nofun) fun d hd => ?_
  rw [hslot d hd]
  refine ⟨_, rfl, hholds _ fun d' hd' => ?_⟩
  rw [← some.inj hd']
  simp

/-- The last packet of a large response whose length is an `int`. -/
theorem good_last (hint : a.msg.length < 2 ^ 31) (hlast : msg.length ≤ multiPart) :
    Good n (s.receive p) := by
  rw [parts_of_le hlast] at hstep
  obtain ⟨hpacket, hcomplete, hpending⟩ := hstep.last
  have hu := unpackresponse_drop_part (hsession ▸ a.session_lt) true msg
  have hsized := sized_part k true msg hlast
  rw [← hpacket] at hu hsized
  have hflatten : (sent ++ [msg]).flatten = a.msg := by
    rw [flatten_append, flatten_singleton, hmsg]
  have hconcat : concat (.size a.msg.length :: (sent ++ [msg]).map .data) = .ok (some a.msg) := by
    rw [← hflatten]
    exact concat_parts (by rwa [hflatten])
  refine good_wake hs hstep hsession hcomplete hpending hsized hu rfl rfl fun d hd => ?_
  rw [hslot d hd]
  refine ⟨.table (.size a.msg.length :: (sent ++ [msg]).map .data), by simp [insert], ?_⟩
  have houtcome : a.outcome = .payload a.msg := if_pos hlarge.1
  exact (congrArg returned hconcat).trans (by rw [houtcome, returned])

end Parts

/-- The message of a new response is shorter than `2^31` bytes, unless it is an error. -/
def Label.Short : Label → Prop
  | .first a => a.ok = true → a.msg.length < 2 ^ 31
  | _ => True

theorem good_init (n : ℕ) : Good n Link.init := by
  refine ⟨fun t k => ⟨nofun, nofun⟩, fun k => .none nofun, fun _ _ => rfl, fun t k => ⟨nofun, ?_⟩,
    nofun, nofun, rfl⟩
  rintro ⟨a, ha, -⟩
  cases ha

theorem good_request {t : Link} (hs : Good n s) {i : ℕ} (h : s.step (.request k i) = some t) :
    Good n t := by
  simp only [Link.step] at h
  split_ifs at h with hok
  obtain ⟨hidle, hthread, hpending⟩ := hok
  cases h
  have hdue : s.due i = none := by
    cases hd : s.due i with
    | none => rfl
    | some a =>
      have hwoken := (hs.woken i a.session).mpr ⟨a, hd, rfl⟩
      rw [hidle] at hwoken
      cases hwoken
  refine ⟨fun j k' => ?_, fun k' => ?_, fun j hj => ?_, fun j k' => ?_, hs.outcome, hs.returns,
    hs.bad⟩
  · by_cases hj : j = i
    · rw [hj]
      simp only [update_self, Status.waiting.injEq]
      by_cases hk : k' = k
      · simp [hk]
      · simp only [update_of_ne hk, Ne.symm hk, iff_false]
        intro hi
        rw [(hs.waits i k').mp hi] at hidle
        cases hidle
    · simp only [update_of_ne hj]
      by_cases hk : k' = k
      · rw [hk, update_self]
        refine ⟨fun hi => absurd (some.inj hi).symm hj, fun hwait => ?_⟩
        rw [(hs.waits j k).mpr hwait] at hthread
        cases hthread
      · rw [update_of_ne hk]
        exact hs.waits j k'
  · by_cases hk : k' = k
    · simp only [hk, Channel.slot, update_self, map_some]
      rw [isNone_iff_eq_none.mp hpending, hs.idle i hidle]
      exact .none fun d hd => (some.inj hd).symm
    · simp only [Channel.slot, update_of_ne hk]
      exact hs.holds k'
  · have hne : j ≠ i := by
      rintro rfl
      simp at hj
    simp only [update_of_ne hne] at hj
    exact hs.idle j hj
  · by_cases hj : j = i
    · rw [hj]
      simp [hdue]
    · simp only [update_of_ne hj]
      exact hs.woken j k'

theorem good_resume {t : Link} (hs : Good n s) {i : ℕ} (h : s.step (.resume i) = some t) :
    Good n t := by
  simp only [Link.step] at h
  split at h
  · rename_i k hwoken
    cases h
    have hthread (k' : ℕ) : s.channel.thread k' ≠ some i := by
      intro hi
      rw [(hs.waits i k').mp hi] at hwoken
      cases hwoken
    obtain ⟨a, hdue, hsession⟩ := (hs.woken i k).mp hwoken
    refine ⟨fun j k' => ?_, fun k' => ?_, fun j hj => ?_, fun j k' => ?_, fun j b hb => ?_, ?_,
      hs.bad⟩
    · by_cases hj : j = i
      · rw [hj]
        simp [hthread k']
      · simp only [update_of_ne hj]
        exact hs.waits j k'
    · have hslot : (s.channel.thread k').map (update s.channel.resultData i none) =
          s.channel.slot k' := by
        rw [Channel.slot]
        cases hk : s.channel.thread k' with
        | none => rfl
        | some j =>
          have hne : j ≠ i := fun hj => hthread k' (hj ▸ hk)
          rw [map_some, map_some, update_of_ne hne]
      simp only [Channel.slot, hslot]
      exact hs.holds k'
    · by_cases hji : j = i
      · rw [hji]
        exact update_self _ _ _
      · simp only [update_of_ne hji] at hj ⊢
        exact hs.idle j hj
    · by_cases hj : j = i
      · rw [hj]
        simp
      · simp only [update_of_ne hj]
        exact hs.woken j k'
    · have hne : j ≠ i := by
        rintro rfl
        simp at hb
      simp only [update_of_ne hne] at hb ⊢
      exact hs.outcome j b hb
    · intro x hx
      rcases mem_append.mp hx with hx | hx
      · exact hs.returns x hx
      · rw [mem_singleton.mp hx]
        exact ⟨a, hdue, hsession, hs.outcome i a hdue⟩
  · cases h

theorem Good.step {t : Link} {b : Label} (hs : Good (2 ^ 31) s) (hb : b.Short)
    (h : s.step b = some t) : Good (2 ^ 31) t := by
  cases b with
  | request k i => exact good_request hs h
  | resume i => exact good_resume hs h
  | first a =>
    obtain ⟨p, hp, rfl⟩ := Option.map_eq_some_iff.mp h
    obtain ⟨hnone, hstep⟩ := Source.start_step hp
    rw [Answer.source_key, Answer.source_packets] at hstep
    by_cases hlarge : a.Large
    · exact (good_header (by decide) hs hlarge (hb hlarge.1) hnone hstep).1
    · exact good_single hs hlarge hnone hstep
  | part k =>
    obtain ⟨p, hp, rfl⟩ := Option.map_eq_some_iff.mp h
    obtain ⟨a, l, hk, hstep⟩ := Pending.next_step hp
    obtain ⟨hsession, hlarge, hlt, sent, msg, hmsg, rfl, hslot⟩ := (hs.holds k).of_some hk
    by_cases hlast : msg.length ≤ multiPart
    · exact good_last hs hsession hlarge hmsg hslot hstep hlt hlast
    · exact (good_middle hs hsession hlarge hmsg hslot hstep hlt (Nat.lt_of_not_le hlast)).1

theorem Answer.sized_packets (hlt : a.ok = true → a.msg.length < 2 ^ 31) :
    ∀ p ∈ a.packets, Sized p := by
  by_cases hlarge : a.Large
  · obtain ⟨head, hhead, hsized, -⟩ :=
      Answer.packets_large hlarge (lt_trans (hlt hlarge.1) (by decide))
    rw [hhead]
    intro p hp
    rcases mem_cons.mp hp with rfl | hp
    · exact hsized
    · exact forall_parts (sized_part a.session) a.msg p hp
  · obtain ⟨head, hhead, hsized, -⟩ := Answer.packets_small hlarge
    rw [hhead]
    intro p hp
    rw [mem_singleton.mp hp]
    exact hsized

/-- **Responses are delivered**: however the packets of responses of less than `2^31` bytes are
mixed, a coroutine is woken exactly when the response for the session it waits for is complete, and
its request ends with the message of that response, or with its error cut to `MULTI_PART` bytes.
Packets are read one by one however the stream is cut. -/
theorem responses_delivered {s : Link} (h : link.ReachableVia (fun _ b => b.Short) s) :
    (∀ t k, s.status t = .woken k ↔ ∃ a, s.due t = some a ∧ a.session = k) ∧
    (∀ t a, s.due t = some a →
      finish (s.channel.result t) (s.channel.resultData t) = .ok a.outcome) ∧
    (∀ x ∈ s.returns, ∃ a, x.answer = some a ∧ a.session = x.session ∧
      x.outcome = .ok a.outcome) ∧
    s.bad = [] ∧
    ∀ a : Answer, (a.ok = true → a.msg.length < 2 ^ 31) → ∀ p ∈ a.packets,
      ∀ (pieces : List Bytes) (rest : Bytes), pieces.flatten = p ++ rest →
        ∃ ps, readResponse pieces = some (unpackresponse (p.drop 2), ps) ∧ ps.flatten = rest := by
  have hgood : Good (2 ^ 31) s :=
    h.invariant (good_init _) fun _ _ _ hs hb hstep => hs.step hb hstep
  refine ⟨hgood.woken, hgood.outcome, hgood.returns, hgood.bad, fun a hlt p hp pieces rest hflat => ?_⟩
  exact readResponse_sized (Answer.sized_packets hlt p hp) hflat

/-- The packets of a response that is pending arrive, up to the last one. -/
theorem exists_last {P : Link → Label → Prop} (hP : ∀ s, P s (.part k))
    (hreach : link.ReachableVia P s) (hs : Good n s) {l : List Bytes}
    (hk : s.pending k = some (a, l)) : ∃ u, ∃ (sent : List Bytes) (msg : Bytes),
      link.ReachableVia P u ∧ Good n u ∧ u.channel.thread = s.channel.thread ∧
      u.pending k = some (a, parts (packresponsePart k) msg) ∧ msg.length ≤ multiPart ∧
      ∀ d, u.channel.slot k = some d →
        d = some (.table (.size a.msg.length :: sent.map .data)) := by
  -- on the packets to come
  induction hlen : l.length generalizing s l with
  | zero =>
    obtain ⟨-, -, -, -, msg, -, hl, -⟩ := (hs.holds k).of_some hk
    rw [eq_nil_of_length_eq_zero hlen] at hl
    exact absurd hl.symm (parts_ne_nil _ msg)
  | succ m ih =>
    obtain ⟨hsession, hlarge, hlt, sent, msg, hmsg, rfl, hslot⟩ := (hs.holds k).of_some hk
    by_cases hlast : msg.length ≤ multiPart
    · exact ⟨s, sent, msg, hreach, hs, rfl, hk, hlast, hslot⟩
    · obtain ⟨p, hp, hstep⟩ := Pending.exists_next hk (parts_ne_nil _ msg)
      have hnext := hreach.next (.part k) (hP s) (congrArg (Option.map s.receive) hp)
      have hmiddle := Nat.lt_of_not_le hlast
      obtain ⟨hgood, hsame⟩ := good_middle hs hsession hlarge hmsg hslot hstep hlt hmiddle
      rw [parts_of_lt hmiddle] at hstep hlen
      obtain ⟨-, -, hrest⟩ := hstep.middle (parts_ne_nil _ _)
      rw [← hsame]
      exact ih hnext hgood (by rw [receive_pending, hrest]) (Nat.succ.inj hlen)

/-- A large response is started. -/
theorem exists_first {P : Link → Label → Prop} (hP : ∀ s, P s (.first a)) (hn : n ≤ 2 ^ 32)
    (hlarge : a.Large) (hlt : a.msg.length < n) (hreach : link.ReachableVia P s) (hs : Good n s)
    (hnone : s.pending a.session = none) : ∃ u l, link.ReachableVia P u ∧ Good n u ∧
      u.channel.thread = s.channel.thread ∧ u.pending a.session = some (a, l) := by
  obtain ⟨head, hhead, -⟩ := Answer.packets_large hlarge (lt_of_lt_of_le hlt hn)
  obtain ⟨p, hp, hstep⟩ := Source.exists_start hnone
    (by rw [Answer.source_packets, hhead]; exact cons_ne_nil _ _)
  have hnext := hreach.next (.first a) (hP s) (congrArg (Option.map s.receive) hp)
  rw [Answer.source_key, Answer.source_packets] at hstep
  obtain ⟨hgood, hsame⟩ := good_header hn hs hlarge hlt hnone hstep
  rw [hhead] at hstep
  obtain ⟨-, -, hrest⟩ := hstep.middle (parts_ne_nil _ _)
  exact ⟨_, _, hnext, hgood, hsame, by rw [receive_pending]; exact hrest⟩

/-- A response in three packets. -/
def bulk : Answer := ⟨5, by decide, true, replicate (multiPart + 1) 0⟩

/-- A coroutine waits for a response in three packets. -/
theorem responses_delivered_of_bulk : ∃ s, link.ReachableVia (fun _ b => b.Short) s ∧
    s.status 1 = .woken 5 ∧
    finish (s.channel.result 1) (s.channel.resultData 1) = .ok bulk.outcome := by
  have hlen : bulk.msg.length = multiPart + 1 := length_replicate
  have hlt : bulk.msg.length < 2 ^ 31 := by
    rw [hlen]
    decide
  obtain ⟨s, hs, hthread, hnone⟩ : ∃ s, Link.init.step (.request 5 1) = some s ∧
      s.channel.thread 5 = some 1 ∧ s.pending bulk.session = none := ⟨_, rfl, rfl, rfl⟩
  have hreach : link.ReachableVia (fun _ b => b.Short) s :=
    System.ReachableVia.init.next (.request 5 1) trivial hs
  obtain ⟨t, l, ht, hgood, hsame, hk⟩ := exists_first (fun _ _ => hlt) (by decide)
    ⟨rfl, hlen ▸ Nat.lt_succ_self _⟩ hlt hreach (good_request (good_init (2 ^ 31)) hs) hnone
  obtain ⟨u, -, msg, hu, -, hsame', hk, hlast, -⟩ := exists_last (fun _ => trivial) ht hgood hk
  obtain ⟨p, hp, hstep⟩ := Pending.exists_next hk (parts_ne_nil _ msg)
  have hnext := hu.next (.part 5) trivial (congrArg (Option.map u.receive) hp)
  rw [parts_of_le hlast] at hstep
  have hdue : (u.receive p).due 1 = some bulk := by
    rw [receive_due, hstep.last.2.1, Link.awaits]
    simp [hsame', hsame, hthread, show bulk.session = 5 from rfl]
  obtain ⟨hwoken, hfinish, -⟩ := responses_delivered hnext
  exact ⟨_, hnext, (hwoken 1 5).mpr ⟨bulk, hdue, rfl⟩, hfinish 1 bulk hdue⟩

/-! ### A message that is too long -/

/-- The last packet of a message whose length is no `int`. -/
theorem receive_too_long {t : ℕ} {sent : List Bytes} {msg : Bytes} (hs : Good n s)
    (hsession : a.session = k) (hlong : 2 ^ 31 ≤ a.msg.length) (hlt : a.msg.length < 2 ^ 32)
    (hthread : s.channel.thread k = some t)
    (hslot : ∀ d, s.channel.slot k = some d →
      d = some (.table (.size a.msg.length :: sent.map .data))) (hlast : msg.length ≤ multiPart)
    (hstep : Step s.pending k a (parts (packresponsePart k) msg) p) :
    (s.receive p).status t = .woken k ∧ (s.receive p).due t = some a ∧
      finish ((s.receive p).channel.result t) ((s.receive p).channel.resultData t) =
        .error .negativeSize := by
  rw [parts_of_le hlast] at hstep
  obtain ⟨hpacket, hcomplete, -⟩ := hstep.last
  have hu := unpackresponse_drop_part (hsession ▸ a.session_lt) true msg
  have hsized := sized_part k true msg hlast
  rw [← hpacket] at hu hsized
  have hdata := hslot _ (by rw [Channel.slot, hthread]; rfl)
  have hinsert : (if true = true ∧ s.channel.resultData t ≠ none then
      insert (s.channel.resultData t) (.data msg) else some (.one (.data msg))) =
      some (.table (.size a.msg.length :: (sent ++ [msg]).map .data)) := by
    rw [hdata]
    simp [insert]
  have hdispatch := dispatch_last (r := ⟨k, true, .data msg, !true⟩) hthread rfl hinsert
  rw [receive_eq hsized hu hdispatch]
  refine ⟨?_, ?_, ?_⟩
  · simp [(hs.waits t k).mp hthread, Status.wakeup]
  · simp [Link.awaits, hcomplete, hsession, hthread]
  · simp only [update_self]
    exact congrArg returned (concat_negative hlong hlt ((sent ++ [msg]).map .data))

/-- A response of `2^31` bytes. -/
def longAnswer : Answer := ⟨1, by decide, true, List.replicate (2 ^ 31) 0⟩

/-- A coroutine waits for the response, all packets arrive, and `concat` fails. -/
theorem large_response_lost :
    ∃ s, link.Reachable s ∧ s.status 7 = .woken 1 ∧ s.due 7 = some longAnswer ∧
      finish (s.channel.result 7) (s.channel.resultData 7) = .error .negativeSize := by
  have hlen : longAnswer.msg.length = 2 ^ 31 := length_replicate
  have hlarge : longAnswer.Large := by
    refine ⟨rfl, ?_⟩
    rw [hlen]
    decide
  have hlt : longAnswer.msg.length < 2 ^ 32 := by
    rw [hlen]
    decide
  obtain ⟨s, hs, hthread, hnone⟩ : ∃ s, Link.init.step (.request 1 7) = some s ∧
      s.channel.thread 1 = some 7 ∧ s.pending longAnswer.session = none :=
    ⟨_, rfl, rfl, rfl⟩
  have hreach : link.Reachable s := System.ReachableVia.init.next (.request 1 7) trivial hs
  obtain ⟨t, l, ht, hgood, hsame, hk⟩ := exists_first (fun _ => trivial) le_rfl hlarge hlt hreach
    (good_request (good_init _) hs) hnone
  obtain ⟨u, sent, msg, hu, hgood, hsame', hk, hlast, hslot⟩ :=
    exists_last (fun _ => trivial) ht hgood hk
  obtain ⟨p, hp, hstep⟩ := Pending.exists_next hk (parts_ne_nil _ msg)
  have hnext := hu.next (.part 1) trivial (congrArg (Option.map u.receive) hp)
  exact ⟨_, hnext, receive_too_long hgood rfl (le_of_eq hlen.symm) hlt
    (by rw [hsame', hsame, hthread]) hslot hlast hstep⟩

end Skynet.ClusterChannel
