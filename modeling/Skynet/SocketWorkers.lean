import Skynet.SocketCount

/-! # What workers know before a direct write

A worker handles one message at a time, so its message comes after everything of its own that
has been accepted (`Calls`).  When `can_direct_send` reads a count of zero, none of the worker's
messages is in the pipe, and none comes before the worker is done with this one; when it then
finds, under the mutex, that the high list is empty, none of its messages can show up there
either.  Other workers' messages can: the socket thread appends to the lists without the mutex
(`Ready`). -/

namespace Skynet.Socket

open List ThreadPool State

/-! ### Messages on their way -/

/-- The message of a data command for `id`. -/
def Cmd.packet? (id : ℕ) : Cmd → Option Packet
  | .send p => if p.id = id then some p else none
  | _ => none

/-- The messages for the socket that wait in the pipe. -/
def State.queued (s : State) : List Packet := s.pipe.filterMap (Cmd.packet? s.sock.socketId)

theorem Cmd.packet?_eq_some {id : ℕ} {c : Cmd} {p : Packet} :
    c.packet? id = some p ↔ c = .send p ∧ p.id = id := by
  constructor
  · intro h
    cases c with
    | send q =>
      simp only [packet?] at h
      split_ifs at h with hid
      cases h
      exact ⟨rfl, hid⟩
    | _ => cases h
  · rintro ⟨rfl, hid⟩
    exact if_pos hid

namespace State

variable {s t : State} {p : Packet}

theorem mem_queued : p ∈ s.queued ↔ .send p ∈ s.pipe ∧ p.id = s.sock.socketId := by
  unfold queued
  simp only [mem_filterMap, Cmd.packet?_eq_some]
  constructor
  · rintro ⟨c, hc, rfl, hid⟩
    exact ⟨hc, hid⟩
  · rintro ⟨hc, hid⟩
    exact ⟨_, hc, rfl, hid⟩

theorem queued_congr (hid : t.sock.socketId = s.sock.socketId) (hpipe : t.pipe = s.pipe) :
    t.queued = s.queued := by
  rw [queued, queued, hid, hpipe]

theorem queued_skips (hid : t.sock.socketId = s.sock.socketId) (hpipe : Skips s.pipe t.pipe) :
    t.queued = s.queued := by
  rw [queued, queued, hid]
  generalize s.pipe = l, t.pipe = l' at hpipe
  cases hpipe with
  | same => rfl
  | @pop c _ _ hs =>
    have : c.packet? s.sock.socketId = none := by cases c <;> first | rfl | cases hs
    rw [filterMap_cons_none this]

theorem mem_queued_skips (hp : p ∈ t.queued) (hid : t.sock.socketId = s.sock.socketId)
    (hpipe : Skips s.pipe t.pipe) : p ∈ s.queued := by
  rwa [queued_skips hid hpipe] at hp

variable {rest : List Cmd}

theorem queued_pop_open {k : OpenKind} {id : ℕ} (hp : s.pipe = .opening k id :: rest)
    (hid : t.sock.socketId = s.sock.socketId) (hpipe : t.pipe = rest) : t.queued = s.queued := by
  rw [queued, queued, hid, hpipe, hp, filterMap_cons_none rfl]

theorem queued_pop (hp : s.pipe = .send p :: rest) (hcur : p.id = s.sock.socketId)
    (hid : t.sock.socketId = s.sock.socketId) (hpipe : t.pipe = rest) :
    s.queued = p :: t.queued := by
  have hsome : Cmd.packet? s.sock.socketId (.send p) = some p := if_pos hcur
  rw [queued, queued, hid, hpipe, hp, filterMap_cons_some hsome]

theorem queued_push {c : Cmd} (hid : t.sock.socketId = s.sock.socketId)
    (hpipe : t.pipe = s.pipe ++ [c]) :
    t.queued = s.queued ++ (c.packet? s.sock.socketId).toList := by
  rw [queued, queued, hid, hpipe, filterMap_append]
  cases h : c.packet? s.sock.socketId <;> simp [h]

theorem mem_queued_push {c : Cmd} (hp : p ∈ t.queued) (hid : t.sock.socketId = s.sock.socketId)
    (hpipe : t.pipe = s.pipe ++ [c]) : p ∈ s.queued ∨ c = .send p := by
  rw [queued_push hid hpipe] at hp
  rcases mem_append.1 hp with hp | hp
  · exact .inl hp
  · exact .inr (Cmd.packet?_eq_some.1 (Option.mem_toList.1 hp)).1

theorem queued_fresh (h : Tracked s) (hid : s.known < t.sock.socketId) (hpipe : t.pipe = s.pipe) :
    t.queued = [] := by
  refine eq_nil_iff_forall_not_mem.2 fun p hp => ?_
  obtain ⟨hmem, hcur⟩ := mem_queued.1 hp
  rw [hpipe] at hmem
  have hle : p.id ≤ s.known := h.cmds _ hmem
  omega

theorem queued_eq_nil (h : s.inflight s.sock.socketId = 0) : s.queued = [] := by
  refine eq_nil_iff_forall_not_mem.2 fun p hp => ?_
  obtain ⟨hmem, hcur⟩ := mem_queued.1 hp
  obtain ⟨j, hj⟩ := getElem?_of_mem hmem
  have hle := le_total (Cmd.sending s.sock.socketId) hj
  rw [show Cmd.sending s.sock.socketId (.send p) = 1 from if_pos hcur] at hle
  rw [inflight] at h
  omega

end State

theorem Polls.frame {s t : State} {a : Action} (h : Polls s a t) (hs : Tracked s)
    (hf : t.fault = none) : t.acts = s.acts ∧ t.accepted = s.accepted ∧ t.ncalls = s.ncalls ∧
      s.known ≤ t.known := by
  cases h with
  | crash hf' => exact absurd hf hf'
  | closed => simp
  | accepts _ _ o =>
    have hk := hs.known
    cases o with
    | addFailed | enableFailed => exact ⟨rfl, rfl, rfl, le_rfl⟩
    | _ => exact ⟨rfl, rfl, rfl, hk.trans (Nat.le_succ _)⟩
  | _ => exact ⟨rfl, rfl, rfl, le_rfl⟩

/-! ### Calls -/

/-- The message of a call that has not been accepted yet. -/
def Pc.pending : Pc → Option Packet
  | .checkId p | .checkStatus p | .canDirectSend _ _ p | .tryLock p | .write p
  | .unlock (some false) p | .incType false p | .inc false p | .push false p => some p
  | _ => none

/-- What worker `j` knows about the message it is sending. -/
structure Pc.Calls (s : State) (j : ℕ) (q : Packet) : Prop where
  sender : q.sender = j
  id : q.id ≤ s.known
  seq : q.seq < s.ncalls
  later : ∀ q' ∈ s.accepted, q'.sender = j → q'.seq < q.seq

/-- Messages that have been accepted or are being sent. -/
structure Calls (s : State) : Prop where
  past : ∀ q ∈ s.accepted, q.id ≤ s.known ∧ q.seq < s.ncalls
  calls : ∀ (j : ℕ) p, s.acts[j]? = some p → ∀ q, p.pending = some q → Pc.Calls s j q

namespace Calls

variable {s t : State} {i j : ℕ} {p p' : Pc} {q : Packet} {a : Action}

theorem init : Calls State.init where
  past q h := by simp [State.init] at h
  calls j p h := by simp [State.init] at h

theorem crash (h : Calls s) (f : Fault) : Calls (s.crash f) :=
  ⟨h.past, fun j p hp q hq =>
    ⟨(h.calls j p hp q hq).sender, (h.calls j p hp q hq).id, (h.calls j p hp q hq).seq,
      (h.calls j p hp q hq).later⟩⟩

theorem mono (h : Pc.Calls s j q) (hk : s.known ≤ t.known) (hn : s.ncalls ≤ t.ncalls)
    (ha : ∀ q' ∈ t.accepted, q' ∈ s.accepted ∨ q'.sender ≠ j) : Pc.Calls t j q where
  sender := h.sender
  id := h.id.trans hk
  seq := h.seq.trans_le hn
  later q' hq' hj := by
    rcases ha q' hq' with hq' | hne
    · exact h.later q' hq' hj
    · exact absurd hj hne

variable (h : Calls s)

include h

theorem not_mem (hp : s.acts[i]? = some p) (hq : p.pending = some q) :
    q ∉ s.accepted := fun hmem => by
  have hc := h.calls i p hp q hq
  exact lt_irrefl _ (hc.later q hmem hc.sender)

theorem quiet (hacts : t.acts = s.acts) (ha : t.accepted = s.accepted) (hn : t.ncalls = s.ncalls)
    (hk : s.known ≤ t.known) : Calls t where
  past q hq := by
    rw [ha] at hq
    have := h.past q hq
    omega
  calls j p hp q hq := by
    rw [hacts] at hp
    exact mono (h.calls j p hp q hq) hk hn.ge fun q' hq' => .inl (ha ▸ hq')

theorem moves (hp : s.acts[i]? = some p) (hacts : t.acts = s.acts.set i p')
    (ha : t.accepted = s.accepted) (hn : t.ncalls = s.ncalls) (hk : s.known ≤ t.known)
    (hq : ∀ q, p'.pending = some q → p.pending = some q) : Calls t := by
  have hmono : ∀ {j q}, Pc.Calls s j q → Pc.Calls t j q := fun hc =>
    mono hc hk hn.ge fun q' hq' => .inl (ha ▸ hq')
  refine ⟨fun q hq => ?_, ?_⟩
  · rw [ha] at hq
    have := h.past q hq
    omega
  · rw [hacts]
    exact forall_set_index h.calls (fun j r _ _ hr q hq => hmono (hr q hq))
      fun q hq' => hmono (h.calls i p hp q (hq q hq'))

theorem accepts (hp : s.acts[i]? = some p) (hq : p.pending = some q)
    (hacts : t.acts = s.acts.set i p') (ha : t.accepted = s.accepted ++ [q])
    (hn : t.ncalls = s.ncalls) (hk : t.known = s.known) (hp' : p'.pending = none) : Calls t := by
  have hc := h.calls i p hp q hq
  refine ⟨fun q' hq' => ?_, ?_⟩
  · rw [ha] at hq'
    rw [hk, hn]
    rcases mem_append.1 hq' with hq' | hq'
    · exact h.past q' hq'
    · rw [mem_singleton.1 hq']
      exact ⟨hc.id, hc.seq⟩
  · rw [hacts]
    refine forall_set_index h.calls (fun j r hj _ hr q' hq' => ?_) fun q' hq' => ?_
    · refine mono (hr q' hq') hk.ge hn.ge fun r hr' => ?_
      rw [ha] at hr'
      rcases mem_append.1 hr' with hr' | hr'
      · exact .inl hr'
      · rw [mem_singleton.1 hr', hc.sender]
        exact .inr hj.symm
    · rw [hp'] at hq'
      cases hq'

/-- **Calls** through a step of a worker. -/
theorem works (hs : Tracked s) {r : WriteResult} (hp : s.acts[i]? = some p) (hw : Works s i r p t) :
    Calls t := by
  have hk := Counts.known_le_of_works hs hp hw
  cases hw with
  | moves hm =>
    refine h.moves hp rfl rfl rfl hk fun q hq => ?_
    cases hm with
    | outdated | invalid => cases hq
    | @tcp w | @notTcp w | @stale w => cases w <;> exact hq
    | _ => exact hq
  | opened | returned | triggers => exact h.moves hp rfl rfl rfl hk nofun
  | locked => exact h.moves hp rfl rfl rfl hk fun q hq => hq
  | unlocked w | @counted w =>
    refine h.moves hp rfl rfl rfl hk fun q hq => ?_
    cases w <;> exact hq
  | wrote | wrotePart | pushed => exact h.accepts hp rfl rfl rfl rfl rfl rfl

/-- A worker calls `send`. -/
theorem send {id : ℕ} (hid : id ≤ s.known) (high : Bool) (data : List UInt8) :
    Calls (s.call i id high data) := by
  have hn : s.ncalls ≤ s.ncalls + 1 := Nat.le_succ _
  refine ⟨fun q hq => ⟨(h.past q hq).1, (h.past q hq).2.trans_le hn⟩, ?_⟩
  refine forall_set_index h.calls
    (fun j r _ _ hr q hq => mono (hr q hq) le_rfl hn fun q' hq' => .inl hq') fun q hq => ?_
  cases hq
  exact ⟨rfl, hid, Nat.lt_succ_self _, fun q' hq' _ => (h.past q' hq').2⟩

/-- **Calls** through any step. -/
theorem acts (hs : Tracked s) (ht : Acts s a t) (hf : t.fault = none) : Calls t := by
  cases ht with
  | thread =>
    refine ⟨h.past, forall_append_index (fun j p hp q hq => ?_) nofun⟩
    exact mono (h.calls j p hp q hq) le_rfl le_rfl fun q' hq' => .inl hq'
  | send hp hid => exact h.send hid _ _
  | alloc hp => exact h.moves hp rfl rfl rfl le_rfl nofun
  | run hp hw => exact h.works hs hp hw
  | control => exact h.quiet rfl rfl rfl le_rfl
  | poll hp =>
    obtain ⟨hacts, ha, hn, hk⟩ := hp.frame hs hf
    exact h.quiet hacts ha hn hk

omit h

end Calls

/-! ### Workers in `send` -/

/-- How much of the condition for a direct write a worker has seen: nothing, that none of its
messages is in the pipe, that the high list was empty, that there is no direct write buffer. -/
def Pc.stage : Pc → ℕ
  | .canDirectSend false .status _ | .tryLock _ | .canDirectSend true .id _
  | .canDirectSend true .high _ => 1
  | .canDirectSend true .low _ | .canDirectSend true .buffer _ => 2
  | .canDirectSend true .count _ | .canDirectSend true .status _ | .write _ => 3
  | _ => 0

/-- What worker `j` has seen still holds. -/
structure Pc.Ready (s : State) (j : ℕ) (p : Pc) : Prop where
  absent : 1 ≤ p.stage → ∀ q ∈ s.queued, q.sender ≠ j
  clear : 2 ≤ p.stage → ∀ b ∈ s.sock.high, b.ptr = 0 ∧ b.packet.sender ≠ j
  free : 3 ≤ p.stage → s.sock.direct = none

def Ready (s : State) : Prop := ∀ (j : ℕ) p, s.acts[j]? = some p → p.Ready s j

namespace Ready

variable {s t : State} {i j : ℕ} {p p' : Pc} {a : Action}

theorem of_stage (h : p.stage = 0) : p.Ready s j := by
  constructor <;> intro hle <;> omega

theorem of_le (h : p.Ready s j) (hle : p'.stage ≤ p.stage) : p'.Ready s j :=
  ⟨fun h1 => h.absent (h1.trans hle), fun h2 => h.clear (h2.trans hle),
    fun h3 => h.free (h3.trans hle)⟩

theorem init : Ready State.init := fun j p h => by simp [State.init] at h

theorem frame (h : p.Ready s j) (hq : 1 ≤ p.stage → ∀ q ∈ t.queued, q ∈ s.queued ∨ q.sender ≠ j)
    (hh : 2 ≤ p.stage → ∀ b ∈ t.sock.high, b ∈ s.sock.high ∨ b.ptr = 0 ∧ b.packet.sender ≠ j)
    (hd : 3 ≤ p.stage → t.sock.direct = none ∨ t.sock.direct = s.sock.direct) : p.Ready t j where
  absent h1 q hq' := by
    rcases hq h1 q hq' with hq' | hne
    · exact h.absent h1 q hq'
    · exact hne
  clear h2 b hb := by
    rcases hh h2 b hb with hb | hb
    · exact h.clear h2 b hb
    · exact hb
  free h3 := by
    rcases hd h3 with hd | hd
    · exact hd
    · exact hd.trans (h.free h3)

theorem crash (h : Ready s) (f : Fault) : Ready (s.crash f) := fun j p hp =>
  frame (h j p hp) (fun _ _ hq => .inl hq) (fun _ _ hb => .inl hb) fun _ => .inr rfl

theorem locks_of_stage (h : 2 ≤ p.stage) : p.locks = 1 := by
  cases p with
  | canDirectSend l r q =>
    cases l with
    | true => rfl
    | false => cases r <;> simp [Pc.stage] at h
  | write => rfl
  | _ => simp [Pc.stage] at h

theorem polls_frame (h : Ready s) (hs : Sane s) (hacts : t.acts = s.acts)
    (hq : ∀ q ∈ t.queued, q ∈ s.queued)
    (hh : s.mutex = true → s.poll.locks = 0 →
      ∀ b ∈ t.sock.high, b ∈ s.sock.high ∨ b.ptr = 0 ∧ b.packet ∈ s.queued)
    (hd : t.sock.direct = none ∨ t.sock.direct = s.sock.direct) : Ready t := by
  intro j p hp
  rw [hacts] at hp
  refine frame (h j p hp) (fun _ q hq' => .inl (hq q hq')) (fun h2 b hb => ?_) fun _ => hd
  have hlocks := locks_of_stage h2
  have hmutex : s.mutex = true := by
    have hlock := hs.lock
    have hle := le_total Pc.locks hp
    by_contra hm
    rw [if_neg hm] at hlock
    omega
  rcases hh hmutex (hs.poll_locks_eq_zero hp hlocks) b hb with hb | ⟨hptr, hb⟩
  · exact .inl hb
  · exact .inr ⟨hptr, (h j p hp).absent (by omega) _ hb⟩

/-- **Workers in `send`** through a step of the socket thread. -/
theorem polls (h : Ready s) (hs : Sane s) (ht : Polls s a t) (hf : t.fault = none) : Ready t := by
  obtain ⟨hacts, _⟩ := ht.frame hs.tracked hf
  have hlocked : s.poll = .sendHigh ∨ s.poll = .sendLow → s.poll.locks ≠ 0 := by
    rintro (hp | hp) <;> rw [hp] <;> exact nofun
  have hwrites := fun (hp : s.poll = .sendHigh ∨ s.poll = .sendLow) (hq : t.queued = s.queued) =>
    h.polls_frame hs hacts (by rw [hq]; exact fun _ => id) fun _ hz => absurd hz (hlocked hp)
  have hsame := fun (hq : t.queued = s.queued) (hh : t.sock.high = s.sock.high) =>
    h.polls_frame hs hacts (by rw [hq]; exact fun _ => id) fun _ _ b hb => .inl (hh ▸ hb)
  cases ht with
  | crash hf' => exact absurd hf hf'
  | flags hp | entered hp => exact hsame (queued_skips rfl hp) rfl (.inr rfl)
  | opened hp | openUndone hp =>
    exact hsame (queued_pop_open hp (hs.tracked.head_open hp).2.1 rfl) rfl (.inl rfl)
  | openFailed hp => exact hsame (queued_pop_open hp rfl rfl) rfl (.inr rfl)
  | @appended rest p hp hi hr =>
    have hid := (SocketObject.isInvalid_eq_false (SocketObject.refuses_eq_false hr).1).1
    refine h.polls_frame hs hacts (fun q hq => ?_) (fun _ _ b hb => ?_) (.inr (by simp))
    · rw [mem_queued] at hq ⊢
      exact ⟨by rw [hp]; exact mem_cons_of_mem _ hq.1, by simpa using hq.2⟩
    · have hmem : p ∈ s.queued :=
        mem_queued.2 ⟨by rw [hp]; exact mem_cons_self, hid.symm⟩
      simp only [SocketObject.append] at hb
      split_ifs at hb with hh
      · rcases mem_append.1 hb with hb | hb
        · exact .inl hb
        · rw [mem_singleton.1 hb]
          exact .inr ⟨rfl, hmem⟩
      · exact .inl hb
  | closes hp =>
    exact h.polls_frame hs hacts (fun q hq => mem_queued_skips hq rfl hp)
      (fun _ _ => nofun) (.inr rfl)
  | closing _ hp | closingRead _ hp =>
    exact hsame (queued_skips rfl (by rw [hp]; exact .pop rfl rfl)) rfl (.inr rfl)
  | closedRead | decremented | skipped => exact hsame rfl rfl (.inr rfl)
  | flushes hi hm =>
    refine h.polls_frame hs hacts (fun _ => id) (fun hm' => ?_) (.inl rfl)
    rw [hm] at hm'
    cases hm'
  | toLow hp | wroteHigh hp | partHigh hp => exact hwrites (.inl hp) rfl (.inr rfl)
  | spins => exact h
  | ends hp | closedWrite hp => exact hwrites hp rfl (.inr rfl)
  | wroteLow hp | partLow hp => exact hwrites (.inr hp) rfl (.inr rfl)
  | closed hp =>
    exact hsame (queued_congr (by simp) (by simp)) (by simp) (.inl (by simp))
  | accepts hi hv o =>
    have hlt := Nat.lt_succ_of_le hs.tracked.known
    have hnil : (s.acceptHere o).queued = [] :=
      queued_fresh hs.tracked (by cases o <;> exact hlt) (by cases o <;> rfl)
    refine h.polls_frame hs hacts (by rw [hnil]; exact nofun) (fun _ _ b hb => .inl ?_) ?_
    · cases o <;> exact hb
    · cases o with
      | addFailed => exact .inr rfl
      | _ => exact .inl rfl

theorem works_frame (h : Ready s) (hacts : t.acts = s.acts.set i p')
    (hq : ∀ j ≠ i, ∀ q ∈ t.queued, q ∈ s.queued ∨ q.sender ≠ j) (hh : t.sock.high = s.sock.high)
    (hd : t.sock.direct = s.sock.direct) (hp' : p'.Ready t i) : Ready t := by
  unfold Ready
  rw [hacts]
  refine forall_set_index h (fun j r hj _ hr => ?_) hp'
  exact frame hr (fun _ => hq j hj) (fun _ b hb => .inl (hh ▸ hb)) fun _ => .inr hd

/-- A read of `can_direct_send` tells the worker what the next stage says. -/
theorem passes (h : p.Ready s i) (hc : Counts False s) {l : Bool} {r r' : Read} {q : Packet}
    (hp : p = .canDirectSend l r q) (hr : s.sock.passes q.id r = true) (hn : r.next = some r') :
    (Pc.canDirectSend l r' q).Ready s i := by
  subst hp
  cases r with
  | id | low =>
    cases hn
    exact of_le h (by cases l <;> simp [Pc.stage])
  | high =>
    cases hn
    cases l with
    | false => exact of_stage rfl
    | true =>
      have hempty : s.sock.high = [] := by simpa [SocketObject.passes] using hr
      refine ⟨fun _ => h.absent le_rfl, fun _ => ?_, fun h3 => absurd h3 (by simp [Pc.stage])⟩
      rw [hempty]
      simp
  | buffer =>
    cases hn
    cases l with
    | false => exact of_stage rfl
    | true =>
      have hnone : s.sock.direct = none := by simpa [SocketObject.passes] using hr
      exact ⟨fun _ => h.absent (by simp [Pc.stage]), fun _ => h.clear le_rfl, fun _ => hnone⟩
  | count =>
    cases hn
    cases l with
    | true => exact of_le h (by simp [Pc.stage])
    | false =>
      have hz : s.sock.sendingCount.n = 0 := by simpa [SocketObject.passes] using hr
      have hfly : s.inflight s.sock.socketId = 0 := by
        by_cases htype : s.sock.type = .tcp
        · have := (hc.count htype).2.1
          omega
        · exact (hc.untyped htype).1
      refine ⟨fun _ => ?_, fun h2 => absurd h2 (by simp [Pc.stage]),
        fun h3 => absurd h3 (by simp [Pc.stage])⟩
      rw [queued_eq_nil hfly]
      simp
  | status => cases hn

/-- **Workers in `send`** through a step of a worker. -/
theorem works (h : Ready s) (hs : Sane s) (hc : Counts False s) (hcalls : Calls s)
    {r : WriteResult} (hp : s.acts[i]? = some p) (hw : Works s i r p t) : Ready t := by
  have hready := h i p hp
  have hsame : ∀ j ≠ i, ∀ q ∈ s.queued, q ∈ s.queued ∨ q.sender ≠ j := fun _ _ _ hq => .inl hq
  cases hw with
  | @moves _ p' hm =>
    have hmoved : p'.Ready s i := by
      cases hm with
      | passes hr hn => exact passes hready hc rfl hr hn
      | passed | passedTwice => exact of_le hready le_rfl
      | _ => exact of_stage rfl
    refine h.works_frame rfl hsame rfl rfl ?_
    exact frame hmoved (fun _ _ hq => .inl hq) (fun _ _ hb => .inl hb) fun _ => .inr rfl
  | opened k id =>
    refine h.works_frame rfl (fun j _ q hq => .inl ?_) rfl rfl (of_stage rfl)
    exact (mem_queued_push (s := s) hq rfl rfl).resolve_right nofun
  | locked =>
    refine h.works_frame rfl hsame rfl rfl ?_
    exact frame (of_le hready le_rfl) (fun _ _ hq => .inl hq) (fun _ _ hb => .inl hb)
      fun _ => .inr rfl
  | wrote | returned | unlocked | counted => exact h.works_frame rfl hsame rfl rfl (of_stage rfl)
  | wrotePart =>
    -- A worker that has seen the direct write buffer empty would hold the mutex too.
    refine forall_set_index h (fun j r hj hr hready => ?_) (of_stage rfl)
    refine frame hready (fun _ _ hq => .inl hq) (fun _ _ hb => .inl hb) fun h3 => ?_
    exact absurd (hs.lock_unique hr hp (locks_of_stage (by omega)) rfl) hj
  | triggers q =>
    refine h.works_frame rfl (fun j _ q' hq' => .inl ?_) rfl rfl (of_stage rfl)
    exact (mem_queued_push (s := s) hq' rfl rfl).resolve_right nofun
  | pushed q =>
    refine h.works_frame rfl (fun j hj q' hq' => ?_) rfl rfl (of_stage rfl)
    rcases mem_queued_push (s := s) hq' rfl rfl with hq' | heq
    · exact .inl hq'
    · obtain rfl := Cmd.send.inj heq
      rw [(hcalls.calls i _ hp q rfl).sender]
      exact .inr hj.symm

/-- **Workers in `send`** through any step. -/
theorem acts (h : Ready s) (hs : Sane s) (hc : Counts False s) (hcalls : Calls s)
    (ht : Acts s a t) (hf : t.fault = none) : Ready t := by
  cases ht with
  | thread =>
    refine forall_append_index (fun j p hp => ?_) (of_stage rfl)
    exact frame (h j p hp) (fun _ _ hq => .inl hq) (fun _ _ hb => .inl hb) fun _ => .inr rfl
  | send hp => exact h.works_frame rfl (fun _ _ _ hq => .inl hq) rfl rfl (of_stage rfl)
  | @alloc i k hp hv =>
    have hnil : ({ s with sock := s.sock.alloc, wire := [] }.goto i
        (.opening k (s.sock.socketId + 1))).queued = [] :=
      queued_fresh hs.tracked (Nat.lt_succ_of_le hs.tracked.known) rfl
    refine h.works_frame rfl (fun _ _ q hq => ?_) rfl rfl (of_stage rfl)
    rw [hnil] at hq
    cases hq
  | run hp hw => exact h.works hs hc hcalls hp hw
  | @control c hcontrol =>
    intro j p hp
    refine frame (h j p hp) (fun _ q hq => .inl ?_) (fun _ _ hb => .inl hb) fun _ => .inr rfl
    refine (mem_queued_push (s := s) hq rfl rfl).resolve_right fun hc => ?_
    rw [hc] at hcontrol
    cases hcontrol
  | poll hp => exact h.polls hs hp hf

end Ready

end Skynet.Socket
