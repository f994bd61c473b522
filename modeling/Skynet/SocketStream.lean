import Skynet.SocketWorkers

/-! # The stream of a socket

The bytes a TCP socket has written are the messages written in full, one after the other, and a
part of the message at the front.  What is pending has an order too: the direct write buffer, the
high list, the low list, the data commands in the pipe.  The *line* of a socket is the messages
written in full followed by the pending ones, and the invariant `Streams` says that the line keeps
the order of every sender's high-priority messages.

* Appending to the high list overtakes the low list, which holds low-priority messages only.
* A direct write overtakes everything that is pending.  The worker has seen that nothing of its
  own is (`Ready`), and that no message at the front has been written in part.

Both need `sending_count` to be at least what is on its way, hence `State.Counted`.  A worker that
has checked its id can find the slot opened again for another connection before it checks the
status, and writes to that; `State.Current` excludes these runs. -/

namespace Skynet.Socket

open List ThreadPool Transition State SocketObject WriteBuffer

/-! ### Lists in order -/

section Pairwise

variable {α : Type} {R : α → α → Prop} {A B L : List α} {x : α}

theorem pairwise_insert (h : (A ++ B).Pairwise R) (hA : ∀ y ∈ A, R y x) (hB : ∀ y ∈ B, R x y) :
    (A ++ x :: B).Pairwise R := by
  obtain ⟨h₁, h₂, h₃⟩ := pairwise_append.1 h
  refine pairwise_append.2 ⟨h₁, pairwise_cons.2 ⟨hB, h₂⟩, fun y hy z hz => ?_⟩
  rcases mem_cons.1 hz with rfl | hz
  · exact hA y hy
  · exact h₃ y hy z hz

theorem pairwise_shift (h : (A ++ (L ++ x :: B)).Pairwise R) (hL : ∀ y ∈ L, R y x → R x y) :
    (A ++ x :: (L ++ B)).Pairwise R := by
  obtain ⟨h₁, h₂, h₃⟩ := pairwise_append.1 h
  obtain ⟨h₄, h₅, h₆⟩ := pairwise_append.1 h₂
  obtain ⟨h₇, h₈⟩ := pairwise_cons.1 h₅
  have hrest : (A ++ (L ++ B)).Pairwise R := by
    refine pairwise_append.2 ⟨h₁, pairwise_append.2 ⟨h₄, h₈, fun y hy z hz => ?_⟩,
      fun y hy z hz => h₃ y hy z ?_⟩
    · exact h₆ y hy z (mem_cons_of_mem _ hz)
    · rcases mem_append.1 hz with hz | hz
      · exact mem_append_left _ hz
      · exact mem_append_right _ (mem_cons_of_mem _ hz)
  refine pairwise_insert hrest (fun y hy => h₃ y hy x (by simp)) fun y hy => ?_
  rcases mem_append.1 hy with hy | hy
  · exact hL y hy (h₆ y hy x mem_cons_self)
  · exact h₇ y hy

end Pairwise

/-! ### The line -/

/-- What is to be written next, in this order. -/
def SocketObject.front (x : SocketObject) : List WriteBuffer := x.direct.toList ++ (x.high ++ x.low)

/-- The part of the first message that has been written. -/
def written : List WriteBuffer → List UInt8
  | [] => []
  | b :: _ => b.packet.data.take b.ptr

/-- The messages of the socket in the order in which they are written; `done` have been. -/
def State.line (s : State) (done : List Packet) : List Packet :=
  done ++ (s.sock.front.map packet ++ s.queued)

/-- The socket is open, and `force_close` has not been called. -/
def State.Live (s : State) : Prop := s.sock.status.live = true ∧ ∀ id k, s.poll ≠ .closing id k

/-- In this step no worker writes a message for an id that the slot no longer has. -/
def State.Current (s : State) : Action → Prop
  | .run i _ => ∀ p, s.acts[i]? = some (.write p) → p.id = s.sock.socketId
  | _ => True

/-- `p` may come before `q`. -/
def Precedes (p q : Packet) : Prop :=
  p ≠ q ∧ (p.sender = q.sender → p.high = true → q.high = true → p.seq < q.seq)

/-- The stream of the socket, with the messages `done` written in full. -/
structure Streams (done : List Packet) (s : State) : Prop where
  wire : s.Live → s.wire = done.flatMap Packet.data ++ written s.sock.front
  whole : ∀ b ∈ s.sock.front.tail, b.ptr = 0
  low : ∀ b ∈ s.sock.low, b.ptr = 0 ∧ b.packet.high = false
  order : (s.line done).Pairwise Precedes
  mine : ∀ p ∈ s.line done, p.id = s.sock.socketId ∧ p ∈ s.accepted
  kept : ∀ p ∈ s.accepted, p.id = s.sock.socketId → p ∈ s.line done ∨ p ∈ s.dropped
  gone : ∀ p ∈ s.dropped, p ∈ s.accepted ∧ p ∉ s.line done
  sent : ∀ p, .send p ∈ s.pipe → p ∈ s.accepted
  fresh : s.sock.status = .alloced → done = []

/-- What is written of the first buffer is on the wire, and nothing of the others is. -/
structure Buffered (done : List Packet) (s : State) : Prop where
  wire : s.Live → s.wire = done.flatMap Packet.data ++ written s.sock.front
  whole : ∀ b ∈ s.sock.front.tail, b.ptr = 0
  low : ∀ b ∈ s.sock.low, b.ptr = 0 ∧ b.packet.high = false
  fresh : s.sock.status = .alloced → done = []

/-- The messages of the socket are those it had. -/
structure SameMessages (s t : State) : Prop where
  id : t.sock.socketId = s.sock.socketId
  accepted : t.accepted = s.accepted
  dropped : t.dropped = s.dropped

theorem written_eq_nil {l : List WriteBuffer} (h : ∀ b ∈ l, b.ptr = 0) : written l = [] := by
  cases l with
  | nil => rfl
  | cons b l => rw [written, h b mem_cons_self, take_zero]

/-- A message nothing of which has been written gets a place in front of others like it. -/
theorem written_insert {F G : List WriteBuffer} {b : WriteBuffer} (hb : b.ptr = 0)
    (hG : ∀ c ∈ G, c.ptr = 0) : written (F ++ b :: G) = written (F ++ G) := by
  cases F with
  | nil => rw [nil_append, nil_append, written_eq_nil hG, written, hb, take_zero]
  | cons c F => rfl

theorem whole_insert {F G : List WriteBuffer} {b : WriteBuffer} (hb : b.ptr = 0)
    (hG : ∀ c ∈ G, c.ptr = 0) (h : ∀ c ∈ (F ++ G).tail, c.ptr = 0) :
    ∀ c ∈ (F ++ b :: G).tail, c.ptr = 0 := by
  cases F with
  | nil => exact hG
  | cons d F =>
    intro c hc
    rcases mem_append.1 (show c ∈ F ++ b :: G from hc) with hc | hc
    · exact h c (mem_append_left _ hc)
    · rcases mem_cons.1 hc with rfl | hc
      · exact hb
      · exact hG c hc

namespace Streams

variable {s t : State} {done done' : List Packet} {i : ℕ} {p : Packet} {a : Action}

theorem init : Streams [] State.init where
  wire _ := rfl
  whole b h := by cases h
  low b h := by cases h
  order := List.Pairwise.nil
  mine p h := by cases h
  kept p h := by cases h
  gone p h := by cases h
  sent p h := by cases h
  fresh _ := rfl

variable (h : Streams done s)

include h

theorem crash (f : Fault) : Streams done (s.crash f) :=
  { h with }

theorem permute (hperm : (t.line done').Perm (s.line done))
    (horder : (t.line done').Pairwise Precedes) (hsame : SameMessages s t)
    (hpipe : ∀ p, .send p ∈ t.pipe → .send p ∈ s.pipe) (hbuf : Buffered done' t) :
    Streams done' t where
  __ := hbuf
  order := horder
  mine p hp := by rw [hsame.id, hsame.accepted]; exact h.mine p (hperm.mem_iff.1 hp)
  kept p hp hcur := by
    rw [hperm.mem_iff, hsame.dropped]
    exact h.kept p (hsame.accepted ▸ hp) (hcur.trans hsame.id)
  gone p hp := by
    rw [hperm.mem_iff, hsame.accepted]
    exact h.gone p (hsame.dropped ▸ hp)
  sent p hp := by rw [hsame.accepted]; exact h.sent p (hpipe p hp)

theorem same_line (hline : t.line done' = s.line done) (hsame : SameMessages s t)
    (hpipe : ∀ p, .send p ∈ t.pipe → .send p ∈ s.pipe) (hbuf : Buffered done' t) :
    Streams done' t :=
  h.permute (hline ▸ .refl _) (hline ▸ h.order) hsame hpipe hbuf

theorem keep (hfront : t.sock.front = s.sock.front) (hlow : t.sock.low = s.sock.low)
    (hqueued : t.queued = s.queued) (hsame : SameMessages s t)
    (hpipe : ∀ p, .send p ∈ t.pipe → .send p ∈ s.pipe) (hwire : t.wire = s.wire)
    (hlive : t.Live → s.Live) (hfresh : t.sock.status = .alloced → s.sock.status = .alloced) :
    Streams done t := by
  refine h.same_line (by rw [line, line, hfront, hqueued]) hsame hpipe
    ⟨fun hl => ?_, hfront ▸ h.whole, hlow ▸ h.low, fun hs => h.fresh (hfresh hs)⟩
  rw [hwire, hfront]
  exact h.wire (hlive hl)

theorem shrink {A D B : List Packet} (hs : s.line done = A ++ (D ++ B)) (ht : t.line done = A ++ B)
    (hid : t.sock.socketId = s.sock.socketId) (hacc : t.accepted = s.accepted)
    (hdrop : t.dropped = s.dropped ++ D) (hpipe : ∀ p, .send p ∈ t.pipe → .send p ∈ s.pipe) (hbuf : Buffered done t) :
    Streams done t := by
  have hsub : (t.line done).Sublist (s.line done) := by
    rw [hs, ht]
    exact (sublist_append_right D B).append_left A
  have hnew : ∀ p ∈ D, p ∉ t.line done := fun p hp hmem => by
    have horder := h.order
    rw [hs] at horder
    obtain ⟨_, hDB, hcross⟩ := pairwise_append.1 horder
    rw [ht] at hmem
    rcases mem_append.1 hmem with hA | hB
    · exact (hcross p hA p (mem_append_left _ hp)).1 rfl
    · exact ((pairwise_append.1 hDB).2.2 p hp p hB).1 rfl
  refine ⟨hbuf.wire, hbuf.whole, hbuf.low, h.order.sublist hsub, fun p hp => ?_,
    fun p hp hcur => ?_, fun p hp => ?_, fun p hp => ?_, hbuf.fresh⟩
  · rw [hid, hacc]
    exact h.mine p (hsub.subset hp)
  · rw [hdrop, ht]
    rcases h.kept p (hacc ▸ hp) (hcur.trans hid) with hp | hp
    · rw [hs] at hp
      simp only [mem_append] at hp ⊢
      tauto
    · exact .inr (mem_append_left _ hp)
  · rw [hdrop] at hp
    rw [hacc]
    rcases mem_append.1 hp with hp | hp
    · exact ⟨(h.gone p hp).1, fun hmem => (h.gone p hp).2 (hsub.subset hmem)⟩
    · refine ⟨(h.mine p ?_).2, hnew p hp⟩
      rw [hs]
      exact mem_append_right _ (mem_append_left _ hp)
  · rw [hacc]
    exact h.sent p (hpipe p hp)

theorem insert {A B : List Packet} (hs : s.line done = A ++ B) (ht : t.line done' = A ++ p :: B)
    (hnew : p ∉ s.accepted) (hcur : p.id = s.sock.socketId) (hA : ∀ q ∈ A, Precedes q p)
    (hB : ∀ q ∈ B, Precedes p q) (hid : t.sock.socketId = s.sock.socketId)
    (hacc : t.accepted = s.accepted ++ [p]) (hdrop : t.dropped = s.dropped)
    (hpipe : ∀ q, .send q ∈ t.pipe → .send q ∈ s.pipe ∨ q = p) (hbuf : Buffered done' t) :
    Streams done' t := by
  have hmem : ∀ q, q ∈ t.line done' ↔ q ∈ s.line done ∨ q = p := fun q => by
    rw [hs, ht]
    simp only [mem_append, mem_cons]
    tauto
  have hacc' : ∀ q, q ∈ t.accepted ↔ q ∈ s.accepted ∨ q = p := fun q => by
    rw [hacc, mem_append, mem_singleton]
  refine ⟨hbuf.wire, hbuf.whole, hbuf.low, ?_, fun q hq => ?_, fun q hq hcur' => ?_,
    fun q hq => ?_, fun q hq => ?_, hbuf.fresh⟩
  · rw [ht]
    exact pairwise_insert (hs ▸ h.order) hA hB
  · rw [hid, hacc']
    rcases (hmem q).1 hq with hq | rfl
    · exact ⟨(h.mine q hq).1, .inl (h.mine q hq).2⟩
    · exact ⟨hcur, .inr rfl⟩
  · rw [hmem, hdrop]
    rcases (hacc' q).1 hq with hq | rfl
    · rcases h.kept q hq (hcur'.trans hid) with hq | hq
      · exact .inl (.inl hq)
      · exact .inr hq
    · exact .inl (.inr rfl)
  · rw [hdrop] at hq
    rw [hmem, hacc']
    have hgone := h.gone q hq
    refine ⟨.inl hgone.1, ?_⟩
    rintro (hq | rfl)
    · exact hgone.2 hq
    · exact hnew hgone.1
  · rw [hacc']
    rcases hpipe q hq with hq | rfl
    · exact .inl (h.sent q hq)
    · exact .inr rfl

theorem foreign (hline : t.line done = s.line done) (hcur : p.id ≠ s.sock.socketId)
    (hsock : t.sock = s.sock) (hacc : t.accepted = s.accepted ++ [p])
    (hdrop : t.dropped = s.dropped) (hpipe : ∀ q, .send q ∈ t.pipe → .send q ∈ s.pipe ∨ q = p)
    (hpoll : t.poll = s.poll) (hwire : t.wire = s.wire) : Streams done t := by
  have hacc' : ∀ q, q ∈ t.accepted ↔ q ∈ s.accepted ∨ q = p := fun q => by
    rw [hacc, mem_append, mem_singleton]
  refine ⟨fun hl => ?_, hsock ▸ h.whole, hsock ▸ h.low, hline ▸ h.order, fun q hq => ?_,
    fun q hq hcur' => ?_, fun q hq => ?_, fun q hq => ?_, hsock ▸ h.fresh⟩
  · rw [hwire, hsock]
    refine h.wire ⟨hsock ▸ hl.1, hpoll ▸ hl.2⟩
  · rw [hline] at hq
    rw [hsock, hacc']
    exact ⟨(h.mine q hq).1, .inl (h.mine q hq).2⟩
  · rw [hline, hdrop]
    rw [hsock] at hcur'
    rcases (hacc' q).1 hq with hq | rfl
    · exact h.kept q hq hcur'
    · exact absurd hcur' hcur
  · rw [hdrop] at hq
    rw [hline, hacc']
    exact ⟨.inl (h.gone q hq).1, (h.gone q hq).2⟩
  · rw [hacc']
    rcases hpipe q hq with hq | rfl
    · exact .inl (h.sent q hq)
    · exact .inr rfl

theorem renewed (hs : Sane s) (hc : Calls s) (hst : s.sock.status = .invalid)
    (hid : t.sock.socketId = s.sock.socketId + 1) (hhigh : t.sock.high = s.sock.high)
    (hlow : t.sock.low = s.sock.low) (hdirect : t.sock.direct = none) (hwire : t.wire = [])
    (hacc : t.accepted = s.accepted) (hdrop : t.dropped = s.dropped) (hpipe : t.pipe = s.pipe) :
    Streams [] t := by
  obtain ⟨hh, hl, _⟩ := hs.emptied (by rw [hst]; rfl)
  have hfront : t.sock.front = [] := by
    rw [front, hdirect, hhigh, hlow, hh, hl]
    rfl
  have hlt : s.known < t.sock.socketId := by
    rw [hid]
    exact Nat.lt_succ_of_le hs.tracked.known
  have hline : t.line [] = [] := by
    rw [line, hfront, queued_fresh hs.tracked hlt hpipe]
    rfl
  refine ⟨fun _ => ?_, ?_, ?_, ?_, ?_, fun p hp hcur => ?_, fun p hp => ?_, fun p hp => ?_,
    fun _ => rfl⟩
  · rw [hwire, hfront]
    rfl
  · rw [hfront]
    exact nofun
  · rw [hlow, hl]
    exact nofun
  · rw [hline]
    exact List.Pairwise.nil
  · rw [hline]
    exact nofun
  · rw [hacc] at hp
    have := (hc.past p hp).1
    omega
  · rw [hline, hacc]
    exact ⟨(h.gone p (hdrop ▸ hp)).1, not_mem_nil⟩
  · rw [hacc]
    exact h.sent p (hpipe ▸ hp)

omit h

/-! ### The socket thread -/

theorem live_of_poll {q : PollPc} (hl : t.Live) (hst : t.sock.status.live = s.sock.status.live)
    (hp : s.poll = q) (hq : ∀ id k, q ≠ .closing id k) : s.Live :=
  ⟨hst ▸ hl.1, hp ▸ hq⟩

theorem sent_of_skips {l l' : List Cmd} (h : Skips l l') {c : Cmd} (hc : c ∈ l') : c ∈ l := by
  cases h with
  | same => exact hc
  | pop => exact mem_cons_of_mem _ hc

theorem command (h : Streams done s) {c : Cmd} (hsock : t.sock = s.sock)
    (hpipe : t.pipe = s.pipe ++ [c]) (hpoll : t.poll = s.poll) (hwire : t.wire = s.wire)
    (hacc : t.accepted = s.accepted) (hdrop : t.dropped = s.dropped) (hc : ∀ q, c ≠ .send q) :
    Streams done t := by
  have hid : t.sock.socketId = s.sock.socketId := by rw [hsock]
  have hqueued : t.queued = s.queued := by
    have hnone : c.packet? s.sock.socketId = none := by
      cases c with
      | send q => exact absurd rfl (hc q)
      | _ => rfl
    rw [queued_push hid hpipe, hnone]
    exact append_nil _
  refine h.keep (by rw [hsock]) (by rw [hsock]) hqueued ⟨hid, hacc, hdrop⟩ (fun q hq => ?_) hwire
    (fun hl => ⟨hsock ▸ hl.1, hpoll ▸ hl.2⟩) (by rw [hsock]; exact id)
  rw [hpipe] at hq
  rcases mem_append.1 hq with hq | hq
  · exact hq
  · exact absurd (mem_singleton.1 hq).symm (hc q)

section

variable {b : WriteBuffer} {f : List WriteBuffer} (h : Streams done s)
  (hf : s.sock.front = b :: f) (hlow : ∀ b ∈ t.sock.low, b ∈ s.sock.low)
  (hsame : SameMessages s t) (hst : t.sock.status = s.sock.status) (hpipe : t.pipe = s.pipe)
  (hlive : s.Live)
include h hf hlow hsame hst hpipe hlive

theorem wrote (hf' : t.sock.front = f) (hwire : t.wire = s.wire ++ b.packet.data.drop b.ptr) :
    Streams (done ++ [b.packet]) t := by
  have hzero : ∀ b ∈ f, b.ptr = 0 := by
    have := h.whole
    rwa [hf] at this
  have hline : t.line (done ++ [b.packet]) = s.line done := by
    rw [line, line, hf, hf', queued_congr hsame.id hpipe]
    simp
  refine h.same_line hline hsame (fun p hp => hpipe ▸ hp)
    ⟨fun _ => ?_, fun b hb => hzero b ?_, fun b hb => h.low b (hlow b hb), fun hs => ?_⟩
  · rw [hwire, h.wire hlive, hf, hf', written_eq_nil hzero]
    simp [written]
  · rw [hf'] at hb
    exact mem_of_mem_tail hb
  · rw [hst] at hs
    have hl := hlive.1
    rw [hs] at hl
    cases hl

theorem wrotePart {n : ℕ} (hf' : t.sock.front = ⟨b.packet, b.ptr + n⟩ :: f)
    (hwire : t.wire = s.wire ++ (b.packet.data.drop b.ptr).take n) : Streams done t := by
  have hline : t.line done = s.line done := by
    rw [line, line, hf, hf', queued_congr hsame.id hpipe]
    rfl
  refine h.same_line hline hsame (fun p hp => hpipe ▸ hp)
    ⟨fun _ => ?_, ?_, fun b hb => h.low b (hlow b hb), fun hs => h.fresh (hst ▸ hs)⟩
  · rw [hwire, h.wire hlive, hf, hf', written, written, take_add, append_assoc]
  · have := h.whole
    rw [hf] at this
    rw [hf']
    exact this

end

variable {rest : List Cmd}

include h

section

variable (hp : s.pipe = .send p :: rest) (hlive : s.Live) (hcur : p.id = s.sock.socketId)
  (hdirect : t.sock.direct = s.sock.direct) (hsame : SameMessages s t)
  (hst : t.sock.status = s.sock.status) (hpipe : t.pipe = rest) (hwire : t.wire = s.wire)
include hp hlive hcur hdirect hsame hst hpipe hwire

theorem appendedHigh (hhigh : t.sock.high = s.sock.high ++ [⟨p, 0⟩])
    (hlow : t.sock.low = s.sock.low) : Streams done t := by
  have hq := queued_pop hp hcur hsame.id hpipe
  have hs : s.line done = (done ++ (s.sock.direct.toList ++ s.sock.high).map packet) ++
      (s.sock.low.map packet ++ p :: t.queued) := by
    simp [line, front, hq]
  have ht : t.line done = (done ++ (s.sock.direct.toList ++ s.sock.high).map packet) ++
      p :: (s.sock.low.map packet ++ t.queued) := by
    simp [line, front, hdirect, hhigh, hlow]
  have hfront : t.sock.front = (s.sock.direct.toList ++ s.sock.high) ++ ⟨p, 0⟩ :: s.sock.low := by
    simp [front, hdirect, hhigh, hlow]
  have hfront' : s.sock.front = (s.sock.direct.toList ++ s.sock.high) ++ s.sock.low :=
    (append_assoc _ _ _).symm
  have hzero : ∀ b ∈ s.sock.low, b.ptr = 0 := fun b hb => (h.low b hb).1
  refine h.permute ?_ ?_ hsame (fun q hq => ?_)
    ⟨fun _ => ?_, ?_, hlow ▸ h.low, fun hs => h.fresh (hst ▸ hs)⟩
  · rw [hs, ht]
    exact List.Perm.append_left _ perm_middle.symm
  · rw [ht]
    refine pairwise_shift (hs ▸ h.order) fun q hq hqp => ⟨hqp.1.symm, fun _ _ hhigh => ?_⟩
    obtain ⟨b, hb, rfl⟩ := mem_map.1 hq
    rw [(h.low b hb).2] at hhigh
    cases hhigh
  · rw [hp]
    exact mem_cons_of_mem _ (hpipe ▸ hq)
  · rw [hwire, h.wire hlive, hfront, hfront', written_insert rfl hzero]
  · rw [hfront]
    exact whole_insert rfl hzero (hfront' ▸ h.whole)

theorem appendedLow (hlowp : p.high = false) (hhigh : t.sock.high = s.sock.high)
    (hlow : t.sock.low = s.sock.low ++ [⟨p, 0⟩]) : Streams done t := by
  have hq := queued_pop hp hcur hsame.id hpipe
  have hfront : t.sock.front = s.sock.front ++ [⟨p, 0⟩] := by
    simp [front, hdirect, hhigh, hlow]
  have hline : t.line done = s.line done := by
    simp [line, hfront, hq]
  refine h.same_line hline hsame (fun q hq => ?_)
    ⟨fun _ => ?_, ?_, ?_, fun hs => h.fresh (hst ▸ hs)⟩
  · rw [hp]
    exact mem_cons_of_mem _ (hpipe ▸ hq)
  · rw [hwire, h.wire hlive, hfront, written_insert (G := []) rfl nofun,
      append_nil]
  · rw [hfront]
    exact whole_insert rfl nofun (by rw [append_nil]; exact h.whole)
  · rw [hlow]
    intro b hb
    rcases mem_append.1 hb with hb | hb
    · exact h.low b hb
    · rw [mem_singleton.1 hb]
      exact ⟨rfl, hlowp⟩

end

theorem appended (hs : Sane s) (hp : s.pipe = .send p :: rest) (hi : s.poll = .idle)
    (hr : s.sock.refuses p.id = false) (wr : Bool) (ws : ℤ) (es : List (SocketEvent × ℕ)) :
    Streams done { s with
      pipe := rest
      sock := { s.sock.append (s.sock.isWriteBufferEmpty || p.high) p with
        writing := wr, warnSize := ws }
      events := s.events ++ es
      poll := .dec p.id } := by
  have hv := (refuses_eq_false hr).1
  have hcur := (isInvalid_eq_false hv).1.symm
  have hlive : s.Live := ⟨hs.tracked.head_live hp rfl hv, by rw [hi]; exact nofun⟩
  cases hh : s.sock.isWriteBufferEmpty || p.high with
  | true => exact h.appendedHigh hp hlive hcur rfl ⟨rfl, rfl, rfl⟩ rfl rfl rfl rfl rfl
  | false =>
    have hlowp : p.high = false := by
      rw [Bool.or_eq_false_iff] at hh
      exact hh.2
    exact h.appendedLow hp hlive hcur rfl ⟨rfl, rfl, rfl⟩ rfl rfl rfl hlowp rfl rfl

theorem opened (hs : Sane s) {k : OpenKind} {id : ℕ} (hp : s.pipe = .opening k id :: rest)
    (hid : t.sock.socketId = id) (hhigh : t.sock.high = s.sock.high)
    (hlow : t.sock.low = s.sock.low)
    (hdirect : t.sock.direct = none ∨ t.sock.direct = s.sock.direct) (hwire : t.Live → t.wire = [])
    (hpipe : t.pipe = rest) (hacc : t.accepted = s.accepted) (hdrop : t.dropped = s.dropped) :
    Streams done t := by
  obtain ⟨ha, rfl, _⟩ := hs.tracked.head_open hp
  obtain ⟨hh, hl, hd⟩ := hs.emptied (by rw [ha]; rfl)
  have hnone : t.sock.direct = none := by
    rcases hdirect with hdirect | hdirect
    · exact hdirect
    · exact hdirect.trans hd
  have hfront : t.sock.front = [] := by
    rw [front, hnone, hhigh, hlow, hh, hl]
    rfl
  have hfront' : s.sock.front = [] := by
    rw [front, hd, hh, hl]
    rfl
  have hline : t.line done = s.line done := by
    rw [line, line, hfront, hfront', queued_pop_open hp hid hpipe]
  refine h.same_line hline ⟨hid, hacc, hdrop⟩ (fun q hq => ?_)
    ⟨fun hlive => ?_, by rw [hfront]; exact nofun, hlow ▸ h.low, fun _ => h.fresh ha⟩
  · rw [hp]
    exact mem_cons_of_mem _ (hpipe ▸ hq)
  · rw [hwire hlive, h.fresh ha, hfront]
    rfl

/-- `force_close` frees the lists. -/
theorem closes (hdirect : t.sock.direct = s.sock.direct) (hhigh : t.sock.high = [])
    (hlow : t.sock.low = []) (hid : t.sock.socketId = s.sock.socketId) (hpipe : Skips s.pipe t.pipe)
    (hacc : t.accepted = s.accepted)
    (hdrop : t.dropped = s.dropped ++ (s.sock.high ++ s.sock.low).map packet)
    (hlive : ¬ t.Live) (hst : t.sock.status ≠ .alloced) : Streams done t := by
  have hfront : t.sock.front = s.sock.direct.toList := by
    rw [front, hdirect, hhigh, hlow]
    exact append_nil _
  refine h.shrink (A := done ++ s.sock.direct.toList.map packet) (B := s.queued)
    ?_ ?_ hid hacc hdrop (fun q hq => sent_of_skips hpipe hq)
    ⟨fun hl => absurd hl hlive, ?_, by rw [hlow]; exact nofun, fun hs => absurd hs hst⟩
  · simp [line, front]
  · rw [line, hfront, queued_skips hid hpipe, append_assoc]
  · rw [hfront]
    cases s.sock.direct <;> exact nofun

/-- `force_close` frees the direct write buffer. -/
theorem closed (hh : s.sock.high = []) (hl : s.sock.low = []) (hdirect : t.sock.direct = none)
    (hhigh : t.sock.high = s.sock.high) (hlow : t.sock.low = s.sock.low)
    (hid : t.sock.socketId = s.sock.socketId) (hpipe : t.pipe = s.pipe)
    (hacc : t.accepted = s.accepted)
    (hdrop : t.dropped = s.dropped ++ s.sock.direct.toList.map packet)
    (hst : t.sock.status = .invalid) : Streams done t := by
  have hfront : t.sock.front = [] := by
    rw [front, hdirect, hhigh, hlow, hh, hl]
    rfl
  refine h.shrink (A := done) (B := s.queued) ?_ ?_ hid hacc hdrop (fun q hq => hpipe ▸ hq)
    ⟨fun hlive => ?_, by rw [hfront]; exact nofun, hlow ▸ h.low, fun hs => ?_⟩
  · simp [line, front, hh, hl]
  · rw [line, hfront, queued_congr hid hpipe]
    rfl
  · have := hlive.1
    rw [hst] at this
    cases this
  · rw [hst] at hs
    cases hs

theorem keep_skips (hfront : t.sock.front = s.sock.front) (hlow : t.sock.low = s.sock.low)
    (hpipe : Skips s.pipe t.pipe) (hsame : SameMessages s t) (hwire : t.wire = s.wire)
    (hlive : t.Live → s.Live) (hfresh : t.sock.status = .alloced → s.sock.status = .alloced) :
    ∃ done', Streams done' t :=
  ⟨done, h.keep hfront hlow (queued_skips hsame.id hpipe) hsame (fun _ => sent_of_skips hpipe)
    hwire hlive hfresh⟩

/-- **The stream** through a step of the socket thread. -/
theorem polls (hs : Sane s) (hc : Calls s) (ht : Polls s a t) (hf : t.fault = none) :
    ∃ done', Streams done' t := by
  have hsending : s.poll = .sendHigh ∨ s.poll = .sendLow → ∀ b f, s.sock.front = b :: f → s.Live := by
    intro hp b f hfront
    refine ⟨?_, fun id k hk => by rw [hk] at hp; rcases hp with hp | hp <;> cases hp⟩
    by_contra hno
    obtain ⟨hh, hl, hd⟩ := hs.emptied (by simpa using hno)
    rw [front, hh, hl, hd] at hfront
    cases hfront
  cases ht with
  | crash hf' => exact absurd hf hf'
  | flags hp hi =>
    exact h.keep_skips rfl rfl hp ⟨rfl, rfl, rfl⟩ rfl (fun hl => live_of_poll hl rfl hi nofun) id
  | entered hp hi st hst =>
    refine h.keep_skips rfl rfl hp ⟨rfl, rfl, rfl⟩ rfl (fun hl => live_of_poll hl ?_ hi nofun)
      fun ha => ?_
    · rcases hst with ⟨hs, rfl⟩ | ⟨hs, rfl⟩ | ⟨hs, rfl⟩ <;> rw [hs] <;> rfl
    · rw [show st = .alloced from ha] at hst
      rcases hst with ⟨_, hs⟩ | ⟨_, hs⟩ | ⟨_, hs⟩ <;> cases hs
  | opened hp =>
    exact ⟨done, h.opened hs hp rfl rfl rfl (.inl rfl) (fun _ => rfl) rfl rfl rfl⟩
  | openFailed hp =>
    exact ⟨done, h.opened hs hp (hs.tracked.head_open hp).2.1.symm rfl rfl (.inr rfl)
      (fun hl => absurd hl.1 nofun) rfl rfl rfl⟩
  | openUndone hp =>
    exact ⟨done, h.opened hs hp rfl rfl rfl (.inl rfl) (fun hl => absurd hl.1 nofun) rfl rfl rfl⟩
  | appended hp hi hr wr ws es => exact ⟨done, h.appended hs hp hi hr wr ws es⟩
  | closes hp k st wr hl hst hk =>
    refine ⟨done, h.closes rfl rfl rfl rfl hp rfl rfl (fun hlive => hlive.2 _ _ rfl) fun ha => ?_⟩
    rcases hst with rfl | ⟨_, rfl⟩
    · rw [show s.sock.status = .alloced from ha] at hl
      cases hl
    · cases ha
  | closing _ hp hi =>
    exact h.keep_skips rfl rfl (hp ▸ .pop rfl rfl) ⟨rfl, rfl, rfl⟩ rfl
      (fun hl => live_of_poll hl rfl hi nofun) id
  | closingRead _ hp hi hv =>
    exact h.keep_skips rfl rfl (hp ▸ .pop rfl rfl) ⟨rfl, rfl, rfl⟩ rfl
      (fun hl => live_of_poll hl (hs.tracked.head_live hp rfl hv).symm hi nofun) nofun
  | closedRead hi htype hv =>
    have ha : s.sock.status ≠ .alloced := fun ha => by
      rw [hs.tracked.untyped ha] at htype
      cases htype
    exact h.keep_skips rfl rfl (.same _) ⟨rfl, rfl, rfl⟩ rfl
      (fun hl => live_of_poll hl (Sane.live_of_ne hv ha).symm hi nofun) nofun
  | flushes hi hm =>
    exact h.keep_skips (by simp [front]) rfl (.same _) ⟨rfl, rfl, rfl⟩ rfl
      (fun hl => live_of_poll hl rfl hi nofun) id
  | spins => exact ⟨done, h⟩
  | ends hp =>
    refine h.keep_skips rfl rfl (.same _) ⟨rfl, rfl, rfl⟩ rfl (fun hl => ?_) id
    rcases hp with hp | hp <;> exact live_of_poll hl rfl hp nofun
  | @wroteHigh b rest hp hh =>
    have hfront : s.sock.front = b :: (rest ++ s.sock.low) := by
      rw [front, hs.flushing (.inl hp), hh]
      rfl
    refine ⟨_, h.wrote hfront (fun _ => id) ⟨rfl, rfl, rfl⟩ rfl rfl
      (hsending (.inl hp) _ _ hfront) ?_ rfl⟩
    show s.sock.direct.toList ++ (rest ++ s.sock.low) = rest ++ s.sock.low
    rw [hs.flushing (.inl hp)]
    rfl
  | @partHigh b rest n hp hh =>
    have hfront : s.sock.front = b :: (rest ++ s.sock.low) := by
      rw [front, hs.flushing (.inl hp), hh]
      rfl
    refine ⟨_, h.wrotePart hfront (fun _ => id) ⟨rfl, rfl, rfl⟩ rfl rfl
      (hsending (.inl hp) _ _ hfront) ?_ rfl⟩
    show s.sock.direct.toList ++ (⟨b.packet, b.ptr + n⟩ :: rest ++ s.sock.low) = _
    rw [hs.flushing (.inl hp)]
    rfl
  | @wroteLow b rest hp hl =>
    have hfront : s.sock.front = b :: rest := by
      rw [front, hs.flushing (.inr hp), hs.flushingLow hp, hl]
      rfl
    refine ⟨_, h.wrote hfront (fun c hc => ?_) ⟨rfl, rfl, rfl⟩ rfl rfl
      (hsending (.inr hp) _ _ hfront) ?_ rfl⟩
    · rw [hl]
      exact mem_cons_of_mem _ hc
    · show s.sock.direct.toList ++ (s.sock.high ++ rest) = rest
      rw [hs.flushing (.inr hp), hs.flushingLow hp]
      rfl
  | @partLow b rest n hp hl hh =>
    have hfront : s.sock.front = b :: rest := by
      rw [front, hs.flushing (.inr hp), hh, hl]
      rfl
    refine ⟨_, h.wrotePart hfront (fun c hc => ?_) ⟨rfl, rfl, rfl⟩ rfl rfl
      (hsending (.inr hp) _ _ hfront) ?_ rfl⟩
    · rw [hl]
      exact mem_cons_of_mem _ hc
    · show s.sock.direct.toList ++ ([⟨b.packet, b.ptr + n⟩] ++ rest) = _
      rw [hs.flushing (.inr hp)]
      rfl
  | closedWrite hp hc hr he =>
    have hst := hs.live_of_data he
    refine h.keep_skips rfl rfl (.same _) ⟨rfl, rfl, rfl⟩ rfl (fun hl => ?_) nofun
    rcases hp with hp | hp <;> exact live_of_poll hl hst.symm hp nofun
  | closed hp =>
    obtain ⟨_, _, hh, hl⟩ := hs.closing _ _ hp
    exact ⟨done, h.closed hh hl (by simp) (by simp) (by simp) (by simp) (by simp) (by simp)
      (by simp) (by simp)⟩
  | toLow hp | decremented hp | skipped hp =>
    exact h.keep_skips rfl rfl (.same _) ⟨rfl, rfl, rfl⟩ rfl
      (fun hl => live_of_poll hl rfl hp nofun) id
  | accepts hi hv o =>
    have hd := (hs.emptied (by rw [hv]; rfl)).2.2
    refine ⟨[], ?_⟩
    cases o with
    | addFailed => exact h.renewed hs hc hv rfl rfl rfl hd rfl rfl rfl rfl
    | _ => exact h.renewed hs hc hv rfl rfl rfl rfl rfl rfl rfl rfl

omit h

/-! ### Workers -/

theorem precedes_of_accepted {q : Packet} (hc : Calls s) {pc : Pc} (hp : s.acts[i]? = some pc)
    (hpend : pc.pending = some p) (hq : q ∈ s.accepted) : Precedes q p := by
  have hcall := hc.calls i pc hp p hpend
  refine ⟨fun heq => hc.not_mem hp hpend (heq ▸ hq), fun hsender _ _ => ?_⟩
  exact hcall.later q hq (hsender.trans hcall.sender)

variable (h : Streams done s)

include h

theorem precedes_pending (hc : Calls s) (hr : Ready s) (hp : s.acts[i]? = some (.write p))
    {q : Packet} (hq : q ∈ s.sock.front.map packet ++ s.queued) : Precedes p q := by
  have hready := hr i _ hp
  have hsender := (hc.calls i _ hp p rfl).sender
  refine ⟨fun heq => ?_, fun hs _ hhigh => ?_⟩
  · have hmem : q ∈ s.line done := mem_append_right _ hq
    exact hc.not_mem hp rfl (heq ▸ (h.mine q hmem).2)
  · rw [hsender] at hs
    rcases mem_append.1 hq with hq | hq
    · obtain ⟨b, hb, rfl⟩ := mem_map.1 hq
      rw [front, hready.free le_rfl] at hb
      rcases mem_append.1 (show b ∈ s.sock.high ++ s.sock.low from hb) with hb | hb
      · exact absurd hs.symm (hready.clear (by simp [Pc.stage]) b hb).2
      · rw [(h.low b hb).2] at hhigh
        cases hhigh
    · exact absurd hs.symm (hready.absent (by simp [Pc.stage]) q hq)

theorem pending_unwritten (hr : Ready s) (hp : s.acts[i]? = some (.write p)) :
    ∀ b ∈ s.sock.front, b.ptr = 0 := by
  have hready := hr i _ hp
  intro b hb
  rw [front, hready.free le_rfl] at hb
  rcases mem_append.1 (show b ∈ s.sock.high ++ s.sock.low from hb) with hb | hb
  · exact (hready.clear (by simp [Pc.stage]) b hb).1
  · exact (h.low b hb).1

theorem pushed (hc : Calls s) (hp : s.acts[i]? = some (.push false p)) (hsock : t.sock = s.sock)
    (hpipe : t.pipe = s.pipe ++ [.send p]) (hpoll : t.poll = s.poll) (hwire : t.wire = s.wire)
    (hacc : t.accepted = s.accepted ++ [p]) (hdrop : t.dropped = s.dropped) : Streams done t := by
  have hid : t.sock.socketId = s.sock.socketId := by rw [hsock]
  have hqueued := queued_push hid hpipe
  have hsent : ∀ q, .send q ∈ t.pipe → .send q ∈ s.pipe ∨ q = p := by
    rw [hpipe]
    simp
  by_cases hcur : p.id = s.sock.socketId
  · have hline : t.line done = s.line done ++ [p] := by
      rw [show Cmd.packet? s.sock.socketId (.send p) = some p from if_pos hcur] at hqueued
      simp [line, hsock, hqueued]
    refine h.insert (append_nil _).symm hline (hc.not_mem hp rfl) hcur
      (fun q hq => precedes_of_accepted hc hp rfl (h.mine q hq).2) nofun hid hacc hdrop hsent
      ⟨fun hl => ?_, hsock ▸ h.whole, hsock ▸ h.low, hsock ▸ h.fresh⟩
    rw [hwire, hsock]
    exact h.wire ⟨hsock ▸ hl.1, hpoll ▸ hl.2⟩
  · refine h.foreign ?_ hcur hsock hacc hdrop hsent hpoll hwire
    rw [show Cmd.packet? s.sock.socketId (.send p) = none from if_neg hcur] at hqueued
    simp [line, hsock, hqueued]

/-- **The stream** through a step of a worker. -/
theorem works (hs : Sane s) (hc : Calls s) (hready : Ready s) {pc : Pc} {r : WriteResult}
    (hp : s.acts[i]? = some pc) (hw : Works s i r pc t)
    (hok : ∀ p, pc = .write p → p.id = s.sock.socketId) : ∃ done', Streams done' t := by
  have halloced : ∀ p, s.acts[i]? = some (.write p) → s.sock.status ≠ .alloced := fun p hp ha => by
    have hlive := hs.writes i _ hp
    rw [Pc.Writes, ha] at hlive
    cases hlive
  cases hw with
  | moves | locked | returned | unlocked | counted =>
    exact h.keep_skips rfl rfl (.same _) ⟨rfl, rfl, rfl⟩ rfl id id
  | opened | triggers =>
    exact ⟨done, h.command rfl rfl rfl rfl rfl rfl (by simp)⟩
  | @wrote p hn =>
    have hzero := h.pending_unwritten hready hp
    refine ⟨done ++ [p], h.insert rfl ?_ (hc.not_mem hp rfl) (hok p rfl) (fun q hq => ?_)
      (fun q hq => h.precedes_pending hc hready hp hq) rfl rfl rfl (fun q => .inl)
      ⟨fun hl => ?_, h.whole, h.low, fun ha => absurd ha (halloced p hp)⟩⟩
    · simp [line, goto, queued]
    · exact precedes_of_accepted hc hp rfl (h.mine q (mem_append_left _ hq)).2
    · show s.wire ++ p.data = _
      rw [h.wire hl, written_eq_nil hzero]
      show _ = _ ++ written s.sock.front
      rw [written_eq_nil hzero]
      simp
  | @wrotePart p n hr hn =>
    have hzero := h.pending_unwritten hready hp
    have hnone := (hready i _ hp).free le_rfl
    have hfront : s.sock.front = s.sock.high ++ s.sock.low := by
      rw [front, hnone]
      rfl
    refine ⟨done, h.insert rfl ?_ (hc.not_mem hp rfl) (hok p rfl) (fun q hq => ?_)
      (fun q hq => h.precedes_pending hc hready hp hq) rfl rfl rfl (fun q => .inl)
      ⟨fun hl => ?_, ?_, h.low, fun ha => absurd ha (halloced p hp)⟩⟩
    · rw [hfront]
      rfl
    · exact precedes_of_accepted hc hp rfl (h.mine q (mem_append_left _ hq)).2
    · show s.wire ++ p.data.take n = done.flatMap Packet.data ++ p.data.take n
      rw [h.wire hl, written_eq_nil hzero, append_nil]
    · show ∀ b ∈ s.sock.high ++ s.sock.low, b.ptr = 0
      rw [← hfront]
      exact hzero
  | pushed p => exact ⟨done, h.pushed hc hp rfl rfl rfl rfl rfl rfl⟩

/-- **The stream** through any step. -/
theorem acts (hs : Sane s) (hc : Calls s) (hready : Ready s) (ht : Acts s a t) (hf : t.fault = none)
    (hok : s.Current a) : ∃ done', Streams done' t := by
  cases ht with
  | thread | send =>
    exact h.keep_skips rfl rfl (.same _) ⟨rfl, rfl, rfl⟩ rfl id id
  | alloc hp hst =>
    have hd := (hs.emptied (by rw [hst]; rfl)).2.2
    exact ⟨[], h.renewed hs hc hst rfl rfl rfl hd rfl rfl rfl rfl⟩
  | run hp hw =>
    refine h.works hs hc hready hp hw fun p heq => ?_
    subst heq
    exact hok p hp
  | @control c hcontrol =>
    refine ⟨done, h.command rfl rfl rfl rfl rfl rfl ?_⟩
    rintro q rfl
    cases hcontrol
  | poll hp => exact h.polls hs hc hp hf

omit h

end Streams

/-- `State.Counted` and `State.Current`. -/
def State.InOrder (s : State) (a : Action) : Prop := s.Counted a ∧ s.Current a

/-- **The stream of a socket**: as long as the socket is open, the bytes written are the messages
`done` and a part of the first pending one, nothing has been written of the others; no message
stands in the line twice, every sender's high-priority messages stand in the order of its calls,
and the line has exactly the messages that have been accepted for the socket and not refused.
This holds in every run in which sockets are opened before data is counted and nobody writes for
an id that the slot no longer has. -/
theorem stream_in_order {s : State} (h : slot.ReachableVia State.InOrder s) (hl : s.Live) :
    ∃ done : List Packet,
      s.wire = done.flatMap Packet.data ++ written s.sock.front ∧
      (∀ b ∈ s.sock.front.tail, b.ptr = 0) ∧
      (s.line done).Nodup ∧
      (s.line done).Pairwise
        (fun p q => p.sender = q.sender → p.high = true → q.high = true → p.seq < q.seq) ∧
      (∀ p ∈ s.line done, p ∈ s.accepted ∧ p.id = s.sock.socketId) ∧
      ∀ p ∈ s.accepted, p.id = s.sock.socketId → (p ∈ s.line done ↔ p ∉ s.dropped) := by
  have hinv : Sane s ∧ Counts False s ∧ Calls s ∧ Ready s ∧ ∃ done, Streams done s := by
    refine h.invariant
      (I := fun s => Sane s ∧ Counts False s ∧ Calls s ∧ Ready s ∧ ∃ done, Streams done s)
      ⟨Sane.init, Counts.init, Calls.init, Ready.init, [], Streams.init⟩
      fun s a t ⟨hs, hn, hc, hr, done, hd⟩ hok ht => ?_
    refine ⟨hs.step ht, (hn.step hs ht hok.1 nofun).1, ?_⟩
    obtain ⟨_, u, hu, ⟨hf, rfl⟩ | ⟨f, _, rfl⟩⟩ := step_cases ht
    · exact ⟨hc.acts hs.tracked hu hf, hr.acts hs hn hc hu hf, hd.acts hs hc hr hu hf hok.2⟩
    · exact ⟨hc.crash f, hr.crash f, done, hd.crash f⟩
  obtain ⟨_, _, _, _, done, hd⟩ := hinv
  refine ⟨done, hd.wire hl, hd.whole, hd.order.imp And.left, hd.order.imp And.right,
    fun p hp => (hd.mine p hp).symm, fun p hp hcur => ⟨fun hmem hdrop => ?_, fun hdrop => ?_⟩⟩
  · exact (hd.gone p hdrop).2 hmem
  · exact (hd.kept p hp hcur).resolve_right hdrop

/-- A message is sent through the pipe, and half of it is written. -/
theorem stream_in_order_of_half : ∃ s, slot.ReachableVia State.InOrder s ∧ s.Live ∧
    s.wire = [7] ∧ ∃ done : List Packet,
      s.wire = done.flatMap Packet.data ++ written s.sock.front ∧ (s.line done).Nodup := by
  have h0 : slot.ReachableVia State.InOrder init := .init
  have h14 := h0.next .thread ⟨trivial, trivial⟩ rfl
    |>.next (.alloc 0 .connect) ⟨trivial, trivial⟩ rfl |>.next (.run 0 .again) ⟨nofun, nofun⟩ rfl
    |>.next (.command .done) ⟨trivial, trivial⟩ rfl
    |>.next (.send 0 1 false [7, 8]) ⟨trivial, trivial⟩ rfl
    |>.next (.run 0 .again) ⟨nofun, nofun⟩ rfl |>.next (.run 0 .again) ⟨nofun, nofun⟩ rfl
    |>.next (.run 0 .again) ⟨fun _ _ _ => rfl, nofun⟩ rfl |>.next (.run 0 .again) ⟨nofun, nofun⟩ rfl
    |>.next (.run 0 .again) ⟨nofun, nofun⟩ rfl |>.next (.command .done) ⟨trivial, trivial⟩ rfl
    |>.next (.poll .again .done) ⟨trivial, trivial⟩ rfl
    |>.next (.event ⟨false, true, false, false⟩ .done .retry) ⟨trivial, trivial⟩ rfl
    |>.next (.poll (.bytes 1) .done) ⟨trivial, trivial⟩ rfl
  obtain ⟨done, hwire, _, hnodup, _⟩ := stream_in_order h14 ⟨rfl, nofun⟩
  exact ⟨_, h14, ⟨rfl, nofun⟩, rfl, done, hwire, hnodup⟩

/-- Worker 0 sends before the opening command has been handled, and its message takes the count of
worker 1's first message off.  Worker 1 finds a count of zero and writes its second message
directly while the first one is in the pipe. -/
def overtakingRun : List Action := List.flatten [
  [.thread, .thread, .thread, .alloc 0 .connect, .run 0 .again, .send 0 1 true [1]],
  replicate 10 (.run 0 .again),
  [.command .inProgress, .send 1 1 true [2]],
  replicate 10 (.run 1 .again),
  [.command .done, .poll .again .done, .run 1 .again,
    .event ⟨false, true, false, false⟩ .done .retry,
    .event ⟨false, true, false, false⟩ .done .retry, .poll (.bytes 1) .done, .poll .again .done,
    .send 1 1 true [3]],
  replicate 15 (.run 1 .again),
  [.run 1 (.bytes 1), .run 1 .again, .send 2 1 false [4]],
  replicate 4 (.run 2 .again),
  [.command .done, .poll .again .done, .event ⟨false, true, false, false⟩ .done .retry,
    .poll (.bytes 1) .done]]

/-- Worker 1 has checked the id of its message when the slot, already closed, is opened again. -/
def staleRun : List Action := List.flatten [
  [.thread, .thread, .alloc 0 .connect, .run 0 .again, .command .done, .send 1 1 true [9]],
  replicate 8 (.run 1 .again),
  [.control (.close 1 true), .command .done, .poll .again .done, .run 1 .again, .run 1 .again,
    .alloc 0 .connect, .run 0 .again, .command .done],
  replicate 5 (.run 1 .again),
  [.run 1 (.bytes 1)]]

/-- In the first run the second message of a sender is written before its first one; in the
second run a message for socket 1 is written to socket 2. -/
theorem direct_write_out_of_order :
    (∃ s, slot.exec init overtakingRun = some s ∧ s.fault = none ∧ s.Live ∧
      ⟨1, 1, 1, true, [2]⟩ ∈ s.accepted ∧ ⟨1, 1, 2, true, [3]⟩ ∈ s.accepted ∧
      s.wire = [1, 3, 2]) ∧
    ∃ s, slot.exec init staleRun = some s ∧ s.fault = none ∧ s.Live ∧
      s.sock.socketId = 2 ∧ s.accepted = [⟨1, 1, 0, true, [9]⟩] ∧ s.wire = [9] := by
  constructor
  · obtain ⟨s, hs, hf, hst, hp, h₁, h₂, hw⟩ := slot.exists_exec overtakingRun
      (fun s => s.fault = none ∧ s.sock.status = .connected ∧ s.poll = .sendHigh ∧
        ⟨1, 1, 1, true, [2]⟩ ∈ s.accepted ∧ ⟨1, 1, 2, true, [3]⟩ ∈ s.accepted ∧
        s.wire = [1, 3, 2]) (by decide +kernel)
    exact ⟨s, hs, hf, ⟨by rw [hst]; rfl, by rw [hp]; exact nofun⟩, h₁, h₂, hw⟩
  · obtain ⟨s, hs, hf, hst, hp, h⟩ := slot.exists_exec staleRun
      (fun s => s.fault = none ∧ s.sock.status = .connected ∧ s.poll = .idle ∧
        s.sock.socketId = 2 ∧ s.accepted = [⟨1, 1, 0, true, [9]⟩] ∧ s.wire = [9])
      (by decide +kernel)
    exact ⟨s, hs, hf, ⟨by rw [hst]; rfl, by rw [hp]; exact nofun⟩, h⟩

end Skynet.Socket
