import Skynet.HashChains
import Skynet.Netpack

/-! # Reassembly of packets

The filter refines parsing of each socket's own stream.  `Holds V q left` says that the chains of
`q` keep, for each socket, the incomplete rest `left` of its stream and nothing else.  One chunk
then does what `FrameReader.parse` does with the rest and the chunk (`filterData_spec`), and a list
of chunks what it does with each socket's whole stream (`receiveAll_spec`), however the chunks
of the sockets follow each other.  What it means that a queue has dealt with a stream (`Parsed`,
`Dealt`) is said for any queue and any reader of frames. -/

namespace Skynet.Netpack

open List FrameReader Function Layout

variable {V : Layout}

/-! ### What is kept of a stream -/

/-- `uc` keeps the incomplete frame `l`. -/
inductive Pending (V : Layout) : List UInt8 → Uncomplete → Prop
  | header {l : List UInt8} {uc : Uncomplete} (hne : l ≠ []) (hlen : l.length < V.header)
      (hread : uc.read < 0) (hheader : uc.header = l) : Pending V l uc
  | body {l : List UInt8} {uc : Uncomplete} (hlen : V.header ≤ l.length)
      (hsize : uc.size = V.size (l.take V.header)) (hbuf : uc.buf = l.drop V.header)
      (hread : uc.read = uc.buf.length) (hmore : uc.buf.length < uc.size) : Pending V l uc

/-- The entries of a socket whose stream has the rest `l`. -/
def Kept (V : Layout) (l : List UInt8) (ucs : List Uncomplete) : Prop :=
  (l = [] ∧ ucs = []) ∨ ∃ uc, ucs = [uc] ∧ Pending V l uc

/-- The chains of `q` keep the rests `left` of the sockets' streams. -/
def Holds (V : Layout) (q : MsgQueue) (left : ℕ → List UInt8) : Prop :=
  ∀ h socketId, Kept V (if hashSocketId socketId = h then left socketId else [])
    ((q.hash h).filter (·.socketId = socketId))

theorem Pending.ne_nil {l : List UInt8} {uc : Uncomplete} (h : Pending V l uc) : l ≠ [] := by
  cases h with
  | header hne => exact hne
  | body hlen =>
    rintro rfl
    exact absurd V.header_pos (not_lt.mpr hlen)

theorem Holds.getQueue_none : Holds V (getQueue none) fun _ => [] :=
  fun _ _ => .inl ⟨ite_self _, rfl⟩

variable {l : Option MsgQueue} {q : MsgQueue} {left : ℕ → List UInt8} {buffer : List UInt8}

theorem Holds.hash_eq_nil (hq : Holds V q left) (hleft : ∀ socketId, left socketId = []) (h : ℕ) :
    q.hash h = [] := by
  refine eq_nil_iff_forall_not_mem.mpr fun uc huc => ?_
  have hmem : uc ∈ (q.hash h).filter (·.socketId = uc.socketId) :=
    mem_filter.mpr ⟨huc, decide_eq_true rfl⟩
  obtain ⟨-, hnil⟩ | ⟨uc', -, hp⟩ := hq h uc.socketId
  · rw [hnil] at hmem
    exact absurd hmem not_mem_nil
  · refine absurd ?_ hp.ne_nil
    split_ifs
    · exact hleft _
    · rfl

theorem Holds.update (hq : Holds V q left) {socketId : ℕ} {l : List UInt8} {chain : List Uncomplete}
    (hother : ∀ id, id ≠ socketId → chain.filter (·.socketId = id) =
      (q.hash (hashSocketId socketId)).filter (·.socketId = id))
    (hown : Kept V l (chain.filter (·.socketId = socketId))) (ring : RingQueue Pack) :
    Holds V ⟨ring, Function.update q.hash (hashSocketId socketId) chain⟩
      (Function.update left socketId l) := by
  intro h id
  have hold := hq h id
  change Kept V _ ((Function.update q.hash (hashSocketId socketId) chain h).filter _)
  by_cases hh : h = hashSocketId socketId
  · subst hh
    rw [Function.update_self]
    by_cases hid : id = socketId
    · subst hid
      rwa [if_pos rfl, Function.update_self]
    · rwa [Function.update_of_ne hid, hother id hid]
  · rw [Function.update_of_ne hh]
    by_cases hid : id = socketId
    · subst hid
      rwa [if_neg (Ne.symm hh)] at hold ⊢
    · rwa [Function.update_of_ne hid]

theorem Holds.kept (hq : Holds V q left) (socketId : ℕ) :
    Kept V (left socketId) ((q.hash (hashSocketId socketId)).filter (·.socketId = socketId)) := by
  have h := hq (hashSocketId socketId) socketId
  rwa [if_pos rfl] at h

theorem Holds.link (hq : Holds V q left) (uc : Uncomplete) {l : List UInt8} (hp : Pending V l uc)
    (hleft : left uc.socketId = []) : Holds V (q.link uc) (Function.update left uc.socketId l) := by
  have hnil : (q.hash (hashSocketId uc.socketId)).filter (·.socketId = uc.socketId) = [] := by
    obtain ⟨-, hnil⟩ | ⟨_, -, hp'⟩ := hq.kept uc.socketId
    · exact hnil
    · exact absurd hleft hp'.ne_nil
  refine hq.update (fun id hid => ?_) (.inr ⟨uc, ?_, hp⟩) q.ring
  · exact filter_cons_of_neg fun heq => hid (of_decide_eq_true heq).symm
  · rw [filter_cons_of_pos (by exact decide_eq_true rfl), hnil]

/-- `_find_uncomplete` fails exactly when nothing is kept of the stream, and otherwise takes what
is kept out of its chain. -/
theorem Holds.find (hq : Holds V (getQueue l) left) (socketId : ℕ) :
    (left socketId = [] ∧ findUncomplete l socketId = none) ∨
      ∃ uc q, findUncomplete l socketId = some (uc, q) ∧ uc.socketId = socketId ∧
        Pending V (left socketId) uc ∧ q.ring = (getQueue l).ring ∧
        Holds V q (Function.update left socketId []) := by
  have hkept := hq.kept socketId
  cases l with
  | none =>
    refine .inl ⟨?_, rfl⟩
    obtain ⟨hnil, -⟩ | ⟨uc, huc, -⟩ := hkept
    · exact hnil
    · cases huc
  | some q =>
    change Kept V (left socketId) ((q.hash (hashSocketId socketId)).filter _) at hkept
    simp only [findUncomplete, ← head?_filter]
    obtain ⟨hnil, hchain⟩ | ⟨uc, hchain, hp⟩ := hkept
    · rw [hchain]
      exact .inl ⟨hnil, rfl⟩
    · have hmem : uc ∈ (q.hash (hashSocketId socketId)).filter (·.socketId = socketId) := by
        rw [hchain]
        exact mem_singleton_self uc
      rw [hchain]
      refine .inr ⟨uc, _, rfl, of_decide_eq_true (mem_filter.mp hmem).2, hp, rfl, ?_⟩
      refine Holds.update hq (fun id hid => ?_) (.inl ⟨rfl, ?_⟩) q.ring
      · refine filter_eraseP_of_disjoint (fun uc' huc' => decide_eq_false ?_) _
        rw [of_decide_eq_true huc']
        exact Ne.symm hid
      · rw [filter_eraseP_self, hchain, tail_cons]

/-! ### Queues and streams -/

/-- A queue of packets that also keeps the incomplete rests of the sockets' streams. -/
structure Keeper (Q : Type) where
  contents : Q → List Pack
  Holds : Q → (ℕ → List UInt8) → Prop

section

variable {Q μ : Type} (K : Keeper Q) (R : FrameReader UInt8 μ)

/-- The queue `q'` has got the packets of `s`, the unread stream of a socket, and keeps its
rest. -/
structure Parsed (q q' : Q) (left : ℕ → List UInt8) (socketId : ℕ) (s : List UInt8) : Prop where
  contents : K.contents q' = K.contents q ++ (R.parse s).1.map (Pack.mk socketId)
  holds : K.Holds q' (update left socketId (R.parse s).2)

/-- What the filter returns, and what it queues, for the packets `ps` of a socket. -/
def Handed (socketId : ℕ) (before after : List Pack) : Option Filtered → List (List UInt8) → Prop
  | none, ps => ps = [] ∧ after = before
  | some (.data id p), ps => id = socketId ∧ ps = [p] ∧ after = before
  | some .more, ps => after = before ++ ps.map (Pack.mk socketId)
  | _, _ => False

/-- The filter has dealt with `s`, the unread stream of a socket. -/
structure Dealt (q : Q) (out : Option Filtered × Q) (left : ℕ → List UInt8) (socketId : ℕ)
    (s : List UInt8) : Prop where
  handed : Handed socketId (K.contents q) (K.contents out.2) out.1 (R.parse s).1
  holds : K.Holds out.2 (update left socketId (R.parse s).2)

variable {K R} {q q' : Q} {left : ℕ → List UInt8} {socketId : ℕ} {s : List UInt8}

theorem Parsed.nil (hq : K.Holds q left) (hleft : left socketId = []) :
    Parsed K R q q left socketId [] where
  contents := by rw [R.parse_nil, map_nil, append_nil]
  holds := by rwa [R.parse_nil, ← hleft, update_eq_self]

theorem Parsed.keep (hcontents : K.contents q' = K.contents q)
    (hholds : K.Holds q' (update left socketId s)) (hnext : R.next s = none) :
    Parsed K R q q' left socketId s where
  contents := by rw [R.parse_of_none hnext, map_nil, append_nil, hcontents]
  holds := by rwa [R.parse_of_none hnext]

theorem Parsed.cons {q₁ : Q} {body rest : List UInt8} (hnext : R.next s = some (body, rest))
    (hpush : K.contents q₁ = K.contents q ++ [⟨socketId, body⟩])
    (h : Parsed K R q₁ q' left socketId rest) : Parsed K R q q' left socketId s where
  contents := by
    rw [h.contents, hpush, R.parse_of_some hnext, map_cons, append_assoc]
    rfl
  holds := by
    rw [R.parse_of_some hnext]
    exact h.holds

theorem Dealt.keep (hcontents : K.contents q' = K.contents q)
    (hholds : K.Holds q' (update left socketId s)) (hnext : R.next s = none) :
    Dealt K R q (none, q') left socketId s where
  handed := by
    rw [R.parse_of_none hnext]
    exact ⟨rfl, hcontents⟩
  holds := (Parsed.keep hcontents hholds hnext).holds

theorem Dealt.data (hq : K.Holds q left) (hleft : left socketId = []) {body : List UInt8}
    (hnext : R.next s = some (body, [])) :
    Dealt K R q (some (.data socketId body), q) left socketId s where
  handed := by
    rw [R.parse_of_some hnext, R.parse_nil]
    exact ⟨rfl, rfl, rfl⟩
  holds := by
    rw [R.parse_of_some hnext]
    exact (Parsed.nil hq hleft).holds

theorem Dealt.more (h : Parsed K R q q' left socketId s) :
    Dealt K R q (some .more, q') left socketId s :=
  ⟨h.contents, h.holds⟩

theorem Dealt.of_taken {out : Option Filtered × Q} (hcontents : K.contents q' = K.contents q)
    (h : Dealt K R q' out (update left socketId []) socketId s) :
    Dealt K R q out left socketId s where
  handed := by
    rw [← hcontents]
    exact h.handed
  holds := by
    have hholds := h.holds
    rwa [update_idem] at hholds

end

/-- The chunks of one socket, put together. -/
def stream (socketId : ℕ) (chunks : List (ℕ × List UInt8)) : List UInt8 :=
  (chunks.filter (·.1 = socketId)).flatMap (·.2)

variable (socketId : ℕ)

theorem stream_cons (id : ℕ) (buffer : List UInt8) (chunks : List (ℕ × List UInt8)) :
    stream socketId ((id, buffer) :: chunks) =
      if id = socketId then buffer ++ stream socketId chunks else stream socketId chunks := by
  rw [stream, filter_cons]
  split_ifs with h₁ h₂ h₂
  · rw [flatMap_cons]
    rfl
  · exact absurd (of_decide_eq_true h₁) h₂
  · exact absurd (decide_eq_true h₂) h₁
  · rfl

/-- The packets of one socket among those handed out. -/
def packetsOf (socketId : ℕ) (packs : List Pack) : List (List UInt8) :=
  (packs.filter (·.socketId = socketId)).map (·.data)

theorem packetsOf_append (a b : List Pack) :
    packetsOf socketId (a ++ b) = packetsOf socketId a ++ packetsOf socketId b := by
  rw [packetsOf, filter_append, map_append]
  rfl

theorem packetsOf_map (id : ℕ) (ps : List (List UInt8)) :
    packetsOf socketId (ps.map (Pack.mk id)) = if id = socketId then ps else [] := by
  rw [packetsOf, filter_map, map_map]
  split_ifs with h
  · rw [filter_eq_self.mpr fun p _ => by exact decide_eq_true h]
    exact map_id ps
  · rw [filter_eq_nil_iff.mpr fun p _ => by simpa using h]
    rfl

section

variable {μ : Type} (R : FrameReader UInt8 μ) {left : ℕ → List UInt8}

theorem parse_stream_nil (hleft : ∀ id, R.next (left id) = none) (id : ℕ) :
    R.parse (left id ++ stream id []) = ([], left id) := by
  rw [stream, filter_nil, flatMap_nil, append_nil, R.parse_of_none (hleft id)]

/-- The rests of the streams once the first chunk has been dealt with. -/
def rests (left : ℕ → List UInt8) (socketId : ℕ) (buffer : List UInt8) : ℕ → List UInt8 :=
  update left socketId (R.parse (left socketId ++ buffer)).2

theorem next_rests (hleft : ∀ id, R.next (left id) = none) (socketId : ℕ) (buffer : List UInt8)
    (id : ℕ) : R.next (rests R left socketId buffer id) = none := by
  rw [rests, update_apply]
  split_ifs
  · exact R.next_parse_rest _
  · exact hleft id

theorem parse_stream_cons (left : ℕ → List UInt8) (socketId : ℕ) (buffer : List UInt8)
    (chunks : List (ℕ × List UInt8)) (id : ℕ) :
    R.parse (left id ++ stream id ((socketId, buffer) :: chunks)) =
      (packetsOf id ((R.parse (left socketId ++ buffer)).1.map (Pack.mk socketId)) ++
        (R.parse (rests R left socketId buffer id ++ stream id chunks)).1,
        (R.parse (rests R left socketId buffer id ++ stream id chunks)).2) := by
  rw [packetsOf_map, stream_cons, rests]
  by_cases hid : socketId = id
  · subst hid
    rw [if_pos rfl, if_pos rfl, update_self, ← append_assoc, R.parse_append]
  · rw [if_neg hid, if_neg hid, update_of_ne (Ne.symm hid), nil_append]

end

/-! ### One chunk -/

variable {s : List UInt8} {pack : List UInt8 → Except String (List UInt8)}

theorem Layout.next_of_header (h : V.header ≤ s.length) : V.reader.next s =
      if (s.drop V.header).length < V.size (s.take V.header) then none
      else some ((s.drop V.header).take (V.size (s.take V.header)),
        (s.drop V.header).drop (V.size (s.take V.header))) :=
  V.reader.next_of_complete (V.reader_read h)

theorem Layout.next_of_short (h : s.length < V.header) : V.reader.next s = none :=
  V.reader.next_of_short (if_pos h)

def MsgQueue.contents (q : MsgQueue) : List Pack := q.ring.contents

theorem contents_pushData (l : Option MsgQueue) (socketId : ℕ) (data : List UInt8) :
    (pushData l socketId data).contents = (getQueue l).contents ++ [⟨socketId, data⟩] :=
  RingQueue.contents_push ..

theorem Holds.pushData (hq : Holds V (getQueue l) left) (socketId : ℕ) (data : List UInt8) :
    Holds V (pushData l socketId data) left := hq

/-- The queue of a member of the family. -/
def keeper (V : Layout) : Keeper MsgQueue := ⟨MsgQueue.contents, Holds V⟩

theorem Pending.of_short (hne : buffer ≠ []) (h : buffer.length < V.header) :
    Pending V buffer { socketId, read := -1, header := buffer } :=
  .header hne h (Int.negSucc_lt_zero 0) rfl

theorem Pending.of_body (hlen : V.header ≤ buffer.length)
    (h : (buffer.drop V.header).length < V.size (buffer.take V.header)) : Pending V buffer
      { socketId, read := (buffer.drop V.header).length, size := V.size (buffer.take V.header),
        buf := buffer.drop V.header } :=
  .body hlen rfl rfl rfl h

/-- `_push_more` queues the packets of the buffer. -/
theorem pushMore_spec (hq : Holds V (getQueue l) left) (hleft : left socketId = [])
    (hne : buffer ≠ []) :
    Parsed (keeper V) V.reader (getQueue l) (pushMore V l socketId buffer) left socketId buffer := by
  induction l, buffer using pushMore.induct V socketId with
  | case1 l buffer hlen =>
    rw [pushMore, if_pos hlen]
    exact .keep rfl (hq.link _ (.of_short socketId hne hlen) hleft) (next_of_short hlen)
  | case2 l buffer hlen packSize body hbody =>
    have hlen := not_lt.mp hlen
    rw [pushMore, if_neg (not_lt.mpr hlen), if_pos hbody]
    exact .keep rfl (hq.link _ (.of_body socketId hlen hbody) hleft)
      ((next_of_header hlen).trans (if_pos hbody))
  | case3 l buffer hlen packSize body hbody q rest hrest ih =>
    have hlen := not_lt.mp hlen
    rw [pushMore, if_neg (not_lt.mpr hlen), if_neg hbody, if_pos hrest]
    exact .cons ((next_of_header hlen).trans (if_neg hbody)) (contents_pushData ..)
      (ih (hq.pushData _ _) (length_pos_iff.mp hrest))
  | case4 l buffer hlen packSize body hbody rest hrest =>
    have hlen := not_lt.mp hlen
    have hnil : rest = [] := length_eq_zero_iff.mp (by omega)
    rw [pushMore, if_neg (not_lt.mpr hlen), if_neg hbody, if_neg hrest]
    refine .cons ((next_of_header hlen).trans (if_neg hbody)) (contents_pushData ..) ?_
    change Parsed (keeper V) V.reader _ _ left socketId rest
    rw [hnil]
    exact .nil (hq.pushData _ _) hleft

/-- The packet of a complete frame is queued, and `_push_more` takes the rest. -/
theorem Parsed.pushMore {socketId : ℕ} (hq : Holds V (getQueue l) left) (hleft : left socketId = [])
    {body rest : List UInt8} (hnext : V.reader.next s = some (body, rest)) (hrest : rest ≠ []) :
    Parsed (keeper V) V.reader (getQueue l)
      (pushMore V (some (pushData l socketId body)) socketId rest) left socketId s :=
  .cons hnext (contents_pushData ..)
    (pushMore_spec (l := some (pushData l socketId body)) socketId (hq.pushData _ _) hleft hrest)

theorem fillBody_spec (hq : Holds V q left) (uc : Uncomplete) (hleft : left uc.socketId = [])
    {l : List UInt8} (hlen : V.header ≤ l.length) (hsize : uc.size = V.size (l.take V.header))
    (hbuf : uc.buf = l.drop V.header) (hread : uc.read = uc.buf.length)
    (hle : uc.buf.length ≤ uc.size) (buffer : List UInt8) :
    Dealt (keeper V) V.reader q (fillBody V q uc buffer) left uc.socketId (l ++ buffer) := by
  have hhead : V.header ≤ (l ++ buffer).length := by rw [length_append]; omega
  have htake : V.size ((l ++ buffer).take V.header) = uc.size := by
    rw [take_append_of_le_length hlen, hsize]
  have hdrop : (l ++ buffer).drop V.header = uc.buf ++ buffer := by
    rw [drop_append_of_le_length hlen, hbuf]
  have hneed : (uc.size - uc.read).toNat = uc.size - uc.buf.length := by omega
  have hnext : V.reader.next (l ++ buffer) =
      if buffer.length < uc.size - uc.buf.length then none
      else some (uc.buf ++ buffer.take (uc.size - uc.buf.length),
        buffer.drop (uc.size - uc.buf.length)) := by
    rw [next_of_header hhead, htake, hdrop, length_append, take_append,
      take_of_length_le hle, drop_append, drop_of_length_le hle, nil_append]
    exact if_congr (by omega) rfl rfl
  rw [fillBody, hneed]
  by_cases hshort : buffer.length < uc.size - uc.buf.length
  · rw [if_pos hshort] at hnext ⊢
    refine .keep rfl (hq.link { uc with buf := uc.buf ++ buffer, read := uc.read + buffer.length }
      (.body hhead htake.symm hdrop.symm ?_ ?_) hleft) hnext
    · rw [hread, length_append, Int.natCast_add]
    · change (uc.buf ++ buffer).length < uc.size
      rw [length_append]
      omega
  · rw [if_neg hshort] at hnext ⊢
    by_cases hrest : (buffer.drop (uc.size - uc.buf.length)).length = 0
    · rw [if_pos hrest]
      rw [length_eq_zero_iff.mp hrest] at hnext
      exact .data hq hleft hnext
    · rw [if_neg hrest]
      exact .more (.pushMore (l := some q) hq hleft hnext fun hnil =>
        hrest (length_eq_zero_iff.mpr hnil))

theorem filterFresh_spec (hq : Holds V (getQueue l) left) {socketId : ℕ}
    (hleft : left socketId = []) (hne : buffer ≠ []) :
    Dealt (keeper V) V.reader (getQueue l) ((filterFresh V l socketId buffer).map id getQueue) left socketId
      buffer := by
  rw [filterFresh]
  by_cases hshort : buffer.length < V.header
  · rw [if_pos hshort]
    exact .keep rfl (hq.link _ (.of_short socketId hne hshort) hleft) (next_of_short hshort)
  · have hnext := next_of_header (not_lt.mp hshort)
    rw [if_neg hshort]
    by_cases hbody : (buffer.drop V.header).length < V.size (buffer.take V.header)
    · rw [if_pos hbody] at hnext ⊢
      exact .keep rfl (hq.link _ (.of_body socketId (not_lt.mp hshort) hbody) hleft) hnext
    · rw [if_neg hbody] at hnext ⊢
      by_cases hone : (buffer.drop V.header).length = V.size (buffer.take V.header)
      · rw [if_pos hone]
        rw [← hone, take_length, drop_length] at hnext
        exact .data hq hleft hnext
      · rw [if_neg hone]
        refine .more (.pushMore hq hleft hnext ?_)
        rw [← length_pos_iff, length_drop]
        omega

/-- **One chunk**: the filter does with a chunk what parsing does with the kept rest of the
stream and the chunk. -/
theorem filterData_spec (hq : Holds V (getQueue l) left) (socketId : ℕ) (hne : buffer ≠ []) :
    Dealt (keeper V) V.reader (getQueue l) ((filterData V l socketId buffer).map id getQueue) left socketId
      (left socketId ++ buffer) := by
  obtain ⟨hnil, hfind⟩ | ⟨uc, q, hfind, rfl, hp, hring, hq'⟩ := hq.find socketId
  · rw [filterData, hfind, hnil]
    exact filterFresh_spec hq hnil hne
  · have hleft := Function.update_self uc.socketId ([] : List UInt8) left
    rw [filterData, hfind]
    refine .of_taken (congrArg RingQueue.contents hring) ?_
    cases hp with
    | header hhne hlen hread hheader =>
      simp only [if_pos hread, hheader]
      by_cases hshort : (left uc.socketId).length + buffer.length < V.header
      · -- the header stays incomplete
        have hlen' : (left uc.socketId ++ buffer).length < V.header := by
          rwa [length_append]
        rw [V.fill_short _ _ hhne hshort]
        exact .keep rfl (hq'.link { uc with header := left uc.socketId ++ buffer }
          (.header (append_ne_nil_of_left_ne_nil hhne _) hlen' hread rfl) hleft)
          (next_of_short hlen')
      · -- the chunk completes the header, and fills the packet with what follows it
        have hfull := V.fill_full _ buffer hhne hlen (not_lt.mp hshort)
        generalize V.fillHeader (left uc.socketId) buffer = out at hfull
        obtain ⟨kept, filled⟩ := out
        obtain rfl : filled = _ := hfull
        have hdealt := fillBody_spec hq'
          { uc with
            header := kept, buf := [], read := 0
            size := V.size ((left uc.socketId ++ buffer).take V.header) }
          hleft (l := (left uc.socketId ++ buffer).take V.header) ?_ ?_ ?_ rfl (Nat.zero_le _)
          ((left uc.socketId ++ buffer).drop V.header)
        · rwa [take_append_drop] at hdealt
        · rw [length_take, length_append]
          omega
        · rw [take_take, min_self]
        · rw [drop_take, Nat.sub_self, take_zero]
    | body hlen hsize hbuf hread hmore =>
      simp only [if_neg (by omega : ¬uc.read < 0)]
      exact fillBody_spec hq' uc hleft hlen hsize hbuf hread hmore.le buffer

/-! ### Whole streams -/

theorem Holds.of_hash {q' : MsgQueue} (hq : Holds V q left) (hhash : q'.hash = q.hash) :
    Holds V q' left := by
  intro h socketId
  rw [hhash]
  exact hq h socketId

theorem lPop_eq_none (h : lPop l = none) : (getQueue l).contents = [] := by
  cases l with
  | none => rfl
  | some q => exact RingQueue.pop_eq_none.mp (Option.map_eq_none_iff.mp h)

theorem lPop_eq_some {p : Pack} (h : lPop l = some (p, q)) :
    (getQueue l).contents = p :: q.contents ∧ q.hash = (getQueue l).hash := by
  cases l with
  | none => cases h
  | some q₀ =>
    obtain ⟨⟨p', ring⟩, hpop, heq⟩ := Option.map_eq_some_iff.mp h
    obtain ⟨rfl, rfl⟩ := Prod.mk.inj heq
    exact ⟨RingQueue.contents_pop hpop, rfl⟩

theorem popAll_spec (fuel : ℕ) (h : (getQueue l).contents.length ≤ fuel) :
    (popAll fuel l).1 = (getQueue l).contents ∧ (getQueue (popAll fuel l).2).contents = [] ∧
      (getQueue (popAll fuel l).2).hash = (getQueue l).hash := by
  induction fuel generalizing l with
  | zero =>
    have hnil := length_eq_zero_iff.mp (Nat.le_zero.mp h)
    exact ⟨hnil.symm, hnil, rfl⟩
  | succ fuel ih =>
    cases hpop : lPop l with
    | none =>
      rw [popAll, hpop]
      exact ⟨(lPop_eq_none hpop).symm, lPop_eq_none hpop, rfl⟩
    | some out =>
      obtain ⟨p, q⟩ := out
      obtain ⟨hcons, hhash⟩ := lPop_eq_some hpop
      rw [hcons, length_cons] at h
      obtain ⟨hall, hnil, hrest⟩ := ih (l := some q) (Nat.le_of_succ_le_succ h)
      rw [popAll, hpop, hcons, ← hhash]
      exact ⟨congrArg (p :: ·) hall, hnil, hrest⟩

/-- **One message**: the packets a chunk completes are handed out, none is left in the queue. -/
theorem receive_spec (hq : Holds V (getQueue l) left) (hempty : (getQueue l).contents = [])
    (socketId : ℕ) (hne : buffer ≠ []) : (receive V l (.data socketId buffer)).1 =
        (V.reader.parse (left socketId ++ buffer)).1.map (Pack.mk socketId) ∧
      (getQueue (receive V l (.data socketId buffer)).2).contents = [] ∧
      Holds V (getQueue (receive V l (.data socketId buffer)).2)
        (rests V.reader left socketId buffer) := by
  obtain ⟨handed, holds⟩ := filterData_spec hq socketId hne
  rw [show (keeper V).contents (getQueue l) = [] from hempty] at handed
  rw [receive, lFilter]
  generalize filterData V l socketId buffer = out at handed holds
  obtain ⟨_ | ⟨id, p⟩ | _ | _ | _ | _ | _, l'⟩ := out
  · obtain ⟨hps, hcontents⟩ := handed
    rw [hps]
    exact ⟨rfl, hcontents, holds⟩
  · obtain ⟨rfl, hps, hcontents⟩ := handed
    rw [hps]
    exact ⟨rfl, hcontents, holds⟩
  · have hcontents : (getQueue l').contents = _ := handed
    have hcap : (getQueue l').contents.length ≤ (getQueue l').ring.cap := by
      rw [MsgQueue.contents, RingQueue.length_contents]
      exact (getQueue l').ring.count_lt.le
    obtain ⟨hall, hnil, hhash⟩ := popAll_spec _ hcap
    exact ⟨hall.trans hcontents, hnil, holds.of_hash hhash⟩
  all_goals exact handed.elim

/-- The messages that bring the chunks. -/
def messages (chunks : List (ℕ × List UInt8)) : List Message := chunks.map fun c => .data c.1 c.2

/-- **Streams.**  Of each socket the packets of its stream are handed out, and its rest is
kept. -/
theorem receiveAll_spec (hq : Holds V (getQueue l) left) (hempty : (getQueue l).contents = [])
    (hleft : ∀ id, V.reader.next (left id) = none) (chunks : List (ℕ × List UInt8))
    (hne : ∀ c ∈ chunks, c.2 ≠ []) : (getQueue (receiveAll V l (messages chunks)).2).contents = [] ∧
      Holds V (getQueue (receiveAll V l (messages chunks)).2)
        (fun id => (V.reader.parse (left id ++ stream id chunks)).2) ∧
      ∀ id, packetsOf id (receiveAll V l (messages chunks)).1 =
        (V.reader.parse (left id ++ stream id chunks)).1 := by
  induction chunks generalizing l left with
  | nil =>
    simp only [parse_stream_nil V.reader hleft]
    exact ⟨hempty, hq, fun _ => rfl⟩
  | cons c chunks ih =>
    obtain ⟨socketId, buffer⟩ := c
    obtain ⟨hnow, hempty', hq'⟩ := receive_spec hq hempty socketId
      (hne (socketId, buffer) mem_cons_self)
    obtain ⟨hnil, hholds, hlater⟩ := ih hq' hempty' (next_rests V.reader hleft socketId buffer)
      fun d hd => hne d (mem_cons_of_mem _ hd)
    simp only [parse_stream_cons, ← hnow]
    refine ⟨hnil, hholds, fun id => ?_⟩
    rw [← hlater]
    exact packetsOf_append ..

/-! ### Packed streams -/

/-- `bytes` are the packets `ps`, each packed, one behind the other. -/
def Framed (pack : List UInt8 → Except String (List UInt8)) (ps : List (List UInt8))
    (bytes : List UInt8) : Prop :=
  ∃ frames, ps.mapM pack = .ok frames ∧ bytes = frames.flatten

theorem mapM_eq_ok {α β ε : Type} {f : α → Except ε β} {g : α → β} {l : List α}
    (h : ∀ a ∈ l, f a = .ok (g a)) : l.mapM f = .ok (l.map g) := by
  induction l with
  | nil => rfl
  | cons a l ih =>
    rw [mapM_cons, h a mem_cons_self, ih fun b hb => h b (mem_cons_of_mem a hb)]
    rfl

theorem Framed.unique {ps : List (List UInt8)} {bytes : List UInt8} (h : Framed pack ps bytes)
    {f : List (List UInt8)} (hf : ps.mapM pack = .ok f) : f.flatten = bytes := by
  obtain ⟨f', hf', rfl⟩ := h
  rw [hf] at hf'
  cases hf'
  rfl

/-- What holds when the chunks have brought a part of each socket's packed stream, and `later` is
still to come: the packets handed out are the first ones of the socket, and the reader keeps what
follows their frames. -/
structure Reassembled (V : Layout) (pack : List UInt8 → Except String (List UInt8))
    (packets : ℕ → List (List UInt8)) (chunks : List (ℕ × List UInt8)) (later : ℕ → List UInt8)
    (handed : List Pack) (q : MsgQueue) (kept : ℕ → List UInt8) : Prop where
  holds : Holds V q kept
  inOrder : ∀ id, packetsOf id handed <+: packets id
  aligned : ∀ id, ∃ done, Framed pack (packetsOf id handed) done ∧ stream id chunks = done ++ kept id
  complete : ∀ id, later id = [] → packetsOf id handed = packets id ∧ kept id = []

theorem reassembled {enc : List UInt8 → List UInt8} (packets : ℕ → List (List UInt8))
    (hpack : ∀ id, ∀ p ∈ packets id, pack p = .ok (enc p) ∧ V.Encodes enc p) :
    ∃ bytes : ℕ → List UInt8, (∀ id, Framed pack (packets id) (bytes id)) ∧
      ∀ chunks later, (∀ c ∈ chunks, c.2 ≠ []) → (∀ id, stream id chunks ++ later id = bytes id) →
        ∃ kept, Reassembled V pack packets chunks later (receiveAll V none (messages chunks)).1
          (getQueue (receiveAll V none (messages chunks)).2) kept := by
  refine ⟨fun id => ((packets id).map enc).flatten, fun id => ⟨_, mapM_eq_ok fun p hp =>
    (hpack id p hp).1, rfl⟩, fun chunks later hne hbytes => ?_⟩
  have hbytes : ∀ id, stream id chunks ++ later id = ((packets id).map enc).flatten := hbytes
  have hencodes := fun id p hp => (hpack id p hp).2.reader
  obtain ⟨-, hholds, hhanded⟩ := receiveAll_spec Holds.getQueue_none rfl
    (fun _ => next_of_short V.header_pos) chunks hne
  simp only [nil_append] at hholds hhanded
  refine ⟨_, hholds, fun id => ?_, fun id => ?_, fun id hlater => ?_⟩
  · obtain ⟨done, rest, hbegin, hdone, -⟩ := parse_cut (hencodes id) (hbytes id)
    rw [hhanded, hdone, hbegin, map_id]
    exact prefix_append ..
  · obtain ⟨done, rest, hbegin, hdone, hcut⟩ := parse_cut (hencodes id) (hbytes id)
    rw [map_id] at hdone
    rw [hhanded, hdone]
    refine ⟨_, ⟨_, mapM_eq_ok fun p hp => (hpack id p ?_).1, rfl⟩, hcut⟩
    rw [hbegin]
    exact mem_append_left _ hp
  · have hwhole := parse_encoded (hencodes id) []
    rw [← hbytes id, hlater, append_nil, append_nil, parse_nil, append_nil,
      map_id] at hwhole
    rw [hhanded, hwhole]
    exact ⟨rfl, rfl⟩

namespace Short

theorem encodes {p : List UInt8} (h : p.length ≤ 65535) :
    layout.Encodes (fun p => [UInt8.ofNat (p.length >>> 8 &&& 0xff),
      UInt8.ofNat (p.length &&& 0xff)] ++ p) p := by
  refine ⟨_, rfl, rfl, ?_⟩
  have hhigh : (p.length >>> 8 &&& 0xff) = p.length / 256 := by
    rw [Nat.shiftRight_eq_div_pow]
    exact (Nat.and_two_pow_sub_one_eq_mod _ 8).trans (Nat.mod_eq_of_lt (by omega))
  have hsize : p.length / 256 < UInt8.size := Nat.div_lt_of_lt_mul (Nat.lt_succ_of_le h)
  have hmod : p.length % 256 < UInt8.size := Nat.mod_lt _ (by decide)
  have hlow : (p.length &&& 0xff) = p.length % 256 := Nat.and_two_pow_sub_one_eq_mod _ 8
  change (UInt8.ofNat _).toNat <<< 8 ||| (UInt8.ofNat _).toNat = p.length
  rw [hhigh, hlow, UInt8.toNat_ofNat_of_lt' hsize, UInt8.toNat_ofNat_of_lt' hmod,
    ← Nat.shiftLeft_add_eq_or_of_lt (by omega), Nat.shiftLeft_eq]
  omega

theorem lPack_eq_ok {p : List UInt8} (h : p.length ≤ 65535) :
    lPack p = .ok ([UInt8.ofNat (p.length >>> 8 &&& 0xff), UInt8.ofNat (p.length &&& 0xff)] ++ p) :=
  if_neg (by omega)

/-- **Two-byte headers.**  However the packed streams of the sockets are cut into chunks and
interleaved, each socket gets its packets, in order and in full; once all bytes have come, no
chain has an entry.  The queue the packets pass through is first in, first out, also when it is
expanded. -/
theorem short_packets_reassembled (packets : ℕ → List (List UInt8))
    (hlen : ∀ id, ∀ p ∈ packets id, p.length ≤ 65535) :
    (∃ bytes : ℕ → List UInt8, (∀ id, Framed lPack (packets id) (bytes id)) ∧
      ∀ chunks, (∀ c ∈ chunks, c.2 ≠ []) → (∀ id, stream id chunks = bytes id) →
        (∀ id, packetsOf id (receiveAll layout none (messages chunks)).1 = packets id) ∧
          ∀ h, (getQueue (receiveAll layout none (messages chunks)).2).hash h = []) ∧
    (∀ l socketId data,
      (pushData l socketId data).contents = (getQueue l).contents ++ [⟨socketId, data⟩]) ∧
    (∀ l, lPop l = none → (getQueue l).contents = []) ∧
    ∀ l p q, lPop l = some (p, q) → (getQueue l).contents = p :: q.contents := by
  refine ⟨?_, contents_pushData, fun _ => lPop_eq_none, fun _ _ _ h => (lPop_eq_some h).1⟩
  obtain ⟨bytes, hframed, hall⟩ := reassembled packets
    fun id p hp => ⟨lPack_eq_ok (hlen id p hp), encodes (hlen id p hp)⟩
  refine ⟨bytes, hframed, fun chunks hne hbytes => ?_⟩
  obtain ⟨kept, h⟩ := hall chunks (fun _ => []) hne fun id => by rw [append_nil, hbytes]
  exact ⟨fun id => (h.complete id rfl).1, h.holds.hash_eq_nil fun id => (h.complete id rfl).2⟩

/-- Two sockets, an empty packet, and cuts inside headers and bodies. -/
theorem short_packets_reassembled_of_two : let packets : ℕ → List (List UInt8) := fun id =>
      if id = 1 then [[7, 8], []] else if id = 2 then [[9]] else []
    let chunks : List (ℕ × List UInt8) :=
      [(1, [0]), (2, [0, 1]), (1, [2, 7]), (1, [8, 0]), (2, [9]), (1, [0])]
    (∀ id, ∀ p ∈ packets id, p.length ≤ 65535) ∧
      ∀ id, packetsOf id (receiveAll layout none (messages chunks)).1 = packets id := by
  intro packets chunks
  have hlen : ∀ id, ∀ p ∈ packets id, p.length ≤ 65535 := by
    intro id p hp
    simp only [packets] at hp
    split_ifs at hp <;> simp at hp <;> rcases hp with rfl | rfl <;> decide
  obtain ⟨⟨bytes, hframed, hall⟩, -⟩ := short_packets_reassembled packets hlen
  refine ⟨hlen, (hall chunks (by decide) fun id => ?_).1⟩
  by_cases h₁ : id = 1
  · subst h₁
    exact (hframed 1).unique (f := [[0, 2, 7, 8], [0, 0]]) rfl
  by_cases h₂ : id = 2
  · subst h₂
    exact (hframed 2).unique (f := [[0, 1, 9]]) rfl
  · have hnone : packets id = [] := by simp only [packets, if_neg h₁, if_neg h₂]
    rw [← (hframed id).unique (by rw [hnone]; rfl)]
    simp [chunks, stream_cons, Ne.symm h₁, Ne.symm h₂]
    rfl

end Short

namespace Long

theorem encodes {p : List UInt8} (h : p.length ≤ smallString) :
    layout.Encodes (fun p => writeSize p.length ++ p) p := by
  have hsmall : p.length ≤ 65536 := h
  refine ⟨_, rfl, ByteOrder.length_toBE .., ?_⟩
  have hread : readSize (writeSize p.length) = p.length := by
    rw [readSize, writeSize, take_of_length_le (by rw [ByteOrder.length_toBE]),
      ByteOrder.ofBE_toBE, Nat.mod_eq_of_lt (by omega), if_neg (not_lt.mpr h)]
  change packSize (writeSize p.length) = p.length
  rw [packSize, hread, if_neg (not_lt.mpr h)]

theorem lPack_eq_ok {p : List UInt8} (h : p.length < 0x200000) :
    lPack p = .ok (writeSize p.length ++ p) :=
  if_neg (by omega)

/-- **Four-byte headers.**  As long as no packet is longer than `SMALLSTRING`, whatever part of
the packed streams has come, in whatever chunks: each socket has got its first packets, in order
and in full, and the reader keeps exactly what follows their frames; once the stream of a socket
has come to its end, it has got all of them. -/
theorem long_packets_reassembled (packets : ℕ → List (List UInt8))
    (hlen : ∀ id, ∀ p ∈ packets id, p.length ≤ smallString) :
    ∃ bytes : ℕ → List UInt8, (∀ id, Framed lPack (packets id) (bytes id)) ∧
      ∀ chunks later, (∀ c ∈ chunks, c.2 ≠ []) → (∀ id, stream id chunks ++ later id = bytes id) →
        ∃ kept, Reassembled layout lPack packets chunks later
          (receiveAll layout none (messages chunks)).1
          (getQueue (receiveAll layout none (messages chunks)).2) kept :=
  reassembled packets fun id p hp =>
    ⟨lPack_eq_ok (lt_of_le_of_lt (hlen id p hp) (by decide)), encodes (hlen id p hp)⟩

/-- A stream that is cut inside its second header. -/
theorem long_packets_reassembled_of_one :
    let packets : ℕ → List (List UInt8) := fun id => if id = 1 then [[7, 8], []] else []
    let chunks : List (ℕ × List UInt8) := [(1, [0, 0]), (1, [0, 2, 7]), (1, [8, 0])]
    let later : ℕ → List UInt8 := fun id => if id = 1 then [0, 0, 0] else []
    (∀ id, ∀ p ∈ packets id, p.length ≤ smallString) ∧
      ∃ kept, Reassembled layout lPack packets chunks later
        (receiveAll layout none (messages chunks)).1
        (getQueue (receiveAll layout none (messages chunks)).2) kept := by
  intro packets chunks later
  have hlen : ∀ id, ∀ p ∈ packets id, p.length ≤ smallString := by
    intro id p hp
    simp only [packets] at hp
    split_ifs at hp <;> simp at hp
    rcases hp with rfl | rfl <;> decide
  obtain ⟨bytes, hframed, hall⟩ := long_packets_reassembled packets hlen
  refine ⟨hlen, hall chunks later (by decide) fun id => ?_⟩
  by_cases h₁ : id = 1
  · subst h₁
    exact (hframed 1).unique rfl
  · have hnone : packets id = [] := if_neg h₁
    rw [← (hframed id).unique (by rw [hnone]; rfl)]
    simp only [chunks, later, stream_cons, if_neg h₁, if_neg (Ne.symm h₁)]
    rfl

/-- `l_pack` accepts a packet of `SMALLSTRING + 1` bytes.  The reader takes the first
`SMALLSTRING` of them for the packet, and the last one for the beginning of the next header. -/
theorem long_packet_cut_short : ∃ frame kept, lPack (replicate 65537 0) = .ok frame ∧
      packetsOf 1 (receiveAll layout none (messages [(1, frame)])).1 = [replicate 65536 0] ∧
      Holds layout (getQueue (receiveAll layout none (messages [(1, frame)])).2) kept ∧
      kept 1 = [0] := by
  have hpack : lPack (replicate 65537 0) = .ok (writeSize 65537 ++ replicate 65537 0) := by
    have h := lPack_eq_ok (p := replicate 65537 0) (by rw [length_replicate]; decide)
    rwa [length_replicate] at h
  have hlen : (writeSize 65537).length = layout.header := ByteOrder.length_toBE ..
  have hnext : layout.reader.next (writeSize 65537 ++ replicate 65537 0) =
      some (replicate 65536 0, [0]) := by
    rw [next_of_header (by rw [length_append, hlen]; omega), take_left' hlen,
      drop_left' hlen, (by decide : layout.size (writeSize 65537) = 65536),
      length_replicate, if_neg (by decide), take_replicate, drop_replicate]
    rfl
  have hparse : layout.reader.parse (writeSize 65537 ++ replicate 65537 0) =
      ([replicate 65536 0], [0]) := by
    rw [parse_of_some _ hnext, parse_of_none _ (next_of_short (by decide))]
  obtain ⟨-, hholds, hhanded⟩ := receiveAll_spec Holds.getQueue_none rfl
    (fun _ => next_of_short layout.header_pos)
    [(1, writeSize 65537 ++ replicate 65537 0)]
    (fun c hc => by
      rw [mem_singleton.mp hc]
      exact append_ne_nil_of_left_ne_nil (by decide) _)
  have hstream : stream 1 [(1, writeSize 65537 ++ replicate 65537 0)] =
      writeSize 65537 ++ replicate 65537 0 := by
    rw [stream_cons, if_pos rfl]
    exact append_nil _
  refine ⟨_, _, hpack, ?_, hholds, ?_⟩
  · rw [hhanded, hstream, nil_append, hparse]
  · simp only [hstream, nil_append, hparse]

end Long

end Skynet.Netpack
