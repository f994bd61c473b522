import Skynet.NetpackReassembly
import Skynet.NetpackWsFrames

/-! # Reassembly of web socket frames

The filter refines parsing of each socket's own stream by the reader `frames`.  `Holds q left` says
that the chains of `q` keep, for each socket, the incomplete rest `left` of its stream and nothing
else: a part of a header as it came, or a part of a payload without its mask.  One chunk then does
what `FrameReader.parse` does with the rest and the chunk (`filterData_spec`), and a list of chunks
what it does with each socket's whole stream (`receiveAll_spec`), as long as the reader finds
frames everywhere. -/

namespace Skynet.NetpackWs

open List LuaText FrameReader Function
open Netpack (Pack hashSocketId Keeper Parsed Dealt rests stream stream_cons packetsOf
  packetsOf_append parse_stream_nil parse_stream_cons next_rests)

/-! ### What is kept of a stream -/

/-- `uc` keeps the incomplete frame `l`. -/
inductive Pending (l : Bytes) (uc : Uncomplete) : Prop
  | header (hne : l ≠ []) (hshort : frames.read l = .short) (hread : uc.read < 0)
      (hheader : uc.header = l)
  | body {n k : ℕ} {m : Option Bytes} (hl : frames.read l = .complete n k m)
      (hsize : uc.size = k) (hbuf : uc.buf = unmask m 0 (l.drop n))
      (hread : uc.read = (l.drop n).length) (hmask : uc.mask = m)
      (hphase : m ≠ none → uc.hasunmaskSize = (l.drop n).length) (hmore : (l.drop n).length < k)

variable {l : Option MsgQueue} {uc : Uncomplete} {q : MsgQueue} {left : ℕ → Bytes}
  {s buffer : Bytes} {m : Option Bytes}

theorem Pending.ne_nil {l : Bytes} (h : Pending l uc) : l ≠ [] := by
  cases h with
  | header hne => exact hne
  | body hl =>
    rintro rfl
    rw [frames.read_nil] at hl
    cases hl

/-- The entry of a socket whose stream has the rest `l`. -/
def Kept (l : Bytes) : Option Uncomplete → Prop
  | none => l = []
  | some uc => Pending l uc

/-- The chains of `q` keep the rests `left` of the sockets' streams. -/
def Holds (q : MsgQueue) (left : ℕ → Bytes) : Prop :=
  ∃ f, HashChains.Represents Uncomplete.socketId hashSocketId q.hash f ∧
    ∀ id, Kept (left id) (f id)

theorem Holds.hash_eq_nil (hq : Holds q left) (hleft : ∀ id, left id = []) (h : ℕ) :
    q.hash h = [] := by
  obtain ⟨f, hf, hkept⟩ := hq
  refine hf.eq_nil (fun id => ?_) h
  have hk := hkept id
  cases hfid : f id with
  | none => rfl
  | some uc =>
    rw [hfid] at hk
    exact absurd (hleft id) (Pending.ne_nil hk)

theorem Holds.of_hash {q' : MsgQueue} (hq : Holds q left) (hhash : q'.hash = q.hash) :
    Holds q' left := by
  obtain ⟨f, hf, hkept⟩ := hq
  exact ⟨f, hhash ▸ hf, hkept⟩

theorem Kept.update {f : ℕ → Option Uncomplete} (h : ∀ id, Kept (left id) (f id)) {id : ℕ}
    {l : Bytes} {v : Option Uncomplete} (hv : Kept l v) (id' : ℕ) :
    Kept (update left id l id') (update f id v id') := by
  by_cases hid : id' = id
  · subst hid
    rwa [update_self, update_self]
  · rw [update_of_ne hid, update_of_ne hid]
    exact h id'

theorem Holds.link (hq : Holds q left) {l : Bytes} (hp : Pending l uc)
    (hleft : left uc.socketId = []) : Holds (q.link uc) (update left uc.socketId l) := by
  obtain ⟨f, hf, hkept⟩ := hq
  have hnone : f uc.socketId = none := by
    have hk := hkept uc.socketId
    cases hfid : f uc.socketId with
    | none => rfl
    | some uc' =>
      rw [hfid] at hk
      exact absurd hleft (Pending.ne_nil hk)
  exact ⟨_, hf.link hnone, Kept.update hkept (show Kept l (some uc) from hp)⟩

/-- `find_uncomplete` fails exactly when nothing is kept of the stream, and otherwise takes what is
kept out of its chain. -/
theorem Holds.find (hq : Holds (getQueue l) left) (socketId : ℕ) :
    (left socketId = [] ∧ findUncomplete l socketId = none) ∨
      ∃ uc q, findUncomplete l socketId = some (uc, q) ∧ uc.socketId = socketId ∧
        Pending (left socketId) uc ∧ q.ring = (getQueue l).ring ∧
        Holds q (update left socketId []) := by
  obtain ⟨f, hf, hkept⟩ := hq
  have hk := hkept socketId
  rcases hf.take socketId with ⟨hnone, htake⟩ | ⟨uc, t, hsome, htake, hkey, ht⟩
  · rw [hnone] at hk
    refine .inl ⟨hk, ?_⟩
    cases l with
    | none => rfl
    | some q =>
      have htake : HashChains.take Uncomplete.socketId hashSocketId q.hash socketId = none := htake
      rw [findUncomplete, htake]
      rfl
  · rw [hsome] at hk
    cases l with
    | none => cases htake
    | some q =>
      have htake : HashChains.take Uncomplete.socketId hashSocketId q.hash socketId = some (uc, t) :=
        htake
      refine .inr ⟨uc, { q with hash := t }, ?_, hkey, hk, rfl, _, ht, Kept.update hkept rfl⟩
      rw [findUncomplete, htake]
      rfl

/-! ### The functions on a stream of frames -/

variable {n k : ℕ}

theorem read_eq_complete (h : frames.read s = .complete n k m) : (readSize s).capped = ⟨k, n, m⟩ :=
  readHeader_eq_complete h

theorem read_eq_short (h : frames.read s = .short) :
    (readSize s).capped.packSize = -1 ∧ s.length < 14 := by
  obtain ⟨hcode, hlen⟩ := readHeader_eq_short.mp h
  exact ⟨(capped_eq_neg_one _).mpr hcode, hlen⟩

theorem nextSize_eq {skip : ℤ → Bool} (hskip : ∀ c, -1 ≤ c → skip c = false)
    (h : frames.read s ≠ .invalid) : nextSize false skip s = ((readSize s).capped, s) := by
  have hcode : -1 ≤ (readSize s).packSize := by
    cases hread : frames.read s with
    | invalid => exact absurd hread h
    | short =>
      have := (read_eq_short hread).1
      rw [capped_eq_neg_one] at this
      omega
    | complete n k m =>
      have := congrArg Reading.packSize (read_eq_complete hread)
      simp only [Reading.capped] at this
      omega
  rw [nextSize, if_neg (by simp), readFrame]
  exact if_neg (by rw [hskip _ hcode]; simp)

theorem skip_le (c : ℤ) (h : -1 ≤ c) : decide (c ≤ -2) = false := by
  rw [decide_eq_false_iff_not]
  omega

theorem skip_eq (c : ℤ) (h : -1 ≤ c) : decide (c = -2) = false := by
  rw [decide_eq_false_iff_not]
  omega

theorem saveHeader_of_lt (h : s.length < 14) (l : Option MsgQueue) (socketId : ℕ) :
    saveHeader false l socketId s =
      some (saveUncomplete l { socketId, read := -1, header := s }) := by
  have hlen : ¬ headerSize < s.length := by
    have : headerSize = 1024 := rfl
    omega
  rw [saveHeader, if_neg (by simp), if_neg hlen]

section

variable {l : Option MsgQueue} {socketId : ℕ} {s : Bytes}

theorem pushMore_of_short (h : frames.read s = .short) : pushMore false l socketId s =
      some (saveUncomplete l { socketId, read := -1, header := s }) := by
  obtain ⟨hcode, hlen⟩ := read_eq_short h
  rw [pushMore, nextSize_eq skip_le (by rw [h]; nofun)]
  exact (if_pos hcode).trans (saveHeader_of_lt hlen l socketId)

theorem pushMore_of_complete {n k : ℕ} (h : frames.read s = .complete n k m) :
    pushMore false l socketId s =
      if (s.drop n).length < k then some (saveBody l socketId ⟨k, n, m⟩ (s.drop n))
      else if 0 < ((s.drop n).drop k).length then
        pushMore false (some (pushData l socketId (unmask m 0 ((s.drop n).take k)))) socketId
          ((s.drop n).drop k)
      else some (pushData l socketId (unmask m 0 ((s.drop n).take k))) := by
  rw [pushMore, nextSize_eq skip_le (by rw [h]; nofun), read_eq_complete h]
  have hneg : ¬ (k : ℤ) = -1 := by omega
  have hlt : ¬ (k : ℤ) < 0 := by omega
  simp only [if_neg hneg, dif_neg hlt, Int.toNat_natCast, Bool.false_eq_true, not_false_eq_true,
    and_true, Nat.cast_lt]

theorem filterFresh_of_short (h : frames.read s = .short) : filterFresh false l socketId s =
      some (none, some (saveUncomplete l { socketId, read := -1, header := s })) := by
  obtain ⟨hcode, hlen⟩ := read_eq_short h
  rw [filterFresh, nextSize_eq skip_eq (by rw [h]; nofun)]
  refine (if_pos hcode).trans ?_
  rw [saveHeader_of_lt hlen]
  rfl

theorem filterFresh_of_complete {n k : ℕ} (h : frames.read s = .complete n k m) :
    filterFresh false l socketId s =
      if (s.drop n).length < k then some (none, some (saveBody l socketId ⟨k, n, m⟩ (s.drop n)))
      else if (s.drop n).length = k then some (some (.data socketId (unmask m 0 (s.drop n))), l)
      else
        (pushMore false (some (pushData l socketId (unmask m 0 ((s.drop n).take k)))) socketId
          ((s.drop n).drop k)).map fun q => (some .more, some q) := by
  rw [filterFresh, nextSize_eq skip_eq (by rw [h]; nofun), read_eq_complete h]
  have hneg : ¬ (k : ℤ) = -1 := by omega
  have hlt : ¬ (k : ℤ) < 0 := by omega
  simp only [if_neg hneg, if_neg hlt, Int.toNat_natCast, Bool.false_eq_true, not_false_eq_true,
    and_true, Nat.cast_lt, Nat.cast_inj]

end

/-! ### The rest of a header -/

theorem fillHeader_short {kept : Bytes} {r : Reading} (hne : buffer ≠ [])
    (h : frames.read (kept ++ buffer) = .short) :
    ∃ r', r'.packSize = -1 ∧ fillHeader false kept r buffer = some (kept ++ buffer, r', []) := by
  induction buffer generalizing kept r with
  | nil => exact absurd rfl hne
  | cons b rest ih =>
    have happ : kept ++ b :: rest = (kept ++ [b]) ++ rest := append_cons kept b rest
    rw [happ] at h
    have hone : frames.read (kept ++ [b]) = .short := by
      by_contra hnot
      rw [frames.stable _ rest hnot] at h
      exact hnot h
    obtain ⟨hcode, hlen⟩ := read_eq_short hone
    have hsize : ¬ headerSize ≤ kept.length := by
      have : headerSize = 1024 := rfl
      rw [length_append] at hlen
      omega
    have hneg : ¬ 0 ≤ (readSize (kept ++ [b])).capped.packSize := by omega
    rw [fillHeader, if_neg hsize, nextSize_eq skip_eq (by rw [hone]; nofun)]
    simp only [if_neg hneg]
    cases rest with
    | nil => exact ⟨_, hcode, rfl⟩
    | cons c rest =>
      obtain ⟨r', hr', hfill⟩ := ih (r := (readSize (kept ++ [b])).capped) (by simp) h
      exact ⟨r', hr', by rw [hfill, happ]⟩

theorem fillHeader_complete {kept : Bytes} {r : Reading} (hshort : frames.read kept = .short)
    (h : frames.read (kept ++ buffer) = .complete n k m) :
    fillHeader false kept r buffer =
      some ((kept ++ buffer).take n, ⟨k, n, m⟩, (kept ++ buffer).drop n) := by
  induction buffer generalizing kept r with
  | nil =>
    rw [append_nil, hshort] at h
    cases h
  | cons b rest ih =>
    have happ : kept ++ b :: rest = (kept ++ [b]) ++ rest := append_cons kept b rest
    have hlen := (read_eq_short hshort).2
    have hsize : ¬ headerSize ≤ kept.length := by
      have : headerSize = 1024 := rfl
      omega
    rw [happ] at h ⊢
    rw [fillHeader, if_neg hsize]
    by_cases hone : frames.read (kept ++ [b]) = .short
    · have hneg : ¬ 0 ≤ (readSize (kept ++ [b])).capped.packSize := by
        have := (read_eq_short hone).1
        omega
      rw [nextSize_eq skip_eq (by rw [hone]; nofun)]
      simp only [if_neg hneg]
      exact ih hone h
    · -- the header ends with this byte
      have hread : frames.read (kept ++ [b]) = .complete n k m := by
        rw [← frames.stable _ rest hone, h]
      obtain ⟨-, hle, -⟩ := frames.least _ n k m hread
      have hlt := length_lt_of_short hshort hread
      have hn : (kept ++ [b]).length = n := by
        rw [length_append, length_singleton] at hle ⊢
        omega
      rw [nextSize_eq skip_eq (by rw [hread]; nofun), read_eq_complete hread,
        take_left' hn, drop_left' hn]
      exact if_pos (Int.natCast_nonneg k)

/-! ### One chunk -/

def MsgQueue.contents (q : MsgQueue) : List Pack := q.ring.contents

theorem contents_pushData (l : Option MsgQueue) (socketId : ℕ) (data : Bytes) :
    (pushData l socketId data).contents = (getQueue l).contents ++ [⟨socketId, data⟩] :=
  RingQueue.contents_push ..

/-- The reader finds frames in all of the stream, the rest included. -/
def Clean (s : Bytes) : Prop := frames.read (frames.parse s).2 ≠ .invalid

theorem Clean.read (h : Clean s) : frames.read s ≠ .invalid := by
  intro hinvalid
  refine h ?_
  rw [frames.parse_of_none (by rw [FrameReader.next, hinvalid]), hinvalid]

theorem Clean.rest {body rest : Bytes} (h : Clean s) (hnext : frames.next s = some (body, rest)) :
    Clean rest := by
  rw [Clean, frames.parse_of_some hnext] at h
  exact h

/-- The queue of the filter. -/
def keeper : Keeper MsgQueue := ⟨MsgQueue.contents, Holds⟩

theorem Holds.pushData (hq : Holds (getQueue l) left) (socketId : ℕ) (data : Bytes) :
    Holds (pushData l socketId data) left := hq.of_hash rfl

theorem next_of_header (h : frames.read s = .complete n k m) : frames.next s =
      if (s.drop n).length < k then none
      else some (unmask m 0 ((s.drop n).take k), (s.drop n).drop k) :=
  frames.next_of_complete h

theorem Pending.of_short (socketId : ℕ) (hne : s ≠ []) (h : frames.read s = .short) :
    Pending s { socketId, read := -1, header := s } :=
  .header hne h (Int.negSucc_lt_zero 0) rfl

theorem Pending.of_body (socketId : ℕ) (h : frames.read s = .complete n k m)
    (hlt : (s.drop n).length < k) : Pending s
      { socketId, read := (s.drop n).length, size := (k : ℤ).toNat, buf := unmask m 0 (s.drop n)
        mask := m, hasunmaskSize := if m.isSome then (s.drop n).length else 0 } := by
  refine .body h (Int.toNat_natCast k) rfl rfl rfl (fun hm => ?_) hlt
  exact if_pos (Option.isSome_iff_ne_none.mpr hm)

/-- `push_more` queues the payloads of the buffer. -/
theorem pushMore_spec (socketId : ℕ) (hq : Holds (getQueue l) left) (hleft : left socketId = [])
    (hne : buffer ≠ []) (hclean : Clean buffer) : ∃ q', pushMore false l socketId buffer = some q' ∧
      Parsed keeper frames (getQueue l) q' left socketId buffer := by
  induction hlen : buffer.length using Nat.strong_induction_on generalizing buffer l with
  | _ len ih =>
    cases hread : frames.read buffer with
    | invalid => exact absurd hread hclean.read
    | short =>
      refine ⟨_, pushMore_of_short hread, ?_⟩
      exact .keep rfl (hq.link (.of_short socketId hne hread) hleft)
        (frames.next_of_short hread)
    | complete n k m =>
      have hnext := next_of_header hread
      rw [pushMore_of_complete hread]
      by_cases hbody : (buffer.drop n).length < k
      · rw [if_pos hbody] at hnext ⊢
        exact ⟨_, rfl, .keep rfl (hq.link (.of_body socketId hread hbody) hleft) hnext⟩
      · rw [if_neg hbody] at hnext ⊢
        by_cases hrest : 0 < ((buffer.drop n).drop k).length
        · rw [if_pos hrest]
          have hlt := length_next hnext
          obtain ⟨q', hq', hparsed⟩ := ih _ (by omega)
            (l := some (pushData l socketId (unmask m 0 ((buffer.drop n).take k))))
            (hq.pushData _ _) (length_pos_iff.mp hrest) (hclean.rest hnext) rfl
          exact ⟨q', hq', .cons hnext (contents_pushData ..) hparsed⟩
        · rw [if_neg hrest]
          refine ⟨_, rfl, .cons hnext (contents_pushData ..) ?_⟩
          rw [length_eq_zero_iff.mp (Nat.eq_zero_of_not_pos hrest)]
          exact .nil (hq.pushData _ _) hleft

/-- The payload of a complete frame is queued, and `push_more` takes the rest. -/
theorem parsed_pushMore {socketId : ℕ} (hq : Holds (getQueue l) left) (hleft : left socketId = [])
    {body rest : Bytes} (hclean : Clean s) (hnext : frames.next s = some (body, rest))
    (hrest : rest ≠ []) :
    ∃ q', pushMore false (some (pushData l socketId body)) socketId rest = some q' ∧
      Parsed keeper frames (getQueue l) q' left socketId s := by
  obtain ⟨q', hq', hparsed⟩ := pushMore_spec (l := some (pushData l socketId body)) socketId
    (hq.pushData _ _) hleft hrest (hclean.rest hnext)
  exact ⟨q', hq', .cons hnext (contents_pushData ..) hparsed⟩

/-- The entry `uc` keeps a frame `l` whose header has come, and possibly its whole payload. -/
structure Filling (l : Bytes) (uc : Uncomplete) (n k : ℕ) (m : Option Bytes) : Prop where
  read : frames.read l = .complete n k m
  size : uc.size = k
  buf : uc.buf = unmask m 0 (l.drop n)
  count : uc.read = (l.drop n).length
  mask : uc.mask = m
  phase : m ≠ none → uc.hasunmaskSize = (l.drop n).length
  le : (l.drop n).length ≤ k

theorem Filling.unmask {l : Bytes} (h : Filling l uc n k m) (s : Bytes) :
    uc.buf ++ unmask uc.mask uc.hasunmaskSize s = NetpackWs.unmask m 0 (l.drop n ++ s) := by
  rw [unmask_append, h.buf, h.mask, zero_add]
  cases m with
  | none => rfl
  | some key => rw [h.phase (by simp)]

theorem fillBody_spec (hq : Holds q left) {l : Bytes} (h : Filling l uc n k m)
    (hleft : left uc.socketId = []) (buffer : Bytes) (hclean : Clean (l ++ buffer)) :
    ∃ out, fillBody false q uc buffer = some out ∧
      Dealt keeper frames q out left uc.socketId (l ++ buffer) := by
  obtain ⟨-, hlen, -⟩ := frames.least l n k m h.read
  have hread : frames.read (l ++ buffer) = .complete n k m := by
    rw [frames.stable l buffer (by rw [h.read]; nofun), h.read]
  have hdrop : (l ++ buffer).drop n = l.drop n ++ buffer := drop_append_of_le_length hlen
  have hle := h.le
  have hneed : ((uc.size : ℤ) - uc.read).toNat = k - (l.drop n).length := by
    rw [h.size, h.count]
    omega
  have hnext : frames.next (l ++ buffer) =
      if buffer.length < k - (l.drop n).length then none
      else some (unmask m 0 (l.drop n ++ buffer.take (k - (l.drop n).length)),
        buffer.drop (k - (l.drop n).length)) := by
    rw [next_of_header hread, hdrop, length_append, take_append,
      take_of_length_le hle, drop_append, drop_of_length_le hle, nil_append]
    exact if_congr (by omega) rfl rfl
  rw [fillBody, hneed]
  simp only [h.unmask]
  by_cases hshort : buffer.length < k - (l.drop n).length
  · rw [if_pos hshort] at hnext ⊢
    refine ⟨_, rfl, .keep rfl
      (hq.link (.body hread h.size ?_ ?_ h.mask (fun hm => ?_) ?_) hleft) hnext⟩
    · rw [hdrop]
    · rw [h.count, hdrop, length_append, Nat.cast_add]
    · rw [h.phase hm, hdrop, length_append, h.mask,
        if_pos (Option.isSome_iff_ne_none.mpr hm)]
    · rw [hdrop, length_append]
      omega
  · rw [if_neg hshort] at hnext ⊢
    by_cases hrest : (buffer.drop (k - (l.drop n).length)).length = 0
    · rw [if_pos hrest]
      rw [length_eq_zero_iff.mp hrest] at hnext
      exact ⟨_, rfl, .data hq hleft hnext⟩
    · rw [if_neg hrest]
      obtain ⟨q', hq', hparsed⟩ := parsed_pushMore (l := some q) hq hleft hclean hnext fun hnil =>
        hrest (length_eq_zero_iff.mpr hnil)
      rw [hq']
      exact ⟨_, rfl, .more hparsed⟩

theorem filterFresh_spec (hq : Holds (getQueue l) left) {socketId : ℕ} (hleft : left socketId = [])
    (hne : buffer ≠ []) (hclean : Clean buffer) :
    ∃ out, filterFresh false l socketId buffer = some out ∧
      Dealt keeper frames (getQueue l) (out.map id getQueue) left socketId buffer := by
  cases hread : frames.read buffer with
  | invalid => exact absurd hread hclean.read
  | short =>
    exact ⟨_, filterFresh_of_short hread,
      .keep rfl (hq.link (.of_short socketId hne hread) hleft) (frames.next_of_short hread)⟩
  | complete n k m =>
    have hnext := next_of_header hread
    rw [filterFresh_of_complete hread]
    by_cases hbody : (buffer.drop n).length < k
    · rw [if_pos hbody] at hnext ⊢
      exact ⟨_, rfl, .keep rfl (hq.link (.of_body socketId hread hbody) hleft) hnext⟩
    · rw [if_neg hbody] at hnext ⊢
      by_cases hone : (buffer.drop n).length = k
      · rw [if_pos hone]
        rw [← hone, take_length, drop_length] at hnext
        exact ⟨_, rfl, .data hq hleft hnext⟩
      · rw [if_neg hone]
        obtain ⟨q', hq', hparsed⟩ := parsed_pushMore hq hleft hclean hnext (by
          rw [← length_pos_iff, length_drop]
          omega)
        rw [hq']
        exact ⟨_, rfl, .more hparsed⟩

/-- **One chunk**: the filter does with a chunk what parsing does with the kept rest of the
stream and the chunk. -/
theorem filterData_spec (hq : Holds (getQueue l) left) (socketId : ℕ) (hne : buffer ≠ [])
    (hclean : Clean (left socketId ++ buffer)) :
    ∃ out, filterData false l socketId buffer = some out ∧
      Dealt keeper frames (getQueue l) (out.map id getQueue) left socketId (left socketId ++ buffer) := by
  obtain ⟨hnil, hfind⟩ | ⟨uc, q, hfind, rfl, hp, hring, hq'⟩ := hq.find socketId
  · rw [hnil] at hclean ⊢
    rw [filterData, hfind]
    exact filterFresh_spec hq hnil hne hclean
  · have hleft := update_self uc.socketId ([] : Bytes) left
    have hcontents : keeper.contents q = keeper.contents (getQueue l) :=
      congrArg RingQueue.contents hring
    rw [filterData, hfind]
    cases hp with
    | header hhne hshort hread hheader =>
      simp only [if_pos hread, hheader]
      cases hnow : frames.read (left uc.socketId ++ buffer) with
      | invalid => exact absurd hnow hclean.read
      | short =>
        -- the header stays incomplete
        obtain ⟨r, hr, hfill⟩ := fillHeader_short (r := { packSize := 0 }) hne hnow
        simp only [hfill, if_pos hr]
        refine ⟨_, rfl, .of_taken hcontents (.keep rfl
          (hq'.link (.header ?_ hnow hread rfl) hleft) (frames.next_of_short hnow))⟩
        exact append_ne_nil_of_left_ne_nil hhne _
      | complete n k m =>
        -- the chunk completes the header, and fills the packet with what follows it
        have hneg : ¬ (k : ℤ) = -1 := by omega
        have hlt : ¬ (k : ℤ) < 0 := by omega
        obtain ⟨-, hle, htake, -⟩ := frames.least _ n k m hnow
        have hlen : ((left uc.socketId ++ buffer).take n).length = n :=
          length_take_of_le hle
        have hdrop : ((left uc.socketId ++ buffer).take n).drop n = [] :=
          drop_of_length_le (le_of_eq hlen)
        simp only [fillHeader_complete hshort hnow, if_neg hneg,
          if_neg hlt, Bool.false_eq_true, if_false, Int.toNat_natCast]
        have hfilling : Filling ((left uc.socketId ++ buffer).take n)
            { uc with
              header := (left uc.socketId ++ buffer).take n, size := k, mask := m
              hasunmaskSize := 0, buf := [], read := 0 } n k m :=
          ⟨htake, rfl, by rw [hdrop, unmask_nil], by rw [hdrop]; rfl, rfl,
            fun _ => by rw [hdrop]; rfl, by rw [hdrop]; exact Nat.zero_le k⟩
        obtain ⟨out, hout, hdealt⟩ := fillBody_spec hq' hfilling hleft
          ((left uc.socketId ++ buffer).drop n) (by rwa [take_append_drop])
        rw [take_append_drop] at hdealt
        rw [hout]
        exact ⟨_, rfl, .of_taken hcontents hdealt⟩
    | body hl hsize hbuf hread hmask hphase hmore =>
      have hnot : ¬ uc.read < 0 := by omega
      simp only [if_neg hnot]
      obtain ⟨out, hout, hdealt⟩ := fillBody_spec hq'
        ⟨hl, hsize, hbuf, hread, hmask, hphase, hmore.le⟩ hleft buffer hclean
      rw [hout]
      exact ⟨_, rfl, .of_taken hcontents hdealt⟩

/-! ### Whole streams -/

/-- **One message**: the payloads a chunk completes are handed out, none is left in the queue. -/
theorem receive_spec (hq : Holds (getQueue l) left) (hempty : (getQueue l).contents = [])
    (socketId : ℕ) (hne : buffer ≠ []) (hclean : Clean (left socketId ++ buffer)) :
    ∃ l', receive false l socketId buffer =
        some ((frames.parse (left socketId ++ buffer)).1.map (Pack.mk socketId), l') ∧
      (getQueue l').contents = [] ∧
      Holds (getQueue l') (rests frames left socketId buffer) := by
  obtain ⟨out, hout, handed, holds⟩ := filterData_spec hq socketId hne hclean
  rw [show keeper.contents (getQueue l) = [] from hempty] at handed
  rw [receive, hout]
  obtain ⟨_ | ⟨id, p⟩ | _ | _ | _ | _ | _, l'⟩ := out
  · obtain ⟨hps, hcontents⟩ := handed
    rw [hps]
    exact ⟨l', rfl, hcontents, holds⟩
  · obtain ⟨rfl, hps, hcontents⟩ := handed
    rw [hps]
    exact ⟨l', rfl, hcontents, holds⟩
  · have hcontents : (getQueue l').contents = _ := handed
    have hcap : (getQueue l').ring.contents.length ≤ (getQueue l').ring.cap := by
      rw [RingQueue.length_contents]
      exact (getQueue l').ring.count_lt.le
    obtain ⟨hall, hnil⟩ := RingQueue.drain_eq hcap
    refine ⟨some { getQueue l' with ring := ((getQueue l').ring.drain _).2 }, ?_, hnil,
      Holds.of_hash holds rfl⟩
    simp only [hall]
    exact congrArg (fun ps => some (ps, _)) hcontents
  all_goals exact handed.elim

theorem clean_append (s t : Bytes) : Clean (s ++ t) ↔ Clean ((frames.parse s).2 ++ t) := by
  rw [Clean, Clean, frames.parse_append]

/-- **Streams.**  Of each socket the payloads of its stream are handed out, and its rest is
kept. -/
theorem receiveAll_spec (hq : Holds (getQueue l) left) (hempty : (getQueue l).contents = [])
    (hleft : ∀ id, frames.next (left id) = none) (chunks : List (ℕ × Bytes))
    (hne : ∀ c ∈ chunks, c.2 ≠ []) (hclean : ∀ id s, s <+: stream id chunks → Clean (left id ++ s)) :
    ∃ handed l', receiveAll l chunks = some (handed, l') ∧ (getQueue l').contents = [] ∧
      Holds (getQueue l') (fun id => (frames.parse (left id ++ stream id chunks)).2) ∧
      ∀ id, packetsOf id handed = (frames.parse (left id ++ stream id chunks)).1 := by
  induction chunks generalizing l left with
  | nil =>
    simp only [parse_stream_nil frames hleft]
    exact ⟨[], l, rfl, hempty, hq, fun _ => rfl⟩
  | cons c chunks ih =>
    obtain ⟨socketId, buffer⟩ := c
    have hfirst : Clean (left socketId ++ buffer) := by
      refine hclean socketId buffer ?_
      rw [stream_cons, if_pos rfl]
      exact prefix_append ..
    obtain ⟨l', hnow, hempty', hq'⟩ := receive_spec hq hempty socketId
      (hne (socketId, buffer) mem_cons_self) hfirst
    have hclean' : ∀ id s, s <+: stream id chunks →
        Clean (rests frames left socketId buffer id ++ s) := by
      intro id s hs
      rw [rests]
      by_cases hid : id = socketId
      · subst hid
        rw [update_self, ← clean_append, append_assoc]
        refine hclean id (buffer ++ s) ?_
        rw [stream_cons, if_pos rfl]
        exact (prefix_append_right_inj buffer).mpr hs
      · rw [update_of_ne hid]
        refine hclean id s ?_
        rwa [stream_cons, if_neg (Ne.symm hid)]
    obtain ⟨handed, l'', hlater, hnil, hholds, hpackets⟩ := ih hq' hempty'
      (next_rests frames hleft socketId buffer) (fun d hd => hne d (mem_cons_of_mem _ hd)) hclean'
    refine ⟨(frames.parse (left socketId ++ buffer)).1.map (Pack.mk socketId) ++ handed, l'', ?_,
      hnil, ?_, fun id => ?_⟩
    · rw [receiveAll, hnow]
      simp only [hlater]
      rfl
    · simp only [parse_stream_cons]
      exact hholds
    · rw [parse_stream_cons, ← hpackets]
      exact packetsOf_append ..

/-- **Web socket frames.**  However the streams of the sockets are cut into chunks and interleaved,
and whatever the forms and masks of their frames: each socket has got its first payloads, in order,
in full and without their masks, and all of them once its stream has come to its end; once all
streams have, no chain has an entry. -/
theorem ws_frames_reassembled {l : Option MsgQueue} (hhash : ∀ h, (getQueue l).hash h = [])
    (hring : (getQueue l).contents = []) (sent : ℕ → List Frame) (chunks : List (ℕ × Bytes))
    (later : ℕ → Bytes) (hne : ∀ c ∈ chunks, c.2 ≠ [])
    (hbytes : ∀ id, stream id chunks ++ later id = ((sent id).map Frame.encode).flatten) :
    ∃ handed l', receiveAll l chunks = some (handed, l') ∧
      (∀ id, packetsOf id handed <+: (sent id).map Frame.payload) ∧
      (∀ id, later id = [] → packetsOf id handed = (sent id).map Frame.payload) ∧
      ((∀ id, later id = []) → ∀ h, (getQueue l').hash h = []) := by
  have hq : Holds (getQueue l) fun _ => [] := by
    refine ⟨fun _ => none, ?_, fun _ => rfl⟩
    intro b k
    rw [hhash]
    exact HashChains.represents_empty b k
  obtain ⟨handed, l', hall, -, hholds, hpackets⟩ := receiveAll_spec hq hring
    (fun _ => frames.next_of_short frames.read_nil) chunks hne fun id s hs => by
      obtain ⟨t, ht⟩ := hs
      have hcut : s ++ (t ++ later id) = ((sent id).map Frame.encode).flatten := by
        rw [← append_assoc, ht, hbytes]
      exact read_rest_ne_invalid (fun f _ => encodes f) hcut
  simp only [nil_append] at hholds hpackets
  have hwhole : ∀ id, later id = [] → frames.parse (stream id chunks) =
      ((sent id).map Frame.payload, []) := by
    intro id hlater
    have hencoded := parse_encoded (fun f (_ : f ∈ sent id) => encodes f) []
    rwa [← hbytes id, hlater, append_nil, append_nil, frames.parse_nil,
      append_nil] at hencoded
  refine ⟨handed, l', hall, fun id => ?_, fun id hlater => ?_, fun hlater => ?_⟩
  · obtain ⟨done, rest, hsent, hdone, -⟩ := parse_cut (fun f _ => encodes f) (hbytes id)
    rw [hpackets, hdone, hsent, map_append]
    exact prefix_append ..
  · rw [hpackets, hwhole id hlater]
  · exact hholds.hash_eq_nil fun id => by rw [hwhole id (hlater id)]

/-- A masked frame that is cut in its header, in its mask and in its payload, and an empty one with
a longer form of its length. -/
theorem ws_frames_reassembled_of_two :
    let masked : Frame := ⟨2, by decide, by decide, [7, 8, 9], some 0x01020304, .short, by decide,
      by decide⟩
    let empty : Frame := ⟨1, by decide, by decide, [], none, .medium, by decide, by decide⟩
    let chunks : List (ℕ × Bytes) :=
      [(1, [0x82]), (1, [0x83, 1, 2]), (1, [3, 4, 6]), (1, [10, 10, 0x81, 126]), (1, [0, 0])]
    stream 1 chunks = ([masked, empty].map Frame.encode).flatten ∧
      ∃ handed l, receiveAll none chunks = some (handed, l) ∧
        packetsOf 1 handed = [[7, 8, 9], []] := by
  intro masked empty chunks
  have hone : stream 1 chunks = ([masked, empty].map Frame.encode).flatten := by decide +kernel
  have hbytes : ∀ id, stream id chunks ++ [] =
      ((if id = 1 then [masked, empty] else []).map Frame.encode).flatten := by
    intro id
    rw [append_nil]
    by_cases hid : id = 1
    · rw [if_pos hid, hid, hone]
    · simp [chunks, stream_cons, Ne.symm hid, hid]
      rfl
  obtain ⟨handed, l, hall, -, hpackets, -⟩ := ws_frames_reassembled (l := none) (fun _ => rfl) rfl
    (fun id => if id = 1 then [masked, empty] else []) chunks (fun _ => []) (by decide) hbytes
  exact ⟨hone, handed, l, hall, hpackets 1 rfl⟩

end Skynet.NetpackWs
