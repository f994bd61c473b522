import Skynet.NetpackWsFrames
import Skynet.Transition

/-! # The memory accesses of the web socket filter

`lua-netpack_ws.cpp` copies what a client sends into buffers whose sizes the client announces, and
collects headers and the text of the handshake in an array of `HEADERSIZE` bytes.  `Call.events`
lists what a call of the filter does that can go wrong: the lengths it reads from headers, its
copies, each with the bytes left in the source and in the destination, and its writes to the array.

All of them stay inside (`accesses_in_bounds`) unless a header announces a negative length or the
array is full.  Neither is checked in time: the bound of a handshake is looked at after the byte has
been written, and a negative length goes to `memcpy` (`accesses_out_of_bounds`). -/

namespace Skynet.NetpackWs

open List LuaText Transition

inductive Event where
  /-- a length is read from a header -/
  | length (n : ℤ)
  /-- `header[i]` is written -/
  | index (i : ℤ)
  /-- `n` bytes are copied, with `left` bytes in the source and room for `room` bytes -/
  | copy (n left room : ℤ)
deriving DecidableEq, Repr

def Event.Safe : Event → Prop
  | length _ => True
  | index i => 0 ≤ i ∧ i < headerSize
  | copy n left room => 0 ≤ n ∧ n ≤ left ∧ n ≤ room

/-- The length in a header is not negative. -/
def Event.plain : Event → Bool
  | length n => 0 ≤ n
  | _ => true

def AllSafe (events : List Event) : Prop := ∀ e ∈ events, e.Safe

def AllPlain (events : List Event) : Prop := ∀ e ∈ events, e.plain = true

/-! ### What a call does -/

/-- The loop of `readFrame`.  In the array (`inHeader`) what follows a pair of bytes is moved. -/
def readEvents (skip : ℤ → Bool) (inHeader : Bool) (buffer : Bytes) : List Event :=
  let r := readSize buffer
  let length := if r.headLength = 0 then [] else [Event.length r.packSize]
  if skip r.packSize ∧ 2 ≤ buffer.length then
    let n : ℤ := buffer.length - 2
    let move := if inHeader then [Event.copy n n headerSize] else []
    length ++ move ++ readEvents skip inHeader (buffer.drop 2)
  else length
termination_by buffer.length
decreasing_by
  rw [length_drop]
  omega

def saveEvents (handshake : Bool) (buffer : Bytes) : List Event :=
  if handshake ∧ headerSize < buffer.length then [.copy headerSize buffer.length headerSize]
  else [.copy buffer.length buffer.length headerSize]

/-- `push_more`, and `filter_data_` for a socket of which nothing is kept, which has another
condition in its loop for the first packet. -/
def packEvents (handshake : Bool) (skip : ℤ → Bool) (buffer : Bytes) : List Event :=
  let next := nextSize handshake skip buffer
  let packSize := next.1.packSize
  let left : ℤ := next.2.length - next.1.headLength
  let body := next.2.drop next.1.headLength
  let reads := if handshake then [] else readEvents skip false buffer
  if packSize = -1 then reads ++ saveEvents handshake next.2
  else if _h : packSize < 0 then reads ++ [.copy packSize left packSize]
  else if body.length < packSize ∧ ¬ handshake then reads ++ [.copy left left packSize]
  else
    let copy := Event.copy packSize left packSize
    let rest := body.drop packSize.toNat
    if 0 < rest.length then reads ++ copy :: packEvents handshake (· ≤ -2) rest
    else reads ++ [copy]
termination_by buffer.length
decreasing_by
  have hprogress := nextSize_progress handshake skip buffer (not_lt.mp _h)
  have hrest : 0 < rest.length := ‹_›
  simp only [rest, body, packSize, next, length_drop] at hrest ⊢
  omega

/-- `fillBody`, for a packet of which `read` bytes have come. -/
def fillEvents (handshake : Bool) (size read : ℤ) (buffer : Bytes) : List Event :=
  let need := size - read
  if buffer.length < need then [.copy buffer.length buffer.length need]
  else
    let rest := buffer.drop need.toNat
    .copy need buffer.length need ::
      if rest.length = 0 then [] else packEvents handshake (· ≤ -2) rest

/-- `fillHeader`. -/
def headerEvents (handshake : Bool) (header : Bytes) : Bytes → List Event
  | [] => []
  | b :: rest =>
    .index header.length ::
      if headerSize ≤ header.length then []
      else
        let next := nextSize handshake (· = -2) (header ++ [b])
        (if handshake then [] else readEvents (· = -2) true (header ++ [b])) ++
          if 0 ≤ next.1.packSize then [] else headerEvents handshake next.2 rest

/-- `filter_data_`. -/
def dataEvents (handshake : Bool) (l : Option MsgQueue) (socketId : ℕ) (buffer : Bytes) :
    List Event :=
  match findUncomplete l socketId with
  | none => packEvents handshake (· = -2) buffer
  | some (uc, _) =>
    if uc.read < 0 then
      headerEvents handshake uc.header buffer ++
        match fillHeader handshake uc.header { packSize := 0 } buffer with
        | none => []
        | some (header, r, rest) =>
          if r.packSize = -1 then []
          else
            let read : ℤ := if handshake then min (header.length : ℤ) r.packSize else 0
            let copy := if handshake then [Event.copy read header.length r.packSize] else []
            copy ++ fillEvents handshake r.packSize read rest
    else fillEvents handshake uc.size uc.read buffer

/-- A message of the socket server for the filter.  What the caller takes from the ring between two
of them changes no access and is left out. -/
inductive Call where
  | data (handshake : Bool) (socketId : ℕ) (chunk : Bytes)
  | close (socketId : ℕ)

def Call.events (l : Option MsgQueue) : Call → List Event
  | data handshake socketId chunk => dataEvents handshake l socketId chunk
  | close _ => []

def filter : System (Option MsgQueue) Call where
  init := none
  step l
    | .data handshake socketId chunk => (filterData handshake l socketId chunk).map (·.2)
    | .close socketId => some (closeUncomplete l socketId)

/-- No header announces a negative length, and the array has room for what is put into it. -/
def tame (l : Option MsgQueue) : Call → Bool
  | .data handshake socketId chunk =>
    (dataEvents handshake l socketId chunk).all Event.plain &&
      match findUncomplete l socketId with
      | none => true
      | some (uc, _) =>
        0 ≤ uc.read ||
          uc.header.length + (if handshake then chunk.length else 1) ≤ headerSize
  | .close _ => true

/-! ### The next packet of a buffer -/

section

variable {handshake : Bool} {skip : ℤ → Bool} {b : Bool} {buffer : Bytes} {e : Event}
  {events events' : List Event}

@[simp] theorem allSafe_nil : AllSafe [] := nofun

@[simp] theorem allSafe_cons : AllSafe (e :: events) ↔ e.Safe ∧ AllSafe events :=
  forall_mem_cons

@[simp] theorem allSafe_append : AllSafe (events ++ events') ↔ AllSafe events ∧ AllSafe events' :=
  forall_mem_append

@[simp] theorem allPlain_cons : AllPlain (e :: events) ↔ e.plain = true ∧ AllPlain events :=
  forall_mem_cons

@[simp] theorem allPlain_append :
    AllPlain (events ++ events') ↔ AllPlain events ∧ AllPlain events' :=
  forall_mem_append

/-- The header of the next packet is short, or complete with a size. -/
def Sized (handshake : Bool) (next : Reading × Bytes) : Prop :=
  next.1.packSize = -1 ∧ (handshake = false → next.2.length < 14) ∨
    0 ≤ next.1.packSize ∧ next.1.headLength ≤ next.2.length ∧
      (handshake = true → next.1.packSize ≤ next.2.length - next.1.headLength)

theorem sized_readFrame (hskip : skip (-2) = true) (h : AllPlain (readEvents skip b buffer)) :
    Sized false (readFrame skip buffer) := by
  fun_induction readFrame skip buffer with
  | case1 buffer r hloop ih =>
    rw [readEvents, if_pos hloop, allPlain_append] at h
    exact ih h.2
  | case2 buffer r hloop =>
    rw [readEvents, if_neg hloop] at h
    rcases complete_or buffer with ⟨hcode, hlen⟩ | ⟨b₀, b₁, t, rfl, hbad⟩ | ⟨b₀, b₁, p, off, hc⟩
    · exact .inl ⟨(capped_eq_neg_one _).mpr hcode, fun _ => hlen⟩
    · refine absurd ⟨?_, by simp⟩ hloop
      simp only [r, readSize_cons, if_pos hbad, hskip]
    · have hoff := hc.off_le
      rw [hc.readSize_eq, if_neg (by simp only; omega)] at h
      have hp : 0 ≤ p := of_decide_eq_true (h _ (mem_singleton_self _))
      refine .inr ⟨?_, ?_, by simp⟩
      · simp only [r, hc.readSize_eq, Reading.capped]
        omega
      · simp only [r, hc.readSize_eq, Reading.capped]
        exact hc.come

theorem sized_nextSize (hskip : skip (-2) = true)
    (h : AllPlain (if handshake then [] else readEvents skip b buffer)) :
    Sized handshake (nextSize handshake skip buffer) := by
  cases handshake with
  | false => exact sized_readFrame hskip h
  | true =>
    change Sized true ({ packSize := getHttpHeader buffer }, buffer)
    unfold getHttpHeader
    split
    · exact .inl ⟨rfl, nofun⟩
    · next n hn =>
        have hle : n + 4 ≤ buffer.length := find_le hn
        exact .inr ⟨by simp only; omega, Nat.zero_le _, fun _ => by simp only; omega⟩

theorem readEvents_safe (h : b = true → buffer.length ≤ headerSize) :
    AllSafe (readEvents skip b buffer) := by
  have hlength (r : Reading) :
      AllSafe (if r.headLength = 0 then [] else [Event.length r.packSize]) := by
    split_ifs <;> simp [Event.Safe]
  fun_induction readEvents skip b buffer with
  | case1 buffer r length hloop n move ih =>
    rw [allSafe_append, allSafe_append]
    refine ⟨⟨hlength r, ?_⟩, ih fun hb => ?_⟩
    · simp only [move]
      split_ifs with hb
      · have := h hb
        exact allSafe_cons.mpr ⟨⟨by omega, by omega, by omega⟩, allSafe_nil⟩
      · exact allSafe_nil
    · have := h hb
      rw [length_drop]
      omega
  | case2 buffer r length hloop => exact hlength r

theorem reads_safe (h : b = true → buffer.length ≤ headerSize) :
    AllSafe (if handshake then [] else readEvents skip b buffer) := by
  split_ifs
  · exact allSafe_nil
  · exact readEvents_safe h

theorem saveEvents_safe (h : handshake = false → buffer.length < 14) :
    AllSafe (saveEvents handshake buffer) := by
  have hsize : headerSize = 1024 := rfl
  unfold saveEvents
  split_ifs with hlong <;> rw [allSafe_cons]
  · exact ⟨⟨by omega, by omega, le_rfl⟩, allSafe_nil⟩
  · refine ⟨⟨by omega, le_rfl, ?_⟩, allSafe_nil⟩
    cases handshake with
    | false =>
      have := h rfl
      omega
    | true =>
      have : ¬ headerSize < buffer.length := fun hlt => hlong ⟨rfl, hlt⟩
      omega

theorem copy_safe {r : Reading} (hsized : Sized handshake (r, buffer)) (hcode : ¬ r.packSize = -1)
    (hfull : ¬ ((buffer.drop r.headLength).length < r.packSize ∧ ¬ handshake = true)) :
    (Event.copy r.packSize (buffer.length - r.headLength) r.packSize).Safe := by
  rcases hsized with ⟨hshort, -⟩ | ⟨hpos, hhead, hroom⟩
  · exact absurd hshort hcode
  · simp only at hpos hhead hroom
    refine ⟨hpos, ?_, le_rfl⟩
    by_contra hlt
    rw [length_drop] at hfull
    refine hfull ⟨by omega, fun htrue => ?_⟩
    exact hlt (hroom htrue)

theorem packEvents_safe (hskip : skip (-2) = true) (h : AllPlain (packEvents handshake skip buffer)) :
    AllSafe (packEvents handshake skip buffer) := by
  fun_induction packEvents handshake skip buffer with
  | case1 skip buffer next packSize reads hcode =>
    rw [allPlain_append] at h
    have hsized : Sized handshake next := sized_nextSize hskip h.1
    refine allSafe_append.mpr ⟨reads_safe nofun, saveEvents_safe ?_⟩
    rcases hsized with ⟨-, hlen⟩ | ⟨hpos, -⟩
    · exact hlen
    · omega
  | case2 skip buffer next packSize left reads hcode hneg =>
    rw [allPlain_append] at h
    have hsized : Sized handshake next := sized_nextSize hskip h.1
    rcases hsized with ⟨hshort, -⟩ | ⟨hpos, -⟩ <;> omega
  | case3 skip buffer next packSize left body reads hcode hneg hbody =>
    rw [allPlain_append] at h
    refine allSafe_append.mpr ⟨reads_safe nofun, allSafe_cons.mpr ⟨?_, allSafe_nil⟩⟩
    rcases sized_nextSize hskip h.1 with ⟨hshort, -⟩ | ⟨-, hhead, -⟩
    · exact absurd hshort hcode
    · have hlt := hbody.1
      simp only [body, packSize, next, left, length_drop] at hlt hhead ⊢
      exact ⟨by omega, le_rfl, by omega⟩
  | case4 skip buffer next packSize left body reads hcode hneg hbody copy rest hrest ih =>
    rw [allPlain_append, allPlain_cons] at h
    exact allSafe_append.mpr ⟨reads_safe nofun, allSafe_cons.mpr
      ⟨copy_safe (sized_nextSize hskip h.1) hcode hbody, ih (by decide) h.2.2⟩⟩
  | case5 skip buffer next packSize left body reads hcode hneg hbody copy rest hrest =>
    rw [allPlain_append] at h
    exact allSafe_append.mpr ⟨reads_safe nofun, allSafe_cons.mpr
      ⟨copy_safe (sized_nextSize hskip h.1) hcode hbody, allSafe_nil⟩⟩

theorem sized_packEvents (hskip : skip (-2) = true)
    (h : AllPlain (packEvents handshake skip buffer)) :
    Sized handshake (nextSize handshake skip buffer) := by
  refine sized_nextSize (b := false) hskip ?_
  rw [packEvents] at h
  generalize (if handshake then [] else readEvents skip false buffer) = reads at h ⊢
  simp only at h
  split_ifs at h <;> exact (allPlain_append.mp h).1

theorem plain_rest {s : Bytes} {r : Reading} (hnext : nextSize handshake skip buffer = (r, s))
    (h : AllPlain (packEvents handshake skip buffer)) (hpos : 0 ≤ r.packSize)
    (hfull : ¬ ((s.drop r.headLength).length < r.packSize ∧ ¬ handshake = true))
    (hrest : 0 < ((s.drop r.headLength).drop r.packSize.toNat).length) :
    AllPlain (packEvents handshake (· ≤ -2) ((s.drop r.headLength).drop r.packSize.toNat)) := by
  have hcode : ¬ r.packSize = -1 := by omega
  rw [packEvents] at h
  simp only [hnext, if_neg hcode, dif_neg (not_lt.mpr hpos), if_neg hfull, if_pos hrest,
    allPlain_append, allPlain_cons] at h
  exact h.2.2

end

/-! ### What is kept -/

/-- Of every packet at most its size has come. -/
def Bounded (q : MsgQueue) : Prop := ∀ h, ∀ uc ∈ q.hash h, 0 ≤ uc.read → uc.read ≤ uc.size

variable {q : MsgQueue}

theorem Bounded.link (hq : Bounded q) {uc : Uncomplete} (huc : 0 ≤ uc.read → uc.read ≤ uc.size) :
    Bounded (q.link uc) :=
  HashChains.forall_link hq huc

variable {l : Option MsgQueue} {handshake : Bool}

theorem Bounded.find (hl : Bounded (getQueue l)) {socketId : ℕ} {uc : Uncomplete}
    (h : findUncomplete l socketId = some (uc, q)) :
    (0 ≤ uc.read → uc.read ≤ uc.size) ∧ Bounded q := by
  cases l with
  | none => cases h
  | some q₀ =>
    obtain ⟨⟨uc', t⟩, htake, heq⟩ := Option.map_eq_some_iff.mp h
    obtain ⟨rfl, rfl⟩ := Prod.mk.inj heq
    exact HashChains.forall_take hl htake

theorem saveHeader_bounded (hl : Bounded (getQueue l)) (socketId : ℕ) {buffer : Bytes}
    (h : handshake = false → buffer.length < 14) :
    ∃ q, saveHeader handshake l socketId buffer = some q ∧ Bounded q := by
  have hsize : headerSize = 1024 := rfl
  unfold saveHeader
  split_ifs with hlong hlong'
  · exact ⟨_, rfl, hl.link nofun⟩
  · exfalso
    cases handshake with
    | false =>
      have := h rfl
      omega
    | true => exact hlong ⟨rfl, hlong'⟩
  · exact ⟨_, rfl, hl.link nofun⟩

theorem saveBody_bounded (hl : Bounded (getQueue l)) (socketId : ℕ) {r : Reading} {body : Bytes}
    (h : body.length < r.packSize) : Bounded (saveBody l socketId r body) := by
  refine hl.link fun _ => ?_
  change (body.length : ℤ) ≤ (r.packSize.toNat : ℤ)
  omega

/-! ### The functions of the filter -/

section

variable {handshake : Bool} {l : Option MsgQueue} {buffer : Bytes}

theorem pushMore_bounded (hl : Bounded (getQueue l)) (socketId : ℕ)
    (h : AllPlain (packEvents handshake (· ≤ -2) buffer)) :
    ∃ q, pushMore handshake l socketId buffer = some q ∧ Bounded q := by
  induction hlen : buffer.length using Nat.strong_induction_on generalizing buffer l with
  | _ len ih =>
    rw [pushMore]
    have hsized := sized_packEvents (by decide) h
    have hprogress := nextSize_progress handshake (· ≤ -2) buffer
    cases hnext : nextSize handshake (· ≤ -2) buffer with
    | mk r s =>
      simp only [hnext] at hsized hprogress ⊢
      rcases hsized with ⟨hcode, hshort⟩ | ⟨hpos, -⟩
      · exact (if_pos hcode).symm ▸ saveHeader_bounded hl socketId hshort
      · simp only at hpos
        rw [if_neg (by omega), dif_neg (not_lt.mpr hpos)]
        split_ifs with hbody hrest
        · exact ⟨_, rfl, saveBody_bounded hl socketId hbody.1⟩
        · refine ih _ ?_ hl
            (plain_rest hnext h hpos hbody hrest) rfl
          simp only [length_drop] at hrest ⊢
          omega
        · exact ⟨_, rfl, hl⟩

theorem filterFresh_bounded (hl : Bounded (getQueue l)) (socketId : ℕ)
    (h : AllPlain (packEvents handshake (· = -2) buffer)) :
    ∃ out, filterFresh handshake l socketId buffer = some out ∧ Bounded (getQueue out.2) := by
  rw [filterFresh]
  have hsized := sized_packEvents (by decide) h
  cases hnext : nextSize handshake (· = -2) buffer with
  | mk r s =>
    simp only [hnext] at hsized ⊢
    rcases hsized with ⟨hcode, hshort⟩ | hsized
    · obtain ⟨q, hq, hb⟩ := saveHeader_bounded hl socketId hshort
      rw [if_pos hcode, hq]
      exact ⟨_, rfl, hb⟩
    · have hpos : 0 ≤ r.packSize := hsized.1
      rw [if_neg (by omega), if_neg (not_lt.mpr hpos)]
      split_ifs with hbody hone
      · exact ⟨_, rfl, saveBody_bounded hl socketId hbody.1⟩
      · exact ⟨_, rfl, hl⟩
      · have hcopy := copy_safe (.inr hsized) (by omega) hbody
        have hrest : 0 < ((s.drop r.headLength).drop r.packSize.toNat).length := by
          have := hcopy.2.1
          simp only [length_drop] at hone ⊢
          omega
        obtain ⟨q, hq, hb⟩ := pushMore_bounded (l := some (pushData l socketId _)) hl socketId
          (plain_rest hnext h hpos hbody hrest)
        rw [hq]
        exact ⟨_, rfl, hb⟩

end

theorem fillBody_safe (hq : Bounded q) (uc : Uncomplete) (hle : uc.read ≤ uc.size) {buffer : Bytes}
    (h : AllPlain (fillEvents handshake uc.size uc.read buffer)) :
    AllSafe (fillEvents handshake uc.size uc.read buffer) ∧
      ∃ out, fillBody handshake q uc buffer = some out ∧ Bounded out.2 := by
  simp only [fillEvents, fillBody] at h ⊢
  by_cases hshort : (buffer.length : ℤ) < uc.size - uc.read
  · have hless : buffer.length < (uc.size - uc.read).toNat := by omega
    rw [if_pos hshort, if_pos hless, allSafe_cons]
    refine ⟨⟨⟨by omega, le_rfl, by omega⟩, allSafe_nil⟩, _, rfl, hq.link fun _ => ?_⟩
    change uc.read + buffer.length ≤ (uc.size : ℤ)
    omega
  · have hless : ¬ buffer.length < (uc.size - uc.read).toNat := by omega
    rw [if_neg hshort, allPlain_cons] at h
    rw [if_neg hshort, if_neg hless, allSafe_cons]
    have hcopy : (Event.copy (uc.size - uc.read) buffer.length (uc.size - uc.read)).Safe :=
      ⟨by omega, by omega, le_rfl⟩
    split_ifs at h ⊢
    · exact ⟨⟨hcopy, allSafe_nil⟩, _, rfl, hq⟩
    · obtain ⟨q', hq', hb⟩ := pushMore_bounded (l := some (pushData (some q) uc.socketId _)) hq
        uc.socketId h.2
      rw [hq']
      exact ⟨⟨hcopy, packEvents_safe (by decide) h.2⟩, _, rfl, hb⟩

theorem fillHeader_safe {header chunk : Bytes} {r : Reading}
    (hroom : header.length + (if handshake then chunk.length else 1) ≤ headerSize)
    (hr : -1 ≤ r.packSize) (h : AllPlain (headerEvents handshake header chunk)) :
    AllSafe (headerEvents handshake header chunk) ∧
      ∃ out, fillHeader handshake header r chunk = some out ∧ -1 ≤ out.2.1.packSize := by
  have hsize : headerSize = 1024 := rfl
  induction chunk generalizing header r with
  | nil => exact ⟨allSafe_nil, _, rfl, hr⟩
  | cons b rest ih =>
    rw [length_cons] at hroom
    have hlt : header.length < headerSize := by split_ifs at hroom <;> omega
    have hlen : (header ++ [b]).length = header.length + 1 := length_append
    simp only [headerEvents, fillHeader, if_neg (not_le.mpr hlt), allPlain_cons,
      allPlain_append, allSafe_cons, allSafe_append] at h ⊢
    have hindex : (Event.index header.length).Safe := ⟨by omega, by omega⟩
    have hsized := sized_nextSize (by decide) h.2.1
    have hreads : AllSafe (if handshake then [] else readEvents (· = -2) true (header ++ [b])) :=
      reads_safe fun _ => by omega
    cases hnext : nextSize handshake (· = -2) (header ++ [b]) with
    | mk r' s =>
      simp only [hnext] at h hsized ⊢
      rcases hsized with ⟨hcode, hshort⟩ | ⟨hpos, -⟩
      · simp only at hcode hshort
        have hneg : ¬ 0 ≤ r'.packSize := by omega
        have hroom' : s.length + (if handshake then rest.length else 1) ≤ headerSize := by
          cases handshake with
          | false =>
            have := hshort rfl
            simp only [Bool.false_eq_true, if_false]
            omega
          | true =>
            cases hnext
            simp only [if_true] at hroom ⊢
            omega
        rw [if_neg hneg] at h ⊢
        rw [if_neg hneg]
        obtain ⟨hsafe, hout⟩ := ih (r := r') hroom' (by omega) h.2.2
        exact ⟨⟨hindex, hreads, hsafe⟩, hout⟩
      · rw [if_pos hpos, if_pos hpos]
        exact ⟨⟨hindex, hreads, allSafe_nil⟩, _, rfl, le_trans (by decide) hpos⟩

/-- **One call** of the filter. -/
theorem filterData_safe (hl : Bounded (getQueue l)) {socketId : ℕ} {chunk : Bytes}
    (h : tame l (.data handshake socketId chunk) = true) :
    AllSafe (dataEvents handshake l socketId chunk) ∧
      ∃ out, filterData handshake l socketId chunk = some out ∧ Bounded (getQueue out.2) := by
  simp only [tame, Bool.and_eq_true, all_eq_true] at h
  obtain ⟨hplain, hroom⟩ := h
  replace hplain : AllPlain (dataEvents handshake l socketId chunk) := hplain
  unfold dataEvents filterData at *
  cases hfind : findUncomplete l socketId with
  | none =>
    simp only [hfind] at hplain ⊢
    exact ⟨packEvents_safe (by decide) hplain, filterFresh_bounded hl socketId hplain⟩
  | some found =>
    obtain ⟨uc, q⟩ := found
    obtain ⟨hle, hq⟩ := hl.find hfind
    simp only [hfind] at hplain hroom ⊢
    by_cases hread : uc.read < 0
    · rw [if_pos hread, allPlain_append] at hplain
      rw [if_pos hread, if_pos hread, allSafe_append]
      simp only [not_le.mpr hread, decide_false, Bool.false_or, decide_eq_true_eq] at hroom
      obtain ⟨hsafe, ⟨header, r, rest⟩, hfill, hcode⟩ := fillHeader_safe
        (r := { packSize := 0 }) hroom (by decide) hplain.1
      simp only [hfill] at hplain hcode ⊢
      by_cases hnone : r.packSize = -1
      · rw [if_pos hnone, if_pos hnone]
        exact ⟨⟨hsafe, allSafe_nil⟩, _, rfl, hq.link fun hpos => absurd hread (by simpa using hpos)⟩
      · have hneg : ¬ r.packSize < 0 := by omega
        have hsize : ((r.packSize.toNat : ℕ) : ℤ) = r.packSize := by omega
        rw [if_neg hnone, allPlain_append] at hplain
        rw [if_neg hnone, if_neg hnone, if_neg hneg, allSafe_append]
        obtain ⟨hbody, out, hout, hb⟩ := fillBody_safe hq
          { uc with
            header, size := r.packSize.toNat, mask := r.mask, hasunmaskSize := 0
            buf := if handshake then header.take r.packSize.toNat else []
            read := if handshake then min (header.length : ℤ) r.packSize.toNat else 0 }
          (by simp only; split_ifs <;> omega) (by simp only [hsize]; exact hplain.2.2)
        rw [hout]
        simp only [hsize] at hbody
        refine ⟨⟨hsafe, ?_, hbody⟩, _, rfl, hb⟩
        split_ifs
        · exact allSafe_cons.mpr ⟨⟨by omega, by omega, by omega⟩, allSafe_nil⟩
        · exact allSafe_nil
    · rw [if_neg hread] at hplain ⊢
      rw [if_neg hread]
      obtain ⟨hsafe, out, hout, hb⟩ := fillBody_safe hq uc (hle (not_lt.mp hread)) hplain
      rw [hout]
      exact ⟨hsafe, _, rfl, hb⟩

/-! ### Whole runs -/

theorem Bounded.of_reachable (h : filter.ReachableVia (fun l c => tame l c = true) l) :
    Bounded (getQueue l) := by
  refine h.invariant (I := fun l => Bounded (getQueue l)) (fun _ _ hmem => absurd hmem not_mem_nil)
    fun l c l' hl hc hstep => ?_
  cases c with
  | data handshake socketId chunk =>
    obtain ⟨-, out, hout, hb⟩ := filterData_safe hl hc
    obtain ⟨out', hout', rfl⟩ := Option.map_eq_some_iff.mp hstep
    cases hout.symm.trans hout'
    exact hb
  | close socketId =>
    cases hstep
    unfold closeUncomplete
    split
    · exact hl
    · next hfind => exact (hl.find hfind).2

/-- **Accesses in bounds**: whatever the clients send, in whatever chunks, with the handshake or
without, every copy fits its source and its destination, every index into the array of the header
is below its size, and the filter comes to its end; as long as no header announces a negative
length and the array has room. -/
theorem accesses_in_bounds {l : Option MsgQueue}
    (h : filter.ReachableVia (fun l c => tame l c = true) l) {c : Call} (hc : tame l c = true) :
    (∀ e ∈ c.events l, e.Safe) ∧ ∃ l', filter.step l c = some l' := by
  have hl := Bounded.of_reachable h
  cases c with
  | data handshake socketId chunk =>
    obtain ⟨hsafe, out, hout, -⟩ := filterData_safe hl hc
    exact ⟨hsafe, out.2, Option.map_eq_some_iff.mpr ⟨out, hout, rfl⟩⟩
  | close socketId => exact ⟨nofun, _, rfl⟩

/-- A handshake in two chunks. -/
theorem accesses_in_bounds_of_handshake : ∃ l,
    filter.ReachableVia (fun l c => tame l c = true) l ∧
    (Call.data true 1 [13, 10]).events l = [.index 2, .index 3, .copy 4 4 4, .copy 0 0 0] ∧
    ∀ e ∈ (Call.data true 1 [13, 10]).events l, e.Safe := by
  obtain ⟨l, hl, hevents, hc⟩ := filter.exists_reachable (fun l c => tame l c = true)
    [.data true 1 [13, 10]]
    (fun l => (Call.data true 1 [13, 10]).events l =
      [.index 2, .index 3, .copy 4 4 4, .copy 0 0 0] ∧ tame l (.data true 1 [13, 10]) = true)
    (by decide +kernel)
  exact ⟨l, hl, hevents, (accesses_in_bounds hl hc).1⟩

/-- The first chunk of a handshake fills the array, and the next byte is written behind it.  A
frame announces `2 ^ 32 - 16` bytes, and `-16` bytes are copied. -/
theorem accesses_out_of_bounds :
    (∃ l, filter.exec none [.data true 1 (replicate 1024 65)] = some l ∧
      .index 1024 ∈ (Call.data true 1 [65]).events l) ∧
    .copy (-16) 0 (-16) ∈
      (Call.data false 1 [0x82, 0x7f, 0, 0, 0, 0, 0xff, 0xff, 0xff, 0xf0]).events none ∧
    ¬ (Event.index 1024).Safe ∧ ¬ (Event.copy (-16) 0 (-16)).Safe := by
  have hindex := filter.exists_exec [.data true 1 (replicate 1024 65)]
    (fun l => .index 1024 ∈ (Call.data true 1 [65]).events l) (by decide +kernel)
  have hread : nextSize false (· = -2) [0x82, 0x7f, 0, 0, 0, 0, 0xff, 0xff, 0xff, 0xf0] =
      (⟨-16, 10, none⟩, [0x82, 0x7f, 0, 0, 0, 0, 0xff, 0xff, 0xff, 0xf0]) := by
    rw [nextSize, if_neg (by decide), readFrame, if_neg (by decide +kernel)]
    decide +kernel
  refine ⟨hindex, ?_, by simp [Event.Safe, headerSize], by simp [Event.Safe]⟩
  simp [Call.events, dataEvents, findUncomplete, packEvents, hread]

end Skynet.NetpackWs
