import Skynet.HashChains
import Skynet.MachineInt
import Skynet.Netpack
import Skynet.WebSocketFrames

/-! # The packet filter of a web socket gate

A model of `lua-netpack_ws.cpp`, which cuts the byte streams of many sockets into the payloads of
web socket frames.  The header of a frame has two bytes, then two or eight more if the length does
not fit into the second one, and then the four bytes of a masking key if the payload is masked.

A frame that a chunk leaves incomplete waits in a hash table keyed by the socket, either with the
part of its header that has come or with the part of its payload, already without the mask.  While
the connection is set up (`handshake`) the filter looks for the end of an HTTP header instead.

Sizes are of type `int`.  A size that is negative for another reason than the two error codes of
`read_size`, and a copy behind the end of an array, have no defined result, which is `none` here.
The sum `total_size`, which nothing reads, is left out. -/

namespace Skynet.NetpackWs

open LuaText ByteOrder MachineInt
open Netpack (Pack Filtered hashSocketId queueSize queueSize_pos)

def headerSize : ℕ := 1024
def maxPackSize : ℕ := 10 * 1024

/-- `uncomplete`: a frame of which `read` bytes of the payload have come, or, if `read` is negative,
a part of its header. -/
structure Uncomplete where
  socketId : ℕ
  size : ℕ := 0
  /-- the bytes copied to `buf_ptr` so far -/
  buf : Bytes := []
  read : ℤ := 0
  /-- the bytes of the header that have come -/
  header : Bytes := []
  /-- `mask`, if `ismask` is set -/
  mask : Option Bytes := none
  hasunmaskSize : ℕ := 0
  deriving DecidableEq, Repr

/-- `queue`: complete packets in a ring, incomplete frames in chains. -/
structure MsgQueue where
  ring : RingQueue Pack
  hash : ℕ → List Uncomplete

/-! ### The queue -/

/-- `get_queue`: the queue of the last call, or a new one. -/
def getQueue : Option MsgQueue → MsgQueue
  | some q => q
  | none => { ring := .empty queueSize queueSize_pos ⟨0, []⟩, hash := fun _ => [] }

/-- `push_data`, with `expand_queue` when the ring is full. -/
def pushData (l : Option MsgQueue) (socketId : ℕ) (data : Bytes) : MsgQueue :=
  let q := getQueue l
  { q with ring := q.ring.push queueSize queueSize_pos ⟨socketId, data⟩ }

/-- Put `uc` in front of its chain. -/
def MsgQueue.link (q : MsgQueue) (uc : Uncomplete) : MsgQueue :=
  { q with hash := HashChains.link Uncomplete.socketId hashSocketId q.hash uc }

def saveUncomplete (l : Option MsgQueue) (uc : Uncomplete) : MsgQueue := (getQueue l).link uc

/-- `find_uncomplete`: the frame of the socket in its chain, taken out of it. -/
def findUncomplete (l : Option MsgQueue) (socketId : ℕ) : Option (Uncomplete × MsgQueue) :=
  match l with
  | none => none
  | some q =>
    (HashChains.take Uncomplete.socketId hashSocketId q.hash socketId).map fun r =>
      (r.1, { q with hash := r.2 })

def closeUncomplete (l : Option MsgQueue) (socketId : ℕ) : Option MsgQueue :=
  match findUncomplete l socketId with
  | none => l
  | some (_, q) => some q

/-! ### Headers -/

/-- What `read_size` returns: the size of the payload or an error code, the length of the header
and the mask, if there is one. -/
structure Reading where
  packSize : ℤ
  headLength : ℕ := 0
  mask : Option Bytes := none
  deriving DecidableEq, Repr

/-- `ntoh64` of eight bytes: the two halves of the number in host order are turned around, each
and with each other. -/
def ntoh64 (bytes : Bytes) : ℕ := ofBE (bytes.take 4) <<< 32 ||| ofBE (bytes.drop 4)

/-- The size of the payload and the offset behind it, for the lower bits of the second byte. -/
def readLength (length : ℕ) (buffer : Bytes) : Option (ℤ × ℕ) :=
  if length < 0x7E then some (length, 2)
  else if length = 0x7E then
    if buffer.length < 4 then none else some (ofBE ((buffer.drop 2).take 2), 4)
  else if buffer.length < 10 then none
  else some (toInt (ntoh64 ((buffer.drop 2).take 8)), 10)

/-- `read_size`: -1 if the header has not come yet, -2 if its first two bytes are none. -/
def readSize (buffer : Bytes) : Reading :=
  match buffer with
  | b₀ :: b₁ :: _ =>
    let fin := b₀.toNat >>> 7 &&& 1
    let rsv1 := b₀.toNat >>> 6 &&& 1
    let rsv2 := b₀.toNat >>> 5 &&& 1
    let rsv3 := b₀.toNat >>> 4 &&& 1
    let opcode := b₀.toNat &&& 0xf
    let isMask := b₁.toNat >>> 7 &&& 1
    if rsv1 ≠ 0 ∨ rsv2 ≠ 0 ∨ rsv3 ≠ 0 then { packSize := -2 }
    else if fin = 0 ∨ opcode = 0 then { packSize := -2 }
    else
      match readLength (b₁.toNat &&& 0x7f) buffer with
      | none => { packSize := -1 }
      | some (packSize, offset) =>
        if isMask ≠ 0 then
          if offset + 4 > buffer.length then { packSize := -1 }
          else ⟨packSize, offset + 4, some ((buffer.drop offset).take 4)⟩
        else ⟨packSize, offset, none⟩
  | _ => { packSize := -1 }

/-- A payload is cut to `MAX_PACKSIZE`. -/
def Reading.capped (r : Reading) : Reading :=
  { r with packSize := min r.packSize maxPackSize }

/-- The header at the beginning of a buffer, after the pairs of bytes that are none.  `skip` tells
which codes make the loop go on; they only come with two bytes or more. -/
def readFrame (skip : ℤ → Bool) (buffer : Bytes) : Reading × Bytes :=
  let r := readSize buffer
  if skip r.packSize ∧ 2 ≤ buffer.length then readFrame skip (buffer.drop 2)
  else (r.capped, buffer)
termination_by buffer.length
decreasing_by
  rw [List.length_drop]
  omega

/-- `get_http_header`: the length of an HTTP header, up to its empty line. -/
def getHttpHeader (buffer : Bytes) : ℤ :=
  match find [13, 10, 13, 10] buffer with
  | none => -1
  | some n => n + 4

/-- The size of the next packet of a buffer. -/
def nextSize (handshake : Bool) (skip : ℤ → Bool) (buffer : Bytes) : Reading × Bytes :=
  if handshake then ({ packSize := getHttpHeader buffer }, buffer) else readFrame skip buffer

/-- `decode_wsmask_data`, for bytes that come `phase` bytes after the beginning of the payload. -/
def unmask (mask : Option Bytes) (phase : ℕ) (s : Bytes) : Bytes :=
  match mask with
  | none => s
  | some key => s.zipIdx.map fun x => x.1 ^^^ key.getD ((x.2 + phase) % 4) 0

/-! ### The filter -/

/-- A new entry for the part of a header that has come. -/
def saveHeader (handshake : Bool) (l : Option MsgQueue) (socketId : ℕ) (buffer : Bytes) :
    Option MsgQueue :=
  if handshake ∧ headerSize < buffer.length then
    some (saveUncomplete l { socketId, read := -1, header := buffer.take headerSize })
  -- a copy behind the end of the header
  else if headerSize < buffer.length then none
  else some (saveUncomplete l { socketId, read := -1, header := buffer })

/-- A new entry for the part of a payload that has come. -/
def saveBody (l : Option MsgQueue) (socketId : ℕ) (r : Reading) (body : Bytes) : MsgQueue :=
  saveUncomplete l
    { socketId, read := body.length, size := r.packSize.toNat, buf := unmask r.mask 0 body
      mask := r.mask, hasunmaskSize := if r.mask.isSome then body.length else 0 }

theorem length_readFrame_le (skip : ℤ → Bool) (buffer : Bytes) :
    (readFrame skip buffer).2.length ≤ buffer.length := by
  fun_induction readFrame skip buffer with
  | case1 buffer r h ih =>
    rw [List.length_drop] at ih
    omega
  | case2 => exact le_rfl

theorem readSize_headLength (buffer : Bytes) (h : 0 ≤ (readSize buffer).packSize) :
    0 < (readSize buffer).headLength := by
  unfold readSize readLength at h ⊢
  grind

theorem readFrame_headLength (skip : ℤ → Bool) (buffer : Bytes)
    (h : 0 ≤ (readFrame skip buffer).1.packSize) : 0 < (readFrame skip buffer).1.headLength := by
  fun_induction readFrame skip buffer with
  | case1 buffer r hskip ih => exact ih h
  | case2 buffer r hskip =>
    refine readSize_headLength buffer ?_
    have hmin : 0 ≤ min (readSize buffer).packSize maxPackSize := h
    omega

theorem nextSize_progress (handshake : Bool) (skip : ℤ → Bool) (buffer : Bytes)
    (h : 0 ≤ (nextSize handshake skip buffer).1.packSize) :
    (nextSize handshake skip buffer).2.length ≤ buffer.length ∧
      0 < (nextSize handshake skip buffer).1.headLength +
        (nextSize handshake skip buffer).1.packSize.toNat := by
  unfold nextSize at h ⊢
  cases handshake with
  | true =>
    simp only [if_true] at h ⊢
    refine ⟨le_rfl, ?_⟩
    unfold getHttpHeader at h ⊢
    split at h
    · omega
    · omega
  | false =>
    have := readFrame_headLength skip buffer h
    exact ⟨length_readFrame_le skip buffer, by simp only [Bool.false_eq_true, if_false]; omega⟩

/-- `push_more`: queue the packets of `buffer`, and keep an incomplete one. -/
def pushMore (handshake : Bool) (l : Option MsgQueue) (socketId : ℕ) (buffer : Bytes) :
    Option MsgQueue :=
  let next := nextSize handshake (· ≤ -2) buffer
  let packSize := next.1.packSize
  if packSize = -1 then saveHeader handshake l socketId next.2
  else if _h : packSize < 0 then none
  else
    let body := next.2.drop next.1.headLength
    if body.length < packSize ∧ ¬ handshake then some (saveBody l socketId next.1 body)
    else
      let n := packSize.toNat
      let q := pushData l socketId (unmask next.1.mask 0 (body.take n))
      let rest := body.drop n
      if 0 < rest.length then pushMore handshake (some q) socketId rest else some q
termination_by buffer.length
decreasing_by
  have hprogress := nextSize_progress handshake (· ≤ -2) buffer (not_lt.mp _h)
  have hrest : 0 < rest.length := ‹_›
  simp only [rest, body, n, packSize, next, List.length_drop] at hrest ⊢
  omega

/-- The part of `filter_data_` that fills a packet whose size is known. -/
def fillBody (handshake : Bool) (q : MsgQueue) (uc : Uncomplete) (buffer : Bytes) :
    Option (Option Filtered × MsgQueue) :=
  let need := (uc.size - uc.read).toNat
  if buffer.length < need then
    some (none, q.link
      { uc with
        buf := uc.buf ++ unmask uc.mask uc.hasunmaskSize buffer
        read := uc.read + buffer.length
        hasunmaskSize := uc.hasunmaskSize + if uc.mask.isSome then buffer.length else 0 })
  else
    let data := uc.buf ++ unmask uc.mask uc.hasunmaskSize (buffer.take need)
    let rest := buffer.drop need
    if rest.length = 0 then some (some (.data uc.socketId data), q)
    else
      (pushMore handshake (some (pushData (some q) uc.socketId data)) uc.socketId rest).map
        fun q => (some .more, q)

/-- The part of `filter_data_` for a socket of which nothing is kept. -/
def filterFresh (handshake : Bool) (l : Option MsgQueue) (socketId : ℕ) (buffer : Bytes) :
    Option (Option Filtered × Option MsgQueue) :=
  let next := nextSize handshake (· = -2) buffer
  let packSize := next.1.packSize
  if packSize = -1 then
    (saveHeader handshake l socketId next.2).map fun q => (none, some q)
  else if packSize < 0 then none
  else
    let body := next.2.drop next.1.headLength
    if body.length < packSize ∧ ¬ handshake then
      some (none, some (saveBody l socketId next.1 body))
    else if body.length = packSize then
      some (some (.data socketId (unmask next.1.mask 0 body)), l)
    else
      let n := packSize.toNat
      let q := pushData l socketId (unmask next.1.mask 0 (body.take n))
      (pushMore handshake (some q) socketId (body.drop n)).map fun q => (some .more, some q)

/-- The loop that puts the bytes of the buffer behind the kept part of a header, until the header
is complete: the header, what it says and the rest of the buffer. -/
def fillHeader (handshake : Bool) (header : Bytes) (r : Reading) :
    Bytes → Option (Bytes × Reading × Bytes)
  | [] => some (header, r, [])
  | b :: rest =>
    -- a write behind the end of the header
    if headerSize ≤ header.length then none
    else
      let next := nextSize handshake (· = -2) (header ++ [b])
      if 0 ≤ next.1.packSize then some (next.2, next.1, rest)
      else fillHeader handshake next.2 next.1 rest

def filterData (handshake : Bool) (l : Option MsgQueue) (socketId : ℕ) (buffer : Bytes) :
    Option (Option Filtered × Option MsgQueue) :=
  match findUncomplete l socketId with
  | none => filterFresh handshake l socketId buffer
  | some (uc, q) =>
    if uc.read < 0 then
      match fillHeader handshake uc.header { packSize := 0 } buffer with
      | none => none
      | some (header, r, rest) =>
        if r.packSize = -1 then some (none, some (q.link { uc with header }))
        else if r.packSize < 0 then none
        else
          let n := r.packSize.toNat
          let uc : Uncomplete :=
            { uc with
              header, size := n, mask := r.mask, hasunmaskSize := 0
              buf := if handshake then header.take n else []
              read := if handshake then min header.length n else 0 }
          (fillBody handshake q uc rest).map fun out => (out.1, some out.2)
    else (fillBody handshake q uc buffer).map fun out => (out.1, some out.2)

/-! ### The caller -/

/-- Filter one chunk and hand out the packets it completes: the one the filter returns, or all
those in the queue if it says that there are more. -/
def receive (handshake : Bool) (l : Option MsgQueue) (socketId : ℕ) (buffer : Bytes) :
    Option (List Pack × Option MsgQueue) :=
  match filterData handshake l socketId buffer with
  | none => none
  | some (some (.data socketId data), l) => some ([⟨socketId, data⟩], l)
  | some (some .more, l) =>
    let out := (getQueue l).ring.drain (getQueue l).ring.cap
    some (out.1, some { getQueue l with ring := out.2 })
  | some (_, l) => some ([], l)

/-- The packets handed out for a list of chunks, each with its socket, after the handshake. -/
def receiveAll (l : Option MsgQueue) : List (ℕ × Bytes) → Option (List Pack × Option MsgQueue)
  | [] => some ([], l)
  | c :: cs =>
    match receive false l c.1 c.2 with
    | none => none
    | some (packs, l) => (receiveAll l cs).map fun out => (packs ++ out.1, out.2)

/-- `l_pack`: a binary frame without a mask. -/
def lPack (msg : Bytes) : Bytes :=
  let len := msg.length
  let byte (i : ℕ) : UInt8 := UInt8.ofNat (len >>> (i * 8) &&& 0xff)
  let header : Bytes :=
    if len < 126 then [0x82, byte 0]
    else if len < 65536 then [0x82, 126, byte 1, byte 0]
    else [0x82, 127, byte 7, byte 6, byte 5, byte 4, byte 3, byte 2, byte 1, byte 0]
  header ++ msg

end Skynet.NetpackWs
