import Skynet.ByteOrder
import Skynet.Framing
import Skynet.RingQueue

/-! # The packet filter of a gate

`lua-netpack.cpp` cuts the byte streams of many sockets into packets: a header gives the length
of the packet that follows it, most significant byte first.  `lua-netpack_tcp.cpp` is a copy of
it with another header.  What differs is collected in a `Layout`: the length of the header, the
packet length read from it, and how the rest of a header is taken from the next chunk; the two
members are `Short` (two bytes) and `Long` (four bytes).

A packet that a chunk leaves incomplete waits in a hash table keyed by the socket.  A chunk that
holds one packet and nothing else is returned as it is; otherwise its packets go into a ring
queue and the caller is told that there are more of them.  The filter is called with the queue
the last call returned, `none` before the first one. -/

namespace Skynet.Netpack

open List

def queueSize : ℕ := 1024
def hashSize : ℕ := 4096

theorem queueSize_pos : 0 < queueSize := by decide

/-- `netpack`: a packet and the socket it came from. -/
structure Pack where
  socketId : ℕ
  data : List UInt8
  deriving DecidableEq, Repr

/-- `uncomplete`: a packet of which `read` bytes have come, or, if `read` is negative, a part of
its header. -/
structure Uncomplete where
  socketId : ℕ
  size : ℕ := 0
  /-- the bytes copied to `buf_ptr` so far -/
  buf : List UInt8 := []
  read : ℤ := 0
  /-- the bytes of the header that have come -/
  header : List UInt8 := []
  deriving DecidableEq, Repr

/-- `msg_queue`: complete packets in a ring, incomplete ones in chains. -/
structure MsgQueue where
  ring : RingQueue Pack
  hash : ℕ → List Uncomplete

/-- What a member of the family does its own way. -/
structure Layout extends Framing UInt8 where
  /-- Put bytes of the buffer behind the kept part of a header: the header, and once it is
  complete the length it gives and the rest of the buffer. -/
  fillHeader : List UInt8 → List UInt8 → List UInt8 × Option (ℕ × List UInt8)
  fill_short : ∀ kept buffer, kept ≠ [] → kept.length + buffer.length < header →
    fillHeader kept buffer = (kept ++ buffer, none)
  fill_full : ∀ kept buffer, kept ≠ [] → kept.length < header →
    header ≤ kept.length + buffer.length →
    (fillHeader kept buffer).2 =
      some (size ((kept ++ buffer).take header), (kept ++ buffer).drop header)

/-! ### The queue -/

def hashSocketId (socketId : ℕ) : ℕ :=
  (socketId >>> 24 + socketId >>> 12 + socketId) % 2 ^ 32 % hashSize

/-- `get_queue`: the queue of the last call, or a new one. -/
def getQueue : Option MsgQueue → MsgQueue
  | some q => q
  | none => { ring := .empty queueSize queueSize_pos ⟨0, []⟩, hash := fun _ => [] }

/-- `push_data`, with `expand_queue` when the ring is full. -/
def pushData (l : Option MsgQueue) (socketId : ℕ) (data : List UInt8) : MsgQueue :=
  let q := getQueue l
  { q with ring := q.ring.push queueSize queueSize_pos ⟨socketId, data⟩ }

/-- Put `uc` in front of its chain. -/
def MsgQueue.link (q : MsgQueue) (uc : Uncomplete) : MsgQueue :=
  let h := hashSocketId uc.socketId
  { q with hash := Function.update q.hash h (uc :: q.hash h) }

def saveUncomplete (l : Option MsgQueue) (uc : Uncomplete) : MsgQueue := (getQueue l).link uc

/-- `_find_uncomplete`: the first packet of the socket in its chain, taken out of it. -/
def findUncomplete (l : Option MsgQueue) (socketId : ℕ) : Option (Uncomplete × MsgQueue) :=
  match l with
  | none => none
  | some q =>
    let h := hashSocketId socketId
    match (q.hash h).find? (·.socketId = socketId) with
    | none => none
    | some uc =>
      let chain := (q.hash h).eraseP (·.socketId = socketId)
      some (uc, { q with hash := Function.update q.hash h chain })

def closeUncomplete (l : Option MsgQueue) (socketId : ℕ) : Option MsgQueue :=
  match findUncomplete l socketId with
  | none => l
  | some (_, q) => some q

def lPop (l : Option MsgQueue) : Option (Pack × MsgQueue) :=
  match l with
  | none => none
  | some q => q.ring.pop.map fun p => (p.1, { q with ring := p.2 })

/-! ### The filter -/

/-- What the filter returns behind the queue. -/
inductive Filtered where
  | data (socketId : ℕ) (msg : List UInt8)
  | more
  | error (socketId : ℕ) (msg : List UInt8)
  | accept (socketId : ℕ) (msg : List UInt8)
  | close (socketId : ℕ)
  | warning (socketId size : ℕ)
  deriving DecidableEq, Repr

section

variable (V : Layout)

/-- `_push_more`: queue the packets of `buffer`, and keep an incomplete one. -/
def pushMore (l : Option MsgQueue) (socketId : ℕ) (buffer : List UInt8) : MsgQueue :=
  if buffer.length < V.header then
    saveUncomplete l { socketId, read := -1, header := buffer }
  else
    let packSize := V.size (buffer.take V.header)
    let body := buffer.drop V.header
    if body.length < packSize then
      saveUncomplete l { socketId, read := body.length, size := packSize, buf := body }
    else
      let q := pushData l socketId (body.take packSize)
      let rest := body.drop packSize
      if 0 < rest.length then pushMore (some q) socketId rest else q
termination_by buffer.length
decreasing_by
  have := V.header_pos
  simp only [length_drop] at *
  omega

/-- The part of `filter_data_` that fills a packet whose length is known. -/
def fillBody (q : MsgQueue) (uc : Uncomplete) (buffer : List UInt8) : Option Filtered × MsgQueue :=
  let need := (uc.size - uc.read).toNat
  if buffer.length < need then
    (none, q.link { uc with buf := uc.buf ++ buffer, read := uc.read + buffer.length })
  else
    let data := uc.buf ++ buffer.take need
    let rest := buffer.drop need
    if rest.length = 0 then (some (.data uc.socketId data), q)
    else (some .more, pushMore V (some (pushData (some q) uc.socketId data)) uc.socketId rest)

/-- The part of `filter_data_` for a socket of which nothing is kept. -/
def filterFresh (l : Option MsgQueue) (socketId : ℕ) (buffer : List UInt8) :
    Option Filtered × Option MsgQueue :=
  if buffer.length < V.header then
    (none, some (saveUncomplete l { socketId, read := -1, header := buffer }))
  else
    let packSize := V.size (buffer.take V.header)
    let body := buffer.drop V.header
    if body.length < packSize then
      (none, some (saveUncomplete l { socketId, read := body.length, size := packSize, buf := body }))
    else if body.length = packSize then (some (.data socketId body), l)
    else
      let q := pushData l socketId (body.take packSize)
      (some .more, some (pushMore V (some q) socketId (body.drop packSize)))

def filterData (l : Option MsgQueue) (socketId : ℕ) (buffer : List UInt8) :
    Option Filtered × Option MsgQueue :=
  match findUncomplete l socketId with
  | none => filterFresh V l socketId buffer
  | some (uc, q) =>
    if uc.read < 0 then
      match V.fillHeader uc.header buffer with
      | (header, none) => (none, some (q.link { uc with header }))
      | (header, some (packSize, rest)) =>
        (fillBody V q { uc with header, buf := [], size := packSize, read := 0 } rest).map id some
    else (fillBody V q uc buffer).map id some

/-- The messages of the socket server. -/
inductive Message where
  | data (socketId : ℕ) (buffer : List UInt8)
  | connect (socketId : ℕ)
  | close (socketId : ℕ)
  | accept (socketId ud : ℕ) (msg : List UInt8)
  | error (socketId : ℕ) (msg : List UInt8)
  | warning (socketId ud : ℕ)
  deriving DecidableEq, Repr

def lFilter (l : Option MsgQueue) : Message → Option Filtered × Option MsgQueue
  | .data socketId buffer => filterData V l socketId buffer
  | .connect _ => (none, l)
  | .close socketId => (some (.close socketId), closeUncomplete l socketId)
  | .accept _ ud msg => (some (.accept ud msg), l)
  | .error socketId msg => (some (.error socketId msg), closeUncomplete l socketId)
  | .warning socketId ud => (some (.warning socketId ud), l)

/-! ### The caller

`gateserver.lua` hands a packet that the filter returns to its handler, and pops the queue until
it is empty when the filter says that there is more.  It does so before it filters the next
message: each packet is popped by a coroutine that first forks the one for the next packet, so
a handler that blocks does not stop the others. -/

/-- Pop `fuel` times, or until the queue is empty. -/
def popAll : ℕ → Option MsgQueue → List Pack × Option MsgQueue
  | 0, l => ([], l)
  | fuel + 1, l =>
    match lPop l with
    | none => ([], l)
    | some (p, q) => ((p :: (popAll fuel (some q)).1), (popAll fuel (some q)).2)

/-- Filter one message and hand out the packets it completes. -/
def receive (l : Option MsgQueue) (m : Message) : List Pack × Option MsgQueue :=
  match lFilter V l m with
  | (some (.data socketId data), l) => ([⟨socketId, data⟩], l)
  | (some .more, l) => popAll (getQueue l).ring.cap l
  | (_, l) => ([], l)

/-- The packets handed out for a list of messages. -/
def receiveAll (l : Option MsgQueue) : List Message → List Pack × Option MsgQueue
  | [] => ([], l)
  | m :: ms =>
    ((receive V l m).1 ++ (receiveAll (receive V l m).2 ms).1,
      (receiveAll (receive V l m).2 ms).2)

end

/-! ### The two members -/

/-- The message of `luaL_error` for a packet that is too long; the length is printed as an
`int`. -/
def tooLong (len : ℕ) : String :=
  "Invalid size (too long) of data : " ++ toString (Int.bmod len (2 ^ 32))

namespace Short

/-- `_read_size` of `lua-netpack.cpp`. -/
def readSize : List UInt8 → ℕ
  | b₀ :: b₁ :: _ => b₀.toNat <<< 8 ||| b₁.toNat
  | _ => 0

/-- One byte of the header is kept, and the next one completes it. -/
def fillHeader (header : List UInt8) : List UInt8 → List UInt8 × Option (ℕ × List UInt8)
  | [] => (header, none)
  | b :: rest => (header, some (b.toNat ||| (header.headD 0).toNat <<< 8, rest))

theorem fillHeader_full {a b : UInt8} {rest : List UInt8} :
    (fillHeader [a] (b :: rest)).2 = some (readSize [a, b], rest) := by
  rw [fillHeader, readSize, headD_cons, Nat.or_comm]

def layout : Layout where
  header := 2
  header_pos := by decide
  size := readSize
  fillHeader := fillHeader
  fill_short kept buffer hne hlen := by
    have hkept := length_pos_iff.mpr hne
    obtain rfl : buffer = [] := length_eq_zero_iff.mp (by omega)
    rw [fillHeader, append_nil]
  fill_full kept buffer hne hkept hlen := by
    have hpos := length_pos_iff.mpr hne
    obtain ⟨a, rfl⟩ := length_eq_one_iff.mp (by omega : kept.length = 1)
    cases buffer with
    | nil => exact absurd hlen (by simp)
    | cons b rest => exact fillHeader_full

/-- `l_pack` of `lua-netpack.cpp`. -/
def lPack (msg : List UInt8) : Except String (List UInt8) :=
  let len := msg.length
  if 0x10000 ≤ len then .error (tooLong len)
  else .ok ([UInt8.ofNat (len >>> 8 &&& 0xff), UInt8.ofNat (len &&& 0xff)] ++ msg)

end Short

namespace Long

def smallString : ℕ := 65536

/-- `_read_size` of `lua-netpack_tcp.cpp`: `ntohl` of four bytes, at most `SMALLSTRING`. -/
def readSize (buffer : List UInt8) : ℕ :=
  let size := ByteOrder.ofBE (buffer.take 4)
  if smallString < size then smallString else size

/-- The length of the packet behind a header: each caller of `_read_size` checks the bound once
more. -/
def packSize (buffer : List UInt8) : ℕ :=
  if smallString < readSize buffer then smallString else readSize buffer

/-- The loop that puts bytes behind the kept part of a header until it has four. -/
def fillHeader (header : List UInt8) : List UInt8 → List UInt8 × Option (ℕ × List UInt8)
  | [] => (header, none)
  | b :: rest =>
    let header := header ++ [b]
    if header.length = 4 then (header, some (packSize header, rest))
    else fillHeader header rest

theorem fillHeader_short {kept buffer : List UInt8} (h : kept.length + buffer.length < 4) :
    fillHeader kept buffer = (kept ++ buffer, none) := by
  induction buffer generalizing kept with
  | nil => rw [fillHeader, append_nil]
  | cons b rest ih =>
    rw [length_cons] at h
    have hlen : (kept ++ [b]).length = kept.length + 1 := length_append
    rw [fillHeader, if_neg (by omega), ih (by omega), append_assoc]
    rfl

theorem fillHeader_full {kept buffer : List UInt8} (hkept : kept.length < 4)
    (h : 4 ≤ kept.length + buffer.length) : (fillHeader kept buffer).2 =
      some (packSize ((kept ++ buffer).take 4), (kept ++ buffer).drop 4) := by
  induction buffer generalizing kept with
  | nil =>
    rw [length_nil] at h
    omega
  | cons b rest ih =>
    rw [length_cons] at h
    have hlen : (kept ++ [b]).length = kept.length + 1 := length_append
    have happ : kept ++ b :: rest = (kept ++ [b]) ++ rest := append_cons kept b rest
    rw [fillHeader, happ]
    split_ifs with hfour
    · rw [take_left' hfour, drop_left' hfour]
    · exact ih (by omega) (by omega)

def layout : Layout where
  header := 4
  header_pos := by decide
  size := packSize
  fillHeader := fillHeader
  fill_short _ _ _ hlen := fillHeader_short hlen
  fill_full _ _ _ hkept hlen := fillHeader_full hkept hlen

/-- `write_size`: `htonl` of the length. -/
def writeSize (len : ℕ) : List UInt8 := ByteOrder.toBE 4 len

/-- `l_pack` of `lua-netpack_tcp.cpp`. -/
def lPack (msg : List UInt8) : Except String (List UInt8) :=
  let len := msg.length
  if 0x200000 ≤ len then .error (tooLong len)
  else .ok (writeSize len ++ msg)

end Long

end Skynet.Netpack
