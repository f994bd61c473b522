import Skynet.ByteOrder
import Skynet.LuaText
import Skynet.MachineInt

/-! # The packets of a cluster

`skynet.cluster.core`: requests and responses between nodes are packed into packets of at most
`0x8000` bytes of data, each with its size in front; a larger message is sent as a header with its
length, followed by parts.  The receiver puts the length and the parts into a table (`append`) and
joins them at the end (`concat`).

Sizes are machine integers where the source has them: a request's size is a `uint32_t`, `concat`
reads the length as an `int`.  A message is a list of bytes; memory is left out, apart from an
allocation with a negative size. -/

namespace Skynet.ClusterPack

open List LuaText ByteOrder MachineInt

def multiPart : ℕ := 0x8000

inductive Addr where
  | number (n : ℕ)
  | name (s : Bytes)
deriving DecidableEq, Repr

inductive Fault where
  /-- Invalid request session %d -/
  | requestSession (session : ℤ)
  /-- name is too long %s -/
  | nameTooLong (name : Bytes)
  /-- Invalid cluster message (size=%d) -/
  | messageSize (sz : ℕ)
  /-- Invalid cluster message size %d (multi req must be 13) -/
  | multiSize (sz : ℕ)
  /-- Invalid cluster multi part message -/
  | multiPartMessage
  /-- Invalid req package type %d -/
  | packageType (type : UInt8)
  /-- `new char[sz]` with a negative size -/
  | negativeSize
deriving DecidableEq, Repr

def fillUint32 (n : ℕ) : Bytes := toLE 4 n

def fillHeader (sz : ℕ) : Bytes := toBE 2 sz

def unpackUint32 (buf : Bytes) : ℕ := ofLE (buf.take 4)

/-! ### Requests -/

/-- The number of parts of a large message. -/
def partCount (sz : ℕ) : ℕ := (sz - 1) / multiPart + 1

/-- `packreq_number`: the packet, and the number of parts that follow it. -/
def packreqNumber (addr session : ℕ) (msg : Bytes) (sz : ℕ) (isPush : Bool) : Bytes × ℕ :=
  if sz < multiPart then
    (fillHeader (sz + 9) ++ ([0] ++ fillUint32 addr ++
      fillUint32 (if isPush then 0 else session) ++ msg.take sz), 0)
  else
    (fillHeader 13 ++ ([if isPush then 0x41 else 1] ++ fillUint32 addr ++ fillUint32 session ++
      fillUint32 sz), partCount sz)

def packreqString (name : Bytes) (session : ℕ) (msg : Bytes) (sz : ℕ) (isPush : Bool) :
    Except Fault (Bytes × ℕ) :=
  let namelen := name.length
  if namelen < 1 ∨ 255 < namelen then .error (.nameTooLong name)
  else if sz < multiPart then
    .ok (fillHeader (sz + 6 + namelen) ++ ([0x80, UInt8.ofNat namelen] ++ name ++
      fillUint32 (if isPush then 0 else session) ++ msg.take sz), 0)
  else
    .ok (fillHeader (10 + namelen) ++ ([if isPush then 0xc1 else 0x81, UInt8.ofNat namelen] ++
      name ++ fillUint32 session ++ fillUint32 sz), partCount sz)

/-- The loop over the parts of a message, for `part` more parts; `pack last s data` is the packet
of a part with `s` bytes. -/
def packMulti (pack : Bool → ℕ → Bytes → Bytes) : ℕ → Bytes → ℕ → List Bytes
  | 0, _, _ => []
  | part + 1, ptr, sz =>
    let s := if multiPart < sz then multiPart else sz
    pack (sz ≤ multiPart) s (ptr.take s) :: packMulti pack part (ptr.drop s) (sz - s)

/-- A packet of `packreq_multi`. -/
def packreqPart (session : ℕ) (last : Bool) (s : ℕ) (data : Bytes) : Bytes :=
  fillHeader (s + 5) ++ ([if last then 3 else 2] ++ fillUint32 session ++ data)

def packreqMulti (session part : ℕ) (msg : Bytes) (sz : ℕ) : List Bytes :=
  packMulti (packreqPart session) part msg sz

/-- What `packrequest` returns. -/
structure Packed where
  request : Bytes
  newSession : ℕ
  /-- `nil` for a single packet -/
  padding : Option (List Bytes)
deriving DecidableEq, Repr

/-- The packets of a request; none when there is an error. -/
def packets : Except Fault Packed → List Bytes
  | .ok p => p.request :: p.padding.getD []
  | .error _ => []

/-- The first packet of a request, and the number of parts. -/
def packreqFirst (addr : Addr) (session : ℕ) (msg : Bytes) (sz : ℕ) (isPush : Bool) :
    Except Fault (Bytes × ℕ) :=
  match addr with
  | .number n => .ok (packreqNumber n session msg sz isPush)
  | .name s => packreqString s session msg sz isPush

/-- The session after `session`. -/
def nextSession (session : ℕ) : ℕ := if 2 ^ 31 - 1 < session + 1 then 1 else session + 1

/-- `packrequest` after its checks. -/
def packreq (addr : Addr) (session : ℕ) (msg : Bytes) (sz : ℕ) (isPush : Bool) :
    Except Fault Packed :=
  match packreqFirst addr session msg sz isPush with
  | .error e => .error e
  | .ok (request, multipak) =>
    .ok ⟨request, nextSession session,
      if multipak = 0 then none else some (packreqMulti session multipak msg sz)⟩

/-- `packrequest`; the size is converted to `uint32_t`. -/
def packrequest (addr : Addr) (session : ℤ) (msg : Bytes) (isPush : Bool) : Except Fault Packed :=
  if toInt session ≤ 0 then .error (.requestSession (toInt session))
  else packreq addr (toInt session).toNat msg (msg.length % 2 ^ 32) isPush

/-- What `l_unpackrequest` returns. -/
structure Request where
  /-- `none` for a part, which has no address -/
  addr : Option Addr
  session : ℕ
  /-- `none` for the header of a large request -/
  msg : Option Bytes
  sz : ℕ
  padding : Bool
  isPush : Bool
deriving DecidableEq, Repr

inductive Unpacked where
  | trace (tag : Bytes)
  | request (r : Request)
deriving DecidableEq, Repr

def unpackreqNumber (buf : Bytes) : Except Fault Unpacked :=
  if buf.length < 9 then .error (.messageSize buf.length)
  else
    let session := unpackUint32 (buf.drop 5)
    .ok (.request ⟨some (.number (unpackUint32 (buf.drop 1))), session, some (buf.drop 9),
      buf.length - 9, false, session = 0⟩)

def unpackmreqNumber (buf : Bytes) (isPush : Bool) : Except Fault Unpacked :=
  if buf.length ≠ 13 then .error (.multiSize buf.length)
  else
    .ok (.request ⟨some (.number (unpackUint32 (buf.drop 1))), unpackUint32 (buf.drop 5), none,
      unpackUint32 (buf.drop 9), true, isPush⟩)

def unpackmreqPart (buf : Bytes) : Except Fault Unpacked :=
  if buf.length < 5 then .error .multiPartMessage
  else
    .ok (.request ⟨none, unpackUint32 (buf.drop 1), some (buf.drop 5), buf.length - 5,
      buf.head? = some 2, false⟩)

def unpackreqString (buf : Bytes) : Except Fault Unpacked :=
  let namesz := (buf.getD 1 0).toNat
  if buf.length < 2 ∨ buf.length < namesz + 6 then .error (.messageSize buf.length)
  else
    let session := unpackUint32 (buf.drop (namesz + 2))
    .ok (.request ⟨some (.name ((buf.drop 2).take namesz)), session,
      some (buf.drop (2 + namesz + 4)), buf.length - namesz - 6, false, session = 0⟩)

def unpackmreqString (buf : Bytes) (isPush : Bool) : Except Fault Unpacked :=
  let namesz := (buf.getD 1 0).toNat
  if buf.length < 2 ∨ buf.length < namesz + 10 then .error (.messageSize buf.length)
  else
    .ok (.request ⟨some (.name ((buf.drop 2).take namesz)), unpackUint32 (buf.drop (namesz + 2)),
      none, unpackUint32 (buf.drop (namesz + 6)), true, isPush⟩)

/-- `l_unpackrequest`; the first byte of an empty string is its terminator. -/
def unpackrequest (msg : Bytes) : Except Fault Unpacked :=
  match msg.headD 0 with
  | 0 => unpackreqNumber msg
  | 1 => unpackmreqNumber msg false
  | 0x41 => unpackmreqNumber msg true
  | 2 | 3 => unpackmreqPart msg
  | 4 => .ok (.trace (msg.drop 1))
  | 0x80 => unpackreqString msg
  | 0x81 => unpackmreqString msg false
  | 0xc1 => unpackmreqString msg true
  | type => .error (.packageType type)

/-! ### Large messages -/

/-- An entry of the table of a large message. -/
inductive Part where
  | size (n : ℕ)
  | data (s : Bytes)
deriving DecidableEq, Repr

/-- `l_append` -/
def append (t : List Part) (msg : Option Bytes) (sz : ℕ) : List Part :=
  match msg with
  | none => t ++ [.size sz]
  | some s => t ++ [.data s]

/-- The loop of `l_concat`; `buff` is what has been copied. -/
def concatLoop (sz : ℕ) (buff : Bytes) : List Part → Option Bytes
  | .data s :: t => if sz < s.length + buff.length then none else concatLoop sz (buff ++ s) t
  | _ => if buff.length = sz then some buff else none

/-- `l_concat`; `none` when it returns nothing. -/
def concat : List Part → Except Fault (Option Bytes)
  | .size n :: t =>
    let sz := toInt n
    if sz < 0 then .error .negativeSize else .ok (concatLoop sz.toNat [] t)
  | _ => .ok none

/-! ### Responses -/

/-- A packet of the loop of `l_packresponse`. -/
def packresponsePart (session : ℕ) (last : Bool) (s : ℕ) (data : Bytes) : Bytes :=
  fillHeader (s + 5) ++ (fillUint32 session ++ [if last then 4 else 3] ++ data)

/-- `l_packresponse`; a table when there is more than one packet. -/
def packresponse (session : ℕ) (ok : Bool) (msg : Bytes) : List Bytes :=
  let sz := msg.length
  if ok ∧ multiPart < sz then
    let part := toInt (partCount sz)
    (fillHeader 9 ++ (fillUint32 session ++ [2] ++ fillUint32 sz)) ::
      packMulti (packresponsePart session) part.toNat msg sz
  else
    let sz := if multiPart < sz then multiPart else sz
    [fillHeader (sz + 5) ++ (fillUint32 session ++ [if ok then 1 else 0] ++ msg.take sz)]

/-- What `l_unpackresponse` returns. -/
structure Response where
  session : ℕ
  ok : Bool
  data : Part
  padding : Bool
deriving DecidableEq, Repr

/-- `l_unpackresponse`; `none` when it returns nothing. -/
def unpackresponse (buf : Bytes) : Option Response :=
  if buf.length < 5 then none
  else
    let session := unpackUint32 buf
    match buf.getD 4 0 with
    | 0 => some ⟨session, false, .data (buf.drop 5), false⟩
    | 1 | 4 => some ⟨session, true, .data (buf.drop 5), false⟩
    | 2 =>
      if buf.length ≠ 9 then none
      else some ⟨session, true, .size (unpackUint32 (buf.drop 5)), true⟩
    | 3 => some ⟨session, true, .data (buf.drop 5), true⟩
    | _ => none

/-! ### Reading fields back -/

section Fields

variable (n : ℕ) (rest : Bytes)

@[simp] theorem length_fillUint32 : (fillUint32 n).length = 4 := length_toLE 4 n

@[simp] theorem length_fillHeader : (fillHeader n).length = 2 := length_toBE 2 n

@[simp] theorem drop_fillUint32 (k : ℕ) : (fillUint32 n ++ rest).drop (k + 4) = rest.drop k := by
  rw [add_comm, ← drop_drop, drop_left' (length_fillUint32 n)]

@[simp] theorem drop_fillHeader : (fillHeader n ++ rest).drop 2 = rest :=
  drop_left' (length_fillHeader n)

@[simp] theorem unpackUint32_fillUint32 : unpackUint32 (fillUint32 n ++ rest) = n % 2 ^ 32 := by
  rw [unpackUint32, take_left' (length_fillUint32 n)]
  exact ofLE_toLE 4 n

theorem header_fillHeader (h : n < 2 ^ 16) : ofBE ((fillHeader n ++ rest).take 2) = n := by
  rw [take_left' (length_fillHeader n)]
  exact (ofBE_toBE 2 n).trans (Nat.mod_eq_of_lt h)

end Fields

/-- The size in front of a packet is right. -/
def Sized (packet : Bytes) : Prop :=
  2 ≤ packet.length ∧ ofBE (packet.take 2) = packet.length - 2

theorem sized_fillHeader {n : ℕ} {body : Bytes} (h : n < 2 ^ 16) (hbody : body.length = n) :
    Sized (fillHeader n ++ body) := by
  rw [Sized, header_fillHeader n body h, length_append, length_fillHeader, hbody]
  omega

/-! ### Large messages are joined -/

theorem concatLoop_data {sz : ℕ} {buff : Bytes} {parts : List Bytes}
    (h : buff.length + parts.flatten.length = sz) :
    concatLoop sz buff (parts.map .data) = some (buff ++ parts.flatten) := by
  induction parts generalizing buff with
  | nil => simpa [concatLoop] using h
  | cons s parts ih =>
    rw [flatten_cons, length_append] at h
    rw [map_cons, concatLoop, if_neg (by omega), ih (by rw [length_append]; omega),
      append_assoc, flatten_cons]

/-- The parts of a message are joined when an `int` holds its length. -/
theorem concat_parts {parts : List Bytes} (h : parts.flatten.length < 2 ^ 31) :
    concat (.size parts.flatten.length :: parts.map .data) = .ok (some parts.flatten) := by
  rw [concat]
  simp only [toInt_of_lt h, Int.toNat_natCast]
  rw [concatLoop_data (by simp)]
  rfl

theorem concat_negative {n : ℕ} (h : 2 ^ 31 ≤ n) (h' : n < 2 ^ 32) (t : List Part) :
    concat (.size n :: t) = .error .negativeSize := by
  rw [concat]
  simp only [toInt_neg h h', if_true]

/-! ### The number of parts -/

theorem partCount_of_le {n : ℕ} (h : n ≤ multiPart) : partCount n = 1 := by
  unfold partCount multiPart at *
  omega

theorem partCount_of_lt {n : ℕ} (h : multiPart < n) :
    partCount n = partCount (n - multiPart) + 1 := by
  unfold partCount multiPart at *
  omega

/-- The parts of a large message. -/
def parts (pack : Bool → ℕ → Bytes → Bytes) (msg : Bytes) : List Bytes :=
  packMulti pack (partCount msg.length) msg msg.length

section Parts

variable {pack : Bool → ℕ → Bytes → Bytes} {msg : Bytes}

theorem parts_of_le (h : msg.length ≤ multiPart) : parts pack msg = [pack true msg.length msg] := by
  rw [parts, partCount_of_le h]
  simp [packMulti, not_lt.mpr h, h]

theorem parts_of_lt (h : multiPart < msg.length) : parts pack msg =
      pack false (msg.take multiPart).length (msg.take multiPart) ::
        parts pack (msg.drop multiPart) := by
  rw [parts, partCount_of_lt h, parts, length_drop, length_take_of_le h.le, packMulti]
  simp only [h, if_true, not_le.mpr h, decide_false]

theorem parts_ne_nil (pack : Bool → ℕ → Bytes → Bytes) (msg : Bytes) : parts pack msg ≠ [] := by
  rw [parts, partCount]
  exact cons_ne_nil _ _

/-- What holds of every packet of at most `MULTI_PART` bytes holds of the parts. -/
theorem forall_parts {P : Bytes → Prop}
    (h : ∀ last (m : Bytes), m.length ≤ multiPart → P (pack last m.length m)) (msg : Bytes) :
    ∀ p ∈ parts pack msg, P p := by
  induction hn : msg.length using Nat.strong_induction_on generalizing msg with
  | _ n ih =>
    intro p hp
    by_cases hle : msg.length ≤ multiPart
    · rw [parts_of_le hle, mem_singleton] at hp
      rw [hp]
      exact h true msg hle
    · rw [parts_of_lt (Nat.lt_of_not_le hle), mem_cons] at hp
      rcases hp with rfl | hp
      · exact h false _ (length_take_le _ _)
      · refine ih (msg.drop multiPart).length ?_ _ rfl p hp
        rw [length_drop, ← hn]
        have hpos : 0 < multiPart := by decide
        omega

end Parts

end Skynet.ClusterPack
