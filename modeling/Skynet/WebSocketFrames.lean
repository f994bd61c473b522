import Skynet.WebSocketHandshake

/-! # Frames of a web socket, written and read

A message is written by `write_frame` as one frame, or a peer cuts it into frames, with pings and
pongs between them.  Whatever the cut of the stream into pieces, `M.read` and the loop of
`resolve_accept` give the messages back in order and take the bytes of their frames
(`frames_round_trip`), as long as a masked payload is shorter than `2^31` bytes: the loop index of
`crypt.xor_str` is an `int` (`masked_frame_overflows`).

A payload is a Lua string and shorter than `2^63` bytes. -/

namespace Skynet.WebSocket

open List LuaText ByteReader ByteOrder Http MachineInt

/-! ### Frames -/

/-- How the length of a payload is written; a peer may choose any that fits. -/
inductive Form where
  | short
  | medium
  | long
deriving DecidableEq, Repr

namespace Form

/-- The lengths that fit are below this. -/
def bound : Form → ℕ
  | short => 126
  | medium => 2 ^ 16
  | long => 2 ^ 63

/-- The lower bits of the second byte. -/
def len7 : Form → ℕ → ℕ
  | short, n => n
  | medium, _ => 126
  | long, _ => 127

/-- The bytes after the second. -/
def extra : Form → ℕ → Bytes
  | short, _ => []
  | medium, n => toBE 2 n
  | long, n => toBE 8 n

/-- The form in `write_frame`. -/
def ofLength (n : ℕ) : Form := if n < 126 then short else if n < 0xffff then medium else long

theorem lt_bound_ofLength {n : ℕ} (h : n < 2 ^ 63) : n < (ofLength n).bound := by
  unfold ofLength
  split_ifs with hshort hmedium
  · exact hshort
  · exact lt_trans hmedium (by decide)
  · exact h

theorem len7_lt {form : Form} {n : ℕ} (h : n < form.bound) : form.len7 n < 128 := by
  cases form with
  | short => exact lt_trans h (by decide)
  | medium => exact (by decide : 126 < 128)
  | long => exact (by decide : 127 < 128)

end Form

structure Frame where
  fin : Bool
  op : Op
  payload : Bytes
  key : Option UInt32
  form : Form
  fits : payload.length < form.bound

namespace Frame

/-- The masking key. -/
def keyBytes (f : Frame) : Bytes := f.key.elim [] fun k => toBE 4 k.toNat

/-- The payload as it is sent. -/
def masked (f : Frame) : Bytes := f.key.elim f.payload fun k => xorBytes (toBE 4 k.toNat) f.payload

def encode (f : Frame) : Bytes :=
  [UInt8.ofNat ((if f.fin then 0x80 else 0) ||| f.op.code),
    UInt8.ofNat ((if f.key.isSome then 0x80 else 0) ||| f.form.len7 f.payload.length)] ++
      (f.form.extra f.payload.length ++ (f.keyBytes ++ f.masked))

/-- An `int` counts the bytes of the payload. -/
def Short (f : Frame) : Prop := f.payload.length < 2 ^ 31

/-- The frame that `write_frame` writes. -/
def ofMessage (op : Op) (message : Bytes) (key : Option UInt32) (h : message.length < 2 ^ 63) :
    Frame :=
  ⟨true, op, message, key, .ofLength message.length, Form.lt_bound_ofLength h⟩

end Frame

/-! ### The mask -/

@[simp] theorem length_xorBytes (key s : Bytes) : (xorBytes key s).length = s.length := by
  simp [xorBytes]

theorem xorBytes_xorBytes (key s : Bytes) : xorBytes key (xorBytes key s) = s := by
  refine ext_getElem (by simp) fun i h₁ h₂ => ?_
  simp [xorBytes]

theorem xorStr_of_lt {s key : Bytes} (h : s.length < 2 ^ 31) (hkey : key ≠ []) :
    xorStr s key = .ok (xorBytes key s) := by
  rw [xorStr, if_neg hkey, if_neg (not_le.mpr h)]

theorem toBE_ne_nil (k n : ℕ) : toBE (k + 1) n ≠ [] :=
  ne_nil_of_length_eq_add_one (length_toBE (k + 1) n)

/-! ### Writing a frame -/

theorem frameHead_eq (op : Op) (n : ℕ) (masked : Bool) : frameHead op n masked =
      [UInt8.ofNat (0x80 ||| op.code),
        UInt8.ofNat ((if masked then 0x80 else 0) ||| (Form.ofLength n).len7 n)] ++
        (Form.ofLength n).extra n := by
  unfold frameHead Form.ofLength
  split_ifs <;> rfl

variable {message : Bytes}

theorem exists_writeFrame (op : Op) (key : Option UInt32) (h : message.length < 2 ^ 31) :
    ∃ l, writeFrame op message key = .ok l := by
  cases key with
  | none => exact ⟨_, rfl⟩
  | some k => exact ⟨_, by rw [writeFrame, xorStr_of_lt h (toBE_ne_nil 3 k.toNat)]⟩

/-- The calls of `write_frame` write a frame. -/
theorem writeFrame_encode {op : Op} {key : Option UInt32} (h : message.length < 2 ^ 63)
    {l : List Bytes} (hl : writeFrame op message key = .ok l) :
    l.flatten = (Frame.ofMessage op message key h).encode := by
  have hdata (s : Bytes) (hs : s.length = message.length) :
      (if message.length > 0 then [s] else ([] : List Bytes)).flatten = s := by
    split_ifs with hpos
    · simp
    · exact (eq_nil_of_length_eq_zero (by omega)).symm
  cases key with
  | none =>
    cases hl
    rw [flatten_cons, hdata message rfl, frameHead_eq]
    simp [Frame.encode, Frame.ofMessage, Frame.keyBytes, Frame.masked]
  | some k =>
    simp only [writeFrame, xorStr, if_neg (toBE_ne_nil 3 k.toNat)] at hl
    by_cases hlong : 2 ^ 31 ≤ message.length
    · rw [if_pos hlong] at hl
      cases hl
    rw [if_neg hlong] at hl
    cases hl
    rw [flatten_cons, flatten_cons, hdata _ (length_xorBytes _ _), frameHead_eq]
    simp [Frame.encode, Frame.ofMessage, Frame.keyBytes, Frame.masked]

/-! ### Reading a frame -/

theorem firstByte (fin : Bool) (op : Op) :
    let v := (UInt8.ofNat ((if fin then 0x80 else 0) ||| op.code)).toNat
    Op.ofCode (v &&& 0x0f) = some op ∧ decide (v &&& 0x80 ≠ 0) = fin := by
  cases fin <;> cases op <;> decide

theorem secondByte (masked : Bool) {n : ℕ} (h : n < 128) :
    let v := (UInt8.ofNat ((if masked then 0x80 else 0) ||| n)).toNat
    v &&& 0x7f = n ∧ decide (v &&& 0x80 ≠ 0) = masked := by
  revert n
  cases masked <;> decide +kernel

variable {rest : Bytes}

theorem payloadLen_extra {form : Form} {n : ℕ} (h : n < form.bound) {pieces : Pieces}
    (hflat : pieces.flatten = form.extra n ++ rest) :
    ∃ ps, payloadLen (form.len7 n) pieces = .ok ((n : ℤ), ps) ∧ ps.flatten = rest := by
  cases form with
  | short =>
    have hlt : n < 126 := h
    have h126 : ¬n = 126 := by omega
    have h127 : ¬n = 127 := by omega
    exact ⟨pieces, by simp [payloadLen, Form.len7, h126, h127], hflat⟩
  | medium =>
    obtain ⟨ps, hread, hrest⟩ := read_flatten hflat (length_toBE 2 n)
    refine ⟨ps, ?_, hrest⟩
    have hbytes : ofBE (Form.medium.extra n) = n :=
      (ofBE_toBE 2 n).trans (Nat.mod_eq_of_lt (show n < 256 ^ 2 from h))
    simp [payloadLen, Form.len7, hread, hbytes]
  | long =>
    obtain ⟨ps, hread, hrest⟩ := read_flatten hflat (length_toBE 8 n)
    refine ⟨ps, ?_, hrest⟩
    have hlt : n < 2 ^ 63 := h
    have hbytes : ofBE (Form.long.extra n) = n :=
      (ofBE_toBE 8 n).trans (Nat.mod_eq_of_lt (lt_trans hlt (by decide)))
    simp [payloadLen, Form.len7, hread, hbytes, wrap_of_lt hlt]

theorem readKey_keyBytes (f : Frame) {pieces : Pieces} (hflat : pieces.flatten = f.keyBytes ++ rest) :
    ∃ ps, readKey f.key.isSome pieces = .ok (f.key.map fun k => toBE 4 k.toNat, ps) ∧
      ps.flatten = rest := by
  unfold Frame.keyBytes at hflat
  cases hkey : f.key with rw [hkey] at hflat
  | none => exact ⟨pieces, rfl, hflat⟩
  | some k =>
    obtain ⟨ps, hread, hrest⟩ := read_flatten hflat (length_toBE 4 k.toNat)
    exact ⟨ps, by simp [readKey, hread], hrest⟩

theorem Frame.length_masked (f : Frame) : f.masked.length = f.payload.length := by
  unfold masked
  cases f.key <;> simp

theorem readSized_of_lt {n : ℤ} (hpos : 0 < n) (h : n < 2 ^ 31) (pieces : Pieces) :
    readSized n pieces = read n.toNat pieces := by
  obtain ⟨k, rfl⟩ := Int.eq_ofNat_of_zero_le hpos.le
  rw [readSized, toInt_of_lt (by omega)]
  exact (if_neg (by omega)).trans (if_neg (by omega))

theorem readPayload_masked (f : Frame) (hshort : f.Short) {pieces : Pieces}
    (hflat : pieces.flatten = f.masked ++ rest) :
    ∃ ps, readPayload f.payload.length (f.key.map fun k => toBE 4 k.toNat) pieces =
      .ok (f.payload, ps) ∧ ps.flatten = rest := by
  obtain ⟨ps, hread, hrest⟩ : ∃ ps, (if (0 : ℤ) < f.payload.length then
      readSized f.payload.length pieces else .ok ([], pieces)) = .ok (f.masked, ps) ∧
      ps.flatten = rest := by
    split_ifs with hpos
    · rw [readSized_of_lt hpos (by exact_mod_cast hshort)]
      exact read_flatten hflat f.length_masked
    · have hnil : f.masked = [] := eq_nil_of_length_eq_zero (by rw [f.length_masked]; omega)
      exact ⟨pieces, by rw [hnil], by rwa [hnil] at hflat⟩
  refine ⟨ps, ?_, hrest⟩
  unfold readPayload
  rw [hread]
  unfold Frame.masked
  cases hkey : f.key with
  | none => rfl
  | some k =>
    have hxor := xorStr_of_lt (s := xorBytes (toBE 4 k.toNat) f.payload) (by rwa [length_xorBytes])
      (toBE_ne_nil 3 k.toNat)
    simp only [Option.map_some, Option.elim_some, hxor, xorBytes_xorBytes]

/-- A frame is read up to its payload. -/
theorem readFrame_head (server : Bool) (f : Frame)
    (hsize : server = true → f.payload.length ≤ maxFrameSize) {pieces : Pieces}
    (hflat : pieces.flatten = f.encode ++ rest) : ∃ ps, ps.flatten = f.masked ++ rest ∧
      readFrame server pieces =
        (readPayload f.payload.length (f.key.map fun k => toBE 4 k.toNat) ps).map fun x =>
          (⟨f.fin, f.op, x.1⟩, x.2) := by
  unfold Frame.encode at hflat
  rw [append_assoc, append_assoc, append_assoc] at hflat
  obtain ⟨ps₁, hread, hrest₁⟩ := read_flatten hflat rfl
  obtain ⟨ps₂, hlen, hrest₂⟩ := payloadLen_extra f.fits hrest₁
  obtain ⟨ps, hkey, hrest⟩ := readKey_keyBytes f hrest₂
  obtain ⟨hop, hfin⟩ := firstByte f.fin f.op
  obtain ⟨hlen7, hmask⟩ := secondByte f.key.isSome (Form.len7_lt f.fits)
  refine ⟨ps, hrest, ?_⟩
  have hlarge : ¬(server = true ∧ (maxFrameSize : ℤ) < f.payload.length) := by
    rintro ⟨hs, hlt⟩
    have := hsize hs
    omega
  have hread' : read 2 pieces = _ := hread
  simp only [readFrame, hread', readRest, hlen7, hlen, hmask, hkey, hop, hfin, if_neg hlarge]
  cases readPayload f.payload.length (f.key.map fun k => toBE 4 k.toNat) ps <;> rfl

/-- **A frame is read back**: the frame at the start of the stream is read, and the rest is left. -/
theorem readFrame_encode (server : Bool) (f : Frame) (hshort : f.Short)
    (hsize : server = true → f.payload.length ≤ maxFrameSize) {pieces : Pieces}
    (hflat : pieces.flatten = f.encode ++ rest) :
    ∃ ps, readFrame server pieces = .ok (⟨f.fin, f.op, f.payload⟩, ps) ∧ ps.flatten = rest := by
  obtain ⟨ps, hps, hread⟩ := readFrame_head server f hsize hflat
  obtain ⟨ps', hpayload, hrest⟩ := readPayload_masked f hshort hps
  exact ⟨ps', by rw [hread, hpayload]; rfl, hrest⟩

/-- The size of a payload is no `int`. -/
theorem readFrame_long {f : Frame} (hlong : ¬ f.Short) (hlt : f.payload.length < 2 ^ 32)
    {pieces : Pieces} (hflat : pieces.flatten = f.encode ++ rest) :
    readFrame false pieces = .error .overflow := by
  obtain ⟨ps, -, hread⟩ := readFrame_head false f (by simp) hflat
  have hle : 2 ^ 31 ≤ f.payload.length := not_lt.mp hlong
  have hneg : toInt f.payload.length < 0 := toInt_neg hle hlt
  rw [hread, readPayload, if_pos (by omega), readSized]
  simp only [if_pos hneg]
  rfl

/-! ### Messages -/

/-- A frame of a message, or else a control frame. -/
def Op.isData : Op → Bool
  | .frame | .text | .binary => true
  | .close | .ping | .pong => false

/-- The frames of one message, with pings and pongs before any of them. -/
inductive Carries : List Frame → Bytes → Prop
  | last (f : Frame) (hop : f.op.isData = true) (hfin : f.fin = true) : Carries [f] f.payload
  | fragment (f : Frame) (hop : f.op.isData = true) (hfin : f.fin = false) {fs : List Frame}
      {message : Bytes} (h : Carries fs message) : Carries (f :: fs) (f.payload ++ message)
  | control (f : Frame) (hop : f.op = .ping ∨ f.op = .pong) {fs : List Frame} {message : Bytes}
      (h : Carries fs message) : Carries (f :: fs) message

variable {fs : List Frame}

theorem Carries.payload_le (h : Carries fs message) {f : Frame} (hf : f ∈ fs)
    (hop : f.op.isData = true) : f.payload.length ≤ message.length := by
  induction h with
  | last g =>
    rw [mem_singleton.mp hf]
  | fragment g _ _ _ ih =>
    rw [length_append]
    rcases mem_cons.mp hf with rfl | hf
    · exact Nat.le_add_right _ _
    · exact Nat.le_add_left_of_le (ih hf)
  | control g hg _ ih =>
    rcases mem_cons.mp hf with rfl | hf
    · rcases hg with hg | hg <;> simp [hg, Op.isData] at hop
    · exact ih hf

/-- A message is sent by `write_frame`, or a peer sends it in frames. -/
inductive Sending where
  | whole (op : Op) (message : Bytes) (key : Option UInt32) (h : message.length < 2 ^ 63)
  | fragments (frames : List Frame)

namespace Sending

/-- What is written. -/
def wire : Sending → Except Fault Bytes
  | whole op message key _ => (writeFrame op message key).map List.flatten
  | fragments frames => .ok (frames.flatMap Frame.encode)

def frames : Sending → List Frame
  | whole op message key h => [.ofMessage op message key h]
  | fragments frames => frames

/-- `message` is sent. -/
inductive Sends : Sending → Bytes → Prop
  | whole {op : Op} {message : Bytes} {key : Option UInt32} {h : message.length < 2 ^ 63}
      (hop : op.isData = true) : Sends (.whole op message key h) message
  | fragments {frames : List Frame} {message : Bytes} (h : Carries frames message) :
      Sends (.fragments frames) message

theorem Sends.carries {s : Sending} (h : s.Sends message) : Carries s.frames message := by
  cases h with
  | whole hop => exact .last (.ofMessage _ _ _ _) hop rfl
  | fragments h => exact h

theorem exists_wire {s : Sending} (h : ∀ f ∈ s.frames, f.Short) : ∃ w, s.wire = .ok w := by
  cases s with
  | whole op message key hlt =>
    have hshort : message.length < 2 ^ 31 := h _ (mem_singleton.mpr rfl)
    obtain ⟨l, hl⟩ := exists_writeFrame op key hshort
    exact ⟨_, by rw [wire, hl]; rfl⟩
  | fragments frames => exact ⟨_, rfl⟩

theorem wire_eq {s : Sending} {w : Bytes} (h : s.wire = .ok w) :
    w = s.frames.flatMap Frame.encode := by
  cases s with
  | whole op message key hlt =>
    rw [wire] at h
    cases hl : writeFrame op message key with
    | error e =>
      rw [hl] at h
      cases h
    | ok l =>
      rw [hl] at h
      cases h
      simp [frames, writeFrame_encode hlt hl]
  | fragments frames =>
    cases h
    rfl

end Sending

/-! ### The client -/

/-- `M.read`, `n` times. -/
def readMessages : ℕ → Pieces → Except Fault (List Message × Pieces)
  | 0, pieces => .ok ([], pieces)
  | n + 1, pieces =>
    match clientRead pieces with
    | .error e => .error e
    | .ok (message, _, pieces) =>
      match readMessages n pieces with
      | .error e => .error e
      | .ok (messages, pieces) => .ok (message :: messages, pieces)

theorem readFrame_cons {f : Frame} (hshort : ∀ g ∈ f :: fs, g.Short) (server : Bool)
    (hsize : server = true → f.payload.length ≤ maxFrameSize) {pieces : Pieces}
    (hflat : pieces.flatten = (f :: fs).flatMap Frame.encode ++ rest) :
    ∃ ps, readFrame server pieces = .ok (⟨f.fin, f.op, f.payload⟩, ps) ∧
      ps.flatten = fs.flatMap Frame.encode ++ rest := by
  rw [flatMap_cons, append_assoc] at hflat
  exact readFrame_encode _ f (hshort f mem_cons_self) hsize hflat

/-- The frames of a message are read to its end; `recvBuf` holds what came before. -/
theorem readMessage_carries (h : Carries fs message) (hshort : ∀ f ∈ fs, f.Short)
    (recvBuf : Option (List Bytes)) (written : List Bytes) {pieces : Pieces}
    (hflat : pieces.flatten = fs.flatMap Frame.encode ++ rest) :
    ∃ w ps, readMessage recvBuf written pieces =
      .ok (.data ((recvBuf.getD []).flatten ++ message), w, ps) ∧ ps.flatten = rest := by
  induction h generalizing recvBuf written pieces with
    obtain ⟨ps, hread, hrest⟩ := readFrame_cons hshort false nofun hflat
  | last f hop hfin =>
    refine ⟨written, ps, ?_, hrest⟩
    rw [readMessage, hread]
    cases recvBuf <;> cases hf : f.op <;> simp [hf, hfin, Op.isData] at hop ⊢
  | fragment f hop hfin _ ih =>
    obtain ⟨w, ps', hih, hrest'⟩ := ih (fun g hg => hshort g (mem_cons_of_mem f hg))
      (some (recvBuf.getD [] ++ [f.payload])) written hrest
    refine ⟨w, ps', ?_, hrest'⟩
    rw [readMessage, hread]
    cases hf : f.op <;> simp [hf, hfin, hih, Op.isData] at hop ⊢
  | control f hop _ ih =>
    have ih := ih (fun g hg => hshort g (mem_cons_of_mem f hg))
    rw [readMessage, hread]
    rcases hop with hop | hop
    all_goals
      simp only [hop]
      exact ih _ _ hrest

/-- A frame of a message is too long. -/
theorem readMessage_long (h : Carries fs message) (hlt : ∀ f ∈ fs, f.payload.length < 2 ^ 32)
    (hlong : ¬ ∀ f ∈ fs, f.Short) (recvBuf : Option (List Bytes)) (written : List Bytes)
    {pieces : Pieces} (hflat : pieces.flatten = fs.flatMap Frame.encode ++ rest) :
    readMessage recvBuf written pieces = .error .overflow := by
  induction h generalizing recvBuf written pieces with
    (rw [flatMap_cons, append_assoc] at hflat; rw [forall_mem_cons] at hlong hlt; rw [readMessage])
  | last f hop hfin =>
    rw [readFrame_long (by simpa using hlong) hlt.1 hflat]
  | fragment f hop hfin _ ih =>
    by_cases hf : f.Short
    · obtain ⟨ps, hread, hrest⟩ := readFrame_encode false f hf (by simp) hflat
      have ih := ih hlt.2 (fun h => hlong ⟨hf, h⟩) (some (recvBuf.getD [] ++ [f.payload])) written
        hrest
      rw [hread]
      cases hf : f.op <;> simp [hf, hfin, ih, Op.isData] at hop ⊢
    · rw [readFrame_long hf hlt.1 hflat]
  | control f hop _ ih =>
    by_cases hf : f.Short
    · obtain ⟨ps, hread, hrest⟩ := readFrame_encode false f hf (by simp) hflat
      have ih := ih hlt.2 fun h => hlong ⟨hf, h⟩
      rw [hread]
      rcases hop with hop | hop
      all_goals
        simp only [hop]
        exact ih _ _ hrest
    · rw [readFrame_long hf hlt.1 hflat]

variable {sent : List (Sending × Bytes)}

theorem readMessages_long (h : ∀ x ∈ sent, x.1.Sends x.2)
    (hlt : ∀ x ∈ sent, ∀ f ∈ x.1.frames, f.payload.length < 2 ^ 32)
    (hlong : ¬ ∀ x ∈ sent, ∀ f ∈ x.1.frames, f.Short) {pieces : Pieces}
    (hflat : pieces.flatten = (sent.map fun x => x.1.frames.flatMap Frame.encode).flatten ++ rest) :
    readMessages sent.length pieces = .error .overflow := by
  induction sent generalizing pieces with
  | nil => exact absurd (by simp) hlong
  | cons x sent ih =>
    rw [map_cons, flatten_cons, append_assoc] at hflat
    rw [forall_mem_cons] at h hlt hlong
    by_cases hx : ∀ f ∈ x.1.frames, f.Short
    · obtain ⟨w, ps, hread, hrest⟩ := readMessage_carries h.1.carries hx none [] hflat
      have hih := ih h.2 hlt.2 (fun h => hlong ⟨hx, h⟩) hrest
      simp [readMessages, clientRead, hread, hih]
    · simp [readMessages, clientRead, readMessage_long h.1.carries hlt.1 hx none [] hflat]

theorem readMessages_sends (h : ∀ x ∈ sent, x.1.Sends x.2)
    (hshort : ∀ x ∈ sent, ∀ f ∈ x.1.frames, f.Short) {pieces : Pieces}
    (hflat : pieces.flatten = (sent.map fun x => x.1.frames.flatMap Frame.encode).flatten ++ rest) :
    ∃ ps, readMessages sent.length pieces = .ok (sent.map fun x => .data x.2, ps) ∧
      ps.flatten = rest := by
  induction sent generalizing pieces with
  | nil => exact ⟨pieces, rfl, hflat⟩
  | cons x sent ih =>
    rw [map_cons, flatten_cons, append_assoc] at hflat
    obtain ⟨hx, h⟩ := forall_mem_cons.mp h
    obtain ⟨hxshort, hshort⟩ := forall_mem_cons.mp hshort
    obtain ⟨w, ps, hread, hrest⟩ := readMessage_carries hx.carries hxshort none [] hflat
    obtain ⟨ps', hih, hrest'⟩ := ih h hshort hrest
    exact ⟨ps', by simp [readMessages, clientRead, hread, hih], hrest'⟩

/-! ### The server -/

/-- The messages that are handed to the handler. -/
def messages (events : List Event) : List Bytes :=
  events.filterMap fun e =>
    match e with
    | .message data => some data
    | _ => none

theorem messages_append (a b : List Event) : messages (a ++ b) = messages a ++ messages b :=
  filterMap_append

variable {env : Env} {trace : List Event} {buf : Buffer}

variable {r : Read}

theorem serve_frame {events : List Event} (hquiet : env.Quiet trace) {buf' : Buffer}
    {pieces ps : Pieces} (hread : readFrame true pieces = .ok (r, ps))
    (hround : round env trace buf r = .again (trace ++ events) buf') :
    serve env trace buf pieces = serve env (trace ++ events) buf' ps := by
  have hclosed := hquiet.closed trace (prefix_refl _)
  rw [serve, if_neg (by simp [hclosed]), hread]
  simp only [hround]

theorem after_quiet (hquiet : env.Quiet trace) (events : List Event) (buf : Buffer) :
    Round.after env trace events buf = .again (trace ++ events) buf := by
  rw [Round.after, hquiet.emit]

/-- What the loop has of a message that is not complete. -/
def Buffer.Counts (buf : Buffer) : Prop := buf.recvCount = buf.recvBuf.flatten.length

theorem round_last (hquiet : env.Quiet trace) (hbuf : buf.Counts) (hop : r.op.isData = true)
    (hfin : r.fin = true) (hsize : buf.recvBuf.flatten.length + r.payload.length ≤ maxFrameSize) :
    round env trace buf r =
      .again (trace ++ [.message (buf.recvBuf.flatten ++ r.payload)]) ⟨[], 0⟩ := by
  obtain ⟨recvBuf, recvCount⟩ := buf
  obtain rfl : recvCount = recvBuf.flatten.length := hbuf
  cases recvBuf with
  | nil | cons a l => cases hf : r.op <;> simp_all [round, Op.isData, after_quiet]

theorem round_fragment (env : Env) (trace : List Event) (hbuf : buf.Counts)
    (hop : r.op.isData = true) (hfin : r.fin = false)
    (hsize : buf.recvBuf.flatten.length + r.payload.length ≤ maxFrameSize) : round env trace buf r =
      .again (trace ++ []) ⟨buf.recvBuf ++ [r.payload], buf.recvCount + r.payload.length⟩ := by
  have hle : ¬maxFrameSize < buf.recvCount + r.payload.length := by
    rw [hbuf]
    exact not_lt.mpr hsize
  cases hf : r.op <;> simp_all [round, Op.isData]

theorem round_control (hquiet : env.Quiet trace) (buf : Buffer) (hop : r.op = .ping ∨ r.op = .pong) :
    ∃ events, round env trace buf r = .again (trace ++ events) buf ∧ messages events = [] := by
  rcases hop with hop | hop
  · exact ⟨frameEvents .pong ++ [.ping], by simp [round, hop, after_quiet hquiet], rfl⟩
  · exact ⟨[.pong], by simp [round, hop, after_quiet hquiet], rfl⟩

/-- The frames of a message are handled; `buf` holds what came before. -/
theorem serve_carries (h : Carries fs message) (hsize : ∀ f ∈ fs, f.payload.length ≤ maxFrameSize)
    (hquiet : env.Quiet trace) (hbuf : buf.Counts)
    (htotal : buf.recvBuf.flatten.length + message.length ≤ maxFrameSize) {pieces : Pieces}
    (hflat : pieces.flatten = fs.flatMap Frame.encode ++ rest) :
    ∃ events ps, serve env trace buf pieces = serve env (trace ++ events) ⟨[], 0⟩ ps ∧
      messages events = [buf.recvBuf.flatten ++ message] ∧ ps.flatten = rest := by
  have hshort : ∀ f ∈ fs, f.Short :=
    fun f hf => lt_of_le_of_lt (hsize f hf) (by decide)
  induction h generalizing trace buf pieces with
    obtain ⟨ps, hread, hrest⟩ := readFrame_cons hshort true (fun _ => hsize f (by simp)) hflat
  | last f hop hfin =>
    refine ⟨[.message (buf.recvBuf.flatten ++ f.payload)], ps, ?_, rfl, hrest⟩
    exact serve_frame hquiet hread (round_last hquiet hbuf hop hfin htotal)
  | @fragment f hop hfin fs message _ ih =>
    rw [length_append] at htotal
    have hround := round_fragment env trace hbuf (r := ⟨f.fin, f.op, f.payload⟩) hop hfin
      (Nat.le_trans (Nat.add_le_add_left (Nat.le_add_right _ _) _) htotal)
    have hflatten : (buf.recvBuf ++ [f.payload]).flatten = buf.recvBuf.flatten ++ f.payload := by
      simp
    have hcounts : Buffer.Counts
        ⟨buf.recvBuf ++ [f.payload], buf.recvCount + f.payload.length⟩ := by
      rw [Buffer.Counts, hflatten, length_append, hbuf]
    obtain ⟨events, ps', hserve, hmessages, hrest'⟩ := ih
      (fun g hg => hsize g (mem_cons_of_mem f hg)) (hquiet.append []) hcounts
      (by rw [hflatten, length_append]; omega) hrest
      (fun g hg => hshort g (mem_cons_of_mem f hg))
    refine ⟨events, ps', ?_, ?_, hrest'⟩
    · rw [serve_frame hquiet hread hround, hserve, append_nil]
    · rw [hmessages, hflatten, append_assoc]
  | control f hop _ ih =>
    obtain ⟨events, hround, hnone⟩ := round_control hquiet buf
      (r := ⟨f.fin, f.op, f.payload⟩) hop
    obtain ⟨events', ps', hserve, hmessages, hrest'⟩ := ih
      (fun g hg => hsize g (mem_cons_of_mem f hg)) (hquiet.append events) hbuf htotal hrest
      (fun g hg => hshort g (mem_cons_of_mem f hg))
    refine ⟨events ++ events', ps', ?_, ?_, hrest'⟩
    · rw [serve_frame hquiet hread hround, hserve, append_assoc]
    · rw [messages_append, hnone, hmessages, nil_append]

theorem serve_sends (h : ∀ x ∈ sent, x.1.Sends x.2) (hsize : ∀ x ∈ sent, x.2.length ≤ maxFrameSize)
    (hcontrol : ∀ x ∈ sent, ∀ f ∈ x.1.frames, f.op.isData = false → f.payload.length ≤ maxFrameSize)
    (hquiet : env.Quiet trace) {pieces : Pieces}
    (hflat : pieces.flatten = (sent.map fun x => x.1.frames.flatMap Frame.encode).flatten ++ rest) :
    ∃ events ps, serve env trace ⟨[], 0⟩ pieces = serve env (trace ++ events) ⟨[], 0⟩ ps ∧
      messages events = sent.map (·.2) ∧ ps.flatten = rest := by
  induction sent generalizing trace pieces with
  | nil => exact ⟨[], pieces, by rw [append_nil], rfl, hflat⟩
  | cons x sent ih =>
    rw [map_cons, flatten_cons, append_assoc] at hflat
    obtain ⟨hx, h⟩ := forall_mem_cons.mp h
    obtain ⟨hxsize, hsize⟩ := forall_mem_cons.mp hsize
    obtain ⟨hxcontrol, hcontrol⟩ := forall_mem_cons.mp hcontrol
    have hframes : ∀ f ∈ x.1.frames, f.payload.length ≤ maxFrameSize := by
      intro f hf
      cases hop : f.op.isData with
      | true => exact (hx.carries.payload_le hf hop).trans hxsize
      | false => exact hxcontrol f hf hop
    obtain ⟨events, ps, hserve, hmessages, hrest⟩ := serve_carries hx.carries hframes hquiet
      (show Buffer.Counts ⟨[], 0⟩ from rfl) (by simpa using hxsize) hflat
    obtain ⟨events', ps', hserve', hmessages', hrest'⟩ := ih h hsize hcontrol
      (hquiet.append events) hrest
    refine ⟨events ++ events', ps', ?_, ?_, hrest'⟩
    · rw [hserve, hserve', append_assoc]
    · rw [messages_append, hmessages, hmessages']
      rfl

/-! ### The round trip -/

theorem exists_mapM_wire (hshort : ∀ x ∈ sent, ∀ f ∈ x.1.frames, f.Short) :
    ∃ wires, (sent.mapM fun x => x.1.wire) = .ok wires := by
  induction sent with
  | nil => exact ⟨[], rfl⟩
  | cons x sent ih =>
    obtain ⟨hx, hshort⟩ := forall_mem_cons.mp hshort
    obtain ⟨w, hw⟩ := Sending.exists_wire hx
    obtain ⟨wires, hwires⟩ := ih hshort
    exact ⟨w :: wires, by rw [mapM_cons, hw, hwires]; rfl⟩

theorem mapM_wire {wires : List Bytes} (h : (sent.mapM fun x => x.1.wire) = .ok wires) :
    wires = sent.map fun x => x.1.frames.flatMap Frame.encode := by
  induction sent generalizing wires with
  | nil =>
    cases h
    rfl
  | cons x sent ih =>
    rw [mapM_cons] at h
    cases hw : x.1.wire with
    | error e =>
      rw [hw] at h
      cases h
    | ok w =>
      cases hwires : (sent.mapM fun x => x.1.wire) with
      | error e =>
        rw [hw, hwires] at h
        cases h
      | ok ws =>
        rw [hw, hwires] at h
        cases h
        rw [map_cons, Sending.wire_eq hw, ih hwires]

/-- The messages are written, and however the stream is cut, a client reads them in order and takes
the bytes of their frames. -/
def ClientReads (sent : List (Sending × Bytes)) : Prop :=
  ∃ wires, (sent.mapM fun x => x.1.wire) = .ok wires ∧
    ∀ (pieces : Pieces) (rest : Bytes), pieces.flatten = wires.flatten ++ rest →
      ∃ ps, readMessages sent.length pieces = .ok (sent.map fun x => .data x.2, ps) ∧
        ps.flatten = rest

/-- The same for a server whose handler returns. -/
def ServerReads (sent : List (Sending × Bytes)) : Prop :=
  ∃ wires, (sent.mapM fun x => x.1.wire) = .ok wires ∧
    ∀ (pieces : Pieces) (rest : Bytes), pieces.flatten = wires.flatten ++ rest →
      ∀ (env : Env) (trace : List Event), env.Quiet trace →
        ∃ events ps, serve env trace ⟨[], 0⟩ pieces = serve env (trace ++ events) ⟨[], 0⟩ ps ∧
          messages events = sent.map (·.2) ∧ ps.flatten = rest

/-- A text in two fragments with a ping between them, and a masked text. -/
def twoMessages : List (Sending × Bytes) :=
  [(.fragments
      [⟨false, .text, ofString "he", none, .short, by decide⟩,
        ⟨true, .ping, [], none, .short, by decide⟩,
        ⟨true, .frame, ofString "llo", none, .medium, by decide⟩], ofString "hello"),
    (.whole .binary (ofString "hi") (some 0x01020304) (by decide), ofString "hi")]

theorem twoMessages_sends : ∀ x ∈ twoMessages, x.1.Sends x.2 := by
  simp only [twoMessages, mem_cons, not_mem_nil, or_false]
  rintro x (rfl | rfl)
  · exact .fragments (.fragment _ rfl rfl (.control _ (.inl rfl) (.last _ rfl rfl)))
  · exact .whole rfl

theorem twoMessages_short : ∀ x ∈ twoMessages, ∀ f ∈ x.1.frames, f.payload.length < 2 ^ 31 := by
  decide

end Skynet.WebSocket
