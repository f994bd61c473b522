import Skynet.NetpackWs

/-! # Web socket frames, read and written

`read_size` as a reader of frames in the sense of `FrameReader`: what it says about the beginning of
a stream depends on the bytes of the header alone, and it says so exactly when the last of them has
come (`frames`).  `Frame` is a final frame of a message in any of the forms a peer may choose, and
`Frame.encode` its bytes; the reader finds the payload in them (`encodes`), also in those that
`l_pack` writes (`encodes_lPack`). -/

namespace Skynet.NetpackWs

open List LuaText ByteOrder MachineInt FrameReader
open WebSocket (Form)

/-! ### What a header says depends on its own bytes -/

variable {n off : ℕ} {s : Bytes} {p : ℤ} {b₀ b₁ : UInt8}

theorem readLength_offset (hs : 2 ≤ s.length) (h : readLength n s = some (p, off)) :
    2 ≤ off ∧ off ≤ s.length ∧ off ≤ 10 := by
  unfold readLength at h
  split_ifs at h <;> cases h <;> omega

theorem readLength_append (h : readLength n s = some (p, off)) (t : Bytes) :
    readLength n (s ++ t) = some (p, off) := by
  have hlen : (s ++ t).length = s.length + t.length := length_append
  unfold readLength at h ⊢
  split_ifs at h with h1 h2 h3 h3
  · rw [if_pos h1]
    exact h
  · rw [if_neg h1, if_pos h2, if_neg (by omega), drop_append_of_le_length (by omega),
      take_append_of_le_length (by rw [length_drop]; omega)]
    exact h
  · rw [if_neg h1, if_neg h2, if_neg (by omega), drop_append_of_le_length (by omega),
      take_append_of_le_length (by rw [length_drop]; omega)]
    exact h

theorem readLength_take {j : ℕ} (hj : 2 ≤ j) (hjs : j ≤ s.length)
    (h : readLength n s = some (p, off)) :
    readLength n (s.take j) = if off ≤ j then some (p, off) else none := by
  have hlen : (s.take j).length = j := length_take_of_le hjs
  split_ifs with hoff
  · unfold readLength at h ⊢
    rw [hlen]
    split_ifs at h with h1 h2 h3 h3 <;> cases h
    · rw [if_pos h1]
    · rw [if_neg h1, if_pos h2, if_neg (by omega), drop_take, take_take,
        min_eq_left (by omega)]
    · rw [if_neg h1, if_neg h2, if_neg (by omega), drop_take, take_take,
        min_eq_left (by omega)]
  · unfold readLength at h ⊢
    rw [hlen]
    split_ifs at h with h1 h2 h3 h3 <;> cases h
    · omega
    · rw [if_neg h1, if_pos h2, if_pos (by omega)]
    · rw [if_neg h1, if_neg h2, if_pos (by omega)]

/-- The first byte is not that of a frame. -/
def Bad (b : UInt8) : Prop :=
  (b.toNat >>> 6 &&& 1 ≠ 0 ∨ b.toNat >>> 5 &&& 1 ≠ 0 ∨ b.toNat >>> 4 &&& 1 ≠ 0) ∨
    b.toNat >>> 7 &&& 1 = 0 ∨ b.toNat &&& 0xf = 0

instance (b : UInt8) : Decidable (Bad b) := inferInstanceAs (Decidable (_ ∨ _))

/-- The reading of a header whose length is known, up to its mask. -/
def readMask (isMask : ℕ) (s : Bytes) : Option (ℤ × ℕ) → Reading
  | none => { packSize := -1 }
  | some (packSize, offset) =>
    if isMask ≠ 0 then
      if offset + 4 > s.length then { packSize := -1 }
      else ⟨packSize, offset + 4, some ((s.drop offset).take 4)⟩
    else ⟨packSize, offset, none⟩

theorem readSize_cons (b₀ b₁ : UInt8) (s : Bytes) : readSize (b₀ :: b₁ :: s) =
      if Bad b₀ then { packSize := -2 }
      else readMask (b₁.toNat >>> 7 &&& 1) (b₀ :: b₁ :: s)
        (readLength (b₁.toNat &&& 0x7f) (b₀ :: b₁ :: s)) := by
  by_cases h₁ : b₀.toNat >>> 6 &&& 1 ≠ 0 ∨ b₀.toNat >>> 5 &&& 1 ≠ 0 ∨ b₀.toNat >>> 4 &&& 1 ≠ 0
  · rw [if_pos (show Bad b₀ from .inl h₁)]
    exact if_pos h₁
  · by_cases h₂ : b₀.toNat >>> 7 &&& 1 = 0 ∨ b₀.toNat &&& 0xf = 0
    · rw [if_pos (show Bad b₀ from .inr h₂)]
      exact (if_neg h₁).trans (if_pos h₂)
    · rw [if_neg (show ¬ Bad b₀ from not_or.mpr ⟨h₁, h₂⟩)]
      refine ((if_neg h₁).trans (if_neg h₂)).trans ?_
      rcases readLength (b₁.toNat &&& 0x7f) (b₀ :: b₁ :: s) with _ | ⟨p, off⟩ <;> rfl

theorem readSize_of_length_lt (h : s.length < 2) : readSize s = { packSize := -1 } := by
  match s, h with
  | [], _ => rfl
  | [_], _ => rfl

/-- The length of a header whose length field ends at `off`. -/
def headEnd (isMask off : ℕ) : ℕ := if isMask ≠ 0 then off + 4 else off

theorem readMask_of_lt {isMask : ℕ} (h : s.length < headEnd isMask off) (p : ℤ)
    (hoff : off ≤ s.length) : (readMask isMask s (some (p, off))).packSize = -1 := by
  unfold headEnd at h
  simp only [readMask]
  split_ifs at h ⊢ <;> first | rfl | omega

theorem readMask_of_le {isMask : ℕ} (h : headEnd isMask off ≤ s.length) (p : ℤ) :
    readMask isMask s (some (p, off)) =
      ⟨p, headEnd isMask off, if isMask ≠ 0 then some ((s.drop off).take 4) else none⟩ := by
  unfold headEnd at h ⊢
  simp only [readMask]
  split_ifs at h ⊢ <;> first | rfl | omega

/-- A header that has come, in its parts. -/
structure Complete (s : Bytes) (b₀ b₁ : UInt8) (p : ℤ) (off : ℕ) : Prop where
  begins : ∃ t, s = b₀ :: b₁ :: t
  good : ¬ Bad b₀
  length : readLength (b₁.toNat &&& 0x7f) s = some (p, off)
  come : headEnd (b₁.toNat >>> 7 &&& 1) off ≤ s.length

theorem Complete.readSize_eq (h : Complete s b₀ b₁ p off) :
    readSize s = ⟨p, headEnd (b₁.toNat >>> 7 &&& 1) off,
      if b₁.toNat >>> 7 &&& 1 ≠ 0 then some ((s.drop off).take 4) else none⟩ := by
  obtain ⟨t, rfl⟩ := h.begins
  rw [readSize_cons, if_neg h.good, h.length, readMask_of_le h.come]

theorem complete_or (s : Bytes) : (readSize s).packSize = -1 ∧ s.length < 14 ∨
      (∃ b₀ b₁ t, s = b₀ :: b₁ :: t ∧ Bad b₀) ∨ ∃ b₀ b₁ p off, Complete s b₀ b₁ p off := by
  match s with
  | [] => exact .inl ⟨rfl, by decide⟩
  | [_] => exact .inl ⟨rfl, by simp⟩
  | b₀ :: b₁ :: t =>
    by_cases hbad : Bad b₀
    · exact .inr (.inl ⟨b₀, b₁, t, rfl, hbad⟩)
    · rw [readSize_cons, if_neg hbad]
      cases hlen : readLength (b₁.toNat &&& 0x7f) (b₀ :: b₁ :: t) with
      | none =>
        refine .inl ⟨rfl, ?_⟩
        unfold readLength at hlen
        split_ifs at hlen <;> omega
      | some x =>
        obtain ⟨p, off⟩ := x
        obtain ⟨-, hoff, hten⟩ := readLength_offset (by simp) hlen
        by_cases hend : headEnd (b₁.toNat >>> 7 &&& 1) off ≤ (b₀ :: b₁ :: t).length
        · exact .inr (.inr ⟨b₀, b₁, p, off, ⟨t, rfl⟩, hbad, hlen, hend⟩)
        · refine .inl ⟨readMask_of_lt (not_le.mp hend) p hoff, ?_⟩
          unfold headEnd at hend
          split_ifs at hend <;> omega

variable (h : Complete s b₀ b₁ p off)

include h

theorem Complete.append (t : Bytes) : Complete (s ++ t) b₀ b₁ p off where
  begins := by
    obtain ⟨u, rfl⟩ := h.begins
    exact ⟨u ++ t, rfl⟩
  good := h.good
  length := readLength_append h.length t
  come := by
    have := h.come
    rw [length_append]
    omega

theorem Complete.two_le : 2 ≤ s.length := by
  obtain ⟨t, rfl⟩ := h.begins
  simp

theorem Complete.off_le : 2 ≤ off ∧ off ≤ headEnd (b₁.toNat >>> 7 &&& 1) off := by
  obtain ⟨hoff, -, -⟩ := readLength_offset h.two_le h.length
  refine ⟨hoff, ?_⟩
  unfold headEnd
  split_ifs <;> omega

theorem Complete.mask_append (t : Bytes) : readSize (s ++ t) = readSize s := by
  rw [h.readSize_eq, (h.append t).readSize_eq]
  congr 1
  have hcome := h.come
  unfold headEnd at hcome
  split_ifs at hcome ⊢
  · rw [drop_append_of_le_length (by omega),
      take_append_of_le_length (by rw [length_drop]; omega)]
  · rfl

theorem Complete.take : Complete (s.take (headEnd (b₁.toNat >>> 7 &&& 1) off)) b₀ b₁ p off := by
  have hoff := h.off_le
  have hcome := h.come
  obtain ⟨t, ht⟩ := h.begins
  refine ⟨⟨t.take (headEnd (b₁.toNat >>> 7 &&& 1) off - 2), ?_⟩, h.good, ?_, ?_⟩
  · obtain ⟨n, hn⟩ : ∃ n, headEnd (b₁.toNat >>> 7 &&& 1) off = n + 2 :=
      ⟨headEnd (b₁.toNat >>> 7 &&& 1) off - 2, by omega⟩
    rw [ht, hn, Nat.add_sub_cancel]
    rfl
  · rw [readLength_take (by omega) hcome h.length, if_pos hoff.2]
  · rw [length_take_of_le hcome]

theorem Complete.short {j : ℕ} (hj : j < headEnd (b₁.toNat >>> 7 &&& 1) off) :
    (readSize (s.take j)).packSize = -1 := by
  have hcome := h.come
  have hlen : (s.take j).length = j := length_take_of_le (by omega)
  by_cases h2 : j < 2
  · rw [readSize_of_length_lt (by omega)]
  · obtain ⟨t, ht⟩ := h.begins
    obtain ⟨n, rfl⟩ : ∃ n, j = n + 2 := ⟨j - 2, by omega⟩
    have htake : s.take (n + 2) = b₀ :: b₁ :: t.take n := by rw [ht]; rfl
    rw [htake, readSize_cons, if_neg h.good, ← htake,
      readLength_take (by omega) (by omega) h.length]
    split_ifs with hoff
    · exact readMask_of_lt (by omega) p (by omega)
    · rfl

omit h

/-! ### The reader of the frames -/

/-- The verdict of `read_size` on the beginning of a stream. -/
def readHeader (s : Bytes) : Header (Option Bytes) :=
  let r := (readSize s).capped
  if r.packSize = -1 ∧ s.length < 14 then .short
  else if r.packSize < 0 then .invalid
  else .complete r.headLength r.packSize.toNat r.mask

theorem capped_eq_neg_one (r : Reading) : r.capped.packSize = -1 ↔ r.packSize = -1 := by
  simp only [Reading.capped]
  omega

theorem readHeader_eq (s : Bytes) : readHeader s =
      if (readSize s).packSize = -1 ∧ s.length < 14 then .short
      else if (readSize s).capped.packSize < 0 then .invalid
      else .complete (readSize s).capped.headLength (readSize s).capped.packSize.toNat
        (readSize s).capped.mask := by
  simp only [readHeader, capped_eq_neg_one]

theorem readHeader_eq_short :
    readHeader s = .short ↔ (readSize s).packSize = -1 ∧ s.length < 14 := by
  rw [readHeader_eq]
  split_ifs with h <;> simp [h]

theorem readHeader_eq_complete {k : ℕ} {m : Option Bytes} (h : readHeader s = .complete n k m) :
    (readSize s).capped = ⟨k, n, m⟩ := by
  rw [readHeader_eq] at h
  split_ifs at h with h₁ h₂
  obtain ⟨rfl, rfl, rfl⟩ := Header.complete.inj h
  rw [Int.toNat_of_nonneg (by omega)]

theorem readHeader_append (h : readHeader s ≠ .short) (t : Bytes) :
    readHeader (s ++ t) = readHeader s := by
  have hnot := mt readHeader_eq_short.mpr h
  have hsame : readSize (s ++ t) = readSize s := by
    rcases complete_or s with hshort | ⟨b₀, b₁, u, rfl, hbad⟩ | ⟨b₀, b₁, p, off, hc⟩
    · exact absurd hshort hnot
    · rw [cons_append, cons_append, readSize_cons, readSize_cons, if_pos hbad,
        if_pos hbad]
    · exact hc.mask_append t
  rw [readHeader_eq, readHeader_eq, hsame, if_neg hnot, if_neg]
  rintro ⟨hcode, hlen⟩
  rw [length_append] at hlen
  exact hnot ⟨hcode, by omega⟩

theorem readHeader_complete {k : ℕ} {m : Option Bytes} (h : readHeader s = .complete n k m) :
    ∃ b₀ b₁ p off, Complete s b₀ b₁ p off ∧ n = headEnd (b₁.toNat >>> 7 &&& 1) off := by
  have hread := readHeader_eq_complete h
  rcases complete_or s with hshort | ⟨b₀, b₁, u, rfl, hbad⟩ | ⟨b₀, b₁, p, off, hc⟩
  · rw [readHeader_eq_short.mpr hshort] at h
    cases h
  · rw [readSize_cons, if_pos hbad] at hread
    have := congrArg Reading.packSize hread
    simp only [Reading.capped] at this
    omega
  · refine ⟨b₀, b₁, p, off, hc, ?_⟩
    rw [hc.readSize_eq] at hread
    exact (congrArg Reading.headLength hread).symm

theorem headEnd_le (h : Complete s b₀ b₁ p off) : headEnd (b₁.toNat >>> 7 &&& 1) off ≤ 14 := by
  obtain ⟨-, -, hten⟩ := readLength_offset h.two_le h.length
  unfold headEnd
  split_ifs <;> omega

/-- The frames of a stream, as `lua-netpack_ws.cpp` reads them. -/
def frames : FrameReader UInt8 (Option Bytes) where
  read := readHeader
  decode m s := unmask m 0 s
  read_nil := rfl
  stable _ t h := readHeader_append h t
  least s n k m h := by
    obtain ⟨b₀, b₁, p, off, hc, rfl⟩ := readHeader_complete h
    have hoff := hc.off_le
    have htake : readHeader (s.take (headEnd (b₁.toNat >>> 7 &&& 1) off)) = readHeader s := by
      have happ := hc.take.mask_append (s.drop (headEnd (b₁.toNat >>> 7 &&& 1) off))
      rw [take_append_drop] at happ
      have hcode : ∀ l : ℕ, ¬ ((readSize s).packSize = -1 ∧ l < 14) := by
        rintro l ⟨hneg, -⟩
        rw [← capped_eq_neg_one, readHeader_eq_complete h] at hneg
        exact absurd hneg (by simp)
      rw [readHeader_eq, readHeader_eq s, ← happ, if_neg (hcode _), if_neg (hcode _)]
    refine ⟨by omega, hc.come, htake.trans h, fun j hj => ?_⟩
    have hlen : (s.take j).length ≤ j := length_take_le j s
    have := headEnd_le hc
    exact readHeader_eq_short.mpr ⟨hc.short hj, by omega⟩

/-! ### The mask -/

theorem unmask_append (m : Option Bytes) (phase : ℕ) (s t : Bytes) :
    unmask m phase (s ++ t) = unmask m phase s ++ unmask m (phase + s.length) t := by
  cases m with
  | none => rfl
  | some key =>
    simp only [unmask, zipIdx_append, map_append, append_cancel_left_eq]
    rw [zipIdx_eq_map_add, map_map]
    refine map_congr_left fun x _ => ?_
    simp only [Function.comp]
    rw [show 0 + s.length + x.2 + phase = x.2 + (phase + s.length) by omega]

@[simp] theorem unmask_nil (m : Option Bytes) (phase : ℕ) : unmask m phase [] = [] := by
  cases m <;> rfl

theorem unmask_xorBytes {key : Bytes} (hkey : key.length = 4) (s : Bytes) :
    unmask (some key) 0 (WebSocket.xorBytes key s) = s := by
  have hsame : ∀ u : Bytes, unmask (some key) 0 u = WebSocket.xorBytes key u := by
    intro u
    simp only [unmask, WebSocket.xorBytes, hkey, add_zero]
  rw [hsame, WebSocket.xorBytes_xorBytes]

/-! ### Frames of a peer -/

/-- A frame that is a message of its own.  No extension is in use, so the reserved bits are zero;
the length may be written in any form that fits, and a key stands for its four bytes. -/
structure Frame where
  opcode : ℕ
  opcode_pos : 0 < opcode
  opcode_lt : opcode < 16
  payload : Bytes
  key : Option UInt32
  form : Form
  fits : payload.length < form.bound
  small : payload.length ≤ maxPackSize

namespace Frame

/-- The masking key. -/
def keyBytes (f : Frame) : Option Bytes := f.key.map fun k => toBE 4 k.toNat

/-- The payload as it is sent. -/
def masked (f : Frame) : Bytes := f.keyBytes.elim f.payload fun k => WebSocket.xorBytes k f.payload

/-- The header. -/
def head (f : Frame) : Bytes :=
  [UInt8.ofNat (0x80 ||| f.opcode),
    UInt8.ofNat ((if f.key.isSome then 0x80 else 0) ||| f.form.len7 f.payload.length)] ++
      (f.form.extra f.payload.length ++ f.keyBytes.getD [])

def encode (f : Frame) : Bytes := f.head ++ f.masked

end Frame

theorem not_bad (hpos : 0 < n) (hlt : n < 16) : ¬ Bad (UInt8.ofNat (0x80 ||| n)) := by
  revert hpos
  revert n
  decide +kernel

theorem second_byte (masked : Bool) (h : n < 128) :
    (UInt8.ofNat ((if masked then 0x80 else 0) ||| n)).toNat &&& 0x7f = n ∧
      ((UInt8.ofNat ((if masked then 0x80 else 0) ||| n)).toNat >>> 7 &&& 1 ≠ 0 ↔
        masked = true) := by
  revert n
  cases masked <;> decide +kernel

theorem ntoh64_eq {b : Bytes} (h : b.length = 8) : ntoh64 b = ofBE b := by
  have hsplit := ofBE_append (b.take 4) (b.drop 4)
  have hlow : ofBE (b.drop 4) < 2 ^ 32 := by
    have := ofBE_lt (b.drop 4)
    rw [length_drop, h] at this
    exact this
  rw [take_append_drop, length_drop, h, show 256 ^ (8 - 4) = 2 ^ 32 from rfl] at hsplit
  rw [ntoh64, ← Nat.shiftLeft_add_eq_or_of_lt hlow, Nat.shiftLeft_eq, hsplit, mul_comm]

theorem readLength_extra {form : Form} (hfits : n < form.bound) (hsmall : n ≤ maxPackSize)
    (b₀ b₁ : UInt8) (rest : Bytes) : readLength (form.len7 n) (b₀ :: b₁ :: (form.extra n ++ rest)) =
      some ((n : ℤ), 2 + (form.extra n).length) := by
  have hmax : n ≤ 10240 := hsmall
  have hextra : ∀ k, ((b₀ :: b₁ :: (toBE k n ++ rest)).drop 2).take k = toBE k n := by
    intro k
    rw [drop_succ_cons, drop_succ_cons, drop_zero, take_left' (length_toBE k n)]
  have hlen : ∀ k, ¬ (b₀ :: b₁ :: (toBE k n ++ rest)).length < 2 + k := by
    intro k
    rw [length_cons, length_cons, length_append, length_toBE]
    omega
  cases form with
  | short => exact if_pos hfits
  | medium =>
    simp only [readLength, Form.len7, Form.extra, hextra, if_neg (hlen 2), length_toBE,
      ofBE_toBE]
    rw [Nat.mod_eq_of_lt (by omega)]
    rfl
  | long =>
    simp only [readLength, Form.len7, Form.extra, hextra, if_neg (hlen 8), length_toBE,
      ntoh64_eq (length_toBE 8 n), ofBE_toBE]
    rw [Nat.mod_eq_of_lt (by omega), toInt_of_lt (by omega)]
    rfl

namespace Frame

variable (f : Frame)

theorem length_keyBytes {k : Bytes} (h : f.keyBytes = some k) : k.length = 4 := by
  obtain ⟨key, -, rfl⟩ := Option.map_eq_some_iff.mp h
  exact length_toBE ..

@[simp] theorem length_masked : f.masked.length = f.payload.length := by
  unfold masked
  cases f.keyBytes with
  | none => rfl
  | some k => exact WebSocket.length_xorBytes k f.payload

theorem unmask_masked : unmask f.keyBytes 0 f.masked = f.payload := by
  unfold masked
  cases h : f.keyBytes with
  | none => rfl
  | some k => exact unmask_xorBytes (f.length_keyBytes h) f.payload

theorem readSize_head : readSize f.head = ⟨f.payload.length, f.head.length, f.keyBytes⟩ := by
  obtain ⟨hlen7, hmask⟩ := second_byte f.key.isSome (Form.len7_lt f.fits)
  have hread := readLength_extra f.fits f.small (UInt8.ofNat (0x80 ||| f.opcode))
    (UInt8.ofNat ((if f.key.isSome then 0x80 else 0) ||| f.form.len7 f.payload.length))
    (f.keyBytes.getD [])
  have hbytes : f.head = UInt8.ofNat (0x80 ||| f.opcode) ::
      UInt8.ofNat ((if f.key.isSome then 0x80 else 0) ||| f.form.len7 f.payload.length) ::
        (f.form.extra f.payload.length ++ f.keyBytes.getD []) := rfl
  have hkey : f.keyBytes.isSome = f.key.isSome := Option.isSome_map
  have hend : headEnd ((UInt8.ofNat ((if f.key.isSome then 0x80 else 0) |||
      f.form.len7 f.payload.length)).toNat >>> 7 &&& 1) (2 + (f.form.extra f.payload.length).length)
        = f.head.length := by
    rw [hbytes, headEnd]
    simp only [length_cons, length_append]
    cases hk : f.keyBytes with rw [hk] at hkey
    | none =>
      rw [if_neg (by rw [hmask, ← hkey]; simp)]
      simp only [Option.getD_none, length_nil]
      omega
    | some k =>
      rw [if_pos (by rw [hmask, ← hkey]; simp)]
      simp only [Option.getD_some, f.length_keyBytes hk]
      omega
  have hcomplete : Complete f.head _ _ (f.payload.length : ℤ)
      (2 + (f.form.extra f.payload.length).length) :=
    ⟨⟨_, rfl⟩, not_bad f.opcode_pos f.opcode_lt, by rw [hlen7]; exact hread, le_of_eq hend⟩
  rw [hcomplete.readSize_eq, hend]
  congr 1
  cases hk : f.keyBytes with rw [hk] at hkey
  | none => exact if_neg (by rw [hmask, ← hkey]; simp)
  | some k =>
    rw [if_pos (by rw [hmask, ← hkey]; simp), hbytes, hk, Option.getD_some, add_comm,
      drop_succ_cons, drop_succ_cons, drop_left,
      take_of_length_le (le_of_eq (f.length_keyBytes hk))]

end Frame

theorem encodes (f : Frame) : frames.Encodes Frame.encode Frame.payload f := by
  refine ⟨f.head, f.masked, f.keyBytes, rfl, ?_, f.unmask_masked⟩
  have hsmall : (f.payload.length : ℤ) ≤ maxPackSize := Int.ofNat_le.mpr f.small
  change readHeader f.head = _
  rw [readHeader_eq, f.readSize_head, if_neg (by simp), if_neg]
  · simp only [Reading.capped, min_eq_left hsmall, Int.toNat_natCast, f.length_masked]
  · simp only [Reading.capped, min_eq_left hsmall]
    omega

/-- A byte of a length, as `FRAME_SET_LENGTH` takes it out. -/
theorem ofNat_shiftRight_and (n i : ℕ) :
    UInt8.ofNat (n >>> (i * 8) &&& 0xff) = UInt8.ofNat (n / 256 ^ i) := by
  have hand : n >>> (i * 8) &&& 0xff = n / 256 ^ i % 256 := by
    rw [Nat.shiftRight_eq_div_pow, mul_comm, pow_mul]
    exact Nat.and_two_pow_sub_one_eq_mod _ 8
  rw [hand]
  exact UInt8.ofNat_mod_size

/-- What `l_pack` writes is a frame. -/
theorem lPack_eq_encode (f : Frame) (hop : f.opcode = 2) (hkey : f.key = none)
    (hform : f.form = if f.payload.length < 126 then .short else .medium) :
    lPack f.payload = f.encode := by
  have hkeys : f.keyBytes = none := by rw [Frame.keyBytes, hkey]; rfl
  have hmasked : f.masked = f.payload := by rw [Frame.masked, hkeys]; rfl
  have hlt : f.payload.length < 65536 := lt_of_le_of_lt f.small (by decide)
  rw [lPack, Frame.encode, Frame.head, hmasked, hkeys, hop, hkey, hform]
  simp only [ofNat_shiftRight_and, hlt, if_true, Option.isSome_none, Bool.false_eq_true, if_false]
  refine congrArg (· ++ f.payload) ?_
  split_ifs
  · simp [Form.len7, Form.extra]
  · simp [Form.len7, Form.extra, toBE, toLE]

/-- The filter reads back what `l_pack` writes, up to the size at which it cuts packets. -/
theorem encodes_lPack {msg : Bytes} (h : msg.length ≤ maxPackSize) :
    frames.Encodes lPack id msg := by
  have hlt : msg.length < 65536 := lt_of_le_of_lt h (by decide)
  obtain ⟨form, hform, hfits⟩ : ∃ form : Form,
      form = (if msg.length < 126 then .short else .medium) ∧ msg.length < form.bound := by
    refine ⟨_, rfl, ?_⟩
    split_ifs with hshort
    · exact hshort
    · exact hlt
  have hpack := lPack_eq_encode ⟨2, by decide, by decide, msg, none, form, hfits, h⟩ rfl rfl hform
  obtain ⟨head, body, key, henc, hread⟩ :=
    encodes ⟨2, by decide, by decide, msg, none, form, hfits, h⟩
  exact ⟨head, body, key, hpack.trans henc, hread⟩

end Skynet.NetpackWs
