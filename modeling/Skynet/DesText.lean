import Skynet.Des
import Skynet.MachineInt

/-! # Encryption of texts

A model of `l_des_encode` and `l_des_decode` in `luaclib-src/lua-crypt.cpp`.  A text is padded to
whole blocks of 8 bytes, by one of two paddings, and every block goes through the cipher on its
own.

Sizes are of type `size_t`, but the loops count in an `int` and the padding takes its offset as
one, so the conversions are part of the model.  A computation that the language leaves undefined
(an overflow of `int`, a copy of a negative length, a read outside a buffer or of bytes that were
never written) ends in `Error.undefined`.

Texts of less than 2 GiB come back unchanged (`desDecode_desEncode`); a larger one is not
encrypted (`desEncode_of_large`). -/

namespace Skynet.Des

open List LuaText MachineInt

inductive Error
  /-- `luaL_error` with its format and argument -/
  | lua (format : String) (arg : ℤ)
  | undefined
  deriving DecidableEq, Repr

/-! ### Padding -/

inductive PaddingMode
  | iso7816
  | pkcs7
  deriving DecidableEq, Repr

/-- The paddings by their number in `padding_add_func` and `padding_remove_func`. -/
def paddingMode (mode : ℤ) : Except Error PaddingMode :=
  if mode = 0 then .ok .iso7816
  else if mode = 1 then .ok .pkcs7
  else .error (.lua "Invalid padding mode %d" mode)

/-- `padding_add_iso7816_4` after the bytes of the tail. -/
def paddingAddIso7816 (tail : Bytes) : Bytes := tail ++ 0x80 :: replicate (7 - tail.length) 0

/-- `padding_add_pkcs7` after the bytes of the tail. -/
def paddingAddPkcs7 (tail : Bytes) : Bytes :=
  tail ++ replicate (8 - tail.length) (8 - tail.length).toUInt8

/-- The loop of `padding_remove_iso7816_4`, with `n` rounds to go, over the bytes before and at
`last`, the last one first. -/
def removeIso7816 : ℕ → ℕ → Bytes → Except Error ℕ
  | 0, _, _ => .ok 0
  | _ + 1, _, [] => .error .undefined
  | n + 1, padding, b :: last =>
    if b = 0 then removeIso7816 n (padding + 1) last
    else if b = 0x80 then .ok padding
    else .ok 0

/-- `padding_remove_iso7816_4` -/
def paddingRemoveIso7816 (last : Bytes) : Except Error ℕ := removeIso7816 8 1 last

/-- The loop of `padding_remove_pkcs7`, with `n` rounds to go. -/
def removePkcs7 (padding : UInt8) : ℕ → Bytes → Except Error ℕ
  | 0, _ => .ok padding.toNat
  | _ + 1, [] => .error .undefined
  | n + 1, b :: last => if b ≠ padding then .ok 0 else removePkcs7 padding n last

def paddingRemovePkcs7 : Bytes → Except Error ℕ
  | [] => .error .undefined
  | b :: last => removePkcs7 b (b.toNat - 1) last

def PaddingMode.add : PaddingMode → Bytes → Bytes
  | iso7816 => paddingAddIso7816
  | pkcs7 => paddingAddPkcs7

def PaddingMode.remove : PaddingMode → Bytes → Except Error ℕ
  | iso7816 => paddingRemoveIso7816
  | pkcs7 => paddingRemovePkcs7

/-- `add_padding`: the last block, from the bytes at `src`. -/
def addPadding (src : Bytes) (offset mode : ℤ) : Except Error Bytes := do
  let m ← paddingMode mode
  if offset ≥ 8 then throw (.lua "Invalid padding" 0)
  -- the length of the memcpy
  if offset < 0 then throw .undefined
  return m.add (src.take offset.toNat)

/-- `remove_padding`, with the bytes of the buffer, the last one first. -/
def removePadding (last : Bytes) (mode : ℤ) : Except Error ℕ := do
  let m ← paddingMode mode
  m.remove last

/-! ### Texts -/

def desKey (key : Bytes) : Except Error (List Subkey) :=
  if key.length ≠ 8 then .error (.lua "Invalid key size %d, need 8 bytes" (toInt key.length))
  else .ok (desMainKs key)

/-- `luaL_optinteger(L, 3, PADDING_MODE_ISO7816_4)` as an `int`. -/
def optMode (mode : Option ℤ) : ℤ := toInt (mode.getD 0)

/-- The loop over the whole blocks, from position `i` on: where it ends, and what it writes. -/
def encodeLoop (sk : List Subkey) (text : Bytes) (bound : ℤ) (i : ℕ) : ℕ × Bytes :=
  if i < bound then
    let r := encodeLoop sk text bound (i + 8)
    (r.1, desCrypt sk ((text.drop i).take 8) ++ r.2)
  else (i, [])
termination_by (bound - i).toNat

/-- `l_des_encode` -/
def desEncode (key text : Bytes) (mode : Option ℤ) : Except Error Bytes := do
  let sk ← desKey key
  let chunksz := (text.length + 8) / 8 * 8
  let bound := toInt text.length - 7
  if bound < -2 ^ 31 then throw .undefined
  let r := encodeLoop sk text bound 0
  let tail ← addPadding (text.drop r.1) (toInt (text.length - r.1)) (optMode mode)
  let buffer := r.2 ++ desCrypt sk tail
  -- the string is made of the first chunksz bytes of the buffer
  if buffer.length ≠ chunksz then throw .undefined
  return buffer

/-- The loop over the blocks of an encrypted text, at position `i` of it. -/
def decodeLoop (sk : List Subkey) (text : Bytes) (i : ℕ) : Except Error Bytes :=
  if text = [] then .ok []
  else if 2 ^ 31 ≤ i + 8 then .error .undefined
  else (decodeLoop sk (text.drop 8) (i + 8)).map (desCrypt sk (text.take 8) ++ ·)
termination_by text.length
decreasing_by
  have := length_pos_iff.mpr ‹¬ text = []›
  rw [length_drop]
  omega

/-- `l_des_decode` -/
def desDecode (key text : Bytes) (mode : Option ℤ) : Except Error Bytes := do
  let esk ← desKey key
  let sk := esk.reverse
  if text.length % 8 ≠ 0 ∨ text.length = 0 then
    throw (.lua "Invalid des crypt text length %d" (toInt text.length))
  let buffer ← decodeLoop sk text 0
  let padding ← removePadding buffer.reverse (optMode mode)
  if padding = 0 ∨ padding > 8 then throw (.lua "Invalid des crypt text" 0)
  return buffer.take (text.length - padding)

/-! ### A padding is removed as it was added -/

theorem removeIso7816_replicate {n k : ℕ} (hk : k < n) (padding : ℕ) (last : Bytes) :
    removeIso7816 n padding (replicate k 0 ++ 0x80 :: last) = .ok (padding + k) := by
  induction k generalizing n padding with obtain ⟨n, rfl⟩ : ∃ m, n = m + 1 := ⟨n - 1, by omega⟩
  | zero => rfl
  | succ k ih =>
    rw [replicate_succ, cons_append, removeIso7816, if_pos rfl, ih (by omega)]
    congr 1
    omega

theorem removePkcs7_replicate (b : UInt8) (n : ℕ) (last : Bytes) :
    removePkcs7 b n (replicate n b ++ last) = .ok b.toNat := by
  induction n with
  | zero => rfl
  | succ n ih => rw [replicate_succ, cons_append, removePkcs7, if_neg (by simp), ih]

variable {tail key : Bytes} {m : PaddingMode}

theorem length_add (m : PaddingMode) (h : tail.length < 8) : (m.add tail).length = 8 := by
  cases m with
  | iso7816 =>
    rw [PaddingMode.add, paddingAddIso7816, length_append, length_cons,
      length_replicate]
    omega
  | pkcs7 =>
    rw [PaddingMode.add, paddingAddPkcs7, length_append, length_replicate]
    omega

theorem take_add (m : PaddingMode) (tail : Bytes) : (m.add tail).take tail.length = tail := by
  cases m <;> exact take_left

theorem remove_add (m : PaddingMode) (h : tail.length < 8) (last : Bytes) :
    m.remove ((m.add tail).reverse ++ last) = .ok (8 - tail.length) := by
  cases m with
  | iso7816 =>
    have hrev : (PaddingMode.iso7816.add tail).reverse ++ last =
        replicate (7 - tail.length) 0 ++ 0x80 :: (tail.reverse ++ last) := by
      simp [PaddingMode.add, paddingAddIso7816]
    rw [hrev, PaddingMode.remove, paddingRemoveIso7816, removeIso7816_replicate (by omega)]
    congr 1
    omega
  | pkcs7 =>
    obtain ⟨k, hk⟩ : ∃ k, 8 - tail.length = k + 1 := ⟨7 - tail.length, by omega⟩
    have hbyte : (k + 1).toUInt8.toNat = k + 1 := by
      rw [UInt8.toNat_ofNat', Nat.mod_eq_of_lt (by omega)]
    have hrev : (PaddingMode.pkcs7.add tail).reverse ++ last =
        (k + 1).toUInt8 :: (replicate k (k + 1).toUInt8 ++ (tail.reverse ++ last)) := by
      rw [PaddingMode.add, paddingAddPkcs7, hk, reverse_append, reverse_replicate,
        append_assoc, replicate_succ, cons_append]
    rw [hrev, PaddingMode.remove, paddingRemovePkcs7, hbyte, Nat.add_sub_cancel,
      removePkcs7_replicate, hbyte, hk]

/-! ### Block by block -/

theorem decodeLoop_desCrypt {n : ℕ} {sk : List Subkey} (hsk : sk.length = 2 * n) {b : Bytes}
    (hb : b.length = 8) {j : ℕ} (hj : j + 8 < 2 ^ 31) (rest : Bytes) :
    decodeLoop sk.reverse (desCrypt sk b ++ rest) j =
      (decodeLoop sk.reverse rest (j + 8)).map (b ++ ·) := by
  have hlen := length_desCrypt sk b
  have hne : desCrypt sk b ++ rest ≠ [] := by
    intro hnil
    have := congrArg List.length hnil
    rw [length_append, hlen] at this
    simp at this
  rw [decodeLoop, if_neg hne, if_neg (by omega), drop_left' hlen, take_left' hlen,
    desCrypt_reverse hsk hb]

theorem decodeLoop_block {n : ℕ} {sk : List Subkey} (hsk : sk.length = 2 * n) {b : Bytes}
    (hb : b.length = 8) {j : ℕ} (hj : j + 8 < 2 ^ 31) :
    decodeLoop sk.reverse (desCrypt sk b) j = .ok b := by
  have h := decodeLoop_desCrypt hsk hb hj []
  rw [decodeLoop.eq_def _ [], if_pos rfl, append_nil] at h
  simpa [Except.map] using h

/-- What the loop over the whole blocks leaves behind: fewer than eight bytes of the text, and
blocks that are decrypted to the bytes before them. -/
theorem encodeLoop_spec {n : ℕ} {sk : List Subkey} (hsk : sk.length = 2 * n) (text : Bytes) (i : ℕ)
    (hi : i ≤ text.length) :
    ∃ k c, encodeLoop sk text (text.length - 7) i = (i + 8 * k, c) ∧ i + 8 * k ≤ text.length ∧
      text.length < i + 8 * k + 8 ∧ c.length = 8 * k ∧
      ∀ rest j, j + 8 * k < 2 ^ 31 → decodeLoop sk.reverse (c ++ rest) j =
        (decodeLoop sk.reverse rest (j + 8 * k)).map ((text.drop i).take (8 * k) ++ ·) := by
  induction hm : text.length - i using Nat.strong_induction_on generalizing i with
  | _ m ih =>
    by_cases hlt : (i : ℤ) < text.length - 7
    · obtain ⟨k, c, hloop, hle, hgt, hlen, hdec⟩ := ih (text.length - (i + 8)) (by omega) (i + 8)
        (by omega) rfl
      have hblock : ((text.drop i).take 8).length = 8 := by
        rw [length_take, length_drop]
        omega
      refine ⟨k + 1, desCrypt sk ((text.drop i).take 8) ++ c, ?_, by omega, by omega, ?_, ?_⟩
      · rw [encodeLoop, if_pos hlt, hloop]
        simp only [Prod.mk.injEq, and_true]
        omega
      · rw [length_append, length_desCrypt, hlen]
        omega
      · intro rest j hj
        rw [append_assoc, decodeLoop_desCrypt hsk hblock (by omega),
          hdec rest (j + 8) (by omega)]
        have htake : (text.drop i).take (8 * (k + 1)) =
            (text.drop i).take 8 ++ (text.drop (i + 8)).take (8 * k) := by
          rw [show 8 * (k + 1) = 8 + 8 * k by omega, List.take_add, drop_drop]
        rw [htake, show j + 8 * (k + 1) = j + 8 + 8 * k by omega]
        cases decodeLoop sk.reverse rest (j + 8 + 8 * k) with
        | error e => rfl
        | ok d => simp [Except.map]
    · refine ⟨0, [], ?_, by omega, by omega, rfl, ?_⟩
      · rw [encodeLoop, if_neg hlt]
        rfl
      · intro rest j hj
        cases h : decodeLoop sk.reverse rest j <;> simp [Except.map, h]

/-! ### The round trip -/

theorem desKey_of_length (h : key.length = 8) : desKey key = .ok (desMainKs key) :=
  if_neg (by rw [h]; simp)

theorem addPadding_of_lt {mode : ℤ} (hmode : paddingMode mode = .ok m) (h : tail.length < 8) :
    addPadding tail tail.length mode = .ok (m.add tail) := by
  have h8 : ¬ (tail.length : ℤ) ≥ 8 := by omega
  have h0 : ¬ (tail.length : ℤ) < 0 := by omega
  simp only [addPadding, hmode, bind, Except.bind, if_neg h8, if_neg h0, Int.toNat_natCast,
    take_length]
  rfl

/-- `l_des_encode` on a text that an `int` can count. -/
theorem desEncode_eq {text : Bytes} {mode : Option ℤ} (hkey : key.length = 8)
    (htext : text.length < 2 ^ 31) (hmode : paddingMode (optMode mode) = .ok m) {k : ℕ} {c : Bytes}
    (hloop : encodeLoop (desMainKs key) text (text.length - 7) 0 = (8 * k, c))
    (hc : c.length = 8 * k) (hle : 8 * k ≤ text.length) (hgt : text.length < 8 * k + 8) :
    desEncode key text mode = .ok (c ++ desCrypt (desMainKs key) (m.add (text.drop (8 * k)))) := by
  have hbound : ¬ (text.length : ℤ) - 7 < -2 ^ 31 := by omega
  have htail : (text.drop (8 * k)).length = text.length - 8 * k := length_drop
  have hoffset : toInt (text.length - (8 * k : ℕ)) = (text.drop (8 * k)).length := by
    rw [← Nat.cast_sub hle, toInt_of_lt (by omega), htail]
  have hchunk : ¬ (c ++ desCrypt (desMainKs key) (m.add (text.drop (8 * k)))).length ≠
      (text.length + 8) / 8 * 8 := by
    rw [length_append, hc, length_desCrypt]
    omega
  simp only [desEncode, desKey_of_length hkey, bind, Except.bind, toInt_of_lt htext, if_neg hbound,
    hloop, hoffset, addPadding_of_lt hmode (by rw [htail]; omega), if_neg hchunk]
  rfl

/-- `l_des_decode` on a text whose blocks are decrypted to `buffer`. -/
theorem desDecode_eq {text buffer : Bytes} (mode : Option ℤ) (hkey : key.length = 8)
    (h8 : text.length % 8 = 0) (hpos : text.length ≠ 0)
    (hbuffer : decodeLoop (desMainKs key).reverse text 0 = .ok buffer) :
    desDecode key text mode = (removePadding buffer.reverse (optMode mode)).bind fun padding =>
      if padding = 0 ∨ padding > 8 then .error (.lua "Invalid des crypt text" 0)
      else .ok (buffer.take (text.length - padding)) := by
  have hsize : ¬ (text.length % 8 ≠ 0 ∨ text.length = 0) := by omega
  simp only [desDecode, desKey_of_length hkey, bind, Except.bind, if_neg hsize, hbuffer]
  rfl

theorem desDecode_of_lt {key text : Bytes} {mode : Option ℤ} {m : PaddingMode}
    (hkey : key.length = 8) (htext : text.length + 8 < 2 ^ 31)
    (hmode : paddingMode (optMode mode) = .ok m) :
    ∃ c, desEncode key text mode = .ok c ∧ desDecode key c mode = .ok text := by
  have hsk : (desMainKs key).length = 2 * 8 := length_desMainKs key
  obtain ⟨k, c, hloop, hle, hgt, hlen, hdec⟩ := encodeLoop_spec hsk text 0 (Nat.zero_le _)
  simp only [zero_add, drop_zero] at hloop hle hgt hdec
  refine ⟨_, desEncode_eq hkey (by omega) hmode hloop hlen hle hgt, ?_⟩
  have htail : (text.drop (8 * k)).length = text.length - 8 * k := length_drop
  have hpad : (m.add (text.drop (8 * k))).length = 8 := length_add m (by omega)
  generalize hb : desCrypt (desMainKs key) (m.add (text.drop (8 * k))) = b
  have hblen : b.length = 8 := by rw [← hb, length_desCrypt]
  have hsize : (c ++ b).length = 8 * k + 8 := by rw [length_append, hlen, hblen]
  -- the decrypted buffer is the text with its padding
  have hbuffer : decodeLoop (desMainKs key).reverse (c ++ b) 0 =
      .ok (text.take (8 * k) ++ m.add (text.drop (8 * k))) := by
    rw [hdec b 0 (by omega), zero_add, ← hb, decodeLoop_block hsk hpad (by omega)]
    rfl
  have hremove : removePadding (text.take (8 * k) ++ m.add (text.drop (8 * k))).reverse
      (optMode mode) = .ok (8 - (text.drop (8 * k)).length) := by
    rw [removePadding, hmode, reverse_append]
    exact remove_add m (by omega) _
  have hvalid : ¬ (8 - (text.drop (8 * k)).length = 0 ∨ 8 - (text.drop (8 * k)).length > 8) := by
    omega
  have hresult : (text.take (8 * k) ++ m.add (text.drop (8 * k))).take
      ((c ++ b).length - (8 - (text.drop (8 * k)).length)) = text := by
    have hcount : (c ++ b).length - (8 - (text.drop (8 * k)).length) =
        (text.take (8 * k)).length + (text.drop (8 * k)).length := by
      rw [hsize, length_take, htail]
      omega
    rw [hcount, take_length_add_append, take_add, take_append_drop]
  rw [desDecode_eq mode hkey (by omega) (by omega) hbuffer, hremove]
  exact (if_neg hvalid).trans (congrArg _ hresult)

/-- The loop writes what it goes over, and ends where the bound says. -/
theorem encodeLoop_end (sk : List Subkey) (text : Bytes) (bound : ℤ) (i : ℕ) :
    (encodeLoop sk text bound i).1 = i + (encodeLoop sk text bound i).2.length ∧
      ((encodeLoop sk text bound i).1 = i ∨ (encodeLoop sk text bound i).1 < bound + 8) := by
  fun_induction encodeLoop sk text bound i with
  | case1 i h r ih =>
    simp only [r, length_append, length_desCrypt]
    refine ⟨by omega, .inr ?_⟩
    rcases ih.2 with he | hlt <;> omega
  | case2 i h => exact ⟨rfl, .inl rfl⟩

theorem length_of_desEncode {key text c : Bytes} {mode : Option ℤ}
    (h : desEncode key text mode = .ok c) :
    c.length = (text.length + 8) / 8 * 8 ∧ c.length ≤ 2 ^ 31 := by
  simp only [desEncode, bind, Except.bind] at h
  split at h
  · cases h
  · rename_i sk _
    have hend := encodeLoop_end sk text (toInt text.length - 7) 0
    have hint := toInt_lt text.length
    split_ifs at h
    split at h
    · cases h
    · split_ifs at h with hlen
      cases h
      have hsize : _ = _ := not_not.mp hlen
      refine ⟨hsize, ?_⟩
      rw [length_append, length_desCrypt] at hsize ⊢
      omega

theorem lt_of_decodeLoop {sk : List Subkey} {text b : Bytes} {i : ℕ}
    (h : decodeLoop sk text i = .ok b) : text = [] ∨ i + text.length < 2 ^ 31 := by
  fun_induction decodeLoop sk text i generalizing b with
  | case1 => exact .inl rfl
  | case2 => cases h
  | case3 text i hne hlt ih =>
    cases hrest : decodeLoop sk (text.drop 8) (i + 8) with
    | error e =>
      rw [hrest] at h
      cases h
    | ok c =>
      rcases ih hrest with hnil | hrec
      · rw [drop_eq_nil_iff] at hnil
        omega
      · rw [length_drop] at hrec
        omega

theorem decodeLoop_error {sk : List Subkey} {text : Bytes} {i : ℕ} {e : Error}
    (h : decodeLoop sk text i = .error e) : e = .undefined := by
  fun_induction decodeLoop sk text i with
  | case1 => cases h
  | case2 =>
    cases h
    rfl
  | case3 text i hne hlt ih =>
    cases hrest : decodeLoop sk (text.drop 8) (i + 8) with
    | error e =>
      rw [hrest] at h
      cases h
      exact ih hrest
    | ok c =>
      rw [hrest] at h
      cases h

/-- **Round trip of the encryption of texts**: with a key of 8 bytes and either padding, a text is
given back by the decryption exactly when it is short enough for the loops. -/
theorem desDecode_desEncode {key text : Bytes} {mode : Option ℤ} {m : PaddingMode}
    (hkey : key.length = 8) (hmode : paddingMode (optMode mode) = .ok m) :
    (∃ c, desEncode key text mode = .ok c ∧ desDecode key c mode = .ok text) ↔
      text.length + 8 < 2 ^ 31 := by
  refine ⟨?_, fun htext => desDecode_of_lt hkey htext hmode⟩
  rintro ⟨c, hc, hd⟩
  obtain ⟨hlen, hle⟩ := length_of_desEncode hc
  have hpos : c.length ≠ 0 := by omega
  cases hloop : decodeLoop (desMainKs key).reverse c 0 with
  | error e =>
    have hsize : ¬ (c.length % 8 ≠ 0 ∨ c.length = 0) := by omega
    simp only [desDecode, desKey_of_length hkey, bind, Except.bind, if_neg hsize, hloop] at hd
    cases hd
  | ok b =>
    rcases lt_of_decodeLoop hloop with rfl | hlt
    · exact absurd rfl hpos
    · omega

theorem paddingMode_one : paddingMode (optMode (some 1)) = .ok .pkcs7 := by
  have h1 : toInt 1 = 1 := toInt_of_lt (by decide)
  simp [optMode, h1, paddingMode]

theorem paddingMode_none : paddingMode (optMode none) = .ok .iso7816 := by
  have h0 : toInt 0 = 0 := toInt_of_lt (by decide)
  simp [optMode, h0, paddingMode]

/-- A text of one whole block with the second padding. -/
theorem desDecode_desEncode_of_block :
    ∃ c, desEncode [1, 2, 3, 4, 5, 6, 7, 8] [8, 7, 6, 5, 4, 3, 2, 1] (some 1) = .ok c ∧
      desDecode [1, 2, 3, 4, 5, 6, 7, 8] c (some 1) = .ok [8, 7, 6, 5, 4, 3, 2, 1] :=
  (desDecode_desEncode rfl paddingMode_one).mpr (by decide)

/-- The size of a text of 2 GiB or more is a negative `int`: no block is encrypted, and the padding
is asked to copy a negative number of bytes. -/
theorem desEncode_of_large {text : Bytes} {mode : Option ℤ} (hkey : key.length = 8)
    (hmode : paddingMode (optMode mode) = .ok m) (hlow : 2 ^ 31 ≤ text.length)
    (hhigh : text.length < 2 ^ 32) :
    desEncode key text mode = .error .undefined := by
  have hneg : toInt text.length < 0 := toInt_neg hlow hhigh
  have hloop : encodeLoop (desMainKs key) text (toInt text.length - 7) 0 = (0, []) := by
    rw [encodeLoop, if_neg (by omega)]
  have hpad : addPadding text (toInt text.length) (optMode mode) = .error .undefined := by
    have h8 : ¬ toInt text.length ≥ 8 := by omega
    simp only [addPadding, hmode, bind, Except.bind, if_neg h8, if_pos hneg]
    rfl
  simp only [desEncode, desKey_of_length hkey, bind, Except.bind, hloop]
  split_ifs with hbound
  · rfl
  · simp only [Nat.cast_zero, sub_zero, drop_zero, hpad]

/-- A text of 2 GiB and 8 bytes is not encrypted. -/
theorem desEncode_two_gib : (replicate (2 ^ 31 + 8) (0 : UInt8)).length = 2 ^ 31 + 8 ∧
      desEncode [1, 2, 3, 4, 5, 6, 7, 8] (replicate (2 ^ 31 + 8) 0) none =
        .error .undefined := by
  refine ⟨length_replicate, desEncode_of_large rfl paddingMode_none ?_ ?_⟩ <;>
    rw [length_replicate] <;> omega

/-! ### The padding of any text -/

theorem decodeLoop_ok (sk : List Subkey) (k : ℕ) : ∀ (text : Bytes) (i : ℕ),
    text.length = 8 * k → i + 8 * k < 2 ^ 31 →
    ∃ buffer, decodeLoop sk text i = .ok buffer ∧ buffer.length = text.length := by
  induction k with
  | zero =>
    intro text i htext hi
    exact ⟨[], by rw [decodeLoop, if_pos (length_eq_zero_iff.mp htext)], htext.symm⟩
  | succ k ih =>
    intro text i htext hi
    have hdrop : (text.drop 8).length = 8 * k := by rw [length_drop]; omega
    obtain ⟨buffer, hb, hlen⟩ := ih (text.drop 8) (i + 8) hdrop (by omega)
    refine ⟨desCrypt sk (text.take 8) ++ buffer, ?_, ?_⟩
    · rw [decodeLoop, if_neg (by rintro rfl; cases htext), if_neg (by omega), hb]
      rfl
    · rw [length_append, length_desCrypt]
      omega

theorem removeIso7816_ok {n : ℕ} (padding : ℕ) {last : Bytes} (h : n ≤ last.length) :
    ∃ p, removeIso7816 n padding last = .ok p := by
  induction n generalizing padding last with
  | zero => exact ⟨0, rfl⟩
  | succ n ih =>
    cases last with
    | nil => cases h
    | cons b last =>
      rw [removeIso7816]
      split_ifs
      · exact ih _ (Nat.le_of_succ_le_succ h)
      all_goals exact ⟨_, rfl⟩

/-- The loop reads before the buffer only when all of the buffer is the padding byte. -/
theorem removePkcs7_ok (b : UInt8) (n : ℕ) (last : Bytes) : (∃ p, removePkcs7 b n last = .ok p) ∨
    last.length < n ∧ last = replicate last.length b := by
  induction n generalizing last with
  | zero => exact .inl ⟨_, rfl⟩
  | succ n ih =>
    cases last with
    | nil => exact .inr ⟨n.succ_pos, rfl⟩
    | cons c last =>
      rw [removePkcs7]
      by_cases hc : c = b
      · subst hc
        rw [if_neg (not_not.mpr rfl)]
        refine (ih last).imp_right fun h => ⟨Nat.succ_lt_succ h.1, ?_⟩
        rw [length_cons, replicate_succ, ← h.2]
      · exact .inl ⟨0, if_pos hc⟩

theorem remove_ok (m : PaddingMode) {last : Bytes} (h8 : 8 ≤ last.length)
    (h : m = .pkcs7 → ∀ b, last = replicate last.length b → b.toNat ≤ last.length) :
    ∃ p, m.remove last = .ok p := by
  cases m with
  | iso7816 => exact removeIso7816_ok 1 h8
  | pkcs7 =>
    cases last with
    | nil => cases h8
    | cons b last =>
      refine (removePkcs7_ok b (b.toNat - 1) last).resolve_right fun hr => ?_
      have := h rfl b (by rw [length_cons, replicate_succ, ← hr.2])
      rw [length_cons] at this
      omega

theorem removePkcs7_undefined (b : UInt8) {n k : ℕ} (h : k < n) :
    removePkcs7 b n (replicate k b) = .error .undefined := by
  induction k generalizing n with obtain ⟨n, rfl⟩ : ∃ m, n = m + 1 := ⟨n - 1, by omega⟩
  | zero => rfl
  | succ k ih => rw [replicate_succ, removePkcs7, if_neg (by simp), ih (by omega)]

/-- No byte outside of the buffer is read, and the result is an error or the decrypted text without
its last 1 to 8 bytes. -/
def InBuffer (key text : Bytes) (mode : Option ℤ) : Prop :=
  (∃ format arg, desDecode key text mode = .error (.lua format arg)) ∨
    ∃ buffer n, decodeLoop (desMainKs key).reverse text 0 = .ok buffer ∧
      buffer.length = text.length ∧ 1 ≤ n ∧ n ≤ 8 ∧
      desDecode key text mode = .ok (buffer.take (text.length - n))

theorem InBuffer.ne_undefined {key text : Bytes} {mode : Option ℤ} (h : InBuffer key text mode) :
    desDecode key text mode ≠ .error .undefined := by
  rintro hu
  rcases h with ⟨format, arg, h⟩ | ⟨buffer, n, -, -, -, -, h⟩ <;> rw [hu] at h <;> cases h

/-- **Removal of the padding**: `l_des_decode` reads inside its buffer exactly when the text has less
than 2 GiB and is not decrypted to copies of one byte larger than their number. -/
theorem desDecode_in_buffer {key text : Bytes} {mode : Option ℤ} (hkey : key.length = 8)
    (h8 : text.length % 8 = 0) (hpos : 0 < text.length) :
    InBuffer key text mode ↔ text.length < 2 ^ 31 ∧
      (paddingMode (optMode mode) = .ok .pkcs7 → ∀ b,
        decodeLoop (desMainKs key).reverse text 0 = .ok (replicate text.length b) →
          b.toNat ≤ text.length) := by
  constructor
  · intro h
    have hlt : text.length < 2 ^ 31 := by
      cases hloop : decodeLoop (desMainKs key).reverse text 0 with
      | error e =>
        have hsize : ¬ (text.length % 8 ≠ 0 ∨ text.length = 0) := by omega
        refine absurd ?_ h.ne_undefined
        simp only [desDecode, desKey_of_length hkey, bind, Except.bind, if_neg hsize, hloop,
          decodeLoop_error hloop]
      | ok b =>
        have := (lt_of_decodeLoop hloop).resolve_left (by rintro rfl; cases hpos)
        omega
    refine ⟨hlt, fun hmode b hb => ?_⟩
    by_contra hbig
    refine h.ne_undefined ?_
    rw [desDecode_eq mode hkey h8 hpos.ne' hb, removePadding, hmode, reverse_replicate]
    obtain ⟨n, hn⟩ := Nat.exists_eq_succ_of_ne_zero hpos.ne'
    rw [hn, replicate_succ]
    simp only [bind, Except.bind, PaddingMode.remove, paddingRemovePkcs7]
    rw [removePkcs7_undefined b (by omega)]
  · rintro ⟨hlt, hpad⟩
    obtain ⟨buffer, hb, hlen⟩ := decodeLoop_ok (desMainKs key).reverse (text.length / 8) text 0
      (by omega) (by omega)
    rw [InBuffer, desDecode_eq mode hkey h8 hpos.ne' hb, removePadding]
    cases hm : paddingMode (optMode mode) with
    | error e =>
      left
      unfold paddingMode at hm
      split_ifs at hm
      cases hm
      exact ⟨_, _, rfl⟩
    | ok m =>
      have hrev : buffer.reverse.length = text.length := length_reverse.trans hlen
      obtain ⟨p, hp⟩ := remove_ok m (show 8 ≤ buffer.reverse.length by omega) fun hmk b hr => by
        rw [hrev] at hr ⊢
        exact hpad (hm.trans (by rw [hmk])) b
          (by rw [hb, ← reverse_replicate, ← hr, reverse_reverse])
      simp only [bind, Except.bind, hp]
      split_ifs with hv
      · exact .inl ⟨_, _, rfl⟩
      · exact .inr ⟨buffer, p, hb, hlen, by omega, by omega, rfl⟩

/-- A block that is decrypted to eight bytes 8, with the second padding. -/
theorem desDecode_in_buffer_of_block : InBuffer [1, 2, 3, 4, 5, 6, 7, 8]
    (desCrypt (desMainKs [1, 2, 3, 4, 5, 6, 7, 8]) (replicate 8 8)) (some 1) := by
  have hb := decodeLoop_block (n := 8) (length_desMainKs [1, 2, 3, 4, 5, 6, 7, 8])
    (b := replicate 8 8) rfl (j := 0) (by decide)
  have hlen := length_desCrypt (desMainKs [1, 2, 3, 4, 5, 6, 7, 8]) (replicate 8 8)
  refine (desDecode_in_buffer rfl (by rw [hlen]) (by rw [hlen]; decide)).mpr
    ⟨by rw [hlen]; decide, fun _ b h => ?_⟩
  rw [hb, hlen] at h
  obtain rfl : 8 = b := by simpa using h
  rw [hlen]
  decide

/-- A block that is decrypted to eight bytes 9: the removal reads a ninth byte. -/
theorem desDecode_before_buffer :
    desDecode [1, 2, 3, 4, 5, 6, 7, 8]
      (desCrypt (desMainKs [1, 2, 3, 4, 5, 6, 7, 8]) (replicate 8 9)) (some 1) =
        .error .undefined := by
  have hb := decodeLoop_block (n := 8) (length_desMainKs [1, 2, 3, 4, 5, 6, 7, 8])
    (b := replicate 8 9) rfl (j := 0) (by decide)
  have hlen := length_desCrypt (desMainKs [1, 2, 3, 4, 5, 6, 7, 8]) (replicate 8 9)
  rw [desDecode_eq (some 1) rfl (by rw [hlen]) (by rw [hlen]; decide) hb, removePadding,
    paddingMode_one]
  rfl

end Skynet.Des
