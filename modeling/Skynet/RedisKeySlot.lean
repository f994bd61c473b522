import Skynet.Crc
import Skynet.LuaText

/-! # The key slots of a Redis cluster

A model of `crc16.lua` and of `rediscluster:keyslot`.  The slot of a key is the remainder of the
CRC-16 of its hash tag, which is the part of the key in the first braces.

`crc16` goes through the key byte by byte with a table.  It is the checksum that is called XMODEM,
computed bit by bit (`crc16_eq`), because eight steps of the division take the upper byte of the
register to the entry of the table and only move the lower one (`byteStep_eq`). -/

namespace Skynet.RedisCluster

open List LuaText BitVec

/-! ### The checksum -/

def xmodemCrc16Lookup : List ℕ :=
  [0x0000, 0x1021, 0x2042, 0x3063, 0x4084, 0x50a5, 0x60c6, 0x70e7, 0x8108, 0x9129, 0xa14a, 0xb16b,
    0xc18c, 0xd1ad, 0xe1ce, 0xf1ef, 0x1231, 0x0210, 0x3273, 0x2252, 0x52b5, 0x4294, 0x72f7, 0x62d6,
    0x9339, 0x8318, 0xb37b, 0xa35a, 0xd3bd, 0xc39c, 0xf3ff, 0xe3de, 0x2462, 0x3443, 0x0420, 0x1401,
    0x64e6, 0x74c7, 0x44a4, 0x5485, 0xa56a, 0xb54b, 0x8528, 0x9509, 0xe5ee, 0xf5cf, 0xc5ac, 0xd58d,
    0x3653, 0x2672, 0x1611, 0x0630, 0x76d7, 0x66f6, 0x5695, 0x46b4, 0xb75b, 0xa77a, 0x9719, 0x8738,
    0xf7df, 0xe7fe, 0xd79d, 0xc7bc, 0x48c4, 0x58e5, 0x6886, 0x78a7, 0x0840, 0x1861, 0x2802, 0x3823,
    0xc9cc, 0xd9ed, 0xe98e, 0xf9af, 0x8948, 0x9969, 0xa90a, 0xb92b, 0x5af5, 0x4ad4, 0x7ab7, 0x6a96,
    0x1a71, 0x0a50, 0x3a33, 0x2a12, 0xdbfd, 0xcbdc, 0xfbbf, 0xeb9e, 0x9b79, 0x8b58, 0xbb3b, 0xab1a,
    0x6ca6, 0x7c87, 0x4ce4, 0x5cc5, 0x2c22, 0x3c03, 0x0c60, 0x1c41, 0xedae, 0xfd8f, 0xcdec, 0xddcd,
    0xad2a, 0xbd0b, 0x8d68, 0x9d49, 0x7e97, 0x6eb6, 0x5ed5, 0x4ef4, 0x3e13, 0x2e32, 0x1e51, 0x0e70,
    0xff9f, 0xefbe, 0xdfdd, 0xcffc, 0xbf1b, 0xaf3a, 0x9f59, 0x8f78, 0x9188, 0x81a9, 0xb1ca, 0xa1eb,
    0xd10c, 0xc12d, 0xf14e, 0xe16f, 0x1080, 0x00a1, 0x30c2, 0x20e3, 0x5004, 0x4025, 0x7046, 0x6067,
    0x83b9, 0x9398, 0xa3fb, 0xb3da, 0xc33d, 0xd31c, 0xe37f, 0xf35e, 0x02b1, 0x1290, 0x22f3, 0x32d2,
    0x4235, 0x5214, 0x6277, 0x7256, 0xb5ea, 0xa5cb, 0x95a8, 0x8589, 0xf56e, 0xe54f, 0xd52c, 0xc50d,
    0x34e2, 0x24c3, 0x14a0, 0x0481, 0x7466, 0x6447, 0x5424, 0x4405, 0xa7db, 0xb7fa, 0x8799, 0x97b8,
    0xe75f, 0xf77e, 0xc71d, 0xd73c, 0x26d3, 0x36f2, 0x0691, 0x16b0, 0x6657, 0x7676, 0x4615, 0x5634,
    0xd94c, 0xc96d, 0xf90e, 0xe92f, 0x99c8, 0x89e9, 0xb98a, 0xa9ab, 0x5844, 0x4865, 0x7806, 0x6827,
    0x18c0, 0x08e1, 0x3882, 0x28a3, 0xcb7d, 0xdb5c, 0xeb3f, 0xfb1e, 0x8bf9, 0x9bd8, 0xabbb, 0xbb9a,
    0x4a75, 0x5a54, 0x6a37, 0x7a16, 0x0af1, 0x1ad0, 0x2ab3, 0x3a92, 0xfd2e, 0xed0f, 0xdd6c, 0xcd4d,
    0xbdaa, 0xad8b, 0x9de8, 0x8dc9, 0x7c26, 0x6c07, 0x5c64, 0x4c45, 0x3ca2, 0x2c83, 0x1ce0, 0x0cc1,
    0xef1f, 0xff3e, 0xcf5d, 0xdf7c, 0xaf9b, 0xbfba, 0x8fd9, 0x9ff8, 0x6e17, 0x7e36, 0x4e55, 0x5e74,
    0x2e93, 0x3eb2, 0x0ed1, 0x1ef0]

/-- The body of the loop. -/
def crcStep (crc : ℕ) (b : UInt8) : ℕ :=
  (crc <<< 8 &&& 0xffff) ^^^ xmodemCrc16Lookup.getD ((crc >>> 8 ^^^ b.toNat) &&& 0xff) 0

def crc16 (bytes : Bytes) : ℕ := bytes.foldl crcStep 0

/-- The register after one more byte: it comes in at the upper end, and eight steps follow. -/
def byteStep (c : BitVec 16) (b : UInt8) : BitVec 16 :=
  (Crc.shift 0x1021)^[8] (c ^^^ b.toBitVec.setWidth 16 <<< 8)

/-- CRC-16/XMODEM: the polynomial is `x ^ 16 + x ^ 12 + x ^ 5 + 1` and the register is 0 at first. -/
def xmodem (bytes : Bytes) : BitVec 16 := bytes.foldl byteStep 0

theorem lookup_eq (i : BitVec 8) : xmodemCrc16Lookup.getD i.toNat 0 =
    ((Crc.shift 0x1021)^[8] (i.setWidth 16 <<< 8)).toNat := by
  revert i
  decide +kernel

/-- The upper byte of the register is looked up with the next byte, and the lower byte moves. -/
theorem byteStep_eq (c : BitVec 16) (b : UInt8) : byteStep c b =
    c <<< 8 ^^^ (Crc.shift 0x1021)^[8] (((c >>> 8).setWidth 8 ^^^ b.toBitVec).setWidth 16 <<< 8) := by
  have hsplit : c ^^^ b.toBitVec.setWidth 16 <<< 8 =
      (c.setWidth 8).setWidth 16 ^^^ ((c >>> 8).setWidth 8 ^^^ b.toBitVec).setWidth 16 <<< 8 := by
    ext i hi
    simp only [getElem_xor, getElem_shiftLeft, getElem_setWidth,
      getLsbD_xor, getLsbD_setWidth, getLsbD_ushiftRight]
    by_cases h : i < 8
    · simp [h, hi]
    · have hback : 8 + (i - 8) = i := by omega
      have hlt : i - 8 < 8 := by omega
      simp [h, hback, hlt, getLsbD_eq_getElem hi]
  have hlow : (c.setWidth 8).setWidth 16 <<< 8 = c <<< 8 := by
    ext i hi
    by_cases h : i < 8
    · simp [h]
    · have hlt : i - 8 < 8 := by omega
      simp [h, hlt, getLsbD_eq_getElem (show i - 8 < 16 by omega)]
  rw [byteStep, hsplit, Crc.iterate_shift_xor, Crc.iterate_shift_of_lt, hlow]
  rw [toNat_setWidth_of_le (by decide)]
  omega

theorem crcStep_eq (c : BitVec 16) (b : UInt8) : crcStep c.toNat b = (byteStep c b).toNat := by
  have hindex : (c.toNat >>> 8 ^^^ b.toNat) &&& 0xff =
      ((c >>> 8).setWidth 8 ^^^ b.toBitVec).toNat := by
    rw [Nat.and_two_pow_sub_one_eq_mod _ 8, Nat.xor_mod_two_pow]
    simp
  rw [crcStep, hindex, lookup_eq, byteStep_eq, toNat_xor (c <<< 8),
    toNat_shiftLeft, Nat.and_two_pow_sub_one_eq_mod _ 16]

theorem crc16_eq (bytes : Bytes) : crc16 bytes = (xmodem bytes).toNat := by
  have hfold : ∀ c : BitVec 16, bytes.foldl crcStep c.toNat = (bytes.foldl byteStep c).toNat := by
    induction bytes with
    | nil => exact fun _ => rfl
    | cons b bytes ih =>
      intro c
      rw [foldl_cons, foldl_cons, crcStep_eq, ih]
  exact hfold 0

/-! ### The slot -/

def redisClusterHashSlots : ℕ := 16384

def keyslot (key : Bytes) : ℕ :=
  let key :=
    match find [123] key with
    | none => key
    | some startpos =>
      match findFrom [125] key (startpos + 1) with
      | none => key
      | some endpos =>
        if endpos ≠ startpos + 1 then sub key (startpos + 2) endpos else key
  crc16 key % redisClusterHashSlots

/-- What is between the first `{` and the first `}` after it, if there is something, and the whole
key otherwise. -/
def hashTag (key : Bytes) : Bytes :=
  let behind := (key.dropWhile (· ≠ 123)).tail
  let tag := behind.takeWhile (· ≠ 125)
  if 125 ∈ behind ∧ tag ≠ [] then tag else key

theorem find_first {c : UInt8} {l : Bytes} (h : c ∉ l) (s : Bytes) :
    find [c] (l ++ c :: s) = some l.length := by
  rw [find_append_of_notMem h, find, if_pos (by simp), Option.map_some, zero_add]

theorem find_absent {c : UInt8} {s : Bytes} (h : c ∉ s) : find [c] s = none := by
  have := find_append_of_notMem h [] []
  rwa [append_nil] at this

/-- **Key slots.**  The slot of a key is the CRC-16/XMODEM of its hash tag, modulo the number of
slots. -/
theorem keyslot_eq (key : Bytes) : keyslot key = (xmodem (hashTag key)).toNat % 16384 := by
  rw [← crc16_eq, keyslot, hashTag]
  refine congrArg (crc16 · % _) ?_
  by_cases hopen : 123 ∈ key
  · obtain ⟨before, behind, rfl, hbefore⟩ := eq_append_cons_of_mem hopen
    have hpos : ∀ b ∈ before, decide (b ≠ 123) = true := fun b hb =>
      decide_eq_true (ne_of_mem_of_not_mem hb hbefore)
    have hdrop : (before ++ 123 :: behind).drop (before.length + 1) = behind := by simp
    rw [find_first hbefore, dropWhile_append_of_pos hpos, dropWhile_cons_of_neg (by simp), tail_cons]
    simp only [findFrom, hdrop]
    by_cases hclose : 125 ∈ behind
    · obtain ⟨tag, after, rfl, htag⟩ := eq_append_cons_of_mem hclose
      have hpos : ∀ b ∈ tag, decide (b ≠ 125) = true := fun b hb =>
        decide_eq_true (ne_of_mem_of_not_mem hb htag)
      rw [find_first htag, takeWhile_append_of_pos hpos, takeWhile_cons_of_neg (by simp), append_nil]
      simp only [Option.map_some]
      by_cases hempty : tag = []
      · rw [hempty, if_neg (by simp), if_neg (by simp)]
      · have hsub : ((before.length : ℤ) + 2) = (before.length + 1 : ℕ) + 1 := by omega
        have hlen := length_pos_iff.mpr hempty
        rw [if_pos (by omega), if_pos ⟨hclose, hempty⟩, hsub, sub_nat, drop_take, hdrop,
          Nat.add_sub_cancel, take_left]
    · rw [find_absent hclose, if_neg fun h => hclose h.1]
      rfl
  · rw [find_absent hopen, dropWhile_eq_nil_iff.mpr fun b hb =>
      decide_eq_true (ne_of_mem_of_not_mem hb hopen)]
    simp

end Skynet.RedisCluster
