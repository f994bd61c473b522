import Skynet.DesText

/-! # Hexadecimal text

A model of `l_to_hex` and `l_from_hex` in `luaclib-src/lua-crypt.cpp`.  The loops count in an
`int`, so a text that is too long for it is `Error.undefined`.

The macro `HEX` takes every byte but `0`-`9` for a letter and the check after it lets values up to
16 through: besides the digits, the characters from `W` to the one before `a` and the letter `g`
are decoded too. -/

namespace Skynet.HexCodec

open List LuaText MachineInt Des

/-- The table `hex`. -/
def hexDigits : Bytes := ofString "0123456789abcdef"

/-- What the loop of `l_to_hex` writes. -/
def toHex (text : Bytes) : Bytes :=
  text.flatMap fun b : UInt8 => [hexDigits.getD (b >>> 4).toNat 0, hexDigits.getD (b &&& 0xf).toNat 0]

/-- `l_to_hex`, with the index `i * 2 + 1` an `int` -/
def hexencode (text : Bytes) : Except Error Bytes :=
  if 2 ^ 30 < text.length then .error .undefined else .ok (toHex text)

/-- The macro `HEX` -/
def hexValue (c : UInt8) : UInt8 := if 48 ≤ c ∧ c ≤ 57 then c - 48 else c - 97 + 10

/-- The loop of `l_from_hex` at position `i` of the text. -/
def fromHex : Bytes → ℕ → Except Error Bytes
  | c :: d :: rest, i =>
    if hexValue c > 16 ∨ hexValue d > 16 then .error (.lua "Invalid hex text" 0)
    else if 2 ^ 31 ≤ i + 2 then .error .undefined
    else (fromHex rest (i + 2)).map ((hexValue c <<< 4 ||| hexValue d) :: ·)
  | _, _ => .ok []

/-- `l_from_hex` -/
def hexdecode (text : Bytes) : Except Error Bytes :=
  if text.length % 2 = 1 then .error (.lua "Invalid hex text size %d" (toInt text.length))
  else fromHex text 0

/-- A character that is no digit and passes for one. -/
def Loose (c : UInt8) : Prop := 0x57 ≤ c ∧ c ≤ 0x60 ∨ c = 0x67

instance (c : UInt8) : Decidable (Loose c) := inferInstanceAs (Decidable (_ ∨ _))

theorem hexValue_toHex (b : UInt8) :
    ∃ c d, toHex [b] = [c, d] ∧ ¬ (hexValue c > 16 ∨ hexValue d > 16) ∧
      hexValue c <<< 4 ||| hexValue d = b := by
  refine ⟨_, _, rfl, ?_⟩
  have h : ∀ i : Fin 256, ¬ (hexValue (hexDigits.getD (UInt8.ofFin i >>> 4).toNat 0) > 16 ∨
      hexValue (hexDigits.getD (UInt8.ofFin i &&& 0xf).toNat 0) > 16) ∧
      hexValue (hexDigits.getD (UInt8.ofFin i >>> 4).toNat 0) <<< 4 |||
        hexValue (hexDigits.getD (UInt8.ofFin i &&& 0xf).toNat 0) = UInt8.ofFin i := by
    decide +kernel
  exact h b.toFin

theorem hexValue_gt_iff {c : UInt8} : hexValue c > 16 ↔ ¬ (Loose c ∨ c ∈ hexDigits) := by
  have h : ∀ i : Fin 256, hexValue (UInt8.ofFin i) > 16 ↔
      ¬ (Loose (UInt8.ofFin i) ∨ UInt8.ofFin i ∈ hexDigits) := by decide +kernel
  exact h c.toFin

theorem loose_notMem {c : UInt8} : Loose c → c ∉ hexDigits := by
  have h : ∀ i : Fin 256, Loose (UInt8.ofFin i) → UInt8.ofFin i ∉ hexDigits := by decide +kernel
  exact h c.toFin

theorem toHex_hexValue : ∀ c ∈ hexDigits, ∀ d ∈ hexDigits,
    toHex [hexValue c <<< 4 ||| hexValue d] = [c, d] := by decide +kernel

theorem fromHex_toHex (s : Bytes) : ∀ i, i + 2 * s.length < 2 ^ 31 →
    fromHex (toHex s) i = .ok s := by
  induction s with
  | nil => exact fun i _ => rfl
  | cons b s ih =>
    intro i hi
    rw [length_cons] at hi
    obtain ⟨c, d, hcd, hv, hb⟩ := hexValue_toHex b
    have happ : toHex (b :: s) = c :: d :: toHex s := congrArg (· ++ toHex s) hcd
    rw [happ, fromHex, if_neg hv, if_neg (by omega), ih (i + 2) (by omega), hb]
    rfl

/-- The index overflows. -/
theorem fromHex_toHex_of_large (s : Bytes) : ∀ i < 2 ^ 31, 2 ^ 31 ≤ i + 2 * s.length →
    fromHex (toHex s) i = .error .undefined := by
  induction s with
  | nil =>
    intro i hi hlen
    rw [length_nil] at hlen
    omega
  | cons b s ih =>
    intro i hi hlen
    rw [length_cons] at hlen
    obtain ⟨c, d, hcd, hv, -⟩ := hexValue_toHex b
    have happ : toHex (b :: s) = c :: d :: toHex s := congrArg (· ++ toHex s) hcd
    rw [happ, fromHex, if_neg hv]
    split_ifs with hend
    · rfl
    · rw [ih (i + 2) (by omega) (by omega)]
      rfl

/-- A text is decoded if and only if it is made of digits and loose characters; without the loose
ones the result is encoded to the text. -/
theorem fromHex_spec (t : Bytes) (i : ℕ) (hlen : i + t.length < 2 ^ 31)
    (heven : t.length % 2 = 0) :
    (∃ s, fromHex t i = .ok s ∧ (∀ c ∈ t, Loose c ∨ c ∈ hexDigits) ∧
      ((∀ c ∈ t, c ∈ hexDigits) → toHex s = t)) ∨
      ∃ e, fromHex t i = .error e ∧ ∃ c ∈ t, ¬ (Loose c ∨ c ∈ hexDigits) := by
  induction t, i using fromHex.induct with
  | case1 c d rest i h =>
    refine .inr ⟨_, by rw [fromHex, if_pos h], ?_⟩
    rcases h with h | h
    · exact ⟨c, by simp, hexValue_gt_iff.mp h⟩
    · exact ⟨d, by simp, hexValue_gt_iff.mp h⟩
  | case2 c d rest i _ h =>
    simp only [length_cons] at hlen
    omega
  | case3 c d rest i hv h ih =>
    simp only [length_cons] at hlen heven
    have hcd := hv
    rw [hexValue_gt_iff, hexValue_gt_iff, not_or, not_not, not_not] at hcd
    rw [fromHex, if_neg hv, if_neg h]
    obtain ⟨s, hs, hall, ht⟩ | ⟨e, he, x, hx, hn⟩ := ih (by omega) (by omega)
    · refine .inl ⟨(hexValue c <<< 4 ||| hexValue d) :: s, by rw [hs]; rfl, ?_, fun hdigits => ?_⟩
      · simpa [hcd.1, hcd.2] using hall
      · change toHex [_] ++ toHex s = _
        rw [toHex_hexValue c (hdigits c (by simp)) d (hdigits d (by simp)),
          ht fun x hx => hdigits x (by simp [hx])]
        rfl
    · exact .inr ⟨e, by rw [he]; rfl, x, by simp [hx], hn⟩
  | case4 t i h =>
    match t with
    | [] => exact .inl ⟨[], rfl, by simp, fun _ => rfl⟩
    | [_] => cases heven
    | c :: d :: rest => exact (h c d rest rfl).elim

/-- **The hexadecimal codec**: exactly the texts of less than `2 ^ 30` bytes are encoded and decoded
again.  A text is decoded if and only if it is of even length and made of the digits `0`-`9` and
`a`-`f`, and then encoded again, exactly unless it is of even length and made of digits and loose
characters, at least one of them loose. -/
theorem hex_codec (s t : Bytes) :
    ((∃ t, hexencode s = .ok t ∧ hexdecode t = .ok s) ↔ s.length < 2 ^ 30) ∧
    (t.length < 2 ^ 31 →
      ((((∃ s, hexdecode t = .ok s) ↔ t.length % 2 = 0 ∧ ∀ c ∈ t, c ∈ hexDigits) ∧
        ∀ s, hexdecode t = .ok s → hexencode s = .ok t) ↔
      ¬ (t.length % 2 = 0 ∧ (∀ c ∈ t, Loose c ∨ c ∈ hexDigits) ∧ ∃ c ∈ t, Loose c))) := by
  have hdouble (s : Bytes) : (toHex s).length = 2 * s.length := by
    rw [toHex, length_flatMap]
    simp [mul_comm]
  constructor
  · constructor
    · rintro ⟨u, hu, hs⟩
      by_contra hlarge
      rw [hexencode] at hu
      split_ifs at hu
      cases hu
      rw [hexdecode, hdouble, if_neg (by omega),
        fromHex_toHex_of_large s 0 (by omega) (by omega)] at hs
      cases hs
    · intro hs
      refine ⟨toHex s, if_neg (by omega), ?_⟩
      rw [hexdecode, hdouble, if_neg (by omega), fromHex_toHex s 0 (by omega)]
  · intro hlt
    rw [hexdecode]
    split_ifs with hodd
    · simp [hodd]
    · have heven : t.length % 2 = 0 := by omega
      obtain ⟨s, hs, hall, ht⟩ | ⟨e, he, x, hx, hn⟩ := fromHex_spec t 0 (by omega) heven
      · constructor
        · rintro ⟨haccept, -⟩ ⟨-, -, c, hc, hloose⟩
          exact loose_notMem hloose ((haccept.mp ⟨s, hs⟩).2 c hc)
        · intro hno
          have hdigits : ∀ c ∈ t, c ∈ hexDigits := fun c hc =>
            (hall c hc).resolve_left fun hloose => hno ⟨heven, hall, c, hc, hloose⟩
          refine ⟨⟨fun _ => ⟨heven, hdigits⟩, fun _ => ⟨s, hs⟩⟩, fun s' hs' => ?_⟩
          obtain rfl : s = s' := Except.ok.inj (hs.symm.trans hs')
          rw [hexencode, if_neg (by rw [← ht hdigits, hdouble] at hlt; omega), ht hdigits]
      · rw [he]
        refine iff_of_true ⟨⟨?_, fun h => (hn (.inr (h.2 x hx))).elim⟩, by simp⟩ ?_
        · rintro ⟨_, hs⟩
          cases hs
        · rintro ⟨-, hall, -⟩
          exact hn (hall x hx)

theorem hex_codec_of_byte :
    hexdecode (ofString "1f") = .ok [31] ∧ hexencode [31] = .ok (ofString "1f") :=
  ⟨rfl, (((hex_codec [] (ofString "1f")).2 (by decide)).mpr (by simp [Loose, ofString])).2 [31] rfl⟩

/-- `WW` is decoded to a zero, which is encoded to `00`; `0g` is decoded too. -/
theorem loose_characters_decoded :
    hexdecode (ofString "WW") = .ok [0] ∧ hexencode [0] = .ok (ofString "00") ∧
      ofString "00" ≠ ofString "WW" ∧ hexdecode (ofString "0g") = .ok [16] :=
  ⟨rfl, rfl, by decide, rfl⟩

end Skynet.HexCodec
