import Skynet.Feistel
import Skynet.LuaText

/-! # The DES block cipher

A model of the cipher in `luaclib-src/lua-crypt.cpp`, on words of 32 bits.

* `desMainKs` computes the key schedule of a key of 8 bytes, sixteen subkeys of two words.
* `desCrypt` runs the initial permutation `desIP`, the sixteen rounds and the final permutation
  `desFP` over a block of 8 bytes.

The permutations are exchanges of bits between the two halves and rotations, so that `desFP` undoes
`desIP` step by step, and the rounds are a Feistel network.  With the subkeys in reverse order
`desCrypt` undoes itself, whatever the key is (`desCrypt_reverse`). -/

namespace Skynet.Des

open LuaText Feistel

/-- The type `uint32_t`. -/
abbrev Word := BitVec 32

/-! ### The tables -/

def sb1 : Vector Word 64 :=
  #v[0x01010400, 0x00000000, 0x00010000, 0x01010404, 0x01010004, 0x00010404, 0x00000004, 0x00010000,
    0x00000400, 0x01010400, 0x01010404, 0x00000400, 0x01000404, 0x01010004, 0x01000000, 0x00000004,
    0x00000404, 0x01000400, 0x01000400, 0x00010400, 0x00010400, 0x01010000, 0x01010000, 0x01000404,
    0x00010004, 0x01000004, 0x01000004, 0x00010004, 0x00000000, 0x00000404, 0x00010404, 0x01000000,
    0x00010000, 0x01010404, 0x00000004, 0x01010000, 0x01010400, 0x01000000, 0x01000000, 0x00000400,
    0x01010004, 0x00010000, 0x00010400, 0x01000004, 0x00000400, 0x00000004, 0x01000404, 0x00010404,
    0x01010404, 0x00010004, 0x01010000, 0x01000404, 0x01000004, 0x00000404, 0x00010404, 0x01010400,
    0x00000404, 0x01000400, 0x01000400, 0x00000000, 0x00010004, 0x00010400, 0x00000000, 0x01010004]

def sb2 : Vector Word 64 :=
  #v[0x80108020, 0x80008000, 0x00008000, 0x00108020, 0x00100000, 0x00000020, 0x80100020, 0x80008020,
    0x80000020, 0x80108020, 0x80108000, 0x80000000, 0x80008000, 0x00100000, 0x00000020, 0x80100020,
    0x00108000, 0x00100020, 0x80008020, 0x00000000, 0x80000000, 0x00008000, 0x00108020, 0x80100000,
    0x00100020, 0x80000020, 0x00000000, 0x00108000, 0x00008020, 0x80108000, 0x80100000, 0x00008020,
    0x00000000, 0x00108020, 0x80100020, 0x00100000, 0x80008020, 0x80100000, 0x80108000, 0x00008000,
    0x80100000, 0x80008000, 0x00000020, 0x80108020, 0x00108020, 0x00000020, 0x00008000, 0x80000000,
    0x00008020, 0x80108000, 0x00100000, 0x80000020, 0x00100020, 0x80008020, 0x80000020, 0x00100020,
    0x00108000, 0x00000000, 0x80008000, 0x00008020, 0x80000000, 0x80100020, 0x80108020, 0x00108000]

def sb3 : Vector Word 64 :=
  #v[0x00000208, 0x08020200, 0x00000000, 0x08020008, 0x08000200, 0x00000000, 0x00020208, 0x08000200,
    0x00020008, 0x08000008, 0x08000008, 0x00020000, 0x08020208, 0x00020008, 0x08020000, 0x00000208,
    0x08000000, 0x00000008, 0x08020200, 0x00000200, 0x00020200, 0x08020000, 0x08020008, 0x00020208,
    0x08000208, 0x00020200, 0x00020000, 0x08000208, 0x00000008, 0x08020208, 0x00000200, 0x08000000,
    0x08020200, 0x08000000, 0x00020008, 0x00000208, 0x00020000, 0x08020200, 0x08000200, 0x00000000,
    0x00000200, 0x00020008, 0x08020208, 0x08000200, 0x08000008, 0x00000200, 0x00000000, 0x08020008,
    0x08000208, 0x00020000, 0x08000000, 0x08020208, 0x00000008, 0x00020208, 0x00020200, 0x08000008,
    0x08020000, 0x08000208, 0x00000208, 0x08020000, 0x00020208, 0x00000008, 0x08020008, 0x00020200]

def sb4 : Vector Word 64 :=
  #v[0x00802001, 0x00002081, 0x00002081, 0x00000080, 0x00802080, 0x00800081, 0x00800001, 0x00002001,
    0x00000000, 0x00802000, 0x00802000, 0x00802081, 0x00000081, 0x00000000, 0x00800080, 0x00800001,
    0x00000001, 0x00002000, 0x00800000, 0x00802001, 0x00000080, 0x00800000, 0x00002001, 0x00002080,
    0x00800081, 0x00000001, 0x00002080, 0x00800080, 0x00002000, 0x00802080, 0x00802081, 0x00000081,
    0x00800080, 0x00800001, 0x00802000, 0x00802081, 0x00000081, 0x00000000, 0x00000000, 0x00802000,
    0x00002080, 0x00800080, 0x00800081, 0x00000001, 0x00802001, 0x00002081, 0x00002081, 0x00000080,
    0x00802081, 0x00000081, 0x00000001, 0x00002000, 0x00800001, 0x00002001, 0x00802080, 0x00800081,
    0x00002001, 0x00002080, 0x00800000, 0x00802001, 0x00000080, 0x00800000, 0x00002000, 0x00802080]

def sb5 : Vector Word 64 :=
  #v[0x00000100, 0x02080100, 0x02080000, 0x42000100, 0x00080000, 0x00000100, 0x40000000, 0x02080000,
    0x40080100, 0x00080000, 0x02000100, 0x40080100, 0x42000100, 0x42080000, 0x00080100, 0x40000000,
    0x02000000, 0x40080000, 0x40080000, 0x00000000, 0x40000100, 0x42080100, 0x42080100, 0x02000100,
    0x42080000, 0x40000100, 0x00000000, 0x42000000, 0x02080100, 0x02000000, 0x42000000, 0x00080100,
    0x00080000, 0x42000100, 0x00000100, 0x02000000, 0x40000000, 0x02080000, 0x42000100, 0x40080100,
    0x02000100, 0x40000000, 0x42080000, 0x02080100, 0x40080100, 0x00000100, 0x02000000, 0x42080000,
    0x42080100, 0x00080100, 0x42000000, 0x42080100, 0x02080000, 0x00000000, 0x40080000, 0x42000000,
    0x00080100, 0x02000100, 0x40000100, 0x00080000, 0x00000000, 0x40080000, 0x02080100, 0x40000100]

def sb6 : Vector Word 64 :=
  #v[0x20000010, 0x20400000, 0x00004000, 0x20404010, 0x20400000, 0x00000010, 0x20404010, 0x00400000,
    0x20004000, 0x00404010, 0x00400000, 0x20000010, 0x00400010, 0x20004000, 0x20000000, 0x00004010,
    0x00000000, 0x00400010, 0x20004010, 0x00004000, 0x00404000, 0x20004010, 0x00000010, 0x20400010,
    0x20400010, 0x00000000, 0x00404010, 0x20404000, 0x00004010, 0x00404000, 0x20404000, 0x20000000,
    0x20004000, 0x00000010, 0x20400010, 0x00404000, 0x20404010, 0x00400000, 0x00004010, 0x20000010,
    0x00400000, 0x20004000, 0x20000000, 0x00004010, 0x20000010, 0x20404010, 0x00404000, 0x20400000,
    0x00404010, 0x20404000, 0x00000000, 0x20400010, 0x00000010, 0x00004000, 0x20400000, 0x00404010,
    0x00004000, 0x00400010, 0x20004010, 0x00000000, 0x20404000, 0x20000000, 0x00400010, 0x20004010]

def sb7 : Vector Word 64 :=
  #v[0x00200000, 0x04200002, 0x04000802, 0x00000000, 0x00000800, 0x04000802, 0x00200802, 0x04200800,
    0x04200802, 0x00200000, 0x00000000, 0x04000002, 0x00000002, 0x04000000, 0x04200002, 0x00000802,
    0x04000800, 0x00200802, 0x00200002, 0x04000800, 0x04000002, 0x04200000, 0x04200800, 0x00200002,
    0x04200000, 0x00000800, 0x00000802, 0x04200802, 0x00200800, 0x00000002, 0x04000000, 0x00200800,
    0x04000000, 0x00200800, 0x00200000, 0x04000802, 0x04000802, 0x04200002, 0x04200002, 0x00000002,
    0x00200002, 0x04000000, 0x04000800, 0x00200000, 0x04200800, 0x00000802, 0x00200802, 0x04200800,
    0x00000802, 0x04000002, 0x04200802, 0x04200000, 0x00200800, 0x00000000, 0x00000002, 0x04200802,
    0x00000000, 0x00200802, 0x04200000, 0x00000800, 0x04000002, 0x04000800, 0x00000800, 0x00200002]

def sb8 : Vector Word 64 :=
  #v[0x10001040, 0x00001000, 0x00040000, 0x10041040, 0x10000000, 0x10001040, 0x00000040, 0x10000000,
    0x00040040, 0x10040000, 0x10041040, 0x00041000, 0x10041000, 0x00041040, 0x00001000, 0x00000040,
    0x10040000, 0x10000040, 0x10001000, 0x00001040, 0x00041000, 0x00040040, 0x10040040, 0x10041000,
    0x00001040, 0x00000000, 0x00000000, 0x10040040, 0x10000040, 0x10001000, 0x00041040, 0x00040000,
    0x00041040, 0x00040000, 0x10041000, 0x00001000, 0x00000040, 0x10040040, 0x00001000, 0x00041040,
    0x10001000, 0x00000040, 0x10000040, 0x10040000, 0x10040040, 0x10000000, 0x00040000, 0x10001040,
    0x00000000, 0x10041040, 0x00040040, 0x10000040, 0x10040000, 0x10001000, 0x10001040, 0x00000000,
    0x10041040, 0x00041000, 0x00041000, 0x00001040, 0x00001040, 0x00040040, 0x10000000, 0x10041000]

/-! The halves of the first permuted choice -/

def lhs : Vector Word 16 :=
  #v[0x00000000, 0x00000001, 0x00000100, 0x00000101, 0x00010000, 0x00010001, 0x00010100, 0x00010101,
    0x01000000, 0x01000001, 0x01000100, 0x01000101, 0x01010000, 0x01010001, 0x01010100, 0x01010101]

def rhs : Vector Word 16 :=
  #v[0x00000000, 0x01000000, 0x00010000, 0x01010000, 0x00000100, 0x01000100, 0x00010100, 0x01010100,
    0x00000001, 0x01000001, 0x00010001, 0x01010001, 0x00000101, 0x01000101, 0x00010101, 0x01010101]

theorem and_63_lt (w : Word) : (w &&& 0x3F).toNat < 64 := by
  rw [BitVec.toNat_and]
  exact Nat.lt_succ_of_le Nat.and_le_right

theorem and_15_lt (w : Word) : (w &&& 0xF).toNat < 16 := by
  rw [BitVec.toNat_and]
  exact Nat.lt_succ_of_le Nat.and_le_right

/-- The entry of an S-box for the six low bits of a word. -/
def box (t : Vector Word 64) (w : Word) : Word := t.get ⟨(w &&& 0x3F).toNat, and_63_lt w⟩

/-- The entry of a table of 16 for the four low bits of a word. -/
def nibble (t : Vector Word 16) (w : Word) : Word := t.get ⟨(w &&& 0xF).toNat, and_15_lt w⟩

/-! ### Words and bytes -/

/-- A byte of a buffer as a word. -/
def byteWord (b : Bytes) (i : ℕ) : Word := (b.getD i 0).toBitVec.setWidth 32

def getUint32 (b : Bytes) (i : ℕ) : Word :=
  (byteWord b i <<< 24) ||| (byteWord b (i + 1) <<< 16) ||| (byteWord b (i + 2) <<< 8) |||
    byteWord b (i + 3)

def putUint32 (n : Word) : Bytes :=
  [⟨(n >>> 24).setWidth 8⟩, ⟨(n >>> 16).setWidth 8⟩, ⟨(n >>> 8).setWidth 8⟩, ⟨n.setWidth 8⟩]

/-! ### The key schedule -/

/-- The two words of a subkey. -/
abbrev Subkey := Word × Word

/-- A rotation of 28 bits to the left. -/
def rotate28 (n : ℕ) (x : Word) : Word := ((x <<< n) ||| (x >>> (28 - n))) &&& 0x0FFFFFFF

/-- The first permuted choice. -/
def permutedChoice1 (x y : Word) : Word × Word :=
  let (y, x) := exchange 4 0x0F0F0F0F y x
  let (y, x) := exchange 0 0x10101010 y x
  let x := (nibble lhs x <<< 3) ||| (nibble lhs (x >>> 8) <<< 2) |||
    (nibble lhs (x >>> 16) <<< 1) ||| nibble lhs (x >>> 24) |||
    (nibble lhs (x >>> 5) <<< 7) ||| (nibble lhs (x >>> 13) <<< 6) |||
    (nibble lhs (x >>> 21) <<< 5) ||| (nibble lhs (x >>> 29) <<< 4)
  let y := (nibble rhs (y >>> 1) <<< 3) ||| (nibble rhs (y >>> 9) <<< 2) |||
    (nibble rhs (y >>> 17) <<< 1) ||| nibble rhs (y >>> 25) |||
    (nibble rhs (y >>> 4) <<< 7) ||| (nibble rhs (y >>> 12) <<< 6) |||
    (nibble rhs (y >>> 20) <<< 5) ||| (nibble rhs (y >>> 28) <<< 4)
  (x &&& 0x0FFFFFFF, y &&& 0x0FFFFFFF)

/-- The second permuted choice. -/
def permutedChoice2 (x y : Word) : Subkey :=
  (((x <<< 4) &&& 0x24000000) ||| ((x <<< 28) &&& 0x10000000) ||| ((x <<< 14) &&& 0x08000000) |||
    ((x <<< 18) &&& 0x02080000) ||| ((x <<< 6) &&& 0x01000000) ||| ((x <<< 9) &&& 0x00200000) |||
    ((x >>> 1) &&& 0x00100000) ||| ((x <<< 10) &&& 0x00040000) ||| ((x <<< 2) &&& 0x00020000) |||
    ((x >>> 10) &&& 0x00010000) ||| ((y >>> 13) &&& 0x00002000) |||
    ((y >>> 4) &&& 0x00001000) ||| ((y <<< 6) &&& 0x00000800) ||| ((y >>> 1) &&& 0x00000400) |||
    ((y >>> 14) &&& 0x00000200) ||| (y &&& 0x00000100) ||| ((y >>> 5) &&& 0x00000020) |||
    ((y >>> 10) &&& 0x00000010) ||| ((y >>> 3) &&& 0x00000008) |||
    ((y >>> 18) &&& 0x00000004) ||| ((y >>> 26) &&& 0x00000002) |||
    ((y >>> 24) &&& 0x00000001),
    ((x <<< 15) &&& 0x20000000) ||| ((x <<< 17) &&& 0x10000000) ||| ((x <<< 10) &&& 0x08000000) |||
    ((x <<< 22) &&& 0x04000000) ||| ((x >>> 2) &&& 0x02000000) ||| ((x <<< 1) &&& 0x01000000) |||
    ((x <<< 16) &&& 0x00200000) ||| ((x <<< 11) &&& 0x00100000) |||
    ((x <<< 3) &&& 0x00080000) ||| ((x >>> 6) &&& 0x00040000) ||| ((x <<< 15) &&& 0x00020000) |||
    ((x >>> 4) &&& 0x00010000) ||| ((y >>> 2) &&& 0x00002000) ||| ((y <<< 8) &&& 0x00001000) |||
    ((y >>> 14) &&& 0x00000808) ||| ((y >>> 9) &&& 0x00000400) ||| (y &&& 0x00000200) |||
    ((y <<< 7) &&& 0x00000100) ||| ((y >>> 7) &&& 0x00000020) ||| ((y >>> 3) &&& 0x00000011) |||
    ((y <<< 2) &&& 0x00000004) ||| ((y >>> 21) &&& 0x00000002))

/-- The loop over the subkeys, `n` of them from the `i`-th on. -/
def subkeys : ℕ → ℕ → Word → Word → List Subkey
  | 0, _, _, _ => []
  | n + 1, i, x, y =>
    let r := if i < 2 ∨ i = 8 ∨ i = 15 then 1 else 2
    let x := rotate28 r x
    let y := rotate28 r y
    permutedChoice2 x y :: subkeys n (i + 1) x y

def desMainKs (key : Bytes) : List Subkey :=
  let (x, y) := permutedChoice1 (getUint32 key 0) (getUint32 key 4)
  subkeys 16 0 x y

@[simp] theorem length_subkeys (n i : ℕ) (x y : Word) : (subkeys n i x y).length = n := by
  induction n generalizing i x y with
  | zero => rfl
  | succ n ih => rw [subkeys, List.length_cons, ih]

@[simp] theorem length_desMainKs (key : Bytes) : (desMainKs key).length = 16 :=
  length_subkeys ..

/-! ### The cipher -/

def rotateLeft1 (x : Word) : Word := ((x <<< 1) ||| (x >>> 31)) &&& 0xFFFFFFFF

def rotateRight1 (x : Word) : Word := ((x <<< 31) ||| (x >>> 1)) &&& 0xFFFFFFFF

/-- `T = ((X >> n) ^ Y) & m; Y ^= T; X ^= (T << n)` on the pair of `X` and `Y`. -/
def exchangeY (n : ℕ) (m : Word) (p : Word × Word) : Word × Word := exchange n m p.1 p.2

/-- `T = ((Y >> n) ^ X) & m; X ^= T; Y ^= (T << n)` on the pair of `X` and `Y`. -/
def exchangeX (n : ℕ) (m : Word) (p : Word × Word) : Word × Word := (exchange n m p.2 p.1).swap

def desIP (p : Word × Word) : Word × Word :=
  let p := exchangeY 4 0x0F0F0F0F p
  let p := exchangeY 16 0x0000FFFF p
  let p := exchangeX 2 0x33333333 p
  let p := exchangeX 8 0x00FF00FF p
  let p := (p.1, rotateLeft1 p.2)
  let p := exchangeY 0 0xAAAAAAAA p
  (rotateLeft1 p.1, p.2)

def desFP (p : Word × Word) : Word × Word :=
  let p := (rotateRight1 p.1, p.2)
  let p := exchangeY 0 0xAAAAAAAA p
  let p := (p.1, rotateRight1 p.2)
  let p := exchangeX 8 0x00FF00FF p
  let p := exchangeX 2 0x33333333 p
  let p := exchangeY 16 0x0000FFFF p
  exchangeY 4 0x0F0F0F0F p

/-- `DES_ROUND`: the new value of `y`. -/
def desRound (k : Subkey) (x y : Word) : Word :=
  let t := k.1 ^^^ x
  let y := y ^^^ (box sb8 t ^^^ box sb6 (t >>> 8) ^^^ box sb4 (t >>> 16) ^^^ box sb2 (t >>> 24))
  let t := k.2 ^^^ ((x <<< 28) ||| (x >>> 4))
  y ^^^ (box sb7 t ^^^ box sb5 (t >>> 8) ^^^ box sb3 (t >>> 16) ^^^ box sb1 (t >>> 24))

/-- The rounds, two at a time: `DES_ROUND(Y, X); DES_ROUND(X, Y)`. -/
def rounds : List Subkey → Word × Word → Word × Word
  | k₁ :: k₂ :: ks, (x, y) =>
    let x := desRound k₁ y x
    let y := desRound k₂ x y
    rounds ks (x, y)
  | _, p => p

def desCrypt (sk : List Subkey) (input : Bytes) : Bytes :=
  let p := desIP (getUint32 input 0, getUint32 input 4)
  let (x, y) := rounds sk p
  let (y, x) := desFP (y, x)
  putUint32 y ++ putUint32 x

/-- The classical test vector of the cipher. -/
example : desCrypt (desMainKs [0x13, 0x34, 0x57, 0x79, 0x9B, 0xBC, 0xDF, 0xF1])
    [0x01, 0x23, 0x45, 0x67, 0x89, 0xAB, 0xCD, 0xEF] =
    [0x85, 0xE8, 0x13, 0x54, 0x0F, 0x0A, 0xB4, 0x05] := by
  decide +kernel

/-! ### Bytes and words are each other's images -/

theorem getUint32_put (n : Word) (b : Bytes) : getUint32 (putUint32 n ++ b) 0 = n := by
  refine BitVec.eq_of_getLsbD_eq fun i hi => ?_
  simp only [getUint32, putUint32, byteWord, List.cons_append, List.getD_cons_zero,
    List.getD_cons_succ]
  grind [BitVec.getLsbD_setWidth]

theorem getUint32_append (a b : Bytes) (i : ℕ) :
    getUint32 (a ++ b) (a.length + i) = getUint32 b i := by
  have hbyte : ∀ j, byteWord (a ++ b) (a.length + j) = byteWord b j := by
    simp [byteWord, List.getD_eq_getElem?_getD, List.getElem?_append_right]
  simp only [getUint32, add_assoc, hbyte]

theorem putUint32_get (a b c d : UInt8) (rest : Bytes) :
    putUint32 (getUint32 (a :: b :: c :: d :: rest) 0) = [a, b, c, d] := by
  have hbyte : ∀ {u : UInt8} {v : BitVec 8}, (∀ i < 8, v.getLsbD i = u.toBitVec.getLsbD i) →
      (⟨v⟩ : UInt8) = u := fun h => UInt8.toBitVec_inj.mp (BitVec.eq_of_getLsbD_eq h)
  simp only [putUint32, getUint32, byteWord, List.getD_cons_zero, List.getD_cons_succ,
    List.cons.injEq, and_true]
  refine ⟨hbyte fun i hi => ?_, hbyte fun i hi => ?_, hbyte fun i hi => ?_,
    hbyte fun i hi => ?_⟩ <;>
    grind [BitVec.getLsbD_setWidth]

/-! ### The permutations undo each other -/

theorem and_ones (x : Word) : x &&& 0xFFFFFFFF = x := BitVec.and_allOnes

theorem rotateRight1_rotateLeft1 (x : Word) : rotateRight1 (rotateLeft1 x) = x := by
  simp only [rotateRight1, rotateLeft1, and_ones]
  exact BitVec.eq_of_getLsbD_eq fun i hi => by grind

theorem rotateLeft1_rotateRight1 (x : Word) : rotateLeft1 (rotateRight1 x) = x := by
  simp only [rotateRight1, rotateLeft1, and_ones]
  exact BitVec.eq_of_getLsbD_eq fun i hi => by grind

variable {n : ℕ}

theorem exchangeY_exchangeY {m : Word} (hm : m <<< n >>> n = m) (p : Word × Word) :
    exchangeY n m (exchangeY n m p) = p := exchange_exchange hm p.1 p.2

theorem exchangeX_exchangeX {m : Word} (hm : m <<< n >>> n = m) (p : Word × Word) :
    exchangeX n m (exchangeX n m p) = p := by
  simp only [exchangeX, Prod.snd_swap, Prod.fst_swap, exchange_exchange hm]
  rfl

theorem desFP_desIP (p : Word × Word) : desFP (desIP p) = p := by
  simp only [desFP, desIP, rotateRight1_rotateLeft1, Prod.mk.eta]
  rw [exchangeY_exchangeY (by decide)]
  simp only [rotateRight1_rotateLeft1, Prod.mk.eta]
  rw [exchangeX_exchangeX (by decide), exchangeX_exchangeX (by decide),
    exchangeY_exchangeY (by decide), exchangeY_exchangeY (by decide)]

theorem desIP_desFP (p : Word × Word) : desIP (desFP p) = p := by
  simp only [desFP, desIP]
  rw [exchangeY_exchangeY (by decide), exchangeY_exchangeY (by decide),
    exchangeX_exchangeX (by decide), exchangeX_exchangeX (by decide)]
  simp only [rotateLeft1_rotateRight1, Prod.mk.eta]
  rw [exchangeY_exchangeY (by decide)]
  simp only [rotateLeft1_rotateRight1, Prod.mk.eta]

/-! ### The rounds are a Feistel network -/

/-- The round function. -/
def desF (k : Subkey) (x : Word) : Word := desRound k x 0#32

theorem desRound_eq (k : Subkey) (x y : Word) : desRound k x y = y ^^^ desF k x := by
  simp only [desF, desRound, BitVec.zero_xor, BitVec.xor_assoc]

theorem rounds_eq_network {ks : List Subkey} (hks : ks.length = 2 * n) (p : Word × Word) :
    rounds ks p = network (· ^^^ ·) desF ks p := by
  induction n generalizing ks p with
  | zero =>
    rw [List.length_eq_zero_iff.mp hks]
    rfl
  | succ n ih =>
    match ks, hks with
    | k₁ :: k₂ :: ks, hks =>
      have hlen : ks.length = 2 * n := by
        simp only [List.length_cons] at hks
        omega
      simp only [rounds, desRound_eq]
      rw [ih hlen]
      rfl

/-- The rounds with the keys in reverse order undo the rounds, up to an exchange of the halves. -/
theorem rounds_reverse {ks : List Subkey} (hks : ks.length = 2 * n) (p : Word × Word) :
    rounds ks.reverse (rounds ks p).swap = p.swap := by
  rw [rounds_eq_network hks, rounds_eq_network (by rwa [List.length_reverse])]
  exact network_reverse xor_xor_cancel ks p

theorem length_desCrypt (sk : List Subkey) (b : Bytes) : (desCrypt sk b).length = 8 := rfl

theorem get_desCrypt (sk : List Subkey) (b : Bytes) :
    (getUint32 (desCrypt sk b) 0, getUint32 (desCrypt sk b) 4) =
      desFP (rounds sk (desIP (getUint32 b 0, getUint32 b 4))).swap := by
  have hlow : ∀ x y, getUint32 (putUint32 x ++ putUint32 y) 4 = y := by
    intro x y
    have happend := getUint32_append (putUint32 x) (putUint32 y ++ []) 0
    rw [getUint32_put, List.append_nil] at happend
    exact happend
  simp only [desCrypt, getUint32_put, hlow]
  rfl

/-- **The cipher undoes itself** with the subkeys in reverse order. -/
theorem desCrypt_reverse {sk : List Subkey} (hsk : sk.length = 2 * n) {b : Bytes}
    (hb : b.length = 8) : desCrypt sk.reverse (desCrypt sk b) = b := by
  rw [desCrypt, get_desCrypt, desIP_desFP, rounds_reverse hsk]
  match b, hb with
  | [b₀, b₁, b₂, b₃, b₄, b₅, b₆, b₇], _ =>
    have hhigh := getUint32_append [b₀, b₁, b₂, b₃] [b₄, b₅, b₆, b₇] 0
    simp only [Prod.swap, Prod.mk.eta, desFP_desIP]
    rw [putUint32_get]
    exact congrArg ([b₀, b₁, b₂, b₃] ++ ·) ((congrArg putUint32 hhigh).trans (putUint32_get ..))

end Skynet.Des
