import Mathlib

/-! # Strings and numbers of Lua

Strings are lists of bytes.  `find` is a plain search, `sub` is `string.sub` with its negative
indices, and `tonumber` reads a number out of a text as `luaO_str2num` does: an integer of 64 bits
if the text is one, and what `str2d` makes of it otherwise.  `str2d` is the `strtod` of the C
library and stays a parameter.  `decimal` and `hexadecimal` are `%d` and `%x`; what they print is
read back (`tonumber_signed`, `tonumberBase_hexadecimal`). -/

namespace LuaText

open List

abbrev Bytes := List UInt8

/-- The bytes of an ASCII text. -/
def ofString (s : String) : Bytes := s.toList.map fun c => c.toNat.toUInt8

/-! ### Characters -/

/-- `%s` -/
def isSpace (b : UInt8) : Bool := b = 32 || (9 ≤ b && b ≤ 13)

/-- `%d` -/
def isDigit (b : UInt8) : Bool := 48 ≤ b && b ≤ 57

theorem isSpace_of_isDigit {b : UInt8} (h : isDigit b = true) : isSpace b = false := by
  simp only [isDigit, isSpace, Bool.and_eq_true, decide_eq_true_eq, UInt8.le_iff_toNat_le,
    Bool.or_eq_false_iff, decide_eq_false_iff_not, Bool.and_eq_false_iff, ← UInt8.toNat_inj] at h ⊢
  simp only [UInt8.reduceToNat] at h ⊢
  omega

/-- `%a` -/
def isAlpha (b : UInt8) : Bool := (65 ≤ b && b ≤ 90) || (97 ≤ b && b ≤ 122)

def isAlnum (b : UInt8) : Bool := isDigit b || isAlpha b

def lowerByte (b : UInt8) : UInt8 := if 65 ≤ b && b ≤ 90 then b + 32 else b

def lower (s : Bytes) : Bytes := s.map lowerByte

def upper (s : Bytes) : Bytes := s.map fun b => if 97 ≤ b && b ≤ 122 then b - 32 else b

/-! ### Search -/

/-- Where `pat` occurs first. -/
def find (pat : Bytes) : Bytes → Option ℕ
  | [] => if pat = [] then some 0 else none
  | b :: s => if pat.isPrefixOf (b :: s) then some 0 else (find pat s).map (· + 1)

/-- Where `pat` occurs first, at `init` or after it. -/
def findFrom (pat s : Bytes) (init : ℕ) : Option ℕ := (find pat (s.drop init)).map (· + init)

section Search

variable {pat s t : Bytes} {k : ℕ}

theorem find_le (h : find pat s = some k) : k + pat.length ≤ s.length := by
  induction s generalizing k with unfold find at h
  | nil =>
    split_ifs at h with hp
    simp [hp, ← Option.some.inj h]
  | cons b s ih =>
    split_ifs at h with hp
    · have hpre := isPrefixOf_iff_prefix.mp hp
      have := hpre.length_le
      rw [← Option.some.inj h]
      omega
    · obtain ⟨j, hj, rfl⟩ := Option.map_eq_some_iff.mp h
      have := ih hj
      rw [length_cons]
      omega

theorem find_append (h : find pat s = some k) (t : Bytes) : find pat (s ++ t) = some k := by
  induction s generalizing k with
  | nil =>
    unfold find at h
    split_ifs at h with hp
    subst hp
    cases h
    cases t <;> simp [find]
  | cons b s ih =>
    unfold find at h
    rw [cons_append, find]
    split_ifs at h with hp
    · rw [if_pos, h]
      have hpre := isPrefixOf_iff_prefix.mp hp
      exact isPrefixOf_iff_prefix.mpr (hpre.trans (prefix_append (b :: s) t))
    · obtain ⟨j, hj, rfl⟩ := Option.map_eq_some_iff.mp h
      have hle := find_le hj
      rw [if_neg, ih hj]
      · rfl
      · -- the occurrence would lie in `b :: s`
        intro hp'
        have hpre := isPrefixOf_iff_prefix.mp hp'
        refine hp ?_
        refine isPrefixOf_iff_prefix.mpr
          (prefix_of_prefix_length_le hpre (prefix_append (b :: s) t) ?_)
        rw [length_cons]
        omega

theorem find_eq_none_of_append (h : find pat (s ++ t) = some k) (hlt : s.length < k + pat.length) :
    find pat s = none := by
  by_contra hne
  obtain ⟨j, hj⟩ := Option.ne_none_iff_exists'.mp hne
  obtain rfl : j = k := Option.some.inj ((find_append hj t).symm.trans h)
  have := find_le hj
  omega

theorem find_drop (h : find pat s = some k) {i : ℕ} (hi : i ≤ k) :
    find pat (s.drop i) = some (k - i) := by
  induction s generalizing k i with
  | nil =>
    have := find_le h
    obtain rfl : k = 0 := by simpa using this.trans' (Nat.le_add_right _ _)
    simpa using h
  | cons b s ih =>
    match i with
    | 0 => exact h
    | i + 1 =>
      unfold find at h
      split_ifs at h with hp
      · have := Option.some.inj h
        omega
      · obtain ⟨j, hj, rfl⟩ := Option.map_eq_some_iff.mp h
        rw [drop_succ_cons, ih hj (by omega)]
        congr 1
        omega

theorem find_drop_none (h : find pat s = none) (i : ℕ) : pat ≠ [] → find pat (s.drop i) = none := by
  intro hne
  induction s generalizing i with
  | nil => simp [find, hne]
  | cons b s ih =>
    match i with
    | 0 => exact h
    | i + 1 =>
      unfold find at h
      split_ifs at h
      rw [drop_succ_cons]
      exact ih (Option.map_eq_none_iff.mp h) i

theorem findFrom_of_some (h : find pat s = some k) {i : ℕ} (hi : i ≤ k) :
    findFrom pat s i = some k := by
  rw [findFrom, find_drop h hi, Option.map_some]
  congr 1
  omega

theorem findFrom_of_none (h : find pat s = none) (hne : pat ≠ []) (i : ℕ) :
    findFrom pat s i = none := by
  rw [findFrom, find_drop_none h i hne]
  rfl

theorem find_cons_ne {b c : UInt8} (hbc : b ≠ c) (pat s : Bytes) :
    find (c :: pat) (b :: s) = (find (c :: pat) s).map (· + 1) := by
  rw [find, if_neg]
  simp [Ne.symm hbc]

theorem find_append_of_notMem {l : Bytes} {c : UInt8} (hl : c ∉ l) (pat s : Bytes) :
    find (c :: pat) (l ++ s) = (find (c :: pat) s).map (· + l.length) := by
  induction l with
  | nil => simp
  | cons b l ih =>
    rw [mem_cons, not_or] at hl
    rw [cons_append, find_cons_ne (Ne.symm hl.1), ih hl.2, Option.map_map]
    refine congrArg (fun f => Option.map f _) (funext fun k => ?_)
    simp only [Function.comp_apply, length_cons]
    omega

theorem find_self_append (pat s : Bytes) (hne : pat ≠ []) : find pat (pat ++ s) = some 0 := by
  cases pat with
  | nil => exact absurd rfl hne
  | cons b pat =>
    rw [cons_append, find, if_pos]
    exact isPrefixOf_iff_prefix.mpr (prefix_append (b :: pat) s)

end Search

/-! ### Substrings -/

def sub (s : Bytes) (i j : ℤ) : Bytes :=
  let len : ℤ := s.length
  let first := if 0 < i then i else if i = 0 ∨ i < -len then 1 else len + i + 1
  let last := if len < j then len else if 0 ≤ j then j else if j < -len then 0 else len + j + 1
  (s.take last.toNat).drop (first - 1).toNat

theorem sub_length_le (s : Bytes) (i j : ℤ) : (sub s i j).length ≤ s.length := by
  simp only [sub, length_drop, length_take]
  omega

/-- `s:sub(i + 1, j)` -/
theorem sub_nat (s : Bytes) {i j : ℕ} : sub s (i + 1) j = (s.take j).drop i := by
  have hpos : (0 : ℤ) < i + 1 := by omega
  have hfirst : ((i : ℤ) + 1 - 1).toNat = i := by omega
  by_cases hlt : (s.length : ℤ) < j
  · simp only [sub, if_pos hpos, if_pos hlt, hfirst]
    rw [take_of_length_le (i := j) (by omega)]
    simp
  · simp [sub, hlt]

/-- `s:sub(1, n)` -/
theorem sub_one (s : Bytes) {n : ℕ} : sub s 1 n = s.take n := sub_nat s

/-- `s:sub(n + 1)` -/
theorem sub_succ (s : Bytes) {n : ℕ} : sub s (n + 1) (-1) = s.drop n := by
  have hpos : (0 : ℤ) < n + 1 := by omega
  simp only [sub, hpos, if_true]
  have hlast : (if (s.length : ℤ) < -1 then (s.length : ℤ) else if (0 : ℤ) ≤ -1 then -1
      else if (-1 : ℤ) < -s.length then 0 else s.length + -1 + 1).toNat = s.length := by
    split_ifs <;> omega
  rw [hlast, take_length]
  congr 1
  omega

/-! ### Numbers -/

/-- A number; `float` are the finite ones among the floats. -/
inductive Number where
  | int (n : ℤ)
  | float (q : ℚ)
  | inf (negative : Bool)
deriving DecidableEq, Repr

namespace Number

/-- `x <= q` -/
def le : Number → ℚ → Bool
  | int n, q => n ≤ q
  | float x, q => x ≤ q
  | inf negative, _ => negative

/-- `x < q` -/
def lt : Number → ℚ → Bool
  | int n, q => n < q
  | float x, q => x < q
  | inf negative, _ => negative

/-- The integer that is passed where an integer is wanted; `none` is an error. -/
def toInteger : Number → Option ℤ
  | int n => some n
  | float x => if x.den = 1 ∧ -2 ^ 63 ≤ x.num ∧ x.num < 2 ^ 63 then some x.num else none
  | inf _ => none

end Number

/-- The value of a `lua_Integer`. -/
def wrap (n : ℤ) : ℤ := n.bmod (2 ^ 64)

theorem wrap_of_lt {n : ℕ} (h : n < 2 ^ 63) : wrap n = n := by
  rw [wrap, Int.bmod_eq_of_le] <;> omega

/-- The sign of a numeral and the rest. -/
def sign : Bytes → Bool × Bytes
  | [] => (false, [])
  | b :: s => if b = 45 then (true, s) else if b = 43 then (false, s) else (false, b :: s)

/-- The value of a digit or letter. -/
def digitValue (b : UInt8) : ℕ :=
  if isDigit b then b.toNat - 48 else (lowerByte b).toNat - 97 + 10

/-- The number that digits of the base `b` spell out. -/
def value (b : ℕ) (ds : List ℕ) : ℕ := ds.foldl (fun n d => n * b + d) 0

/-- `tonumber(s, base)` -/
def tonumberBase (base : ℕ) (s : Bytes) : Option ℤ :=
  let (negative, s) := sign (s.dropWhile isSpace)
  let digits := (s.takeWhile isAlnum).map digitValue
  if digits = [] ∨ (s.dropWhile isAlnum).dropWhile isSpace ≠ [] then none
  else if digits.any fun d => base ≤ d then none
  else some (wrap (if negative then -value base digits else value base digits))

/-- The digits of a hexadecimal numeral after its `0x`. -/
def hexTail : Bytes → Option Bytes
  | a :: b :: s => if a = 48 ∧ (b = 120 ∨ b = 88) then some s else none
  | _ => none

def isXDigit (b : UInt8) : Bool := isAlnum b && digitValue b < 16

/-- `l_str2int` -/
def str2int (s : Bytes) : Option ℤ :=
  let (negative, s) := sign (s.dropWhile isSpace)
  match hexTail s with
  | some s =>
    let digits := (s.takeWhile isXDigit).map digitValue
    if digits = [] ∨ (s.dropWhile isXDigit).dropWhile isSpace ≠ [] then none
    else some (wrap (if negative then -value 16 digits else value 16 digits))
  | none =>
    let digits := (s.takeWhile isDigit).map digitValue
    if digits = [] ∨ (s.dropWhile isDigit).dropWhile isSpace ≠ [] then none
    else if 2 ^ 63 + (if negative then 1 else 0) ≤ value 10 digits then none
    else some (if negative then -value 10 digits else value 10 digits)

/-- `tonumber(s)` -/
def tonumber (str2d : Bytes → Option Number) (s : Bytes) : Option Number :=
  ((str2int s).map .int).or (str2d s)

/-! ### Numerals -/

/-- The digits of `n`, the highest first. -/
def digits (b : ℕ) : ℕ → ℕ → List ℕ
  | 0, n => [n]
  | fuel + 1, n => if n < b then [n] else digits b fuel (n / b) ++ [n % b]

def digitByte (d : ℕ) : UInt8 := if d < 10 then (48 + d).toUInt8 else (87 + d).toUInt8

/-- `%d` -/
def decimal (n : ℕ) : Bytes := (digits 10 n n).map digitByte

/-- `%d` of a number that may be negative -/
def signed (n : ℤ) : Bytes := (if n < 0 then [45] else []) ++ decimal n.natAbs

/-- `%x` -/
def hexadecimal (n : ℕ) : Bytes := (digits 16 n n).map digitByte

section Numerals

variable {b : ℕ}

theorem value_append (b : ℕ) (ds : List ℕ) (d : ℕ) : value b (ds ++ [d]) = value b ds * b + d := by
  simp [value]

theorem value_digits (b fuel n : ℕ) : value b (digits b fuel n) = n := by
  induction fuel generalizing n with
  | zero => simp [digits, value]
  | succ fuel ih =>
    unfold digits
    split_ifs
    · simp [value]
    · rw [value_append, ih]
      exact Nat.div_add_mod' n b

theorem digits_ne_nil (b fuel n : ℕ) : digits b fuel n ≠ [] := by
  cases fuel with
  | zero => simp [digits]
  | succ fuel =>
    unfold digits
    split_ifs <;> simp

theorem digits_lt (hb : 1 < b) {fuel n : ℕ} (hn : n ≤ fuel) : ∀ d ∈ digits b fuel n, d < b := by
  induction fuel generalizing n with
  | zero =>
    simp [digits]
    omega
  | succ fuel ih =>
    unfold digits
    split_ifs with hlt
    · simpa using hlt
    · intro d hd
      rcases mem_append.mp hd with hd | hd
      · refine ih ?_ d hd
        have := Nat.div_lt_self (n := n) (by omega) hb
        omega
      · rw [mem_singleton.mp hd]
        exact Nat.mod_lt _ (by omega)

theorem digits_length (b : ℕ) (hb : 1 < b) {fuel n k : ℕ} (hn : n < b ^ (k + 1)) :
    (digits b fuel n).length ≤ k + 1 := by
  induction k generalizing fuel n with
  | zero =>
    cases fuel with
    | zero => simp [digits]
    | succ fuel => simp [digits, show n < b by simpa using hn]
  | succ k ih =>
    cases fuel with
    | zero => simp [digits]
    | succ fuel =>
      unfold digits
      split_ifs
      · simp
      · have hdiv : n / b < b ^ (k + 1) := by
          rw [Nat.div_lt_iff_lt_mul (by omega), ← pow_succ]
          exact hn
        have := @ih fuel (n / b) hdiv
        simp only [length_append, length_singleton]
        omega

theorem digitByte_spec : ∀ d < 16, digitValue (digitByte d) = d ∧ isAlnum (digitByte d) = true ∧
    (d < 10 → isDigit (digitByte d) = true) ∧ isSpace (digitByte d) = false ∧
    digitByte d ≠ 45 ∧ digitByte d ≠ 43 ∧ digitByte d ≠ 120 ∧ digitByte d ≠ 88 := by
  decide

variable {ds : List ℕ}

theorem map_digitValue (h : ∀ d ∈ ds, d < 16) : (ds.map digitByte).map digitValue = ds := by
  rw [map_map]
  conv_rhs => rw [← map_id ds]
  exact map_congr_left fun d hd => (digitByte_spec d (h d hd)).1

theorem dropWhile_space (h : ∀ d ∈ ds, d < 16) :
    (ds.map digitByte).dropWhile isSpace = ds.map digitByte := by
  cases ds with
  | nil => rfl
  | cons d ds =>
    rw [map_cons, dropWhile_cons_of_neg]
    simp [(digitByte_spec d (h d mem_cons_self)).2.2.2.1]

theorem sign_digits (h : ∀ d ∈ ds, d < 16) :
    sign (ds.map digitByte) = (false, ds.map digitByte) := by
  cases ds with
  | nil => rfl
  | cons d ds =>
    obtain ⟨-, -, -, -, h45, h43, -⟩ := digitByte_spec d (h d mem_cons_self)
    simp [sign, h45, h43]

theorem hexTail_digits (h : ∀ d ∈ ds, d < 16) : hexTail (ds.map digitByte) = none := by
  match ds with
  | [] => rfl
  | [_] => rfl
  | a :: b :: ds =>
    obtain ⟨-, -, -, -, -, -, h120, h88⟩ := digitByte_spec b (h b (by simp))
    simp [hexTail, h120, h88]

theorem takeWhile_digits {p : UInt8 → Bool} (h : ∀ d ∈ ds, p (digitByte d) = true) :
    (ds.map digitByte).takeWhile p = ds.map digitByte ∧ (ds.map digitByte).dropWhile p = [] := by
  rw [takeWhile_eq_self_iff, dropWhile_eq_nil_iff]
  have hall : ∀ b ∈ ds.map digitByte, p b = true := by
    intro b hb
    obtain ⟨d, hd, rfl⟩ := mem_map.mp hb
    exact h d hd
  exact ⟨hall, hall⟩

theorem str2int_digits (h10 : ∀ d ∈ ds, d < 10) (hne : ds ≠ []) (negative : Bool)
    (hlt : value 10 ds < 2 ^ 63 + if negative then 1 else 0) :
    str2int ((if negative then [45] else []) ++ ds.map digitByte) =
      some (if negative then -(value 10 ds : ℤ) else value 10 ds) := by
  have h16 : ∀ d ∈ ds, d < 16 := fun d hd => lt_trans (h10 d hd) (by decide)
  obtain ⟨htake, hdrop⟩ := takeWhile_digits fun d hd =>
    (digitByte_spec d (h16 d hd)).2.2.1 (h10 d hd)
  have hsign : sign (((if negative then [45] else []) ++ ds.map digitByte).dropWhile isSpace) =
      (negative, ds.map digitByte) := by
    cases negative with
    | false => exact (congrArg sign (dropWhile_space h16)).trans (sign_digits h16)
    | true => rfl
  simp only [str2int, hsign, hexTail_digits h16, htake, hdrop, map_digitValue h16]
  simp [hne]
  omega

theorem decimal_digits (n : ℕ) : ∀ d ∈ digits 10 n n, d < 10 := digits_lt (by decide) (Nat.le_refl n)

theorem tonumber_signed (str2d : Bytes → Option Number) {n : ℤ} (h : -2 ^ 63 ≤ n ∧ n < 2 ^ 63) :
    tonumber str2d (signed n) = some (.int n) := by
  have hvalue := value_digits 10 n.natAbs n.natAbs
  have hint := str2int_digits (decimal_digits n.natAbs) (digits_ne_nil 10 _ _) (n < 0)
    (by simp only [hvalue, decide_eq_true_eq]; split_ifs <;> omega)
  simp only [decide_eq_true_eq, hvalue] at hint
  have hn : (if n < 0 then -(n.natAbs : ℤ) else n.natAbs) = n := by omega
  rw [tonumber, signed, decimal, hint, hn]
  rfl

theorem tonumber_decimal (str2d : Bytes → Option Number) {n : ℕ} (h : n < 2 ^ 63) :
    tonumber str2d (decimal n) = some (.int n) := by
  have := tonumber_signed str2d (n := n) (by omega)
  rwa [signed, if_neg (by omega), nil_append] at this

theorem hexadecimal_digits (n : ℕ) : ∀ d ∈ digits 16 n n, d < 16 :=
  digits_lt (by decide) (Nat.le_refl n)

theorem tonumberBase_hexadecimal {n : ℕ} (h : n < 2 ^ 63) :
    tonumberBase 16 (hexadecimal n) = some (n : ℤ) := by
  have h16 := hexadecimal_digits n
  obtain ⟨htake, hdrop⟩ := takeWhile_digits fun d hd =>
    (digitByte_spec d (h16 d hd)).2.1
  have hne := digits_ne_nil 16 n n
  have hvalue := value_digits 16 n n
  have hany : ((digits 16 n n).any fun d => 16 ≤ d) = false := by
    simpa using h16
  simp only [tonumberBase, hexadecimal, dropWhile_space h16, sign_digits h16, htake, hdrop,
    map_digitValue h16, hvalue, hany]
  simpa [hne] using wrap_of_lt h

theorem notMem_digits (h : ∀ d ∈ ds, d < 16) {b : UInt8} (hb : isSpace b = true) :
    b ∉ ds.map digitByte := by
  intro hmem
  obtain ⟨d, hd, rfl⟩ := mem_map.mp hmem
  rw [(digitByte_spec d (h d hd)).2.2.2.1] at hb
  cases hb

end Numerals

end LuaText
