import Skynet.ByteOrder

/-! # Key exchange

The model of `dhexchange` and `dhsecret` of `lua-crypt.cpp`: powers modulo the largest prime below
`2^64`, on words of 64 bits.

`mul_mod_p` adds and doubles; its intermediate results stay below the modulus, or are brought back
below it by a subtraction that wraps around to the right value.  A loop or a recursion is over when
`rounds` is large enough; 65 rounds are enough for all of them (`dh_agreement`). -/

namespace Skynet.DhExchange

open ByteOrder

abbrev Bytes := List UInt8

inductive Error where
  /-- `Invalid uint64 x` -/
  | invalidX
  /-- `Invalid uint64 y` -/
  | invalidY
  /-- `Invalid dh uint64 key` -/
  | invalidKey
  /-- `Can't be 0` -/
  | zero
  | running
deriving DecidableEq

def P : UInt64 := 0xffffffffffffffc5

def G : UInt64 := 5

/-- The loop of `mul_mod_p`. -/
def mulModPLoop : ℕ → UInt64 → UInt64 → UInt64 → Option UInt64
  | 0, _, _, _ => none
  | rounds + 1, m, a, b =>
    if b = 0 then some m
    else
      let m :=
        if b &&& 1 ≠ 0 then
          let t := P - a
          if t ≤ m then m - t else m + a
        else m
      let a := if P - a ≤ a then a * 2 - P else a * 2
      mulModPLoop rounds m a (b >>> 1)

def mulModP (rounds : ℕ) (a b : UInt64) : Option UInt64 := mulModPLoop rounds 0 a b

/-- `pow_mod_p`; the recursion for exponent 0 is endless. -/
def powModPRec (rounds : ℕ) : ℕ → UInt64 → UInt64 → Option UInt64
  | 0, _, _ => none
  | depth + 1, a, b =>
    if b = 1 then some a
    else do
      let t ← powModPRec rounds depth a (b >>> 1)
      let t ← mulModP rounds t t
      if b % 2 ≠ 0 then mulModP rounds t a else some t

def powModP (rounds : ℕ) (a b : UInt64) : Option UInt64 := powModPRec rounds rounds a b

def powmodp (rounds : ℕ) (a b : UInt64) : Option UInt64 :=
  powModP rounds (if P < a then a % P else a) b

/-- The word that `read64` reads. -/
def word (x : Bytes) : UInt64 := UInt64.ofNat (ofLE x)

def push64 (r : UInt64) : Bytes := toLE 8 r.toNat

/-- The result of `powmodp` is pushed. -/
def pushPower : Option UInt64 → Except Error Bytes
  | none => .error .running
  | some r => .ok (push64 r)

/-- `l_dh_secret` -/
def dhsecret (rounds : ℕ) (x y : Bytes) : Except Error Bytes :=
  if x.length ≠ 8 then .error .invalidX
  else if y.length ≠ 8 then .error .invalidY
  else if word x = 0 ∨ word y = 0 then .error .zero
  else pushPower (powmodp rounds (word x) (word y))

/-- `l_dh_exchange` -/
def dhexchange (rounds : ℕ) (x : Bytes) : Except Error Bytes :=
  if x.length ≠ 8 then .error .invalidKey
  else if word x = 0 then .error .zero
  else pushPower (powmodp rounds G (word x))

/-! ### Multiplication -/

/-- The modulus as a number. -/
def p : ℕ := 2 ^ 64 - 59

theorem toNat_P : P.toNat = p := rfl

variable {a b m : UInt64}

theorem toNat_P_sub (ha : a.toNat ≤ p) : (P - a).toNat = p - a.toNat := by
  rw [UInt64.toNat_sub_of_le _ _ (UInt64.le_iff_toNat_le.mpr (toNat_P ▸ ha)), toNat_P]

theorem P_sub_le (ha : a.toNat ≤ p) : P - a ≤ m ↔ p - a.toNat ≤ m.toNat := by
  rw [UInt64.le_iff_toNat_le, toNat_P_sub ha]

/-- The sum modulo `p`, made without a sum that is too large. -/
theorem add_step (hm : m.toNat < p) (ha : a.toNat ≤ p) :
    (if P - a ≤ m then m - (P - a) else m + a).toNat < p ∧
      (if P - a ≤ m then m - (P - a) else m + a).toNat ≡ m.toNat + a.toNat [MOD p] := by
  by_cases hle : P - a ≤ m
  · rw [if_pos hle, UInt64.toNat_sub_of_le _ _ hle, toNat_P_sub ha]
    rw [P_sub_le ha] at hle
    refine ⟨by omega, ?_⟩
    have heq : m.toNat + a.toNat = m.toNat - (p - a.toNat) + p := by omega
    rw [heq]
    exact (Nat.add_modEq_right).symm
  · rw [if_neg hle]
    rw [P_sub_le ha] at hle
    have hp : p < 2 ^ 64 := by decide
    rw [UInt64.toNat_add, Nat.mod_eq_of_lt (by omega)]
    exact ⟨by omega, rfl⟩

/-- The double modulo `p`: a product that wraps around is right after the subtraction. -/
theorem double_step (ha : a.toNat ≤ p) : (if P - a ≤ a then a * 2 - P else a * 2).toNat ≤ p ∧
      (if P - a ≤ a then a * 2 - P else a * 2).toNat ≡ 2 * a.toNat [MOD p] := by
  have htwo : (a * 2).toNat = 2 * a.toNat % 2 ^ 64 := by
    rw [UInt64.toNat_mul, mul_comm]
    rfl
  have hp : p = 2 ^ 64 - 59 := rfl
  by_cases hle : P - a ≤ a
  · rw [if_pos hle]
    rw [P_sub_le ha] at hle
    have hres : (a * 2 - P).toNat = 2 * a.toNat - p := by
      rw [UInt64.toNat_sub, htwo, toNat_P]
      omega
    rw [hres]
    refine ⟨by omega, ?_⟩
    have heq : 2 * a.toNat = 2 * a.toNat - p + p := by omega
    conv_rhs => rw [heq]
    exact (Nat.add_modEq_right).symm
  · rw [if_neg hle]
    rw [P_sub_le ha] at hle
    rw [htwo, Nat.mod_eq_of_lt (by omega)]
    exact ⟨by omega, rfl⟩

theorem toNat_and_one (b : UInt64) : (b &&& 1 ≠ 0) ↔ b.toNat % 2 = 1 := by
  have hand : (b &&& 1).toNat = b.toNat % 2 := by
    rw [UInt64.toNat_and]
    exact Nat.and_one_is_mod _
  rw [ne_eq, ← UInt64.toNat_inj, hand]
  change ¬ b.toNat % 2 = 0 ↔ _
  omega

theorem toNat_shiftRight_one (b : UInt64) : (b >>> 1).toNat = b.toNat / 2 := by
  rw [UInt64.toNat_shiftRight]
  exact Nat.shiftRight_eq_div_pow _ 1

theorem mulModPLoop_spec {rounds : ℕ} {r : UInt64} (hm : m.toNat < p) (ha : a.toNat ≤ p)
    (h : mulModPLoop rounds m a b = some r) :
    r.toNat = (m.toNat + a.toNat * b.toNat) % p := by
  induction rounds generalizing m a b with
  | zero => cases h
  | succ rounds ih =>
    rw [mulModPLoop] at h
    by_cases hzero : b = 0
    · rw [if_pos hzero] at h
      cases h
      rw [hzero, UInt64.toNat_zero, mul_zero, add_zero, Nat.mod_eq_of_lt hm]
    · rw [if_neg hzero] at h
      obtain ⟨hdouble, hdouble'⟩ := double_step ha
      -- The bit of `b` that is added now, and the rest of the product.
      have hsplit : m.toNat + a.toNat * b.toNat =
          m.toNat + b.toNat % 2 * a.toNat + 2 * a.toNat * (b.toNat / 2) := by
        conv_lhs => rw [← Nat.mod_add_div b.toNat 2]
        ring
      by_cases hbit : b &&& 1 ≠ 0
      · obtain ⟨hadd, hadd'⟩ := add_step hm ha
        simp only [if_pos hbit] at h
        rw [ih hadd hdouble h, toNat_shiftRight_one, hsplit, (toNat_and_one b).mp hbit, one_mul]
        exact hadd'.add (hdouble'.mul_right _)
      · simp only [if_neg hbit] at h
        have heven : b.toNat % 2 = 0 := by
          have := (toNat_and_one b).not.mp hbit
          omega
        rw [ih hm hdouble h, toNat_shiftRight_one, hsplit, heven, zero_mul, add_zero]
        exact (hdouble'.mul_right _).add_left _

theorem mulModPLoop_returns {n rounds : ℕ} (m a : UInt64) (hb : b.toNat < 2 ^ n)
    (hn : n < rounds) : ∃ r, mulModPLoop rounds m a b = some r := by
  induction n generalizing rounds m a b with obtain ⟨rounds, rfl⟩ := Nat.exists_eq_add_of_lt hn
  | zero =>
    have hzero : b.toNat = 0 := by omega
    exact ⟨m, by rw [mulModPLoop, if_pos (UInt64.toNat_inj.mp hzero)]⟩
  | succ n ih =>
    rw [mulModPLoop]
    by_cases hzero : b = 0
    · exact ⟨m, if_pos hzero⟩
    · rw [if_neg hzero]
      refine ih _ _ ?_ (by omega)
      rw [toNat_shiftRight_one]
      omega

theorem mulModP_returns {rounds : ℕ} (a b : UInt64) (hn : 64 < rounds) :
    ∃ r, mulModP rounds a b = some r := mulModPLoop_returns 0 a b.toNat_lt hn

theorem mulModP_spec {rounds : ℕ} {r : UInt64} (ha : a.toNat ≤ p)
    (h : mulModP rounds a b = some r) : r.toNat = a.toNat * b.toNat % p := by
  rw [mulModPLoop_spec (by decide) ha h, UInt64.toNat_zero, zero_add]

/-! ### Powers -/

theorem powModPRec_returns {rounds depth n : ℕ} (a : UInt64) (hb : 1 ≤ b.toNat)
    (hlt : b.toNat < 2 ^ n) (hdepth : n ≤ depth) (hn : 64 < rounds) :
    ∃ r, powModPRec rounds depth a b = some r := by
  induction n generalizing depth b with
  | zero => omega
  | succ n ih =>
    obtain ⟨depth, rfl⟩ := Nat.exists_eq_add_of_le hdepth
    have hsucc : n + 1 + depth = n + depth + 1 := by omega
    rw [hsucc, powModPRec]
    by_cases hone : b = 1
    · exact ⟨a, if_pos hone⟩
    · rw [if_neg hone]
      have hhalf := toNat_shiftRight_one b
      have hne : b.toNat ≠ 1 := fun h => hone (UInt64.toNat_inj.mp h)
      have hdepth' : n ≤ n + depth := Nat.le_add_right _ _
      obtain ⟨t, ht⟩ := ih (b := b >>> 1) (by omega) (by omega) hdepth'
      obtain ⟨t', ht'⟩ := mulModP_returns t t hn
      obtain ⟨t'', ht''⟩ := mulModP_returns t' a hn
      simp only [ht, Option.bind_eq_bind, Option.bind_some, ht']
      split_ifs
      · exact ⟨t'', ht''⟩
      · exact ⟨t', rfl⟩

theorem powModPRec_spec {rounds depth : ℕ} (ha : a.toNat ≤ p) {r : UInt64}
    (hr : powModPRec rounds depth a b = some r) :
    (r.toNat < p ∨ r = a ∧ b = 1) ∧ r.toNat ≡ a.toNat ^ b.toNat [MOD p] := by
  induction depth generalizing b r with
  | zero => cases hr
  | succ depth ih =>
    rw [powModPRec] at hr
    by_cases hone : b = 1
    · rw [if_pos hone] at hr
      cases hr
      refine ⟨.inr ⟨rfl, hone⟩, ?_⟩
      rw [hone, UInt64.toNat_one, pow_one]
    · rw [if_neg hone] at hr
      obtain ⟨t, ht, hr⟩ := Option.bind_eq_some_iff.mp hr
      obtain ⟨t', ht', hr⟩ := Option.bind_eq_some_iff.mp hr
      have hp : 0 < p := by decide
      obtain ⟨hbound, hval⟩ := ih ht
      have hle : t.toNat ≤ p := by
        rcases hbound with hlt | ⟨rfl, -⟩
        · exact le_of_lt hlt
        · exact ha
      have huval := mulModP_spec hle ht'
      have hlt : t'.toNat < p := huval ▸ Nat.mod_lt _ hp
      -- The square of the half is the power with the bit 0 dropped.
      have hsquare : t'.toNat ≡ a.toNat ^ (2 * (b.toNat / 2)) [MOD p] := by
        rw [huval, Nat.two_mul, pow_add]
        rw [toNat_shiftRight_one] at hval
        exact (Nat.mod_modEq _ _).trans (hval.mul hval)
      by_cases hodd : b % 2 ≠ 0
      · rw [if_pos hodd] at hr
        have huval := mulModP_spec (le_of_lt hlt) hr
        have hbit : b.toNat = 2 * (b.toNat / 2) + 1 := by
          have hne : b.toNat % 2 ≠ 0 := fun h => hodd (UInt64.toNat_inj.mp h)
          omega
        refine ⟨.inl (huval ▸ Nat.mod_lt _ hp), ?_⟩
        rw [huval, hbit, pow_succ]
        exact (Nat.mod_modEq _ _).trans (hsquare.mul_right _)
      · rw [if_neg hodd] at hr
        cases hr
        have hbit : b.toNat % 2 = 0 := congrArg UInt64.toNat (not_not.mp hodd)
        have heven : b.toNat = 2 * (b.toNat / 2) := by omega
        refine ⟨.inl hlt, ?_⟩
        rw [heven]
        exact hsquare

theorem powModP_returns {rounds : ℕ} (a : UInt64) (hb : 1 ≤ b.toNat) (hn : 64 < rounds) :
    ∃ r, powModP rounds a b = some r :=
  powModPRec_returns a hb b.toNat_lt (le_of_lt hn) hn

/-- `powmodp` for any base: the power, where `P` itself may stand for 0. -/
theorem powmodp_modEq {rounds : ℕ} (a : UInt64) (hb : 1 ≤ b.toNat) (hn : 64 < rounds) :
    ∃ r, powmodp rounds a b = some r ∧ (r.toNat < p ∨ a = P ∧ b = 1) ∧
      r.toNat ≡ a.toNat ^ b.toNat [MOD p] := by
  obtain ⟨r, hr⟩ := powModP_returns (if P < a then a % P else a) hb hn
  refine ⟨r, hr, ?_⟩
  by_cases hlt : P < a
  · rw [if_pos hlt] at hr
    have hmod : (a % P).toNat = a.toNat % p := by rw [UInt64.toNat_mod, toNat_P]
    have hbound : (a % P).toNat < p := hmod ▸ Nat.mod_lt _ (by decide)
    obtain ⟨hr', hval⟩ := powModPRec_spec (le_of_lt hbound) hr
    refine ⟨.inl ?_, hval.trans ?_⟩
    · rcases hr' with hr' | ⟨rfl, -⟩
      · exact hr'
      · exact hbound
    · rw [hmod]
      exact (Nat.mod_modEq _ _).pow _
  · rw [if_neg hlt] at hr
    have hle : a.toNat ≤ p := by
      rw [← toNat_P]
      exact Nat.le_of_not_lt fun h => hlt (UInt64.lt_iff_toNat_lt.mpr h)
    obtain ⟨hr', hval⟩ := powModPRec_spec hle hr
    refine ⟨?_, hval⟩
    rcases hr' with hr' | ⟨rfl, hone⟩
    · exact .inl hr'
    · rcases lt_or_eq_of_le hle with hlt' | heq
      · exact .inl hlt'
      · exact .inr ⟨UInt64.toNat_inj.mp (heq.trans toNat_P.symm), hone⟩

theorem powmodp_spec {rounds : ℕ} (ha : a ≠ P ∨ b ≠ 1) (hb : 1 ≤ b.toNat) (hn : 64 < rounds) :
    ∃ r, powmodp rounds a b = some r ∧ r.toNat = a.toNat ^ b.toNat % p := by
  obtain ⟨r, hr, hbound, hval⟩ := powmodp_modEq a hb hn
  refine ⟨r, hr, ?_⟩
  rcases hbound with hlt | hbound
  · rw [← Nat.mod_eq_of_lt hlt]
    exact hval
  · exact absurd hbound (by tauto)

/-- **Powers**: `powmodp` gives the residue of the power for every base and every exponent that is
not 0, apart from the base `P` with the exponent 1. -/
theorem powmodp_residue {rounds : ℕ} (hn : 64 < rounds) (hb : b ≠ 0) (h : a ≠ P ∨ b ≠ 1) :
    ∃ r, powmodp rounds a b = some r ∧ r.toNat = a.toNat ^ b.toNat % P.toNat :=
  powmodp_spec h (pos_of_ne_zero fun h => hb (UInt64.toNat_inj.mp h)) hn

theorem powmodp_residue_of_base : ∃ r, powmodp 65 P 2 = some r ∧
    r.toNat = P.toNat ^ (2 : UInt64).toNat % P.toNat :=
  powmodp_residue (by decide) (by decide) (.inr (by decide))

/-- The base `P` is not reduced, and its first power is not 0. -/
theorem first_power_of_modulus : powmodp 65 P 1 = some P ∧
    P.toNat ≠ P.toNat ^ (1 : UInt64).toNat % P.toNat := by decide

/-! ### The exchange -/

theorem word_push64 (r : UInt64) : word (push64 r) = r := by
  have hlt : r.toNat < 256 ^ 8 := Nat.lt_of_lt_of_eq r.toNat_lt (by decide)
  rw [word, push64, ofLE_toLE, Nat.mod_eq_of_lt hlt, UInt64.ofNat_toNat]

theorem pow_generator_ne_zero (n : ℕ) : 5 ^ n % p ≠ 0 := by
  have hcoprime : Nat.Coprime (5 ^ n) p := Nat.Coprime.pow_left n (by decide)
  intro hzero
  have hone := Nat.Coprime.eq_one_of_dvd hcoprime.symm (Nat.dvd_of_mod_eq_zero hzero)
  exact absurd hone (by decide)

variable {rounds : ℕ} {x y : Bytes}

theorem dhexchange_spec (hx : x.length = 8) (hx0 : word x ≠ 0) (hn : 64 < rounds) :
    ∃ r, dhexchange rounds x = .ok (push64 r) ∧ r.toNat = 5 ^ (word x).toNat % p := by
  have hpos : 1 ≤ (word x).toNat := pos_of_ne_zero fun h => hx0 (UInt64.toNat_inj.mp h)
  obtain ⟨r, hr, hval⟩ := powmodp_spec (a := G) (.inl (by decide)) hpos hn
  refine ⟨r, ?_, hval⟩
  rw [dhexchange, if_neg (not_not.mpr hx), if_neg hx0, hr, pushPower]

theorem dhsecret_spec {r : UInt64} (hr : r.toNat < p) (hr0 : r ≠ 0) (hy : y.length = 8)
    (hy0 : word y ≠ 0) (hn : 64 < rounds) : ∃ k, dhsecret rounds (push64 r) y = .ok (push64 k) ∧
      k.toNat = r.toNat ^ (word y).toNat % p := by
  have hpos : 1 ≤ (word y).toNat := pos_of_ne_zero fun h => hy0 (UInt64.toNat_inj.mp h)
  obtain ⟨k, hk, hval⟩ := powmodp_spec (a := r)
    (.inl (by rintro rfl; exact absurd hr (by decide))) hpos hn
  refine ⟨k, ?_, hval⟩
  have hlen : (push64 r).length = 8 := length_toLE 8 _
  rw [dhsecret, if_neg (not_not.mpr hlen), if_neg (not_not.mpr hy), word_push64,
    if_neg (not_or.mpr ⟨hr0, hy0⟩), hk, pushPower]

theorem dhsecret_dhexchange (hx : x.length = 8) (hx0 : word x ≠ 0) (hy : y.length = 8)
    (hy0 : word y ≠ 0) (hn : 64 < rounds) :
    ∃ e k, dhexchange rounds x = .ok e ∧ dhsecret rounds e y = .ok (push64 k) ∧
      k.toNat = 5 ^ ((word x).toNat * (word y).toNat) % p := by
  obtain ⟨r, hr, hval⟩ := dhexchange_spec hx hx0 hn
  have hr0 : r ≠ 0 := by
    rintro rfl
    exact pow_generator_ne_zero _ hval.symm
  obtain ⟨k, hk, hkval⟩ := dhsecret_spec (hval ▸ Nat.mod_lt _ (by decide)) hr0 hy hy0 hn
  refine ⟨push64 r, k, hr, hk, ?_⟩
  rw [hkval, hval, ← Nat.pow_mod, pow_mul]

/-- **Agreement**: both sides get the same secret for all keys of 8 bytes that are not 0.
`mul_mod_p` gives the product modulo `P` for a first word up to `P`, which all its calls from
`powmodp` have, so that `powmodp` gives the power modulo `P` for any base; `pow_mod_p` returns for
every exponent that is not 0. -/
theorem dh_agreement (hn : 64 < rounds) :
    (∀ a b : Bytes, a.length = 8 → b.length = 8 → word a ≠ 0 → word b ≠ 0 →
      ∃ x y k, dhexchange rounds a = .ok x ∧ dhexchange rounds b = .ok y ∧
        dhsecret rounds x b = .ok k ∧ dhsecret rounds y a = .ok k) ∧
    (∀ x y : UInt64, x ≤ P →
      ∃ r, mulModP rounds x y = some r ∧ r.toNat = x.toNat * y.toNat % P.toNat) ∧
    (∀ x e : UInt64, e ≠ 0 → ∃ r, powmodp rounds x e = some r ∧
      r.toNat % P.toNat = x.toNat ^ e.toNat % P.toNat) ∧
    ∀ x e : UInt64, e ≠ 0 → ∃ r, powModP rounds x e = some r := by
  have hpos : ∀ {e : UInt64}, e ≠ 0 → 1 ≤ e.toNat := fun he =>
    pos_of_ne_zero fun h => he (UInt64.toNat_inj.mp h)
  refine ⟨fun a b ha hb ha0 hb0 => ?_, fun x y hx => ?_, fun x e he => ?_, fun x e he => ?_⟩
  · obtain ⟨x, k, hx, hk, hkval⟩ := dhsecret_dhexchange ha ha0 hb hb0 hn
    obtain ⟨y, l, hy, hl, hlval⟩ := dhsecret_dhexchange hb hb0 ha ha0 hn
    obtain rfl : k = l := by
      rw [← UInt64.toNat_inj, hkval, hlval, mul_comm]
    exact ⟨x, y, push64 k, hx, hy, hk, hl⟩
  · obtain ⟨r, hr⟩ := mulModP_returns x y hn
    exact ⟨r, hr, mulModP_spec (toNat_P ▸ UInt64.le_iff_toNat_le.mp hx) hr⟩
  · obtain ⟨r, hr, -, hval⟩ := powmodp_modEq x (hpos he) hn
    exact ⟨r, hr, hval⟩
  · exact powModP_returns x (hpos he) hn

theorem dh_agreement_of_rounds : ∃ x y k, dhexchange 65 [3, 0, 0, 0, 0, 0, 0, 0] = .ok x ∧
      dhexchange 65 [255, 255, 255, 255, 255, 255, 255, 255] = .ok y ∧
      dhsecret 65 x [255, 255, 255, 255, 255, 255, 255, 255] = .ok k ∧
      dhsecret 65 y [3, 0, 0, 0, 0, 0, 0, 0] = .ok k :=
  (dh_agreement (by decide)).1 _ _ rfl rfl (by decide) (by decide)

end Skynet.DhExchange
