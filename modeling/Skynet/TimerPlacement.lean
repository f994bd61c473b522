import Skynet.MaskArith
import Skynet.Timer

/-! # Placement of timers on the wheel

The list a timer belongs to is a function `place` of its expiry and the current time: the
level is the highest block of binary digits in which the two differ.  `timer_shift` moves at
most one list, `shiftTarget` of the new time.  The wheel works because these two agree
(`Ahead.place_next`): when the clock advances, the place of a timer that lies ahead of it
changes only if the timer is in the list that is moved. -/

namespace Skynet.TimerWheel

open MaskArith

/-! ### Places in arithmetic -/

theorem nearIdx_val (x : UInt32) : (nearIdx x : ℕ) = x.toNat % 2 ^ 8 :=
  uint32_toNat_and (by decide)

theorem digit_val (x : UInt32) (i : Fin 4) :
    (digit x i : ℕ) = x.toNat / 2 ^ (8 + 6 * (i : ℕ)) % 2 ^ 6 := by
  have hs : (TIME_NEAR_SHIFT + UInt32.ofNat i * TIME_LEVEL_SHIFT).toNat = 8 + 6 * (i : ℕ) := by
    fin_cases i <;> rfl
  rw [← uint32_toNat_shiftRight hs (by omega)]
  exact uint32_toNat_and (by decide)

theorem digit_eq_zero_iff (x : UInt32) (i : Fin 4) :
    digit x i = 0 ↔ x.toNat / 2 ^ (8 + 6 * (i : ℕ)) % 2 ^ 6 = 0 := by
  rw [Fin.ext_iff, digit_val]
  rfl

theorem near_iff (e t : UInt32) :
    e ||| TIME_NEAR_MASK = t ||| TIME_NEAR_MASK ↔ e.toNat / 2 ^ 8 = t.toNat / 2 ^ 8 :=
  uint32_or_eq_iff (by decide)

theorem levelOf_eq (e t : UInt32) : levelOf e t =
    if e.toNat / 2 ^ 14 = t.toNat / 2 ^ 14 then 0
    else if e.toNat / 2 ^ 20 = t.toNat / 2 ^ 20 then 1
    else if e.toNat / 2 ^ 26 = t.toNat / 2 ^ 26 then 2 else 3 := by
  let m := TIME_NEAR <<< TIME_LEVEL_SHIFT
  have h1 : e ||| (m - 1) = t ||| (m - 1) ↔ e.toNat / 2 ^ 14 = t.toNat / 2 ^ 14 :=
    uint32_or_eq_iff (by decide)
  have h2 : e ||| (m <<< TIME_LEVEL_SHIFT - 1) = t ||| (m <<< TIME_LEVEL_SHIFT - 1) ↔
      e.toNat / 2 ^ 20 = t.toNat / 2 ^ 20 := uint32_or_eq_iff (by decide)
  have h3 : e ||| (m <<< TIME_LEVEL_SHIFT <<< TIME_LEVEL_SHIFT - 1) =
      t ||| (m <<< TIME_LEVEL_SHIFT <<< TIME_LEVEL_SHIFT - 1) ↔
      e.toNat / 2 ^ 26 = t.toNat / 2 ^ 26 := uint32_or_eq_iff (by decide)
  apply Fin.ext
  simp only [m] at h1 h2 h3
  simp only [levelOf, addLevel, h1, h2, h3]
  split_ifs <;> rfl

variable {e t : UInt32}

theorem place_near (h : e.toNat / 2 ^ 8 = t.toNat / 2 ^ 8) : place e t = .near (nearIdx e) := by
  rw [place, if_pos ((near_iff e t).mpr h)]

theorem place_level (h : e.toNat / 2 ^ 8 ≠ t.toNat / 2 ^ 8) :
    place e t = .level (levelOf e t) (digit e (levelOf e t)) := by
  rw [place, if_neg (mt (near_iff e t).mp h)]
  rfl

/-- The level is the highest digit in which the expiry and the clock differ. -/
theorem levelOf_eq_iff (h : e.toNat / 2 ^ 8 ≠ t.toNat / 2 ^ 8) (i : Fin 4) : levelOf e t = i ↔
    e.toNat / 2 ^ (8 + 6 * (i : ℕ)) ≠ t.toNat / 2 ^ (8 + 6 * (i : ℕ)) ∧
      e.toNat / 2 ^ (8 + 6 * (i + 1 : ℕ)) = t.toNat / 2 ^ (8 + 6 * (i + 1 : ℕ)) := by
  have he := e.toNat_lt
  have ht := t.toNat_lt
  rw [levelOf_eq]
  fin_cases i <;> split_ifs <;> simp <;> omega

theorem place_eq_near_self_iff (e t : UInt32) : place e t = .near (nearIdx t) ↔ e = t := by
  constructor
  · intro h
    by_cases hb : e.toNat / 2 ^ 8 = t.toNat / 2 ^ 8
    · rw [place_near hb, Loc.near.injEq, Fin.ext_iff, nearIdx_val, nearIdx_val] at h
      apply UInt32.toNat_inj.mp
      omega
    · rw [place_level hb] at h
      cases h
  · rintro rfl
    exact place_near rfl

/-! ### Timers ahead of the clock -/

/-- `e` lies ahead of `t` by at least one tick and less than half the range. -/
structure Ahead (e t : UInt32) : Prop where
  pos : 1 ≤ (e - t).toNat
  lt : (e - t).toNat < 2 ^ 31

theorem Ahead.bounds (h : Ahead e t) : 1 ≤ (e.toNat + 2 ^ 32 - t.toNat) % 2 ^ 32 ∧
      (e.toNat + 2 ^ 32 - t.toNat) % 2 ^ 32 < 2 ^ 31 := by
  have h1 := h.pos
  have h2 := h.lt
  rw [UInt32.toNat_sub] at h1 h2
  have ht := t.toNat_lt
  omega

theorem Ahead.same_block (h : Ahead e t) (i : Fin 5)
    (hb : e.toNat / 2 ^ (8 + 6 * (i : ℕ)) = t.toNat / 2 ^ (8 + 6 * (i : ℕ))) :
    e.toNat / 2 ^ (8 + 6 * (i : ℕ)) = (t + 1).toNat / 2 ^ (8 + 6 * (i : ℕ)) := by
  have hd := h.bounds
  have he := e.toNat_lt
  have ht := t.toNat_lt
  rw [uint32_toNat_add_one]
  fin_cases i <;> norm_num at hb ⊢ <;> omega

theorem new_block (i : Fin 4)
    (hb : e.toNat / 2 ^ (8 + 6 * (i : ℕ)) ≠ t.toNat / 2 ^ (8 + 6 * (i : ℕ)))
    (hb' : e.toNat / 2 ^ (8 + 6 * (i : ℕ)) = (t + 1).toNat / 2 ^ (8 + 6 * (i : ℕ))) :
    (t + 1).toNat % 2 ^ (8 + 6 * (i : ℕ)) = 0 := by
  have ht := t.toNat_lt
  rw [uint32_toNat_add_one] at hb' ⊢
  fin_cases i <;> norm_num at hb hb' ⊢ <;> omega

theorem Ahead.digit_ne_zero (h : Ahead e t) (i : Fin 4)
    (hb : e.toNat / 2 ^ (8 + 6 * (i + 1 : ℕ)) = t.toNat / 2 ^ (8 + 6 * (i + 1 : ℕ)))
    (h0 : (t + 1).toNat % 2 ^ (8 + 6 * (i : ℕ)) = 0) : digit (t + 1) i ≠ 0 ∨ i = 3 := by
  have hd := h.bounds
  rw [ne_eq, digit_eq_zero_iff]
  rw [uint32_toNat_add_one] at h0 ⊢
  fin_cases i
  iterate 3 (left; norm_num at hb h0 ⊢; omega)
  exact .inr rfl

/-! ### The list moved by a shift -/

theorem shiftTarget_eq {ct : UInt32} (i : Fin 4) (hz : ct.toNat % 2 ^ (8 + 6 * (i : ℕ)) = 0)
    (hd : digit ct i ≠ 0 ∨ i = 3) : shiftTarget ct = some (i, digit ct i) := by
  unfold shiftTarget
  fin_cases i
  all_goals
    simp only [Fin.mk_zero, Fin.mk_one, Fin.reduceFinMk, ne_eq, digit_eq_zero_iff] at hz hd ⊢
    split_ifs <;> first | rfl | (exfalso; revert hz hd; norm_num at *; omega)

/-- The mask of `timer_shift` at level `i`. -/
def levelMask (i : ℕ) : UInt32 := UInt32.ofNat (2 ^ (8 + 6 * i))

/-- The loop of `timer_shift` at level `i`, with all lower digits zero, ends within the levels
left and moves the list of the first digit that is not zero. -/
theorem shiftLoop_found {ct : UInt32} (hct : ct ≠ 0) (fuel n : ℕ) : ∀ (i : Fin 4) (x : UInt32),
    i + n = 3 → x.toNat = ct.toNat / 2 ^ (8 + 6 * (i : ℕ)) →
    ct.toNat % 2 ^ (8 + 6 * (i : ℕ)) = 0 →
    ∃ (j : Fin 4) (y : UInt32), shiftLoop ct (fuel + n + 1) (levelMask i) x i = some (some (↑j, y)) ∧
      y.toNat = digit ct j ∧ digit ct j ≠ 0 ∧ ct.toNat % 2 ^ (8 + 6 * (j : ℕ)) = 0 := by
  induction n using Nat.strong_induction_on with
  | _ n ih =>
    intro i x hi hx hz
    have hm : (levelMask i - 1).toNat = 2 ^ (8 + 6 * (i : ℕ)) - 1 := by fin_cases i <;> rfl
    have hy : (x &&& TIME_LEVEL_MASK).toNat = digit ct i := by
      rw [digit_val, ← hx]
      exact uint32_toNat_and (by decide)
    rw [shiftLoop, if_pos ((uint32_and_eq_zero_iff hm).mpr hz)]
    by_cases h0 : x &&& TIME_LEVEL_MASK = 0
    swap
    · refine ⟨i, _, if_pos h0, hy, fun hd => h0 ?_, hz⟩
      rw [uint32_eq_zero_iff, hy, hd]
      rfl
    rw [h0, digit_val] at hy
    have hz' : ct.toNat % 2 ^ (8 + 6 * (i + 1 : ℕ)) = 0 := by
      rw [mul_add, ← add_assoc, mul_one, pow_add, Nat.mod_mul, hz, ← hy]
      rfl
    have hi3 : (i : ℕ) < 3 := by
      -- below the highest level: otherwise all digits are zero
      by_contra h3
      obtain rfl : i = 3 := Fin.ext (by omega)
      have hlt := ct.toNat_lt
      exact hct (uint32_eq_zero_iff.mpr (by norm_num at hz'; omega))
    obtain ⟨n, rfl⟩ : ∃ m, n = m + 1 := ⟨n - 1, by omega⟩
    have hs : ∀ i < 3, levelMask i <<< TIME_LEVEL_SHIFT = levelMask (i + 1) := by decide
    have hx' : (x >>> TIME_LEVEL_SHIFT).toNat = ct.toNat / 2 ^ (8 + 6 * (i + 1 : ℕ)) := by
      rw [uint32_toNat_shiftRight (k := 6) (by decide) (by norm_num), hx,
        Nat.div_div_eq_div_mul, ← pow_add, mul_add, add_assoc]
    obtain ⟨j, y, hj⟩ := ih n n.lt_succ_self ⟨i + 1, by omega⟩ _ (by simp only; omega) hx' hz'
    refine ⟨j, y, (if_neg (not_not.mpr h0)).trans ?_, hj.2⟩
    rw [hs i hi3]
    exact hj.1

/-- The list moved by the shift, as the loop of `timer_shift` finds it within four rounds. -/
theorem shiftLoop_eq {ct : UInt32} (hct : ct ≠ 0) (fuel : ℕ) :
    (shiftLoop ct (fuel + 4) TIME_NEAR (ct >>> TIME_NEAR_SHIFT) 0 = some none ∧
      shiftTarget ct = none) ∨
    ∃ (i : Fin 4) (x : UInt32),
      shiftLoop ct (fuel + 4) TIME_NEAR (ct >>> TIME_NEAR_SHIFT) 0 = some (some (↑i, x)) ∧
        shiftTarget ct = some (i, levelIdx x) ∧ x.toNat = digit ct i ∧ digit ct i ≠ 0 := by
  by_cases hz : ct.toNat % 2 ^ 8 = 0
  · obtain ⟨i, x, hloop, hx, hd, hi⟩ := shiftLoop_found hct fuel 3 0 (ct >>> TIME_NEAR_SHIFT) rfl
      (uint32_toNat_shiftRight (by decide) (by norm_num)) hz
    have hidx : levelIdx x = digit ct i := by
      apply Fin.ext
      change (x &&& TIME_LEVEL_MASK).toNat = _
      rw [uint32_toNat_and (k := 6) (by decide), hx]
      exact Nat.mod_eq_of_lt (digit ct i).isLt
    refine .inr ⟨i, x, hloop, ?_, hx, hd⟩
    rw [hidx]
    exact shiftTarget_eq i hi (.inl hd)
  · refine .inl ⟨?_, if_pos hz⟩
    rw [shiftLoop, if_neg (mt (uint32_and_eq_zero_iff (k := 8) (by decide)).mp hz)]

/-- `timer_shift` in closed form. -/
theorem timerShift_eq (T : Timer) : timerShift T = some
    (match shiftTarget (T.time + 1) with
      | none => { T with time := T.time + 1 }
      | some (i, j) => Timer.moveList { T with time := T.time + 1 } i j) := by
  unfold timerShift
  generalize T.time + 1 = ct
  by_cases hct : ct = 0
  · subst hct
    have h0 : shiftTarget 0 = some (3, 0) := by decide
    simp only [h0, if_true]
  · obtain ⟨hr, ht⟩ | ⟨i, x, hr, ht, -⟩ := shiftLoop_eq hct 1
    · simp only [if_neg hct, hr, ht]
    · simp only [if_neg hct, hr, ht, i.isLt, dite_true]

/-- A list that is moved gets none of its timers back. -/
theorem place_ne_shiftTarget {ct : UInt32} {i : Fin 4} {j : Fin 64}
    (h : shiftTarget ct = some (i, j)) (e : UInt32) : place e ct ≠ .level i j := by
  have hj : digit ct i = j := by
    unfold shiftTarget at h
    split_ifs at h <;> cases h <;> rfl
  intro hp
  by_cases b8 : e.toNat / 2 ^ 8 = ct.toNat / 2 ^ 8
  · rw [place_near b8] at hp
    cases hp
  rw [place_level b8, Loc.level.injEq] at hp
  obtain ⟨hi, hd⟩ := hp
  obtain ⟨hb, hs⟩ := (levelOf_eq_iff b8 i).mp hi
  rw [hi, ← hj, Fin.ext_iff, digit_val, digit_val] at hd
  rw [mul_add, ← add_assoc, pow_add, ← Nat.div_div_eq_div_mul, ← Nat.div_div_eq_div_mul] at hs
  omega

/-- **The shift moves what has to move**: a timer ahead of the clock keeps its place, or it
is in the list that the shift takes. -/
theorem Ahead.place_next (h : Ahead e t) : place e (t + 1) = place e t ∨
      ∃ i j, shiftTarget (t + 1) = some (i, j) ∧ place e t = .level i j := by
  by_cases b8 : e.toNat / 2 ^ 8 = t.toNat / 2 ^ 8
  · left
    rw [place_near b8, place_near (h.same_block 0 b8)]
  obtain ⟨i, hi⟩ : ∃ i, levelOf e t = i := ⟨_, rfl⟩
  obtain ⟨hb, hs⟩ := (levelOf_eq_iff b8 i).mp hi
  by_cases hb' : e.toNat / 2 ^ (8 + 6 * (i : ℕ)) = (t + 1).toNat / 2 ^ (8 + 6 * (i : ℕ))
  · -- the new time enters the block of `e` at its level: the shift takes this very list
    have hz := new_block i hb hb'
    have hde : digit e i = digit (t + 1) i := by
      apply Fin.ext
      rw [digit_val, digit_val, hb']
    refine .inr ⟨i, digit (t + 1) i, shiftTarget_eq i hz (h.digit_ne_zero i hs hz), ?_⟩
    rw [place_level b8, hi, hde]
  · have n8 : e.toNat / 2 ^ 8 ≠ (t + 1).toNat / 2 ^ 8 := by
      intro n8
      rw [pow_add, ← Nat.div_div_eq_div_mul, ← Nat.div_div_eq_div_mul, n8] at hb'
      exact hb' rfl
    have hl : levelOf e (t + 1) = i := (levelOf_eq_iff n8 i).mpr ⟨hb', h.same_block i.succ hs⟩
    left
    rw [place_level b8, place_level n8, hi, hl]

end Skynet.TimerWheel
