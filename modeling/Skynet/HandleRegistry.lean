import Skynet.MaskArith
import Skynet.NodeSlots

/-! # Registering services one after another

`register_service` looks for a free slot with one scan over as many handles as the table has slots,
and doubles the table if it finds none.  The doubling dereferences every slot of the old table, so
the scan has to have seen all of them.

A scan that does not pass `HANDLE_MASK` sees every slot once.  A scan that passes it goes on with
handle 1 instead of handle 0: it sees one slot twice and misses slot 0, the only slot whose handles
are the multiples of the table's size (`scan_none`).  `scan_misses_free_slot` gets there in a
service that lives for long, and `register_service_complete` is about the other registries. -/

namespace Skynet.Node

open List Transition Table

namespace Table

variable {T : Table} {handleOf : ℕ → ℕ} {c k h : ℕ}

/-! ### What one scan sees -/

/-- The slot is not free. -/
def Taken (T : Table) (j : ℕ) : Prop := T.slots[j]? ≠ some none

instance (T : Table) (j : ℕ) : Decidable (T.Taken j) := inferInstanceAs (Decidable (_ ≠ _))

theorem hash_eq (hk : T.size = 2 ^ k) (h : ℕ) : T.hash h = h % T.size := by
  rw [hash, hk, Nat.and_two_pow_sub_one_eq_mod]

theorem scan_succ (n h : ℕ) : T.scan (n + 1) h =
      if T.slots[T.hash (if h > HANDLE_MASK then 1 else h)]? = some none
      then some (if h > HANDLE_MASK then 1 else h)
      else T.scan n ((if h > HANDLE_MASK then 1 else h) + 1) := rfl

theorem scan_succ_eq_none {n : ℕ} (hh : h ≤ HANDLE_MASK) (hs : T.scan (n + 1) h = none) :
    T.Taken (T.hash h) ∧ T.scan n (h + 1) = none := by
  rw [scan_succ, if_neg (not_lt.mpr hh)] at hs
  split_ifs at hs with hfree
  exact ⟨hfree, hs⟩

theorem scan_behind_mask (n : ℕ) : T.scan n (HANDLE_MASK + 1) = T.scan n 1 := by
  cases n with
  | zero => rfl
  | succ n =>
    have hone : ¬ 1 > HANDLE_MASK := by decide
    rw [scan_succ, scan_succ n 1, if_pos (Nat.lt_succ_self _), if_neg hone]

/-- The first `m` rounds of a scan, and the others, if the mask is not passed before. -/
theorem scan_add_eq_none {m n : ℕ} (hm : h + m ≤ HANDLE_MASK + 1) (hs : T.scan (m + n) h = none) :
    (∀ i < m, T.Taken (T.hash (h + i))) ∧ T.scan n (h + m) = none := by
  induction m generalizing h with
  | zero => exact ⟨by simp, by rwa [zero_add] at hs⟩
  | succ m ih =>
    rw [Nat.succ_add] at hs
    obtain ⟨htaken, hrest⟩ := scan_succ_eq_none (by omega) hs
    obtain ⟨hseen, hend⟩ := ih (by omega) hrest
    refine ⟨fun i hi => ?_, by rwa [add_assoc, add_comm 1 m] at hend⟩
    cases i with
    | zero => exact htaken
    | succ i =>
      have := hseen i (by omega)
      rwa [add_assoc, add_comm 1 i] at this

/-- The scan passes the mask between its first and its last round. -/
def PassesMask (T : Table) : Prop :=
  T.seed ≤ HANDLE_MASK ∧ HANDLE_MASK + 1 < T.seed + T.size

instance (T : Table) : Decidable T.PassesMask := inferInstanceAs (Decidable (_ ∧ _))

theorem taken_of_scan (hk : T.size = 2 ^ k) (hle : h + T.size ≤ HANDLE_MASK + 1)
    (hs : T.scan T.size h = none) {j : ℕ} (hj : j < T.size) : T.Taken j := by
  obtain ⟨i, hi, hij⟩ := MaskArith.exists_add_mod_eq h hj
  have hseen := (scan_add_eq_none hle (n := 0) hs).1 i hi
  rwa [hash_eq hk, hij] at hseen

theorem size_dvd (hk : T.size = 2 ^ k) (hle : k ≤ 24) : T.size ∣ HANDLE_MASK + 1 := by
  rw [hk]
  exact pow_dvd_pow 2 hle

/-- **A scan that finds nothing** has seen every slot but possibly slot 0, and slot 0 too unless it
passed the mask. -/
theorem scan_none (hk : T.size = 2 ^ k) (hle : k ≤ 24) (hmask : T.seed ≤ HANDLE_MASK + 1)
    (hs : T.scan T.size T.seed = none) {j : ℕ}
    (hj : j < T.size) (h0 : j ≠ 0 ∨ T.size ≤ HANDLE_MASK ∧ ¬ T.PassesMask) : T.Taken j := by
  have hdvd := size_dvd hk hle
  have hsize : T.size ≤ HANDLE_MASK + 1 := Nat.le_of_dvd (Nat.succ_pos _) hdvd
  rcases lt_or_ge HANDLE_MASK T.seed with hover | hseed'
  · -- the scan begins with handle 1
    rw [show T.seed = HANDLE_MASK + 1 by omega, scan_behind_mask] at hs
    rcases lt_or_ge HANDLE_MASK T.size with hfull | hsmall
    · obtain ⟨i, rfl⟩ : ∃ i, j = 1 + i := ⟨j - 1, by omega⟩
      rw [show T.size = HANDLE_MASK + 1 by omega] at hs
      have := (scan_add_eq_none (by omega) hs).1 i (by omega)
      rwa [hash_eq hk, Nat.mod_eq_of_lt hj] at this
    · exact taken_of_scan hk (by omega) hs hj
  · by_cases hpass : T.PassesMask
    · -- handles from the seed to the mask, then from handle 1 on
      have hpos : j ≠ 0 := h0.resolve_right fun h => h.2 hpass
      obtain ⟨d, hd⟩ := hdvd
      obtain ⟨m, hm⟩ : ∃ m, T.seed + m = HANDLE_MASK + 1 := ⟨HANDLE_MASK + 1 - T.seed, by omega⟩
      have hlt := hpass.2
      rw [show T.size = m + (T.size - m) by omega] at hs
      obtain ⟨hfirst, hsecond⟩ := scan_add_eq_none (by omega) hs
      rw [hm, scan_behind_mask] at hsecond
      rcases lt_or_ge (T.size - m) j with hhigh | hlow
      · have := hfirst (j - (T.size - m)) (by omega)
        rw [hash_eq hk, show T.seed + (j - (T.size - m)) = j + T.size * (d - 1) by
          rw [Nat.mul_sub, mul_one]
          omega, Nat.add_mul_mod_self_left, Nat.mod_eq_of_lt hj] at this
        exact this
      · obtain ⟨i, rfl⟩ : ∃ i, j = 1 + i := ⟨j - 1, by omega⟩
        have := (scan_add_eq_none (m := T.size - m) (n := 0) (by omega) hsecond).1 i (by omega)
        rwa [hash_eq hk, Nat.mod_eq_of_lt hj] at this
    · exact taken_of_scan hk (by unfold PassesMask at hpass; omega) hs hj

theorem scan_le {n : ℕ} (hs : T.scan n h = some k) : k ≤ HANDLE_MASK := by
  induction n generalizing h with
  | zero => cases hs
  | succ n ih =>
    have hle : (if h > HANDLE_MASK then 1 else h) ≤ HANDLE_MASK := by
      split_ifs with hover
      · decide
      · exact not_lt.mp hover
    rw [scan_succ] at hs
    split_ifs at hs hle <;> first | exact ih hs | (cases hs; exact hle)

/-! ### Doubling -/

variable {new : List (Option ℕ)}

theorem rehash_size (hre : rehash handleOf T.slots (replicate (2 * T.size) none) = .ok new) :
    new.length = 2 * T.size := by
  rw [rehash_length hre, length_replicate]

/-- The size of the table before and after. -/
structure Sized (T : Table) : Prop where
  pow : ∃ k, T.size = 2 ^ k
  low : 4 ≤ T.size
  high : T.size ≤ HANDLE_MASK + 1

namespace Grown

variable {T₀ : Table}

theorem sized (hg : Grown handleOf T T₀) (hT : T.Sized) : T₀.Sized := by
  induction hg with
  | refl T => exact hT
  | @double T T₀ new _ hsize hre _ ih =>
    have hlen : size ⟨new, T.seed⟩ = 2 * T.size := rehash_size hre
    obtain ⟨⟨k, hk⟩, hlow, hhigh⟩ := hT
    refine ih ⟨⟨k + 1, ?_⟩, ?_, ?_⟩
    · rw [hlen, hk, pow_succ, mul_comm]
    · omega
    · omega

theorem slotted (hg : Grown handleOf T T₀) (hslot : Slotted handleOf T.slots) :
    Slotted handleOf T₀.slots := by
  induction hg with
  | refl T => exact hslot
  | double _ _ hre _ ih => exact ih (rehash_slotted hre (slotted_replicate _))

end Grown

theorem exists_free_of_rehash (hT : T.Sized) (hslot : Slotted handleOf T.slots)
    (hre : rehash handleOf T.slots (replicate (2 * T.size) none) = .ok new) :
    ∃ j < new.length, j ≠ 0 ∧ new[j]? = some none := by
  obtain ⟨⟨k, hk⟩, hlow, -⟩ := hT
  have hlen := rehash_size hre
  have hnew : Slotted handleOf new := rehash_slotted hre (slotted_replicate _)
  -- a context of the new table stood in slot `i % T.size` of the old one
  have hold : ∀ i d, new[i]? = some (some d) → i = handleOf d % (2 * T.size) ∧
      T.slots[handleOf d % T.size]? = some (some d) := by
    intro i d hd
    have hi := hnew i d hd
    rw [hlen, hk, show 2 * 2 ^ k = 2 ^ (k + 1) by rw [pow_succ, mul_comm],
      Nat.and_two_pow_sub_one_eq_mod] at hi
    refine ⟨by rw [hi, hk, pow_succ, mul_comm 2], ?_⟩
    have hmem : some d ∈ T.slots := by
      rw [← refs_pos_iff, ← rehash_refs 0 hre d]
      exact refs_pos_iff.mpr (mem_of_getElem? hd)
    obtain ⟨i', hi'⟩ := getElem?_of_mem hmem
    have hslot' := hslot i' d hi'
    rw [show T.slots.length = 2 ^ k from hk, Nat.and_two_pow_sub_one_eq_mod] at hslot'
    rwa [hk, ← hslot']
  by_contra hnone
  have htaken : ∀ j < new.length, j ≠ 0 → ∃ d, new[j]? = some (some d) := by
    intro j hj hj0
    cases hget : new[j]? with
    | none => exact absurd (getElem?_eq_none_iff.mp hget) (by omega)
    | some o =>
      cases o with
      | none => exact absurd ⟨j, hj, hj0, hget⟩ hnone
      | some d => exact ⟨d, rfl⟩
  obtain ⟨d, hd⟩ := htaken 1 (by omega) (by omega)
  obtain ⟨e, he⟩ := htaken (1 + T.size) (by omega) (by omega)
  obtain ⟨hd1, hd2⟩ := hold _ _ hd
  obtain ⟨he1, he2⟩ := hold _ _ he
  have hdmod : handleOf d % T.size = 1 := by
    rw [← Nat.mod_mul_left_mod (handleOf d) 2 T.size, ← hd1, Nat.mod_eq_of_lt (by omega)]
  have hemod : handleOf e % T.size = 1 := by
    rw [← Nat.mod_mul_left_mod (handleOf e) 2 T.size, ← he1, Nat.add_mod_right,
      Nat.mod_eq_of_lt (by omega)]
  rw [hdmod] at hd2
  rw [hemod, hd2] at he2
  obtain rfl : d = e := by simpa using he2
  omega

theorem rehash_ne_nullSlot {slots : List (Option ℕ)} (hs : none ∉ slots) :
    rehash handleOf slots new ≠ .error .nullSlot := by
  induction slots generalizing new with
  | nil => simp [rehash]
  | cons o rest ih =>
    cases o with
    | none => exact absurd mem_cons_self hs
    | some c =>
      simp only [rehash]
      split_ifs
      · exact ih fun h => hs (mem_cons_of_mem _ h)
      · simp

theorem rehash_of_full (hT : T.Sized) (hslot : Slotted handleOf T.slots)
    (hfull : ∀ j < T.size, T.Taken j) :
    ∃ new, rehash handleOf T.slots (replicate (2 * T.size) none) = .ok new := by
  obtain ⟨k, hk⟩ := hT.pow
  cases hre : rehash handleOf T.slots (replicate (2 * T.size) none) with
  | ok new => exact ⟨new, rfl⟩
  | error e =>
    exfalso
    rcases registerLoop_fault.rehash_fault hre with rfl | rfl
    · refine rehash_ne_nullSlot (fun hmem => ?_) hre
      obtain ⟨j, hj⟩ := getElem?_of_mem hmem
      exact hfull j (List.getElem?_eq_some_iff.mp hj).1 hj
    · rw [hk] at hre
      exact (rehash_double hk hslot fun _ _ => rfl).1 hre

/-- Slot 0 is the only free one, and the scan passes the mask in its middle. -/
def MissesSlot (T : Table) : Prop :=
  T.PassesMask ∧ T.slots[0]? = some none ∧ ∀ j < T.size, j ≠ 0 → T.Taken j

instance (T : Table) : Decidable T.MissesSlot := inferInstanceAs (Decidable (_ ∧ _ ∧ _))

theorem Sized.exists_pow (hT : T.Sized) : ∃ k ≤ 24, T.size = 2 ^ k := by
  obtain ⟨⟨k, hk⟩, -, hhigh⟩ := hT
  refine ⟨k, ?_, hk⟩
  rw [hk, show HANDLE_MASK + 1 = 2 ^ 24 from rfl] at hhigh
  exact (Nat.pow_le_pow_iff_right (by decide)).mp hhigh

theorem full_of_scan (hT : T.Sized) (hmask : T.seed ≤ HANDLE_MASK + 1) (hmiss : ¬ T.MissesSlot)
    (hs : T.scan T.size T.seed = none) (hsize : T.size ≤ HANDLE_MASK) :
    ∀ j < T.size, T.Taken j := by
  obtain ⟨k, hle, hk⟩ := hT.exists_pow
  have hothers : ∀ j < T.size, j ≠ 0 → T.Taken j := fun j hj hj0 =>
    scan_none hk hle hmask hs hj (.inl hj0)
  intro j hj
  by_cases hpass : T.PassesMask
  · by_cases hj0 : j = 0
    · subst hj0
      exact fun hfree => hmiss ⟨hpass, hfree, hothers⟩
    · exact hothers j hj hj0
  · exact scan_none hk hle hmask hs hj (.inr ⟨hsize, hpass⟩)

/-- `register_service` fails only if the table has its greatest size and every handle a taken
slot. -/
theorem registerService_error {f : Fault} (hT : T.Sized) (hslot : Slotted handleOf T.slots)
    (hmask : T.seed ≤ HANDLE_MASK + 1) (hmiss : ¬ T.MissesSlot)
    (hr : T.registerService handleOf c = .error f) :
    f = .tableFull ∧ ∀ h, 1 ≤ h → h ≤ HANDLE_MASK → T.Taken (T.hash h) := by
  rw [registerService, registerLoop] at hr
  cases hscan : T.scan T.size T.seed with
  | some k => simp [hscan] at hr
  | none =>
    simp only [hscan] at hr
    split_ifs at hr with hsize
    · -- the doubled table has a free slot besides slot 0, which its scan finds
      have hfull := full_of_scan hT hmask hmiss hscan (by omega)
      obtain ⟨new, hre⟩ := rehash_of_full hT hslot hfull
      have hnew : Sized ⟨new, T.seed⟩ := (Grown.double hscan hsize hre (.refl _)).sized hT
      obtain ⟨j, hj, hj0, hfree⟩ := exists_free_of_rehash hT hslot hre
      obtain ⟨k, hle, hk⟩ := hnew.exists_pow
      rw [hre] at hr
      simp only [registerLoop] at hr
      cases hscan' : scan ⟨new, T.seed⟩ (size ⟨new, T.seed⟩) T.seed with
      | some k => simp [hscan'] at hr
      | none => exact absurd hfree (scan_none hk hle hmask hscan' hj (.inl hj0))
    · obtain rfl := Except.error.inj hr
      refine ⟨rfl, fun h hpos hle => ?_⟩
      obtain ⟨k, hk24, hk⟩ := hT.exists_pow
      have hlt : h < T.size := by
        have : 2 ^ 23 < T.size := by
          rw [show HANDLE_MASK = 2 ^ 24 - 1 from rfl] at hsize
          omega
        have hk' : 23 < k := by
          rw [hk] at this
          exact (Nat.pow_lt_pow_iff_right (by decide)).mp this
        rw [hk, show k = 24 by omega]
        exact lt_of_le_of_lt hle (by decide)
      rw [hash_eq hk, Nat.mod_eq_of_lt hlt]
      exact scan_none hk hk24 hmask hscan hlt (.inl (by omega))

end Table

/-! ### Creations and exits -/

/-- The table, the handle each context stores, and the number of contexts created so far. -/
structure Registry where
  table : Table
  handleOf : ℕ → ℕ
  count : ℕ

namespace Registry

def init : Registry := ⟨.init, fun _ => 0, 0⟩

inductive Action where
  | create
  | exit (h : ℕ)
deriving DecidableEq, Repr

/-- `create_service`: the new context is registered and stores its handle.  There is no next state
if the process stops. -/
def create (R : Registry) : Option Registry :=
  match R.table.registerService R.handleOf R.count with
  | .ok (h, T) => some ⟨T, Function.update R.handleOf R.count h, R.count + 1⟩
  | .error _ => none

/-- `unregister_service` -/
def exit (R : Registry) (h : ℕ) : Registry :=
  match R.table.at? h with
  | some c => if R.handleOf c = h then { R with table := R.table.clear h } else R
  | none => R

def step (R : Registry) : Action → Option Registry
  | .create => R.create
  | .exit h => some (R.exit h)

/-- What creations and exits keep. -/
structure Inv (R : Registry) : Prop where
  sized : R.table.Sized
  slotted : Table.Slotted R.handleOf R.table.slots
  created : ∀ c, some c ∈ R.table.slots → c < R.count
  seed_pos : 1 ≤ R.table.seed
  seed_le : R.table.seed ≤ HANDLE_MASK + 1

variable {R : Registry}

theorem Inv.init : Inv Registry.init where
  sized := ⟨⟨2, rfl⟩, by decide, by decide⟩
  slotted := slotted_replicate _
  created c hc := by cases eq_of_mem_replicate hc
  seed_pos := by decide
  seed_le := by decide

theorem Inv.refs_count (hR : Inv R) : R.table.refs R.count = 0 := by
  by_contra hne
  have := hR.created _ (refs_pos_iff.mp (pos_of_ne_zero hne))
  omega

theorem Inv.create {S : Registry} (hR : Inv R) (hs : R.create = some S) : Inv S := by
  obtain ⟨k, hk⟩ := hR.sized.pow
  unfold Registry.create at hs
  split at hs
  · next h T' hreg =>
    cases hs
    obtain ⟨T₀, hgrown, hscan, hT'⟩ := registerLoop_ok hreg
    obtain ⟨hpos, hpos'⟩ := registerLoop_pos hreg hR.seed_pos
    have hslotted := (registerLoop_slotted hk hR.slotted hR.refs_count
      fun _ d _ => rfl).2 h T' hreg
    have hsized := hgrown.sized hR.sized
    refine ⟨⟨hslotted.1, ?_, ?_⟩, hslotted.2, fun c hc => ?_, hpos', ?_⟩
    · rw [hT', size, length_set]
      exact hsized.low
    · rw [hT', size, length_set]
      exact hsized.high
    · have hrefs := registerLoop_refs hreg c
      have hc' := refs_pos_iff.mpr hc
      show c < R.count + 1
      by_cases hcc : R.count = c
      · omega
      · rw [if_neg hcc, add_zero] at hrefs
        rw [hrefs] at hc'
        have := hR.created c (refs_pos_iff.mp hc')
        omega
    · rw [hT']
      exact Nat.succ_le_succ (scan_le hscan)
  · cases hs

theorem Inv.exit (hR : Inv R) (h : ℕ) : Inv (R.exit h) := by
  unfold Registry.exit
  split
  · split_ifs
    · obtain ⟨hpow, hlow, hhigh⟩ := hR.sized
      have hsize : (R.table.clear h).size = R.table.size := length_set
      refine ⟨⟨hsize ▸ hpow, hsize ▸ hlow, hsize ▸ hhigh⟩, hR.slotted.clear _, fun c hc => ?_,
        hR.seed_pos, hR.seed_le⟩
      rcases mem_or_eq_of_mem_set hc with hc | hc
      · exact hR.created c hc
      · cases hc
    · exact hR
  · exact hR

end Registry

/-- The registry under creations and exits that follow one another. -/
def registry : System Registry Registry.Action := ⟨Registry.init, Registry.step⟩

theorem Registry.inv {R : Registry} (h : registry.Reachable R) : R.Inv := by
  refine h.invariant Inv.init fun R a S hR _ hs => ?_
  cases a with
  | create => exact hR.create hs
  | exit k =>
    cases hs
    exact hR.exit k

/-- **Handle registration**: the table is doubled when it is full, a registration fails only when
all handles are in use, and a new handle is in range, differs from all handles in use, and gets a
slot that was empty. -/
theorem register_service_complete {R : Registry} (hR : registry.Reachable R) {T : Table}
    (hslots : T.slots = R.table.slots) (hseed : 1 ≤ T.seed) (hmask : T.seed ≤ HANDLE_MASK + 1)
    (hmiss : ¬ T.MissesSlot) :
    (T.scan T.size T.seed = none → T.size * 2 - 1 ≤ HANDLE_MASK → ∀ j < T.size, T.Taken j) ∧
    (∀ f, T.registerService R.handleOf R.count = .error f →
      f = .tableFull ∧ ∀ h, 1 ≤ h → h ≤ HANDLE_MASK → T.Taken (T.hash h)) ∧
    ∀ h T', T.registerService R.handleOf R.count = .ok (h, T') →
      1 ≤ h ∧ h ≤ HANDLE_MASK ∧ (∀ c, some c ∈ T.slots → R.handleOf c ≠ h) ∧
      ∃ T₀, Table.Grown R.handleOf T T₀ ∧ T₀.slots[T₀.hash h]? = some none ∧
        T' = ⟨T₀.slots.set (T₀.hash h) (some R.count), h + 1⟩ := by
  have hinv := Registry.inv hR
  have hsize : T.size = R.table.size := by rw [size, hslots, size]
  have hT : T.Sized := ⟨hsize ▸ hinv.sized.pow, hsize ▸ hinv.sized.low, hsize ▸ hinv.sized.high⟩
  have hslotted : Table.Slotted R.handleOf T.slots := hslots ▸ hinv.slotted
  refine ⟨fun hs hle => full_of_scan hT hmask hmiss hs (by omega),
    fun f hf => registerService_error hT hslotted hmask hmiss hf, fun h T' hreg => ?_⟩
  obtain ⟨T₀, hgrown, hscan, hT'⟩ := registerLoop_ok hreg
  have hfree := scan_eq_some hscan
  refine ⟨(registerLoop_pos hreg hseed).1, scan_le hscan, fun c hc hch => ?_,
    T₀, hgrown, hfree, hT'⟩
  -- a context with this handle would stand in the free slot
  have hmem : some c ∈ T₀.slots := by
    rw [← refs_pos_iff, hgrown.refs c]
    exact refs_pos_iff.mpr hc
  obtain ⟨i, hi⟩ := getElem?_of_mem hmem
  have hplace := hgrown.slotted hslotted i c hi
  rw [hch] at hplace
  rw [← show i = T₀.hash h from hplace, hi] at hfree
  cases hfree

/-- A fifth service is registered in a table of four slots. -/
theorem register_service_complete_of_full : ∃ R : Registry, registry.Reachable R ∧
    R.table.scan R.table.size R.table.seed = none ∧ (∀ j < R.table.size, R.table.Taken j) ∧
    ∃ T', R.table.registerService R.handleOf R.count = .ok (5, T') ∧
      T'.slots = [none, some 0, some 1, some 2, some 3, some 4, none, none] ∧
      ∀ c, some c ∈ R.table.slots → R.handleOf c ≠ 5 := by
  obtain ⟨R, hR, hslots, hseed, hscan, hreg⟩ := registry.exists_reachable (fun _ _ => True)
    [.create, .create, .create, .create]
    (fun R : Registry => R.table.slots = [some 3, some 0, some 1, some 2] ∧ R.table.seed = 5 ∧
      R.table.scan R.table.size R.table.seed = none ∧
      ((R.table.registerService R.handleOf R.count).toOption.map fun r => (r.1, r.2.slots)) =
        some (5, [none, some 0, some 1, some 2, some 3, some 4, none, none])) (by decide +kernel)
  have hmiss : ¬ R.table.MissesSlot := fun h => by
    have h0 := h.2.1
    rw [hslots] at h0
    cases h0
  obtain ⟨hfull, -, hnew⟩ := register_service_complete hR rfl (by omega)
    (by rw [hseed]; decide) hmiss
  refine ⟨R, hR, hscan, hfull hscan (by rw [size, hslots]; decide), ?_⟩
  cases hr : R.table.registerService R.handleOf R.count with
  | error f => rw [hr] at hreg; cases hreg
  | ok r =>
    obtain ⟨h, T'⟩ := r
    rw [hr] at hreg
    obtain ⟨rfl, hT'⟩ := Prod.mk.inj (Option.some.inj hreg)
    exact ⟨T', rfl, hT', (hnew _ T' hr).2.2.1⟩

/-! ### A scan that misses a free slot -/

/-- Slots 1, 2 and 3 are taken, and the next handle is one of slot 1. -/
def threeTaken (n : ℕ) : Table := ⟨[none, some 0, some 1, some 2], 4 * n + 1⟩

theorem hash_threeTaken (n i : ℕ) : (threeTaken n).hash (4 * n + i) = i % 4 := by
  rw [hash_eq (k := 2) rfl, show (threeTaken n).size = 4 from rfl, Nat.mul_add_mod]

theorem scan_threeTaken {n : ℕ} (hn : 4 * n + 4 ≤ HANDLE_MASK) :
    (threeTaken n).scan 4 (4 * n + 1) = some (4 * n + 4) := by
  have hpass : ∀ i ≤ 4, ¬ 4 * n + i > HANDLE_MASK := fun i hi => by omega
  simp only [scan, hpass 1 (by decide), hpass 2 (by decide), hpass 3 (by decide),
    hpass 4 (by decide), if_false, add_assoc, hash_threeTaken, Nat.reduceAdd]
  rfl

theorem threeTaken_succ {n : ℕ} (hn : 4 * n + 4 ≤ HANDLE_MASK) {R : Registry}
    (hT : R.table = threeTaken n) (h : registry.Reachable R) :
    ∃ S : Registry, registry.Reachable S ∧ S.table = threeTaken (n + 1) := by
  have hreg : R.table.registerService R.handleOf R.count =
      .ok (4 * n + 4, ⟨[some R.count, some 0, some 1, some 2], 4 * (n + 1) + 1⟩) := by
    rw [hT, registerService, registerLoop, show (threeTaken n).size = 4 from rfl,
      show (threeTaken n).seed = 4 * n + 1 from rfl, scan_threeTaken hn]
    simp only [hash_threeTaken]
    rfl
  have hhash : hash ⟨[some R.count, some 0, some 1, some 2], 4 * (n + 1) + 1⟩ (4 * n + 4) =
      0 := by
    rw [hash_eq (k := 2) rfl]
    exact Nat.mul_add_mod 4 n 4
  have hcreate : R.create = some ⟨⟨[some R.count, some 0, some 1, some 2], 4 * (n + 1) + 1⟩,
      Function.update R.handleOf R.count (4 * n + 4), R.count + 1⟩ := by
    rw [Registry.create, hreg]
  refine ⟨_, (h.next .create trivial hcreate).next (.exit (4 * n + 4)) trivial rfl, ?_⟩
  simp only [Registry.exit, at?, clear, hhash, getElem?_cons_zero,
    Option.join_some, Function.update_self, if_true, set_cons_zero]
  rfl

theorem exists_threeTaken {n : ℕ} (hpos : 1 ≤ n) (hn : 4 * n ≤ HANDLE_MASK) :
    ∃ R : Registry, registry.Reachable R ∧ R.table = threeTaken n := by
  induction n, hpos using Nat.le_induction with
  | base =>
    exact registry.exists_reachable (fun _ _ => True)
      [.create, .create, .create, .create, .exit 4] (fun R : Registry => R.table = threeTaken 1)
      (by decide +kernel)
  | succ n _ ih =>
    obtain ⟨R, hR, hT⟩ := ih (by omega)
    exact threeTaken_succ (by omega) hT hR

/-- Handle `0xFFFFFC` of slot 0 has been given back, and the next scan looks at slots 1, 2, 3 and 1:
the doubling then dereferences the null pointer in slot 0. -/
theorem scan_misses_free_slot : ∃ R : Registry, registry.Reachable R ∧
    R.table.slots = [none, some 0, some 1, some 2] ∧ R.table.seed = 0xFFFFFD ∧
    R.table.scan R.table.size R.table.seed = none ∧
    R.table.registerService R.handleOf R.count = .error .nullSlot := by
  obtain ⟨R, hR, hT⟩ := exists_threeTaken (n := 0x3FFFFF) (by decide) (by decide)
  have hscan : R.table.scan R.table.size R.table.seed = none := by
    rw [hT]
    decide +kernel
  refine ⟨R, hR, by rw [hT]; rfl, by rw [hT]; rfl, hscan, ?_⟩
  rw [registerService, registerLoop, hscan, hT]
  rfl

end Skynet.Node
