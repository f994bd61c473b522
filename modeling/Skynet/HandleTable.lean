import Skynet.ThreadPool

/-! # The handle table of `service_manager`

`svc_ctx_slot_` maps handles to service contexts: a context registered with handle `h` is
meant to stand in slot `h & (svc_ctx_slot_size_ - 1)`.  The table is the list of its slots;
contexts are named by numbers, and a null slot is `none`.

`registerService` looks for a free slot from the seed on; when it finds none it doubles the
table and puts every context where the handle stored in the context says (`handleOf`).  All
of it runs under the write lock.  An assertion that fails or a null context that is
dereferenced is a `Fault`. -/

namespace Skynet.Node

open ThreadPool List

/-- The ways in which the process stops. -/
inductive Fault where
  /-- `assert((svc_ctx_slot_size_ * 2 - 1) <= HANDLE_MASK)` in `register_service` -/
  | tableFull
  /-- the doubling loop of `register_service` meets a null slot -/
  | nullSlot
  /-- `assert(new_slot[hash] == nullptr)` in `register_service` -/
  | slotTaken
  /-- `svc_ctx->queue_->push` before the queue is created -/
  | nullQueue
  /-- `assert(q->next_ == nullptr)` in `mq_global::push` -/
  | linked
  /-- `assert(mq == tail_)` in `mq_global::pop` -/
  | badTail
  /-- `assert(!is_release_)` in `mq_private::mark_release` -/
  | releasedTwice
  /-- `assert(q->next_ == nullptr)` in `mq_private::_drop_queue` -/
  | droppedLinked
  /-- `assert(src_svc_handle != 0)` in `drop_message` -/
  | zeroHandle
  /-- `assert(q == svc_ctx->queue_)` in `node::dispatch_message` -/
  | wrongQueue
deriving DecidableEq, Repr

def HANDLE_MASK : ℕ := 0x00FFFFFF
def DEFAULT_SLOT_SIZE : ℕ := 4

/-- The slots and `alloc_svc_handle_seed_`. -/
structure Table where
  slots : List (Option ℕ)
  seed : ℕ
deriving DecidableEq, Repr

namespace Table

def init : Table := ⟨List.replicate DEFAULT_SLOT_SIZE none, 1⟩

/-- `svc_ctx_slot_size_` -/
def size (T : Table) : ℕ := T.slots.length

/-- The slot of a handle. -/
def hash (T : Table) (h : ℕ) : ℕ := h &&& (T.size - 1)

/-- The context in the slot of `h`. -/
def at? (T : Table) (h : ℕ) : Option ℕ := (T.slots[T.hash h]?).join

/-- The inner loop of `register_service` with `n` rounds to go: the first handle from `h` on
whose slot is free. -/
def scan (T : Table) : ℕ → ℕ → Option ℕ
  | 0, _ => none
  | n + 1, h =>
    let h := if h > HANDLE_MASK then 1 else h
    if T.slots[T.hash h]? = some none then some h else scan T n (h + 1)

/-- The loop that fills the doubled table. -/
def rehash (handleOf : ℕ → ℕ) : List (Option ℕ) → List (Option ℕ) → Except Fault (List (Option ℕ))
  | [], newSlot => .ok newSlot
  | none :: _, _ => .error .nullSlot
  | some c :: rest, newSlot =>
    let hash := handleOf c &&& (newSlot.length - 1)
    if newSlot[hash]? = some none then rehash handleOf rest (newSlot.set hash (some c))
    else .error .slotTaken

/-- The outer loop of `register_service`.  Every round doubles the table, and the assertion
fails before it has more than `2 ^ 24` slots: `fuel` for 25 rounds is never used up. -/
def registerLoop (handleOf : ℕ → ℕ) (c : ℕ) : ℕ → Table → Except Fault (ℕ × Table)
  | 0, _ => .error .tableFull
  | fuel + 1, T =>
    match T.scan T.size T.seed with
    | some h => .ok (h, ⟨T.slots.set (T.hash h) (some c), h + 1⟩)
    | none =>
      if T.size * 2 - 1 ≤ HANDLE_MASK then
        match rehash handleOf T.slots (replicate (2 * T.size) none) with
        | .ok newSlot => registerLoop handleOf c fuel ⟨newSlot, T.seed⟩
        | .error e => .error e
      else .error .tableFull

def registerService (T : Table) (handleOf : ℕ → ℕ) (c : ℕ) : Except Fault (ℕ × Table) :=
  registerLoop handleOf c 25 T

/-- Clear the slot of `h`. -/
def clear (T : Table) (h : ℕ) : Table := { T with slots := T.slots.set (T.hash h) none }

/-! ### References from slots -/

/-- The number of slots that hold `c`. -/
def refs (T : Table) (c : ℕ) : ℕ := total (fun o => if o = some c then 1 else 0) T.slots

variable {T : Table} {handleOf : ℕ → ℕ}

theorem at?_eq_some {h c : ℕ} (ha : T.at? h = some c) : T.slots[T.hash h]? = some (some c) := by
  simpa [at?, Option.join_eq_some_iff] using ha

theorem refs_pos_of_at? {h c : ℕ} (ha : T.at? h = some c) : 0 < T.refs c := by
  have := le_total (fun o => if o = some c then 1 else 0) (at?_eq_some ha)
  simp only [if_true] at this
  exact this

/-- The slot of `h` holds `x` now. -/
theorem refs_set {h : ℕ} {o : Option ℕ} (x : Option ℕ) (seed : ℕ) (ho : T.slots[T.hash h]? = some o)
    (d : ℕ) : refs ⟨T.slots.set (T.hash h) x, seed⟩ d + (if o = some d then 1 else 0) =
      T.refs d + if x = some d then 1 else 0 :=
  total_set _ x ho

theorem refs_clear {h c : ℕ} (ha : T.at? h = some c) (d : ℕ) :
    (T.clear h).refs d + (if c = d then 1 else 0) = T.refs d := by
  have := refs_set none T.seed (at?_eq_some ha) d
  simpa [clear] using this

theorem scan_eq_some {T : Table} : ∀ {n h k : ℕ}, T.scan n h = some k →
    T.slots[T.hash k]? = some none
  | 0, _, _, hs => by simp [scan] at hs
  | n + 1, h, k, hs => by
      simp only [scan] at hs
      split_ifs at hs with h1 h2 h2
      · cases hs
        exact h2
      · exact scan_eq_some hs
      · cases hs
        exact h2
      · exact scan_eq_some hs

theorem rehash_total {handleOf : ℕ → ℕ} (f : Option ℕ → ℕ) (hf : f none = 0) :
    ∀ {slots new new' : List (Option ℕ)}, rehash handleOf slots new = .ok new' →
      total f new' = total f slots + total f new
  | [], new, new', hr => by
      simp only [rehash, Except.ok.injEq] at hr
      simp [hr]
  | none :: rest, new, new', hr => by simp [rehash] at hr
  | some c :: rest, new, new', hr => by
      simp only [rehash] at hr
      split_ifs at hr with hfree
      have hrest := rehash_total f hf hr
      have hset := total_set f (some c) hfree
      rw [total_cons]
      omega

theorem total_replicate_none (f : Option ℕ → ℕ) (hf : f none = 0) (n : ℕ) :
    total f (replicate n none) = 0 :=
  total_eq_zero fun o ho => by rw [eq_of_mem_replicate ho, hf]

/-- The tables `register_service` goes through: the table itself, and a doubled one after every scan
that found nothing. -/
inductive Grown (handleOf : ℕ → ℕ) : Table → Table → Prop
  | refl (T : Table) : Grown handleOf T T
  | double {T T₀ : Table} {new : List (Option ℕ)} :
      T.scan T.size T.seed = none → T.size * 2 - 1 ≤ HANDLE_MASK →
      rehash handleOf T.slots (replicate (2 * T.size) none) = .ok new →
      Grown handleOf ⟨new, T.seed⟩ T₀ → Grown handleOf T T₀

/-- The new context is put into a slot that the scan of the last of these tables found free. -/
theorem registerLoop_ok {handleOf : ℕ → ℕ} {c : ℕ} : ∀ {fuel : ℕ} {T T' : Table} {h : ℕ},
    registerLoop handleOf c fuel T = .ok (h, T') →
      ∃ T₀, Grown handleOf T T₀ ∧ T₀.scan T₀.size T₀.seed = some h ∧
        T' = ⟨T₀.slots.set (T₀.hash h) (some c), h + 1⟩
  | 0, _, _, _, hr => by cases hr
  | fuel + 1, T, T', h, hr => by
      rw [registerLoop] at hr
      cases hscan : T.scan T.size T.seed with
      | some k =>
        simp only [hscan, Except.ok.injEq, Prod.mk.injEq] at hr
        obtain ⟨rfl, rfl⟩ := hr
        exact ⟨T, .refl T, hscan, rfl⟩
      | none =>
        simp only [hscan] at hr
        split_ifs at hr with hsize
        cases hre : rehash handleOf T.slots (replicate (2 * T.size) none) with
        | error e => simp [hre] at hr
        | ok new =>
          simp only [hre] at hr
          obtain ⟨T₀, hgrown, hrest⟩ := registerLoop_ok hr
          exact ⟨T₀, .double hscan hsize hre hgrown, hrest⟩

theorem rehash_refs {new : List (Option ℕ)} (seed : ℕ)
    (hre : rehash handleOf T.slots (replicate (2 * T.size) none) = .ok new) (d : ℕ) :
    refs ⟨new, seed⟩ d = T.refs d := by
  have := rehash_total (fun o => if o = some d then 1 else 0) rfl hre
  rwa [total_replicate_none _ rfl, add_zero] at this

theorem Grown.refs {T₀ : Table} (hg : Grown handleOf T T₀) (d : ℕ) : T₀.refs d = T.refs d := by
  induction hg with
  | refl T => rfl
  | double _ _ hre _ ih => rw [ih, rehash_refs _ hre]

theorem Grown.seed {T₀ : Table} (hg : Grown handleOf T T₀) : T₀.seed = T.seed := by
  induction hg with
  | refl T => rfl
  | double _ _ _ _ ih => exact ih

/-- Registering adds one slot for the new context and keeps the others, also across
doublings of the table. -/
theorem registerLoop_refs {c fuel h : ℕ} {T' : Table}
    (hr : registerLoop handleOf c fuel T = .ok (h, T')) (d : ℕ) :
    T'.refs d = T.refs d + if c = d then 1 else 0 := by
  obtain ⟨T₀, hgrown, hscan, rfl⟩ := registerLoop_ok hr
  have := refs_set (some c) (h + 1) (scan_eq_some hscan) d
  simpa [hgrown.refs] using this

theorem scan_pos {T : Table} : ∀ {n h k : ℕ}, T.scan n h = some k → 1 ≤ h → 1 ≤ k
  | 0, _, _, hs, _ => by simp [scan] at hs
  | n + 1, h, k, hs, hh => by
      simp only [scan] at hs
      split_ifs at hs with h1 h2 h2
      · exact (Option.some.inj hs).le
      · exact scan_pos hs (by omega)
      · exact hh.trans (Option.some.inj hs).le
      · exact scan_pos hs (by omega)

theorem registerLoop_pos {c fuel h : ℕ} {T' : Table}
    (hr : registerLoop handleOf c fuel T = .ok (h, T')) (hseed : 1 ≤ T.seed) :
    1 ≤ h ∧ 1 ≤ T'.seed := by
  obtain ⟨T₀, hgrown, hscan, rfl⟩ := registerLoop_ok hr
  exact ⟨scan_pos hscan (by rwa [hgrown.seed]), Nat.le_add_left 1 h⟩

/-- The faults of `register_service`. -/
theorem registerLoop_fault {handleOf : ℕ → ℕ} {c : ℕ} {f : Fault} : ∀ {fuel : ℕ} {T : Table},
    registerLoop handleOf c fuel T = .error f →
      f = .tableFull ∨ f = .nullSlot ∨ f = .slotTaken
  | 0, T, hr => by
      simp only [registerLoop, Except.error.injEq] at hr
      exact .inl hr.symm
  | fuel + 1, T, hr => by
      rw [registerLoop] at hr
      cases hs : T.scan T.size T.seed with
      | some k => simp [hs] at hr
      | none =>
        simp only [hs] at hr
        split_ifs at hr with hsize
        · cases hre : rehash handleOf T.slots (replicate (2 * T.size) none) with
          | ok new =>
            simp only [hre] at hr
            exact registerLoop_fault hr
          | error e =>
            simp only [hre, Except.error.injEq] at hr
            subst hr
            exact .inr (rehash_fault hre)
        · exact .inl (Except.error.inj hr).symm
where
  rehash_fault {e : Fault} : ∀ {slots new : List (Option ℕ)},
      rehash handleOf slots new = .error e → e = .nullSlot ∨ e = .slotTaken
    | [], _, hr => by simp [rehash] at hr
    | none :: _, _, hr => by
        simp only [rehash, Except.error.injEq] at hr
        exact .inl hr.symm
    | some d :: rest, new, hr => by
        simp only [rehash] at hr
        split_ifs at hr with hfree
        · exact rehash_fault hr
        · exact .inr (Except.error.inj hr).symm

end Table

end Skynet.Node
