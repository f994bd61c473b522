import Skynet.NodeHandles

/-! # Contexts stand in the slots of their handles

A context registered with handle `h` is put into slot `h & (size - 1)`.  When the table is
doubled, every context moves to the slot of the handle it *stores*, and a context that was
registered a moment ago may not store its handle yet.

`Table.registerLoop_slotted` says what the doubling needs: every context in the table stores
the handle it was issued.  Then no two contexts compete for a slot, since the old table keeps
their handles apart modulo the old size already.  In runs that double the table in such states
only, every context can be found (`registered_context_found`); `racingRun` doubles the table in
another state. -/

namespace Skynet.Node

open List ThreadPool Transition State

namespace Table

/-- Every context stands in the slot of its handle. -/
def Slotted (handleOf : ℕ → ℕ) (slots : List (Option ℕ)) : Prop :=
  ∀ i c, slots[i]? = some (some c) → i = handleOf c &&& (slots.length - 1)

variable {handleOf issued : ℕ → ℕ} {slots : List (Option ℕ)} {c : ℕ}

theorem Slotted.set (h : Slotted handleOf slots) :
    Slotted handleOf (slots.set (handleOf c &&& (slots.length - 1)) (some c)) := by
  intro i d hd
  rw [length_set]
  rw [getElem?_set] at hd
  split_ifs at hd with hi hlt
  · obtain rfl : c = d := by simpa using hd
    exact hi.symm
  · exact h i d hd

theorem Slotted.clear (h : Slotted handleOf slots) (j : ℕ) : Slotted handleOf (slots.set j none) := by
  intro i d hd
  rw [length_set]
  rw [getElem?_set] at hd
  split_ifs at hd with hi hlt
  · cases hd
  · exact h i d hd

theorem slotted_replicate (n : ℕ) : Slotted handleOf (replicate n none) := by
  intro i d hd
  rw [getElem?_replicate] at hd
  split_ifs at hd
  cases hd

theorem refs_pos_iff {T : Table} : 0 < T.refs c ↔ some c ∈ T.slots := by
  constructor
  · intro h
    obtain ⟨i, o, ho, hpos⟩ := exists_of_total_pos h
    obtain rfl : o = some c := of_ite_pos hpos
    exact mem_of_getElem? ho
  · intro h
    obtain ⟨i, hi⟩ := getElem?_of_mem h
    have := le_total (fun o => if o = some c then 1 else 0) hi
    simp only [if_true] at this
    exact this

theorem rehash_congr {new : List (Option ℕ)} (he : ∀ c, some c ∈ slots → handleOf c = issued c) :
    rehash handleOf slots new = rehash issued slots new := by
  induction slots generalizing new with
  | nil => rfl
  | cons o rest ih =>
    cases o with
    | none => rfl
    | some c =>
      simp only [rehash, he c mem_cons_self]
      rw [ih fun d hd => he d (mem_cons_of_mem _ hd)]

theorem rehash_length : ∀ {slots new new' : List (Option ℕ)}, rehash handleOf slots new = .ok new' →
    new'.length = new.length
  | [], new, new', hr => by
      simp only [rehash, Except.ok.injEq] at hr
      rw [hr]
  | none :: _, _, _, hr => by simp [rehash] at hr
  | some c :: rest, new, new', hr => by
      simp only [rehash] at hr
      split_ifs at hr with hfree
      rw [rehash_length hr, length_set]

theorem rehash_slotted : ∀ {slots new new' : List (Option ℕ)},
    rehash handleOf slots new = .ok new' → Slotted handleOf new → Slotted handleOf new'
  | [], new, new', hr, h => by
      simp only [rehash, Except.ok.injEq] at hr
      rwa [← hr]
  | none :: _, _, _, hr, _ => by simp [rehash] at hr
  | some c :: rest, new, new', hr, h => by
      simp only [rehash] at hr
      split_ifs at hr with hfree
      exact rehash_slotted hr h.set

/-- Before the loop comes to index `j` of the old table, the doubled table only has contexts
with handles below `j` modulo the old size: the slot of the next one is free. -/
theorem rehash_ne_slotTaken {k : ℕ} : ∀ {slots new : List (Option ℕ)} (j : ℕ),
    (∀ i c, slots[i]? = some (some c) → j + i = handleOf c % 2 ^ k) →
    new.length = 2 ^ (k + 1) → Slotted handleOf new →
    (∀ d, some d ∈ new → handleOf d % 2 ^ k < j) → rehash handleOf slots new ≠ .error .slotTaken
  | [], _, _, _, _, _, _ => by simp [rehash]
  | none :: _, _, _, _, _, _, _ => by simp [rehash]
  | some c :: rest, new, j, hslots, hlen, hnew, hlow => by
      have hc : j = handleOf c % 2 ^ k := hslots 0 c rfl
      have hlt : handleOf c &&& (new.length - 1) < new.length := by
        rw [hlen, Nat.and_two_pow_sub_one_eq_mod]
        exact Nat.mod_lt _ (Nat.two_pow_pos _)
      have hfree : new[handleOf c &&& (new.length - 1)]? = some none := by
        cases ho : new[handleOf c &&& (new.length - 1)]? with
        | none => exact absurd (getElem?_eq_none_iff.1 ho) (by omega)
        | some o =>
          cases o with
          | none => rfl
          | some d =>
            have hd := hnew _ d ho
            have hdlow := hlow d (mem_of_getElem? ho)
            rw [hlen, Nat.and_two_pow_sub_one_eq_mod, Nat.and_two_pow_sub_one_eq_mod] at hd
            have hmod := congrArg (· % 2 ^ k) hd
            simp only [Nat.mod_mod_of_dvd _ (pow_dvd_pow 2 (Nat.le_succ k))] at hmod
            omega
      simp only [rehash, if_pos hfree]
      refine rehash_ne_slotTaken (j + 1) (fun i d hd => ?_) (by rw [length_set, hlen]) hnew.set
        fun d hd => ?_
      · have := hslots (i + 1) d hd
        omega
      · rcases mem_or_eq_of_mem_set hd with hd | hd
        · exact (hlow d hd).trans (Nat.lt_succ_self j)
        · cases hd
          omega

theorem rehash_double {k : ℕ} (hlen : slots.length = 2 ^ k) (h : Slotted issued slots)
    (he : ∀ c, some c ∈ slots → handleOf c = issued c) :
    rehash handleOf slots (replicate (2 * 2 ^ k) none) ≠ .error .slotTaken ∧
    ∀ new, rehash handleOf slots (replicate (2 * 2 ^ k) none) = .ok new →
      new.length = 2 ^ (k + 1) ∧ Slotted issued new := by
  rw [rehash_congr he]
  have hnew : (replicate (2 * 2 ^ k) (none : Option ℕ)).length = 2 ^ (k + 1) := by
    rw [length_replicate, pow_succ, mul_comm]
  refine ⟨rehash_ne_slotTaken 0 (fun i c hc => ?_) hnew (slotted_replicate _) fun d hd => ?_,
    fun new hr => ⟨(rehash_length hr).trans hnew, rehash_slotted hr (slotted_replicate _)⟩⟩
  · rw [zero_add, h i c hc, hlen, Nat.and_two_pow_sub_one_eq_mod]
  · cases eq_of_mem_replicate hd

/-- `register_service` keeps every context in the slot of its handle if the contexts store
their handles whenever it has to double the table. -/
theorem registerLoop_slotted : ∀ {fuel k : ℕ} {T : Table}, T.size = 2 ^ k →
    Slotted issued T.slots → T.refs c = 0 →
    (T.scan T.size T.seed = none → ∀ d, 0 < T.refs d → handleOf d = issued d) →
    registerLoop handleOf c fuel T ≠ .error .slotTaken ∧
    ∀ h T', registerLoop handleOf c fuel T = .ok (h, T') →
      (∃ k', T'.size = 2 ^ k') ∧ Slotted (Function.update issued c h) T'.slots
  | 0, _, _, _, _, _, _ => by simp [registerLoop]
  | fuel + 1, k, T, hsize, hT, hc, he => by
      rw [registerLoop]
      cases hscan : T.scan T.size T.seed with
      | some h =>
        refine ⟨by simp, fun h' T' hr => ?_⟩
        cases hr
        refine ⟨⟨k, by simpa [size] using hsize⟩, ?_⟩
        have hold : Slotted (Function.update issued c h) T.slots := fun i d hd => by
          have hne : d ≠ c := by
            rintro rfl
            have := refs_pos_iff.2 (mem_of_getElem? hd)
            omega
          rw [Function.update_of_ne hne]
          exact hT i d hd
        simpa [hash, size] using hold.set (c := c)
      | none =>
        split_ifs with hfull
        · have hsettled : ∀ d, some d ∈ T.slots → handleOf d = issued d := fun d hd =>
            he hscan d (refs_pos_iff.2 hd)
          obtain ⟨hne, hok⟩ := rehash_double hsize hT hsettled
          cases hre : rehash handleOf T.slots (replicate (2 * T.size) none) with
          | error e =>
            rw [← hsize, hre] at hne
            exact ⟨fun h => hne (congrArg _ (Except.error.inj h)), by simp⟩
          | ok new =>
            obtain ⟨hlen, hnew⟩ := hok new (by rw [← hsize, hre])
            have hrefs := rehash_refs T.seed hre
            refine registerLoop_slotted hlen hnew ((hrefs c).trans hc)
              fun _ d hd => ?_
            exact he hscan d (hrefs d ▸ hd)
        · exact ⟨by simp, by simp⟩

end Table

/-! ### Runs that double the table in settled states -/

/-- In this step `register_service` does not double the table while a context in it has not
stored its handle. -/
def State.Settled (s : State) : Action → Prop
  | .start _ => True
  | .run i _ => ∀ c, s.acts[i]? = some (.register c) →
      s.table.scan s.table.size s.table.seed = none →
        ∀ d, 0 < s.table.refs d → (s.ctxs d).svcHandle = (s.ctxs d).issued

theorem State.setCtx_issued {s t : State} {c : ℕ} {x : ServiceContext}
    (ht : t.ctxs = (s.setCtx c x).ctxs) (hx : x.issued = (s.ctxs c).issued) (d : ℕ) :
    (t.ctxs d).issued = (s.ctxs d).issued := by
  rw [ht]
  exact setCtx_field (·.issued) hx d

/-- Every context stands in the slot of the handle it was issued. -/
structure Slots (s : State) : Prop where
  size : ∃ k, s.table.size = 2 ^ k
  slotted : Table.Slotted (fun c => (s.ctxs c).issued) s.table.slots
  fault : s.fault ≠ some .slotTaken

namespace Slots

variable {s t : State} {i : ℕ} {p : Pc}

theorem init : Slots State.init := ⟨⟨2, rfl⟩, Table.slotted_replicate _, nofun⟩

theorem quiet (h : Slots s) (htable : t.table = s.table)
    (hissued : ∀ c, 0 < s.table.refs c → (t.ctxs c).issued = (s.ctxs c).issued)
    (hfault : t.fault = s.fault) : Slots t := by
  refine ⟨htable ▸ h.size, fun j c hc => ?_, hfault ▸ h.fault⟩
  rw [htable] at hc ⊢
  have hpos := Table.refs_pos_iff.2 (mem_of_getElem? hc)
  simpa only [hissued c hpos] using h.slotted j c hc

theorem start (h : Slots s) (hr : Refs s) (task : Task) : Slots (s.start task) := by
  cases task with
  | createService =>
    refine h.quiet rfl (fun c hc => ?_) rfl
    have hne : c ≠ s.nctx := by
      rintro rfl
      have := (hr.dead s.nctx (hr.fresh _ le_rfl)).1
      omega
    exact congrArg _ (s.newService_ctxs.2 c hne)
  | _ => exact h.quiet rfl (fun _ _ => rfl) rfl

theorem crash (h : Slots s) (hi : Issued s) (hp : s.acts[i]? = some p) {f : Fault}
    (hf : Crashes s p f)
    (hset : ∀ c, p = .register c → s.table.scan s.table.size s.table.seed = none →
      ∀ d, 0 < s.table.refs d → (s.ctxs d).svcHandle = (s.ctxs d).issued) : Slots (s.crash f) := by
  refine ⟨h.size, h.slotted, fun he => ?_⟩
  cases he
  cases hf with
  | @register c _ hreg =>
    obtain ⟨k, hk⟩ := h.size
    obtain ⟨_, _, hc⟩ := hi.known i _ hp
    exact (Table.registerLoop_slotted hk h.slotted hc (hset c rfl)).1 hreg

/-- **Slots**: every step keeps the contexts in the slots of their handles. -/
theorem effect (h : Slots s) (hi : Issued s) {ok : Bool} (hp : s.acts[i]? = some p)
    (ht : Effect s i ok p t)
    (hset : ∀ c, p = .register c → s.table.scan s.table.size s.table.seed = none →
      ∀ d, 0 < s.table.refs d → (s.ctxs d).svcHandle = (s.ctxs d).issued) : Slots t := by
  cases ht with
  | crash hf => exact h.crash hi hp hf hset
  | @registered c k T hreg =>
    obtain ⟨n, hn⟩ := h.size
    obtain ⟨_, _, hc⟩ := hi.known i _ hp
    obtain ⟨hsize, hslotted⟩ :=
      (Table.registerLoop_slotted hn h.slotted hc (hset c rfl)).2 k T hreg
    refine ⟨hsize, fun j d hd => ?_, h.fault⟩
    rw [hslotted j d hd]
    by_cases hdc : d = c
    · simp [hdc, goto, setCtx]
    · simp [hdc, goto, setCtx]
  | unregistered hf => exact ⟨by simpa [Table.clear, Table.size, goto] using h.size,
      h.slotted.clear _, h.fault⟩
  | grabbed | released | lastReleased | deleted | stored | built =>
    refine h.quiet rfl (fun c _ => setCtx_issued rfl ?_ c) rfl
    rfl
  | control | marked | markedIdle | initFailed | accepted | acceptedIdle | linked | unlinked
  | emptied | taken | dropEmptied | dropTaken | reported | queueDeleted =>
    exact h.quiet rfl (fun _ _ => rfl) rfl

end Slots

/-- The invariant of runs that double the table in settled states. -/
structure Registered (s : State) : Prop where
  sane : Sane False s
  issued : Issued s
  slots : Slots s

namespace Registered

theorem init : Registered State.init := ⟨Sane.init, Issued.init, Slots.init⟩

theorem step (s : State) (a : Action) (t : State) (h : Registered s) (hset : s.Settled a)
    (hs : s.step a = some t) : Registered t := by
  obtain ⟨_, ⟨task, rfl, rfl⟩ | ⟨i, ok, p, rfl, hp, ht⟩⟩ := step_cases hs
  · exact ⟨h.sane.start task, h.issued.start h.sane.refs task, h.slots.start h.sane.refs task⟩
  · refine ⟨h.sane.effect hp ht nofun, h.issued.effect h.sane.owners h.sane.refs hp ht,
      h.slots.effect h.issued hp ht fun c hpc => hset c (hpc ▸ hp)⟩

end Registered

/-- **Handle table.**  In every run that doubles the table in settled states only, every
registered context stands in the slot of its handle and is found there once it stores the
handle, and the assertion of the doubling loop does not fail. -/
theorem registered_context_found {s : State} (h : node.ReachableVia State.Settled s) :
    (∀ i c, s.table.slots[i]? = some (some c) → i = s.table.hash (s.ctxs c).issued) ∧
    (∀ c, some c ∈ s.table.slots →
      (s.find (s.ctxs c).issued = some c ↔ (s.ctxs c).svcHandle = (s.ctxs c).issued)) ∧
    s.fault ≠ some .slotTaken := by
  have hreg := h.invariant Registered.init Registered.step
  refine ⟨hreg.slots.slotted, fun c hc => ?_, hreg.slots.fault⟩
  obtain ⟨i, hi⟩ := getElem?_of_mem hc
  have hslot : s.table.at? (s.ctxs c).issued = some c := by
    unfold Table.at?
    rw [show s.table.hash (s.ctxs c).issued = i from (hreg.slots.slotted i c hi).symm, hi]
    rfl
  unfold find
  rw [hslot]
  simp

/-- Four services and a fifth one for which the table is doubled after all have stored their
handles. -/
theorem registered_context_found_doubled : ∃ s, node.ReachableVia State.Settled s ∧
    s.table.size = 8 ∧ (s.ctxs 3).issued = 4 ∧ s.find 4 = some 3 := by
  have h0 : node.ReachableVia State.Settled init := .init
  have h13 := h0.next (.start .createService) trivial rfl
    |>.next (.run 0 true) (fun _ _ hfull => absurd hfull (by decide)) rfl
    |>.next (.run 0 true) nofun rfl |>.next (.start .createService) trivial rfl
    |>.next (.run 1 true) (fun _ _ hfull => absurd hfull (by decide)) rfl
    |>.next (.run 1 true) nofun rfl |>.next (.start .createService) trivial rfl
    |>.next (.run 2 true) (fun _ _ hfull => absurd hfull (by decide)) rfl
    |>.next (.run 2 true) nofun rfl |>.next (.start .createService) trivial rfl
    |>.next (.run 3 true) (fun _ _ hfull => absurd hfull (by decide)) rfl
    |>.next (.run 3 true) nofun rfl |>.next (.start .createService) trivial rfl
  have h14 := h13.next (.run 4 true) (fun _ _ _ d hd => ?_) rfl
  · exact ⟨_, h14, rfl, rfl, ((registered_context_found h14).2.1 3 (by decide)).mpr rfl⟩
  · have hmem : some d ∈ [some 3, some 0, some 1, some 2] := Table.refs_pos_iff.1 hd
    simp only [mem_cons, Option.some.injEq, not_mem_nil, or_false] at hmem
    rcases hmem with rfl | rfl | rfl | rfl <;> rfl

/-- Five services are created; the table is doubled for the last one while the handle of the
fourth one, number 3, is not stored. -/
def racingRun : List Action :=
  [.start .createService, .run 0 true, .run 0 true, .start .createService, .run 1 true, .run 1 true,
    .start .createService, .run 2 true, .run 2 true, .start .createService, .run 3 true,
    .start .createService, .run 4 true, .run 3 true]

/-- Here the handle of the third one is not stored either. -/
def collidingRun : List Action :=
  [.start .createService, .run 0 true, .run 0 true, .start .createService, .run 1 true, .run 1 true,
    .start .createService, .run 2 true, .start .createService, .run 3 true,
    .start .createService, .run 4 true]

/-- The doubling puts the context of the fourth service into slot 0 and not into the slot of
its handle: it is not found after its handle is stored.  With two handles not stored, the
assertion of the doubling loop fails. -/
theorem doubling_misplaces_context :
    (∃ s, node.exec init racingRun = some s ∧ s.fault = none ∧
      (s.ctxs 3).svcHandle = 4 ∧ (s.ctxs 3).issued = 4 ∧ s.table.slots[0]? = some (some 3) ∧
      s.table.hash 4 ≠ 0 ∧ s.find 4 = none) ∧
    ∃ s, node.exec init collidingRun = some s ∧ s.fault = some .slotTaken :=
  ⟨⟨_, rfl, rfl, rfl, rfl, rfl, by decide, rfl⟩, _, rfl, rfl⟩

end Skynet.Node
