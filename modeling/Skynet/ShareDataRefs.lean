import Skynet.ShareDatad

/-! # References to shared tables

`sharedatad` counts the references to an object: one while it is in the pool, one for each reply to
`query` and `monitor` until the client confirms it, and one for each box.  A client boxes an object
before it confirms the reply that brought it, and the finalizer of a box gives its reference back.

`core.new` does not set the count of a new object: the balance needs memory that holds 0.  The count
is a 32-bit number, and it is negative from 2³¹ references on. -/

namespace Skynet.ShareDatad

open Function List Transition

variable {V : Type}

/-- The objects in the replies of a step to `query` and `monitor`. -/
def replies (host : Host V) (s : Service V) : Label V → List ℕ
  | .query name =>
    match query name s with
    | .ok obj _ => [obj]
    | .error _ _ => []
  | .monitor name obj id alive =>
    match monitor name obj id alive s with
    | .ok r _ => r.toList
    | .error _ _ => []
  | .update name t cobj junk =>
    ((after (update host name t cobj junk) s).responses.drop s.responses.length).filterMap (·.2)
  | _ => []

/-- The service with the number of boxes of each object and of the replies that carry it and are
not confirmed. -/
structure World (V : Type) where
  svc : Service V
  boxes : ℕ → ℕ
  pending : ℕ → ℕ

/-- A client boxes and confirms what it was sent, and releases a box once. -/
def World.allows (w : World V) : Label V → Bool
  | .confirm o | .box o => w.pending o ≠ 0
  | .release o => w.boxes o ≠ 0
  | _ => true

def World.step (host : Host V) (w : World V) (a : Label V) : Option (World V) :=
  if w.allows a then
    (ShareDatad.step host w.svc a).map fun t =>
      { svc := t
        boxes := match a with
          | .box o => Function.update w.boxes o (w.boxes o + 1)
          | .release o => Function.update w.boxes o (w.boxes o - 1)
          | _ => w.boxes
        pending := match a with
          | .confirm o => Function.update w.pending o (w.pending o - 1)
          | a => fun o => w.pending o + (replies host w.svc a).count o }
  else none

/-- The service and its clients. -/
def world (host : Host V) : System (World V) (Label V) :=
  ⟨⟨(system host).init, fun _ => 0, fun _ => 0⟩, World.step host⟩

/-- The memory of a new object holds 0. -/
def zeroed : Label V → Prop
  | .new _ _ _ junk | .update _ _ _ junk => junk = 0
  | _ => True

/-- No object has so many boxes and replies that its count is negative. -/
def World.Few (w : World V) : Prop := ∀ o, 1 + w.boxes o + w.pending o < 2 ^ 31

/-- The memory of new objects holds 0 and the collector sees no negative count. -/
def Tame (w : World V) (a : Label V) : Prop := zeroed a ∧ w.Few

def InPool (s : Service V) (o : ℕ) : Prop := ∃ n v, s.pool n = some v ∧ v.obj = o

theorem toInt_natCast {n : ℕ} (h : n < 2 ^ 31) : (n : BitVec 32).toInt = n := by
  have hcast : (n : BitVec 32).toNat = n :=
    (BitVec.toNat_ofNat n 32).trans (Nat.mod_eq_of_lt (by omega))
  rw [BitVec.toInt_eq_toNat_of_lt (by omega), hcast]

/-- The count of an object that has `b` boxes and `p` replies not confirmed. -/
def Counted (s : Service V) (o b p : ℕ) : Prop :=
  match s.objmap o with
  | some .entry => InPool s o ∧ s.ref o = ↑(1 + b + p)
  | some .collect => s.ref o = ↑(b + p)
  | none => b = 0 ∧ p = 0

variable {host : Host V} {s s' : Service V} {name : String} {v : Entry V} {o x : ℕ}

theorem Counted.congr {b p b' p' : ℕ} (h : Counted s o b p) (hmap : s'.objmap o = s.objmap o)
    (hin : InPool s o → InPool s' o) (href : s'.ref o - b' - p' = s.ref o - b - p)
    (hgone : s.objmap o = none → b' = b ∧ p' = p) : Counted s' o b' p' := by
  unfold Counted at h ⊢
  rw [hmap]
  push_cast at h ⊢
  split at h
  · exact ⟨hin h.1, by linear_combination href + h.2⟩
  · linear_combination href + h
  · next hnone =>
    obtain ⟨rfl, rfl⟩ := hgone hnone
    exact h

theorem InPool.of_ne {f : Option (Entry V)} (h : InPool s o)
    (hpool : s'.pool = Function.update s.pool name f) (hname : ∀ v ∈ s.pool name, v.obj ≠ o) :
    InPool s' o := by
  obtain ⟨n, v, hv, rfl⟩ := h
  have hn : n ≠ name := by
    rintro rfl
    exact hname v hv rfl
  exact ⟨n, v, by rw [hpool, update_of_ne hn, hv], rfl⟩

namespace Counted

variable {b b' p : ℕ → ℕ} (h : ∀ o, Counted s o (b o) (p o))
include h

theorem known (hx : b x ≠ 0 ∨ p x ≠ 0) : s.objmap x ≠ none := by
  intro hnone
  have := h x
  simp only [Counted, hnone] at this
  omega

theorem setRef (p' : ℕ → ℕ) (hx : s.objmap x ≠ none) {r : BitVec 32}
    (href : r - b' x - p' x = s.ref x - b x - p x)
    (hother : ∀ o, o ≠ x → b' o = b o ∧ p' o = p o) (o : ℕ) :
    Counted { s with ref := Function.update s.ref x r } o (b' o) (p' o) := by
  by_cases ho : o = x
  · subst ho
    exact (h o).congr rfl id (by simpa using href) fun hnone => absurd hnone hx
  · obtain ⟨hb, hp⟩ := hother o ho
    exact (h o).congr rfl id (by simp [ho, hb, hp]) fun _ => ⟨hb, hp⟩

/-- `n` replies carry the object `x`. -/
theorem reply (hx : s.objmap x ≠ none) (n o : ℕ) :
    Counted { s with ref := Function.update s.ref x (s.ref x + n) } o (b o)
      (p o + (replicate n x).count o) :=
  setRef h (fun o => p o + (replicate n x).count o) hx (by simp only [count_replicate_self]; push_cast; ring)
    (fun o ho => ⟨rfl, by simp [count_replicate, ho.symm]⟩) o

theorem added (value : V) (hfresh : s.objmap x = none) (hname : s.pool name = none)
    (o : ℕ) : Counted (s.added name value x 0) o (b o) (p o) := by
  by_cases ho : o = x
  · subst ho
    have := h o
    simp only [Counted, hfresh] at this
    simp only [Counted, Service.added, update_self, this]
    exact ⟨⟨name, _, update_self .., rfl⟩, rfl⟩
  · exact (h o).congr (update_of_ne ho ..) (·.of_ne rfl (by simp [hname]))
      (by simp only [Service.added, update_of_ne ho]) fun _ => ⟨rfl, rfl⟩

theorem dismantled (hs : Sound s) (hv : s.pool name = some v) (o : ℕ) :
    Counted (s.dismantled name v) o (b o) (p o) := by
  by_cases ho : o = v.obj
  · have := h o
    simp only [Counted, ho, hs.owned hv] at this
    simp only [Counted, Service.dismantled, ho, update_self]
    push_cast at this ⊢
    linear_combination this.2
  · exact (h o).congr (update_of_ne ho ..) (·.of_ne rfl (by simp [hv, Ne.symm ho]))
      (by simp only [Service.dismantled, update_of_ne ho]) fun _ => ⟨rfl, rfl⟩

end Counted

open Counted

theorem after_confirm (hx : s.objmap x ≠ none) : after (confirm x) s = after (decref x) s := by
  simp only [after, confirm, get_bind, if_pos hx]

theorem World.counted {w : World V} (h : (world host).ReachableVia Tame w) :
    Sound w.svc ∧ ∀ o, Counted w.svc o (w.boxes o) (w.pending o) := by
  induction h with
  | init => exact ⟨⟨nofun, nofun⟩, fun _ => ⟨rfl, rfl⟩⟩
  | @step w _ a _ htame hstep hw =>
    obtain ⟨hs, hw⟩ := hw
    have hknown {n : String} {v : Entry V} (hv : w.svc.pool n = some v) :
        w.svc.objmap v.obj ≠ none := by
      rw [hs.owned hv]
      nofun
    simp only [world, World.step] at hstep
    split_ifs at hstep with hok
    obtain ⟨t, ht, rfl⟩ := Option.map_eq_some_iff.mp hstep
    refine ⟨hs.step ht, ?_⟩
    cases a with
    | new name arg cobj junk =>
      obtain rfl : junk = 0 := htame.1
      simp only [ShareDatad.step] at ht
      split_ifs at ht with hfresh
      cases ht
      simp only [after]
      obtain ⟨e, he⟩ | ⟨hname, value, he⟩ := new_cases host name arg cobj 0 w.svc <;> rw [he]
      · exact hw
      · exact added hw value hfresh hname
    | delete name =>
      cases ht
      obtain ⟨-, he⟩ | ⟨v, sent, hv, he⟩ := hs.delete_cases name <;> rw [he]
      · exact hw
      · exact dismantled hw hs hv
    | query name =>
      cases ht
      simp only [replies, after]
      cases hpool : w.svc.pool name with
      | none =>
        rw [query_of_none hpool]
        exact hw
      | some v =>
        rw [query_of_some hpool]
        exact reply hw (hknown hpool) 1
    | update name arg cobj junk =>
      obtain rfl : junk = 0 := htame.1
      simp only [ShareDatad.step] at ht
      split_ifs at ht with hfresh
      cases ht
      simp only [replies, after]
      cases hpool : w.svc.pool name with
      | none =>
        obtain ⟨e, he⟩ | ⟨value, he⟩ := update_of_none host arg cobj 0 hpool <;> rw [he]
        · simpa using hw
        · simp only [Service.added, drop_length]
          exact added hw value hfresh hpool
      | some v =>
        have hold := dismantled hw hs hpool
        obtain ⟨e, he⟩ | ⟨value, he⟩ := update_of_some host arg cobj 0 hpool <;> rw [he]
        · simpa [Service.dismantled] using hold
        · have hne : cobj ≠ v.obj := by
            rintro rfl
            exact hknown hpool hfresh
          have hnew := added hold value ((update_of_ne hne ..).trans hfresh) (update_self ..)
          have hsent : (((w.svc.responses ++ v.watch.map fun id => (id, some cobj)).drop
              w.svc.responses.length).filterMap (·.2)) = replicate v.watch.length cobj := by
            simp [map_const']
          exact hsent ▸ reply hnew (by simp [Service.added]) _
    | monitor name obj id alive =>
      cases ht
      simp only [replies, after]
      obtain ⟨e, he⟩ | ⟨v, hv, he | ⟨watch, counts, he⟩⟩ :=
        monitor_cases w.svc name obj id alive <;> rw [he]
      · exact hw
      · exact reply hw (hknown hv) 1
      · refine fun o => (hw o).congr rfl (fun hin => ?_) rfl fun _ => ⟨rfl, rfl⟩
        by_cases ho : v.obj = o
        · exact ⟨name, _, update_self .., ho⟩
        · exact hin.of_ne rfl (by simp [hv, ho])
    | collect =>
      cases ht
      rw [collectobj, after_modify]
      split_ifs
      · intro o
        by_cases ho : w.svc.objmap o = some .collect ∧ (w.svc.ref o).toInt ≤ 0
        · have := hw o
          simp only [Counted, ho.1] at this
          have hfew := htame.2 o
          rw [this, toInt_natCast (by omega)] at ho
          simp only [Counted, this, toInt_natCast (show w.boxes o + w.pending o < 2 ^ 31 by omega),
            if_pos ho, replies, count_nil]
          omega
        · exact (hw o).congr (if_neg ho) id rfl fun _ => ⟨rfl, rfl⟩
      · exact hw
    | confirm x =>
      cases ht
      have hp := of_decide_eq_true hok
      have hx := known hw (.inr hp)
      rw [after_confirm hx]
      exact setRef hw _ hx (by simp only [update_self, Nat.cast_pred (Nat.pos_of_ne_zero hp)]; ring)
        (by simp +contextual)
    | box x =>
      cases ht
      exact setRef hw _ (known hw (.inr (of_decide_eq_true hok)))
        (by simp only [update_self, replies, count_nil, add_zero, Nat.cast_succ]; ring)
        (by simp +contextual [replies])
    | release x =>
      cases ht
      have hp := of_decide_eq_true hok
      exact setRef hw _ (known hw (.inl hp))
        (by
          simp only [update_self, replies, count_nil, add_zero, Nat.cast_pred (Nat.pos_of_ne_zero hp)]
          ring)
        (by simp +contextual [replies])

theorem few_of_le_one {w : World V} (hb : ∀ o, w.boxes o ≤ 1) (hp : ∀ o, w.pending o ≤ 1) :
    w.Few := by
  intro o
  have := hb o
  have := hp o
  omega

end Skynet.ShareDatad
