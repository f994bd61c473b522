import Skynet.NodeSteps

/-! # Reference counts

`ref_` of a live context is the number of its references: the slots of the handle table and
the threads that will still call `release_service` for it (`Refs`).  A context whose count
has dropped to 0 is being deleted by exactly one thread, and no deleted context is referred
to.  This holds in every run of the node, also when handles are reissued and when `init`
fails. -/

namespace Skynet.Node

open Function ThreadPool State

/-! ### References held by threads -/

namespace Pc

/-- References to context `c` that a thread will still give back; a thread about to register
also owns the one of the slot. -/
def refs (c : ℕ) : Pc → ℕ
  | .register c' => if c' = c then 2 else 0
  | .release c' _ | .storeHandle c' _ | .createQueue c' | .init c' _ | .push c' _ _ | .hold c'
  | .popMessage _ _ c' _ _ | .length _ _ c' | .callback _ _ c' _ _ | .next _ _ c'
  | .pushBack _ _ c' _ => if c' = c then 1 else 0
  | _ => 0

/-- The thread is deleting context `c`. -/
def dying (c : ℕ) : Pc → ℕ
  | .markRelease c' _ | .delete c' _ => if c' = c then 1 else 0
  | _ => 0

end Pc

theorem State.setCtx_counts {s : State} {c : ℕ} {x : ServiceContext}
    (hx : x.alive = (s.ctxs c).alive ∧ x.ref = (s.ctxs c).ref) (d : ℕ) :
    ((s.setCtx c x).ctxs d).alive = (s.ctxs d).alive ∧
      ((s.setCtx c x).ctxs d).ref = (s.ctxs d).ref :=
  ⟨setCtx_field (·.alive) hx.1 d, setCtx_field (·.ref) hx.2 d⟩

@[simp] theorem After.refs_resume (k : After) (c : ℕ) : k.resume.refs c = 0 := by
  cases k <;> rfl

@[simp] theorem After.dying_resume (k : After) (c : ℕ) : k.resume.dying c = 0 := by
  cases k <;> rfl

/-- Reference counts are right. -/
structure Refs (s : State) : Prop where
  counted : ∀ c, (s.ctxs c).alive = true →
    (s.ctxs c).ref = s.table.refs c + total (Pc.refs c) s.acts
  dying : ∀ c, (s.ctxs c).alive = true →
    total (Pc.dying c) s.acts = if (s.ctxs c).ref = 0 then 1 else 0
  dead : ∀ c, (s.ctxs c).alive = false →
    s.table.refs c = 0 ∧ total (Pc.refs c) s.acts = 0 ∧ total (Pc.dying c) s.acts = 0
  fresh : ∀ c, s.nctx ≤ c → (s.ctxs c).alive = false

namespace Refs

variable {s t : State} {i : ℕ} {p p' : Pc} {c : ℕ}

variable (h : Refs s)

include h

theorem alive_of_slot (hc : 0 < s.table.refs c) : (s.ctxs c).alive = true := by
  by_contra hd
  have := (h.dead c (by simpa using hd)).1
  omega

theorem alive_of_refs (hp : s.acts[i]? = some p) (hc : 0 < p.refs c) : (s.ctxs c).alive = true := by
  by_contra hd
  have := (h.dead c (by simpa using hd)).2.1
  have := le_total (Pc.refs c) hp
  omega

theorem alive_of_dying (hp : s.acts[i]? = some p) (hc : 0 < p.dying c) :
    (s.ctxs c).alive = true := by
  by_contra hd
  have := (h.dead c (by simpa using hd)).2.2
  have := le_total (Pc.dying c) hp
  omega

theorem ref_pos_of_slot (hc : 0 < s.table.refs c) : 0 < (s.ctxs c).ref := by
  have := h.counted c (h.alive_of_slot hc)
  omega

theorem ref_pos_of_refs (hp : s.acts[i]? = some p) (hc : 0 < p.refs c) : 0 < (s.ctxs c).ref := by
  have := h.counted c (h.alive_of_refs hp hc)
  have := le_total (Pc.refs c) hp
  omega

theorem alive_of_find {k : ℕ} (hf : s.find k = some c) :
    (s.ctxs c).alive = true ∧ 0 < (s.ctxs c).ref :=
  have hpos := Table.refs_pos_of_at? (find_eq_some hf).1
  ⟨h.alive_of_slot hpos, h.ref_pos_of_slot hpos⟩

/-- **Balance**: thread `i` moves from `p` to `p'`, and every count changes as the slots and
the threads say. -/
theorem move (hp : s.acts[i]? = some p) (hacts : t.acts = s.acts.set i p') (hn : t.nctx = s.nctx)
    (halive : ∀ c, (t.ctxs c).alive = (s.ctxs c).alive)
    (href : ∀ c, (s.ctxs c).alive = true →
      (t.ctxs c).ref + s.table.refs c + p.refs c = (s.ctxs c).ref + t.table.refs c + p'.refs c)
    (hdying : ∀ c, (s.ctxs c).alive = true →
      p'.dying c + (if (s.ctxs c).ref = 0 then 1 else 0) =
        p.dying c + if (t.ctxs c).ref = 0 then 1 else 0)
    (hdead : ∀ c, (s.ctxs c).alive = false →
      t.table.refs c = s.table.refs c ∧ p'.refs c = p.refs c ∧ p'.dying c = p.dying c) :
    Refs t := by
  refine ⟨fun c hc => ?_, fun c hc => ?_, fun c hc => ?_, fun c hc => ?_⟩
  · rw [halive] at hc
    have h1 := h.counted c hc
    have h2 := href c hc
    have h3 := total_set (Pc.refs c) p' hp
    rw [hacts]
    omega
  · rw [halive] at hc
    have h1 := h.dying c hc
    have h2 := hdying c hc
    have h3 := total_set (Pc.dying c) p' hp
    rw [hacts]
    omega
  · rw [halive] at hc
    obtain ⟨h1, h2, h3⟩ := h.dead c hc
    obtain ⟨g1, g2, g3⟩ := hdead c hc
    have h4 := total_set (Pc.refs c) p' hp
    have h5 := total_set (Pc.dying c) p' hp
    rw [hacts]
    omega
  · rw [halive]
    exact h.fresh c (by omega)

theorem quiet (hp : s.acts[i]? = some p) (hacts : t.acts = s.acts.set i p') (hn : t.nctx = s.nctx)
    (htable : ∀ c, t.table.refs c = s.table.refs c)
    (hctx : ∀ c, (t.ctxs c).alive = (s.ctxs c).alive ∧ (t.ctxs c).ref = (s.ctxs c).ref)
    (hpc : ∀ c, p'.refs c = p.refs c ∧ p'.dying c = p.dying c) : Refs t := by
  refine h.move hp hacts hn (fun c => (hctx c).1) (fun c _ => ?_) (fun c _ => ?_) (fun c _ => ?_)
  · rw [(hctx c).2, htable, (hpc c).1]
  · rw [(hctx c).2, (hpc c).2]
  · exact ⟨htable c, hpc c⟩

theorem crash (f : Fault) : Refs (s.crash f) := { h with }

theorem move_one (hp : s.acts[i]? = some p) (hacts : t.acts = s.acts.set i p')
    (hn : t.nctx = s.nctx) {r : ℤ} (halive : (s.ctxs c).alive = true)
    (hself : (t.ctxs c).alive = true ∧ (t.ctxs c).ref = r)
    (hother : ∀ d, d ≠ c → (t.ctxs d).alive = (s.ctxs d).alive ∧ (t.ctxs d).ref = (s.ctxs d).ref)
    (hres : ∀ d, d ≠ c → t.table.refs d = s.table.refs d ∧ p'.refs d = p.refs d ∧
      p'.dying d = p.dying d)
    (href : r + s.table.refs c + p.refs c = (s.ctxs c).ref + t.table.refs c + p'.refs c)
    (hdying : p'.dying c + (if (s.ctxs c).ref = 0 then 1 else 0) =
      p.dying c + if r = 0 then 1 else 0) : Refs t := by
  refine h.move hp hacts hn (fun d => ?_) (fun d _ => ?_) (fun d _ => ?_) (fun d hd => ?_)
  · by_cases hdc : d = c
    · rw [hdc, hself.1, halive]
    · exact (hother d hdc).1
  · by_cases hdc : d = c
    · rw [hdc, hself.2]
      exact href
    · rw [(hother d hdc).2, (hres d hdc).1, (hres d hdc).2.1]
  · by_cases hdc : d = c
    · rw [hdc, hself.2]
      exact hdying
    · rw [(hother d hdc).2, (hres d hdc).2.2]
  · refine hres d fun hdc => ?_
    rw [hdc, halive] at hd
    cases hd

/-- `++ref_` for a context found in the table. -/
theorem addRef (hp : s.acts[i]? = some p) {k : ℕ} (hf : s.find k = some c)
    (hrefs : ∀ d, p'.refs d = p.refs d + if c = d then 1 else 0)
    (hdying : ∀ d, p'.dying d = p.dying d) : Refs ((s.addRef c).goto i p') := by
  obtain ⟨halive, hpos⟩ := h.alive_of_find hf
  have hself : ((s.addRef c).goto i p').ctxs c = { s.ctxs c with ref := (s.ctxs c).ref + 1 } :=
    update_self _ _ _
  refine h.move_one hp rfl rfl (r := (s.ctxs c).ref + 1) halive ?_ (fun d hd => ?_)
    (fun d hd => ?_) ?_ ?_
  · rw [hself]
    exact ⟨halive, rfl⟩
  · have : ((s.addRef c).goto i p').ctxs d = s.ctxs d := update_of_ne hd _ _
    rw [this]
    exact ⟨rfl, rfl⟩
  · rw [hrefs, if_neg (Ne.symm hd)]
    exact ⟨rfl, rfl, hdying d⟩
  · rw [hrefs, if_pos rfl]
    simp only [State.addRef, State.goto, State.setCtx]
    omega
  · rw [hdying, if_neg (by omega), if_neg (by omega)]

omit h

theorem init : Refs State.init where
  counted _ h := by cases h
  dying _ h := by cases h
  dead c _ := by
    refine ⟨?_, rfl, rfl⟩
    simp [Table.refs, State.init, Table.init, DEFAULT_SLOT_SIZE, List.replicate]
  fresh _ _ := rfl

variable (h : Refs s)

include h

theorem fork (hp : ∀ c, p.refs c = 0 ∧ p.dying c = 0) : Refs { s with acts := s.acts ++ [p] } := by
  refine ⟨fun c hc => ?_, fun c hc => ?_, fun c hc => ?_, h.fresh⟩
  · rw [h.counted c hc]
    simp [(hp c).1]
  · simpa [(hp c).2] using h.dying c hc
  · simpa [(hp c).1, (hp c).2] using h.dead c hc

theorem newService : Refs s.newService := by
  obtain ⟨hself, hctx⟩ := s.newService_ctxs
  obtain ⟨hslot, hrefs, hdying⟩ := h.dead s.nctx (h.fresh _ le_rfl)
  refine ⟨fun c hc => ?_, fun c hc => ?_, fun c hc => ?_, fun c hc => ?_⟩
  · by_cases hcn : c = s.nctx
    · rw [hcn, hself]
      simp [State.newService, hslot, hrefs, Pc.refs]
    · rw [hctx c hcn] at hc ⊢
      rw [h.counted c hc]
      simp [State.newService, Pc.refs, Ne.symm hcn]
  · by_cases hcn : c = s.nctx
    · rw [hcn, hself]
      simp [State.newService, hdying, Pc.dying]
    · rw [hctx c hcn] at hc ⊢
      rw [← h.dying c hc]
      simp [State.newService, Pc.dying]
  · by_cases hcn : c = s.nctx
    · rw [hcn, hself] at hc
      cases hc
    · rw [hctx c hcn] at hc
      simpa [State.newService, Pc.refs, Pc.dying, Ne.symm hcn] using h.dead c hc
  · have hlt : s.nctx < c := hc
    rw [hctx c (by omega)]
    exact h.fresh c (by omega)

theorem start (task : Task) : Refs (s.start task) := by
  cases task with
  | createService => exact h.newService
  | worker w | unregisterService k | pushServiceMessage dst msg | grab k =>
    exact h.fork fun _ => ⟨rfl, rfl⟩

theorem registered (hp : s.acts[i]? = some (.register c)) {k : ℕ} {T : Table}
    (hr : s.table.registerService (fun c => (s.ctxs c).svcHandle) c = .ok (k, T)) :
    Refs ({ s.setCtx c { s.ctxs c with issued := k } with table := T }.goto i
      (.storeHandle c k)) := by
  have hrefs := Table.registerLoop_refs hr
  have halive : (s.ctxs c).alive = true := h.alive_of_refs hp (by simp [Pc.refs])
  have hcounts := setCtx_counts (x := { s.ctxs c with issued := k })
    ⟨rfl, rfl⟩
  refine h.move_one hp rfl rfl halive ?_ (fun d _ => hcounts d)
    (fun d hd => ?_) ?_ rfl
  · exact ⟨(hcounts c).1.trans halive, (hcounts c).2⟩
  · simp [goto, Pc.refs, Pc.dying, hrefs d, Ne.symm hd]
  · simp only [goto, Pc.refs, hrefs c, if_true]
    omega

theorem unregistered {k : ℕ} (hp : s.acts[i]? = some (.unregister k)) (hf : s.find k = some c) :
    Refs ({ s with table := s.table.clear k }.goto i (.release c .finish)) := by
  have hrefs := Table.refs_clear (find_eq_some hf).1
  have halive := (h.alive_of_find hf).1
  refine h.move_one hp rfl rfl halive ⟨halive, rfl⟩ (fun d _ => ⟨rfl, rfl⟩) (fun d hd => ?_) ?_ rfl
  · have := hrefs d
    rw [if_neg (Ne.symm hd)] at this
    exact ⟨by simpa [goto] using this, by simp [Pc.refs, Ne.symm hd], rfl⟩
  · have := hrefs c
    rw [if_pos rfl] at this
    simp only [goto, Pc.refs, if_true]
    omega

/-- `--ref_`, and on to `p'`. -/
theorem released {k : After} (hp : s.acts[i]? = some (.release c k)) (hrefs : ∀ d, p'.refs d = 0)
    (hdying : ∀ d, p'.dying d = if d = c ∧ (s.ctxs c).ref - 1 = 0 then 1 else 0) :
    Refs ((s.setCtx c { s.ctxs c with ref := (s.ctxs c).ref - 1 }).goto i p') := by
  have hpc : 0 < (Pc.release c k).refs c := by simp [Pc.refs]
  have halive := h.alive_of_refs hp hpc
  have hpos := h.ref_pos_of_refs hp hpc
  refine h.move_one hp rfl rfl halive (r := (s.ctxs c).ref - 1) ?_ (fun d hd => ?_)
    (fun d hd => ?_) ?_ ?_
  · simp only [goto, setCtx, update_self]
    exact ⟨halive, trivial⟩
  · simp only [goto, setCtx, update_of_ne hd, and_self]
  · rw [hrefs d, hdying d, if_neg fun hc => hd hc.1]
    simp [goto, setCtx, Pc.refs, Pc.dying, Ne.symm hd]
  · rw [hrefs c]
    simp only [goto, setCtx, Pc.refs, if_true]
    omega
  · rw [hdying c, if_neg (by omega : ¬ (s.ctxs c).ref = 0)]
    simp [Pc.dying]

theorem deleted {k : After} (hp : s.acts[i]? = some (.delete c k)) :
    Refs ((s.setCtx c { s.ctxs c with alive := false }).goto i k.resume) := by
  have hpc : (Pc.delete c k).dying c = 1 := by simp [Pc.dying]
  have halive := h.alive_of_dying hp (hpc ▸ Nat.one_pos)
  have hd := h.dying c halive
  have hle := le_total (Pc.dying c) hp
  have href : (s.ctxs c).ref = 0 := by
    by_contra hne
    rw [if_neg hne] at hd
    omega
  rw [if_pos href] at hd
  have hcount := h.counted c halive
  set t := (s.setCtx c { s.ctxs c with alive := false }).goto i k.resume with ht
  have hself : (t.ctxs c).alive = false := by
    simp [ht, goto, setCtx]
  have hother : ∀ d, d ≠ c → t.ctxs d = s.ctxs d := fun d hd =>
    update_of_ne hd _ _
  have hrefs : ∀ d, total (Pc.refs d) t.acts = total (Pc.refs d) s.acts := by
    intro d
    have := total_set (Pc.refs d) k.resume hp
    rwa [After.refs_resume] at this
  have hdying : ∀ d, total (Pc.dying d) t.acts + (if c = d then 1 else 0) =
      total (Pc.dying d) s.acts := by
    intro d
    have := total_set (Pc.dying d) k.resume hp
    rwa [After.dying_resume] at this
  refine ⟨fun d hda => ?_, fun d hda => ?_, fun d hda => ?_, fun d hda => ?_⟩
  · have hdc : d ≠ c := fun he => by
      rw [he, hself] at hda
      cases hda
    rw [hother d hdc] at hda ⊢
    rw [hrefs d]
    exact h.counted d hda
  · have hdc : d ≠ c := fun he => by
      rw [he, hself] at hda
      cases hda
    have := hdying d
    rw [if_neg (Ne.symm hdc)] at this
    rw [hother d hdc] at hda ⊢
    rw [← h.dying d hda]
    exact this
  · by_cases hdc : d = c
    · have := hdying c
      rw [if_pos rfl] at this
      rw [hdc, hrefs c]
      refine ⟨?_, ?_, ?_⟩
      · show s.table.refs c = 0
        omega
      · omega
      · omega
    · have := hdying d
      rw [if_neg (Ne.symm hdc)] at this
      rw [hother d hdc] at hda
      obtain ⟨h1, h2, h3⟩ := h.dead d hda
      rw [hrefs d]
      exact ⟨h1, h2, by omega⟩
  · by_cases hdc : d = c
    · rw [hdc]
      exact hself
    · rw [hother d hdc]
      exact h.fresh d hda

/-- **Reference counts** are right after every step of a thread. -/
theorem effect {ok : Bool} (hp : s.acts[i]? = some p) (ht : Effect s i ok p t) : Refs t := by
  cases ht with
  | control hc =>
    refine h.quiet hp rfl rfl (fun _ => rfl) (fun _ => ⟨rfl, rfl⟩) fun c => ?_
    cases hc with
    | send => exact ⟨After.refs_resume _ c, After.dying_resume _ c⟩
    | _ => exact ⟨rfl, rfl⟩
  | crash _ => exact h.crash _
  | grabbed hf hg =>
    cases hg <;> exact h.addRef hp hf (fun _ => (zero_add _).symm) fun _ => rfl
  | released hne => exact h.released hp (After.refs_resume _) fun d => by simp [hne]
  | lastReleased hz =>
    exact h.released hp (fun _ => rfl) fun d => by simp [hz, Pc.dying, eq_comm]
  | deleted c k => exact h.deleted hp
  | registered hr => exact h.registered hp hr
  | stored c k | built c =>
    exact h.quiet hp rfl rfl (fun _ => rfl) (setCtx_counts ⟨rfl, rfl⟩) fun _ => ⟨rfl, rfl⟩
  | unregistered hf => exact h.unregistered hp hf
  | linked hl _ =>
    refine h.quiet hp rfl rfl (fun _ => rfl) (fun _ => ⟨rfl, rfl⟩) fun c => ?_
    cases hl <;> exact ⟨rfl, rfl⟩
  | @unlinked _ _ _ o hu _ =>
    refine h.quiet hp rfl rfl (fun _ => rfl) (fun _ => ⟨rfl, rfl⟩) fun c => ?_
    cases hu <;> cases o <;> exact ⟨rfl, rfl⟩
  | taken _ hp' =>
    refine h.quiet hp rfl rfl (fun _ => rfl) (fun _ => ⟨rfl, rfl⟩) fun c => ?_
    rcases hp' with rfl | rfl <;> exact ⟨rfl, rfl⟩
  | reported _ hp' =>
    refine h.quiet hp rfl rfl (fun _ => rfl) (fun _ => ⟨rfl, rfl⟩) fun c => ?_
    rcases hp' with ⟨_, rfl⟩ | ⟨_, rfl⟩ <;> exact ⟨rfl, rfl⟩
  | marked | markedIdle | initFailed | accepted | acceptedIdle | emptied | dropEmptied | dropTaken
  | queueDeleted =>
    exact h.quiet hp rfl rfl (fun _ => rfl) (fun _ => ⟨rfl, rfl⟩) fun _ => ⟨rfl, rfl⟩

omit h

end Refs

end Skynet.Node
