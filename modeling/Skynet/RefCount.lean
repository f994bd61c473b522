import Skynet.Transition

/-! # Reference counts

Cells that are freed with their payload when their count drops to nothing.  `held` lists the
holders of the cells, a cell once for every holder; `made` lists the payloads of all cells that
were ever allocated.

`Balanced` says that the counts are right: every cell has as many references as holders, and the
payload of a cell is freed once, when its last holder lets go.  An address may be used again after
its cell was freed. -/

namespace RefCount

open List Function

variable {β : Type}

structure Cell (β : Type) where
  count : ℤ
  payload : β
deriving DecidableEq

/-- The cells by address, and the payloads that were freed.  `fault` is set by an access to a cell
that is not there. -/
structure Pool (β : Type) where
  cells : ℕ → Option (Cell β)
  freed : List β
  fault : Bool

namespace Pool

/-- A new cell, with one reference. -/
def alloc (p : Pool β) (c : ℕ) (b : β) : Pool β :=
  { p with cells := update p.cells c (some ⟨1, b⟩) }

theorem cells_alloc (p : Pool β) (c : ℕ) (b : β) :
    (p.alloc c b).cells = update p.cells c (some ⟨1, b⟩) := rfl

def retain (p : Pool β) (c : ℕ) : Pool β :=
  match p.cells c with
  | none => { p with fault := true }
  | some x => { p with cells := update p.cells c (some { x with count := x.count + 1 }) }

def release (p : Pool β) (c : ℕ) : Pool β :=
  match p.cells c with
  | none => { p with fault := true }
  | some x =>
    if x.count ≤ 1 then
      { p with cells := update p.cells c none, freed := p.freed ++ [x.payload] }
    else
      { p with cells := update p.cells c (some { x with count := x.count - 1 }) }

/-- A reference that may be missing. -/
def releaseOpt (p : Pool β) : Option ℕ → Pool β
  | none => p
  | some c => p.release c

def retainOpt (p : Pool β) : Option ℕ → Pool β
  | none => p
  | some c => p.retain c

def payload (p : Pool β) (c : ℕ) : Option β := (p.cells c).map Cell.payload

end Pool

structure Balanced (p : Pool β) (held : List ℕ) (made : List β) : Prop where
  sound : p.fault = false
  live : ∀ c ∈ held, ∃ x, p.cells c = some x
  count : ∀ {c x}, p.cells c = some x → c ∈ held ∧ x.count = held.count c
  known : ∀ {c x}, p.cells c = some x → x.payload ∈ made
  inj : ∀ {c d x y}, p.cells c = some x → p.cells d = some y → x.payload = y.payload → c = d
  freed : ∀ b ∈ p.freed, b ∈ made ∧ ∀ {c x}, p.cells c = some x → x.payload ≠ b
  kept : ∀ b ∈ made, b ∈ p.freed ∨ ∃ c x, p.cells c = some x ∧ x.payload = b
  nodup : p.freed.Nodup

namespace Balanced

variable {p : Pool β} {held held' : List ℕ} {made : List β} {c : ℕ} {b : β}

theorem perm (h : Balanced p held made) (hperm : held.Perm held') : Balanced p held' made :=
  { h with
    live := fun c hc => h.live c (hperm.mem_iff.mpr hc)
    count := fun hx => by
      obtain ⟨hmem, hcount⟩ := h.count hx
      exact ⟨hperm.mem_iff.mp hmem, hcount.trans (by rw [hperm.count_eq])⟩ }

theorem alloc (h : Balanced p held made) (hc : p.cells c = none) (hb : b ∉ made) :
    Balanced (p.alloc c b) (c :: held) (made ++ [b]) := by
  have hnot : c ∉ held := fun hmem => by
    obtain ⟨x, hx⟩ := h.live c hmem
    rw [hc] at hx
    cases hx
  have hcase : ∀ {d x}, (p.alloc c b).cells d = some x →
      d = c ∧ x = ⟨1, b⟩ ∨ d ≠ c ∧ p.cells d = some x := by
    intro d x hx
    rcases Transition.update_cases hx with ⟨hd, ⟨⟩⟩ | hx
    · exact .inl ⟨hd, rfl⟩
    · exact .inr hx
  have hself : (p.alloc c b).cells c = some ⟨1, b⟩ := by rw [Pool.cells_alloc, update_self]
  have hother : ∀ {d x}, p.cells d = some x → (p.alloc c b).cells d = some x := by
    intro d x hx
    have hd : d ≠ c := by
      rintro rfl
      rw [hc] at hx
      cases hx
    rw [Pool.cells_alloc, update_of_ne hd]
    exact hx
  refine ⟨h.sound, ?_, ?_, ?_, ?_, ?_, ?_, h.nodup⟩
  · intro d hd
    rcases mem_cons.mp hd with rfl | hd
    · exact ⟨_, hself⟩
    · obtain ⟨x, hx⟩ := h.live d hd
      exact ⟨x, hother hx⟩
  · intro d x hx
    rcases hcase hx with ⟨rfl, rfl⟩ | ⟨hd, hx⟩
    · refine ⟨mem_cons_self, ?_⟩
      rw [count_cons_self, count_eq_zero.mpr hnot]
      rfl
    · obtain ⟨hmem, hcount⟩ := h.count hx
      exact ⟨mem_cons_of_mem _ hmem, by rw [count_cons_of_ne (Ne.symm hd), hcount]⟩
  · intro d x hx
    rcases hcase hx with ⟨rfl, rfl⟩ | ⟨-, hx⟩
    · exact mem_append_right _ mem_cons_self
    · exact mem_append_left _ (h.known hx)
  · intro d e x y hx hy hxy
    rcases hcase hx with ⟨rfl, rfl⟩ | ⟨-, hx'⟩
    · rcases hcase hy with ⟨rfl, rfl⟩ | ⟨-, hy'⟩
      · rfl
      · exact absurd (hxy.symm ▸ h.known hy' : (Cell.mk 1 b).payload ∈ made) hb
    · rcases hcase hy with ⟨rfl, rfl⟩ | ⟨-, hy'⟩
      · exact absurd (hxy ▸ h.known hx' : (Cell.mk 1 b).payload ∈ made) hb
      · exact h.inj hx' hy' hxy
  · intro f hf
    obtain ⟨hmade, hno⟩ := h.freed f hf
    refine ⟨mem_append_left _ hmade, fun hx => ?_⟩
    rcases hcase hx with ⟨-, rfl⟩ | ⟨-, hx⟩
    · rintro rfl
      exact hb hmade
    · exact hno hx
  · intro f hf
    rcases mem_append.mp hf with hf | hf
    · rcases h.kept f hf with hfreed | ⟨d, x, hx, hpay⟩
      · exact .inl hfreed
      · exact .inr ⟨d, x, hother hx, hpay⟩
    · exact .inr ⟨c, _, hself, (mem_singleton.mp hf).symm⟩

theorem setCount {x : Cell β} {n : ℤ} (h : Balanced p held made) (hx : p.cells c = some x)
    (hlive : ∀ d ∈ held', d ∈ held) (hmem : c ∈ held') (hn : n = held'.count c)
    (hothers : ∀ d, d ≠ c → held'.count d = held.count d) :
    Balanced { p with cells := update p.cells c (some { x with count := n }) }
      held' made := by
  have hcase : ∀ {d y}, update p.cells c (some { x with count := n }) d = some y →
      ∃ z, p.cells d = some z ∧ z.payload = y.payload := by
    intro d y hy
    rcases Transition.update_cases hy with ⟨rfl, ⟨⟩⟩ | ⟨-, hy⟩
    · exact ⟨x, hx, rfl⟩
    · exact ⟨y, hy, rfl⟩
  have hback : ∀ {d y}, p.cells d = some y →
      ∃ z, update p.cells c (some { x with count := n }) d = some z ∧
        z.payload = y.payload := by
    intro d y hy
    by_cases hd : d = c
    · subst hd
      rw [hx] at hy
      cases hy
      exact ⟨_, update_self .., rfl⟩
    · exact ⟨y, by rw [update_of_ne hd, hy], rfl⟩
  refine ⟨h.sound, ?_, ?_, ?_, ?_, ?_, ?_, h.nodup⟩
  · intro d hd
    obtain ⟨y, hy⟩ := h.live d (hlive d hd)
    obtain ⟨z, hz, -⟩ := hback hy
    exact ⟨z, hz⟩
  · intro d y hy
    rcases Transition.update_cases hy with ⟨rfl, ⟨⟩⟩ | ⟨hd, hy⟩
    · exact ⟨hmem, hn⟩
    · obtain ⟨hheld, hcount⟩ := h.count hy
      refine ⟨?_, hcount.trans (by rw [hothers d hd])⟩
      rw [← count_pos_iff, hothers d hd]
      exact count_pos_iff.mpr hheld
  · intro d y hy
    obtain ⟨z, hz, hpay⟩ := hcase hy
    exact hpay ▸ h.known hz
  · intro d e y z hy hz hyz
    obtain ⟨y', hy', hypay⟩ := hcase hy
    obtain ⟨z', hz', hzpay⟩ := hcase hz
    exact h.inj hy' hz' (hypay.trans (hyz.trans hzpay.symm))
  · intro f hf
    obtain ⟨hmade, hno⟩ := h.freed f hf
    refine ⟨hmade, fun hy => ?_⟩
    obtain ⟨z, hz, hpay⟩ := hcase hy
    exact hpay ▸ hno hz
  · intro f hf
    rcases h.kept f hf with hfreed | ⟨d, y, hy, hpay⟩
    · exact .inl hfreed
    · obtain ⟨z, hz, hzpay⟩ := hback hy
      exact .inr ⟨d, z, hz, hzpay.trans hpay⟩

theorem retain (h : Balanced p held made) (hc : c ∈ held) :
    Balanced (p.retain c) (c :: held) made := by
  obtain ⟨x, hx⟩ := h.live c hc
  rw [Pool.retain, hx]
  refine h.setCount hx ?_ mem_cons_self ?_ fun d hd => count_cons_of_ne (Ne.symm hd)
  · intro d hd
    rcases mem_cons.mp hd with rfl | hd
    · exact hc
    · exact hd
  · rw [(h.count hx).2, count_cons_self]
    rfl

theorem release (h : Balanced p (c :: held) made) : Balanced (p.release c) held made := by
  obtain ⟨x, hx⟩ := h.live c mem_cons_self
  have hcount := (h.count hx).2
  rw [count_cons_self] at hcount
  rw [Pool.release, hx]
  by_cases hlast : x.count ≤ 1
  · simp only [if_pos hlast]
    have hnot : c ∉ held := count_eq_zero.mp (by omega)
    have hcase : ∀ {d y}, update p.cells c none d = some y →
        d ≠ c ∧ p.cells d = some y := by
      intro d y hy
      have hd : d ≠ c := by
        rintro rfl
        rw [update_self] at hy
        cases hy
      rw [update_of_ne hd] at hy
      exact ⟨hd, hy⟩
    refine ⟨h.sound, ?_, ?_, fun hy => h.known (hcase hy).2,
      fun hy hz => h.inj (hcase hy).2 (hcase hz).2, ?_, ?_, ?_⟩
    · intro d hd
      obtain ⟨y, hy⟩ := h.live d (mem_cons_of_mem _ hd)
      have hdc : d ≠ c := by
        rintro rfl
        exact hnot hd
      exact ⟨y, by simp only [update_of_ne hdc, hy]⟩
    · intro d y hy
      obtain ⟨hd, hy⟩ := hcase hy
      obtain ⟨hmem, hcount⟩ := h.count hy
      rw [count_cons_of_ne (Ne.symm hd)] at hcount
      exact ⟨(mem_cons.mp hmem).resolve_left hd, hcount⟩
    · intro f hf
      rcases mem_append.mp hf with hf | hf
      · obtain ⟨hmade, hno⟩ := h.freed f hf
        exact ⟨hmade, fun hy => hno (hcase hy).2⟩
      · rw [mem_singleton.mp hf]
        refine ⟨h.known hx, fun hy hpay => ?_⟩
        exact (hcase hy).1 (h.inj (hcase hy).2 hx hpay)
    · intro f hf
      rcases h.kept f hf with hfreed | ⟨d, y, hy, hpay⟩
      · exact .inl (mem_append_left _ hfreed)
      · by_cases hd : d = c
        · subst hd
          rw [hx] at hy
          cases hy
          exact .inl (mem_append_right _ (mem_singleton.mpr hpay.symm))
        · exact .inr ⟨d, y, by simp only [update_of_ne hd, hy], hpay⟩
    · refine nodup_append.mpr ⟨h.nodup, nodup_singleton _, fun f hf g hg hfg => ?_⟩
      rw [hfg, mem_singleton.mp hg] at hf
      exact (h.freed _ hf).2 hx rfl
  · simp only [if_neg hlast]
    refine h.setCount hx (fun d hd => mem_cons_of_mem _ hd) ?_ ?_
      fun d hd => (count_cons_of_ne (Ne.symm hd)).symm
    · rw [← count_pos_iff]
      omega
    · omega

theorem releaseOpt {o : Option ℕ} (h : Balanced p (o.toList ++ held) made) :
    Balanced (p.releaseOpt o) held made := by
  cases o with
  | none => exact h
  | some c => exact h.release

theorem retainOpt {o : Option ℕ} (h : Balanced p held made) (ho : ∀ c, o = some c → c ∈ held) :
    Balanced (p.retainOpt o) (o.toList ++ held) made := by
  cases o with
  | none => exact h
  | some c => exact h.retain (ho c rfl)

/-! ### Payloads -/

theorem eq_of_payload {d : ℕ} (h : Balanced p held made) (hc : p.payload c = some b)
    (hd : p.payload d = some b) : c = d := by
  obtain ⟨x, hx, hxb⟩ := Option.map_eq_some_iff.mp hc
  obtain ⟨y, hy, hyb⟩ := Option.map_eq_some_iff.mp hd
  exact h.inj hx hy (hxb.trans hyb.symm)

end Balanced

variable {p : Pool β}

theorem payload_alloc_of_ne {c d : ℕ} {b : β} (h : d ≠ c) :
    (p.alloc c b).payload d = p.payload d := by
  rw [Pool.payload, Pool.cells_alloc, update_of_ne h, Pool.payload]

theorem payload_alloc_self {c : ℕ} {b : β} : (p.alloc c b).payload c = some b := by
  rw [Pool.payload, Pool.cells_alloc, update_self]
  rfl

theorem payload_retain {c d : ℕ} : (p.retain c).payload d = p.payload d := by
  rw [Pool.retain]
  cases hx : p.cells c with
  | none => rfl
  | some x =>
    by_cases hd : d = c
    · subst hd
      simp only [Pool.payload, update_self, hx]
      rfl
    · simp only [Pool.payload, update_of_ne hd]

theorem payload_retainOpt {o : Option ℕ} {d : ℕ} : (p.retainOpt o).payload d = p.payload d := by
  cases o with
  | none => rfl
  | some c => exact payload_retain

theorem payload_releaseOpt {held : List ℕ} {made : List β} {o : Option ℕ} {d : ℕ}
    (h : Balanced p (o.toList ++ held) made) (hd : d ∈ held) :
    (p.releaseOpt o).payload d = p.payload d := by
  cases o with
  | none => rfl
  | some c =>
    have hafter : Balanced (p.release c) held made := h.releaseOpt
    obtain ⟨y, hy⟩ := hafter.live d hd
    rw [Pool.releaseOpt, Pool.payload, hy, Pool.payload]
    rw [Pool.release] at hy
    cases hx : p.cells c with simp only [hx] at hy
    | none => rw [hy]
    | some x =>
      split at hy
      · rcases Transition.update_cases hy with ⟨-, ⟨⟩⟩ | ⟨-, hy⟩
        rw [hy]
      · rcases Transition.update_cases hy with ⟨rfl, ⟨⟩⟩ | ⟨-, hy⟩
        · rw [hx]
          rfl
        · rw [hy]

theorem perm_flatMap_set {α γ : Type} (f : α → List γ) {l : List α} {i : ℕ} {a : α}
    (h : l[i]? = some a) (b : α) :
    ∃ rest, (l.flatMap f).Perm (f a ++ rest) ∧ ((l.set i b).flatMap f).Perm (f b ++ rest) := by
  induction l generalizing i with
  | nil => cases h
  | cons x l ih =>
    cases i with
    | zero =>
      cases h
      exact ⟨l.flatMap f, by rw [flatMap_cons], by rw [set_cons_zero, flatMap_cons]⟩
    | succ i =>
      obtain ⟨rest, hbefore, hafter⟩ := ih h
      have hswap : ∀ u : List γ, (f x ++ (u ++ rest)).Perm (u ++ (f x ++ rest)) := fun u => by
        rw [← append_assoc, ← append_assoc]
        exact perm_append_comm.append_right _
      refine ⟨f x ++ rest, ?_, ?_⟩
      · rw [flatMap_cons]
        exact (hbefore.append_left _).trans (hswap _)
      · rw [set_cons_succ, flatMap_cons]
        exact (hafter.append_left _).trans (hswap _)

end RefCount
