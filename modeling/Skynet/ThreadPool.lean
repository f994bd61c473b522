import Mathlib

/-! # Pools of threads

A pool is the list of the local states (program counters) of any number of threads of
execution.  What the threads own of a shared resource is a number for each local state;
`total` adds it up over the pool.  A step of thread `i` changes the total by the difference
between its two local states (`total_set`), and a resource owned at most once in total has at
most one owner (`owner_unique`). -/

namespace ThreadPool

open List

variable {π : Type}

/-- The sum of `f` over all threads. -/
def total (f : π → ℕ) (acts : List π) : ℕ := (acts.map f).sum

@[simp] theorem total_nil (f : π → ℕ) : total f [] = 0 := rfl

@[simp] theorem total_cons (f : π → ℕ) (p : π) (acts : List π) :
    total f (p :: acts) = f p + total f acts := by
  simp [total]

@[simp] theorem total_append (f : π → ℕ) (acts acts' : List π) :
    total f (acts ++ acts') = total f acts + total f acts' := by
  simp [total]

theorem total_add (f g : π → ℕ) (acts : List π) :
    total (fun p => f p + g p) acts = total f acts + total g acts := by
  induction acts with
  | nil => rfl
  | cons p acts ih => simp only [total_cons, ih]; omega

variable {f : π → ℕ} {acts : List π} {i : ℕ}

theorem total_mono {g : π → ℕ} (h : ∀ p, f p ≤ g p) (acts : List π) :
    total f acts ≤ total g acts := by
  induction acts with
  | nil => exact le_rfl
  | cons p acts ih =>
    have := h p
    simp only [total_cons]
    omega

theorem of_ite_pos {a : Prop} [Decidable a] {n : ℕ} (h : 0 < if a then n else 0) : a := by
  by_contra ha
  rw [if_neg ha] at h
  exact lt_irrefl 0 h

variable {p : π}

/-- Thread `i` moves from `p` to `p'`. -/
theorem total_set (f : π → ℕ) (p' : π) (h : acts[i]? = some p) :
    total f (acts.set i p') + f p = total f acts + f p' := by
  induction acts generalizing i with
  | nil => simp at h
  | cons q acts ih =>
    cases i with
    | zero =>
      obtain rfl : q = p := by simpa using h
      simp only [set_cons_zero, total_cons]
      omega
    | succ i =>
      have := ih (by simpa using h)
      simp only [set_cons_succ, total_cons]
      omega

/-- Thread `i` moves and owns as much as before. -/
theorem total_set_of_eq {p' : π} (h : acts[i]? = some p) (hf : f p' = f p) :
    total f (acts.set i p') = total f acts := by
  have := total_set f p' h
  omega

theorem le_total (f : π → ℕ) (h : acts[i]? = some p) : f p ≤ total f acts := by
  have hmem : f p ∈ acts.map f := mem_map_of_mem (mem_of_getElem? h)
  exact single_le_sum (by simp) _ hmem

theorem total_eq_zero (h : ∀ p ∈ acts, f p = 0) : total f acts = 0 := by
  rw [total, sum_eq_zero]
  intro n hn
  obtain ⟨p, hp, rfl⟩ := mem_map.mp hn
  exact h p hp

theorem exists_of_total_pos (h : 0 < total f acts) :
    ∃ (i : ℕ) (p : π), acts[i]? = some p ∧ 0 < f p := by
  by_contra hno
  have : total f acts = 0 := total_eq_zero fun p hp => by
    obtain ⟨i, hi⟩ := getElem?_of_mem hp
    by_contra hne
    exact hno ⟨i, p, hi, pos_of_ne_zero hne⟩
  omega

theorem two_le_total (f : π → ℕ) {j : ℕ} {q : π} (hij : i ≠ j) (hp : acts[i]? = some p)
    (hq : acts[j]? = some q) : f p + f q ≤ total f acts := by
  induction acts generalizing i j with
  | nil => simp at hp
  | cons r acts ih =>
    rw [total_cons]
    cases i with
    | zero =>
      obtain rfl : r = p := by simpa using hp
      cases j with
      | zero => exact absurd rfl hij
      | succ j =>
        have hq' : acts[j]? = some q := by simpa using hq
        have := le_total f hq'
        omega
    | succ i =>
      cases j with
      | zero =>
        obtain rfl : r = q := by simpa using hq
        have hp' : acts[i]? = some p := by simpa using hp
        have := le_total f hp'
        omega
      | succ j =>
        have := ih (i := i) (j := j) (by omega) (by simpa using hp) (by simpa using hq)
        omega

theorem owner_unique (h : total f acts ≤ 1) {j : ℕ} {q : π} (hp : acts[i]? = some p)
    (hq : acts[j]? = some q) (hfp : 0 < f p) (hfq : 0 < f q) : i = j := by
  by_contra hij
  have := two_le_total f hij hp hq
  omega

/-- A fact about every thread survives a step of one thread when it survives for the others
and holds of the thread's new state. -/
theorem forall_set {P Q : π → Prop} {p' : π} (h : ∀ p ∈ acts, P p) (hPQ : ∀ p ∈ acts, P p → Q p)
    (hp' : Q p') : ∀ p ∈ acts.set i p', Q p := by
  intro p hp
  rcases mem_or_eq_of_mem_set hp with hp | rfl
  · exact hPQ p hp (h p hp)
  · exact hp'

/-- `forall_set` with the threads named by their positions. -/
theorem forall_set_index {P Q : ℕ → π → Prop} {p' : π} (h : ∀ (j : ℕ) p, acts[j]? = some p → P j p)
    (hPQ : ∀ (j : ℕ) p, j ≠ i → acts[j]? = some p → P j p → Q j p) (hp' : Q i p') :
    ∀ (j : ℕ) p, (acts.set i p')[j]? = some p → Q j p := by
  intro j p hp
  by_cases hj : j = i
  · subst hj
    rw [getElem?_set, if_pos rfl] at hp
    split_ifs at hp
    cases hp
    exact hp'
  · rw [getElem?_set_ne (Ne.symm hj)] at hp
    exact hPQ j p hj hp (h j p hp)

theorem forall_append_index {P : ℕ → π → Prop} {p' : π} (h : ∀ (j : ℕ) p, acts[j]? = some p → P j p)
    (hp' : P acts.length p') : ∀ (j : ℕ) p, (acts ++ [p'])[j]? = some p → P j p := by
  intro j p hp
  rcases lt_trichotomy j acts.length with hj | rfl | hj
  · rw [getElem?_append_left hj] at hp
    exact h j p hp
  · rw [getElem?_concat_length] at hp
    cases hp
    exact hp'
  · rw [getElem?_eq_none (by simp; omega)] at hp
    cases hp

end ThreadPool
