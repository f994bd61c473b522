import Mathlib

/-! # Labelled transition systems

A transition system is an initial state together with a partial step function: `step s a`
is the state after action `a`, and `none` when `a` is not enabled in `s`.  The label `a`
carries every choice of the environment (which thread moves, what a system call returns),
so runs are lists of labels and can be evaluated.

* `ReachableVia ok` restricts the runs to steps that meet a side condition `ok`, a
  predicate of the state before the step and of the label.
* `ReachableVia.invariant` is the induction principle used by all safety results: an
  invariant is established initially and kept by every step that meets the condition.
* `exec_lockstep` is bisimulation of two systems over the same labels: when related states
  enable the same actions and stay related, so do whole runs. -/

namespace Transition

/-- A transition system with states `σ` and labels `α`. -/
structure System (σ α : Type) where
  init : σ
  step : σ → α → Option σ

variable {σ τ α : Type}

/-- An entry of a table after one entry was set. -/
theorem update_cases {ι β : Type*} [DecidableEq ι] {f : ι → β} {i j : ι} {v x : β}
    (h : Function.update f i v j = x) : j = i ∧ v = x ∨ j ≠ i ∧ f j = x := by
  by_cases hj : j = i
  · subst hj
    exact .inl ⟨rfl, (Function.update_self j v f).symm.trans h⟩
  · exact .inr ⟨hj, (Function.update_of_ne hj v f).symm.trans h⟩

namespace System

/-- The state after the actions `as`, if all of them are enabled. -/
def exec (M : System σ α) : σ → List α → Option σ
  | s, [] => some s
  | s, a :: as => (M.step s a).bind fun t => exec M t as

/-- States reached through steps that all meet `ok`. -/
inductive ReachableVia (M : System σ α) (ok : σ → α → Prop) : σ → Prop
  | init : ReachableVia M ok M.init
  | step {s t : σ} {a : α} :
      ReachableVia M ok s → ok s a → M.step s a = some t → ReachableVia M ok t

/-- States reached by any run. -/
def Reachable (M : System σ α) : σ → Prop := M.ReachableVia fun _ _ => True

variable {M : System σ α}

theorem exec_cons {s u : σ} {a : α} {as : List α} (h : M.exec s (a :: as) = some u) :
    ∃ t, M.step s a = some t ∧ M.exec t as = some u := by
  simpa [exec, Option.bind_eq_some_iff] using h

theorem exec_append {s t u : σ} {as bs : List α} (h : M.exec s as = some t)
    (h' : M.exec t bs = some u) : M.exec s (as ++ bs) = some u := by
  induction as generalizing s with
  | nil =>
    cases h
    exact h'
  | cons a as ih =>
    obtain ⟨v, hv, hvt⟩ := exec_cons h
    simp only [List.cons_append, exec, hv, Option.bind_some]
    exact ih hvt

theorem exists_exec (M : System σ α) (as : List α) (P : σ → Prop) [DecidablePred P]
    (h : ((M.exec M.init as).any fun s => decide (P s)) = true) :
    ∃ s, M.exec M.init as = some s ∧ P s := by
  simpa [Option.any_eq_true] using h

theorem ReachableVia.next {ok : σ → α → Prop} {s t : σ} (h : M.ReachableVia ok s) (a : α)
    (hok : ok s a) (hs : M.step s a = some t) : M.ReachableVia ok t := .step h hok hs

/-- The state after the actions `as`, if each of them is enabled and meets `ok`. -/
def execVia (M : System σ α) (ok : σ → α → Prop) [∀ s a, Decidable (ok s a)] :
    σ → List α → Option σ
  | s, [] => some s
  | s, a :: as => if ok s a then (M.step s a).bind fun t => execVia M ok t as else none

theorem ReachableVia.execVia {ok : σ → α → Prop} [∀ s a, Decidable (ok s a)] {s t : σ} {as : List α}
    (h : M.ReachableVia ok s) (has : M.execVia ok s as = some t) : M.ReachableVia ok t := by
  induction as generalizing s with
  | nil =>
    cases has
    exact h
  | cons a as ih =>
    simp only [System.execVia] at has
    split_ifs at has with hok
    obtain ⟨u, hu, hut⟩ := Option.bind_eq_some_iff.mp has
    exact ih (h.step hok hu) hut

/-- What can be checked at the end of a run whose steps meet `ok`. -/
theorem exists_reachable (M : System σ α) (ok : σ → α → Prop) [∀ s a, Decidable (ok s a)]
    (as : List α) (P : σ → Prop) [DecidablePred P]
    (h : ((M.execVia ok M.init as).any fun s => decide (P s)) = true) :
    ∃ s, M.ReachableVia ok s ∧ P s := by
  obtain ⟨s, hs, hP⟩ : ∃ s, M.execVia ok M.init as = some s ∧ P s := by
    simpa [Option.any_eq_true] using h
  exact ⟨s, ReachableVia.init.execVia hs, hP⟩

/-- **Invariant rule.** -/
theorem ReachableVia.invariant {ok : σ → α → Prop} {I : σ → Prop} (hinit : I M.init)
    (hstep : ∀ s a t, I s → ok s a → M.step s a = some t → I t) {s : σ} (h : M.ReachableVia ok s) :
    I s := by
  induction h with
  | init => exact hinit
  | step _ hok hs ih => exact hstep _ _ _ ih hok hs

/-- **Lockstep simulation.** -/
theorem exec_lockstep {M : System σ α} {N : System τ α} {R : σ → τ → Prop}
    (hstep : ∀ s t a, R s t → Option.Rel R (M.step s a) (N.step t a)) :
    ∀ (as : List α) (s : σ) (t : τ), R s t → Option.Rel R (M.exec s as) (N.exec t as)
  | [], _, _, h => .some h
  | a :: as, s, t, h => by
      have ha := hstep s t a h
      simp only [exec]
      cases hs : M.step s a <;> cases ht : N.step t a <;> rw [hs, ht] at ha <;> cases ha
      · exact .none
      · exact exec_lockstep hstep as _ _ ‹_›

theorem exec_invariant {M : System σ α} {I : σ → Prop}
    (hstep : ∀ s a t, I s → M.step s a = some t → I t) :
    ∀ (as : List α) (s t : σ), I s → M.exec s as = some t → I t
  | [], s, t, hI, h => by
      cases h
      exact hI
  | a :: as, s, t, hI, h => by
      obtain ⟨u, hs, hu⟩ := exec_cons h
      exact exec_invariant hstep as u t (hstep s a u hI hs) hu

end System

/-- A step function that lowers a measure while it is not finished comes to its end, after at most
as many steps as the measure says. -/
theorem exists_finished {f : σ → σ} {I finished : σ → Prop} {μ : σ → ℕ}
    (hstep : ∀ s, I s → ¬ finished s → I (f s) ∧ μ (f s) < μ s) :
    ∀ (k : ℕ) (s : σ), I s → μ s ≤ k → ∃ n ≤ k, finished (f^[n] s)
  | k, s, hI, hk => by
      by_cases hs : finished s
      · exact ⟨0, Nat.zero_le _, hs⟩
      · obtain ⟨hI', hlt⟩ := hstep s hI hs
        match k with
        | 0 => omega
        | k + 1 =>
          obtain ⟨n, hn, hfin⟩ := exists_finished hstep k (f s) hI' (by omega)
          exact ⟨n + 1, by omega, hfin⟩

end Transition
