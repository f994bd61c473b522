import Mathlib

/-! # Hash tables with chains

A table of chains: the entries with key `k` stand in the chain `hash k`.  `link` puts an entry in
front of its chain, `take` finds the first entry with a key and unlinks it.  As long as no entry is
linked whose key is in the table, the table is a partial map from keys to entries
(`Represents`): `link` adds to the map and `take` removes from it, whatever keys share a chain. -/

theorem filter_eraseP_self {α : Type} (p : α → Bool) (l : List α) :
    (l.eraseP p).filter p = (l.filter p).tail := by
  induction l with
  | nil => rfl
  | cons a l ih => by_cases ha : p a <;> simp [ha, ih]

theorem filter_eraseP_of_disjoint {α : Type} {p r : α → Bool} (h : ∀ a, p a → r a = false)
    (l : List α) : (l.eraseP p).filter r = l.filter r := by
  induction l with
  | nil => rfl
  | cons a l ih =>
    by_cases ha : p a
    · rw [List.eraseP_cons_of_pos ha, List.filter_cons_of_neg (by rw [h a ha]; decide)]
    · rw [List.eraseP_cons_of_neg ha, List.filter_cons, List.filter_cons, ih]

namespace HashChains

open List Function

variable {ι : Type} (key : ι → ℕ) (hash : ℕ → ℕ)

/-- Put an entry in front of its chain. -/
def link (table : ℕ → List ι) (e : ι) : ℕ → List ι :=
  update table (hash (key e)) (e :: table (hash (key e)))

/-- The first entry with key `k`, and the table without it. -/
def take (table : ℕ → List ι) (k : ℕ) : Option (ι × (ℕ → List ι)) :=
  match (table (hash k)).find? (key · = k) with
  | none => none
  | some e => some (e, update table (hash k) ((table (hash k)).eraseP (key · = k)))

/-- The table holds the entries of the map and no others. -/
def Represents (table : ℕ → List ι) (f : ℕ → Option ι) : Prop :=
  ∀ b k, (table b).filter (key · = k) = if hash k = b then (f k).toList else []

variable {key hash} {table : ℕ → List ι} {f : ℕ → Option ι}

theorem represents_empty : Represents key hash (fun _ => []) fun _ => none := by
  intro b k
  split_ifs <;> rfl

variable (h : Represents key hash table f)

include h

theorem Represents.filter (k : ℕ) : (table (hash k)).filter (key · = k) = (f k).toList := by
  rw [h, if_pos rfl]

/-- A change of the chain of `k` that leaves the entries with other keys alone. -/
theorem Represents.update {k : ℕ} {chain : List ι} {v : Option ι}
    (hown : chain.filter (key · = k) = v.toList)
    (hother : ∀ k', k' ≠ k → chain.filter (key · = k') = (table (hash k)).filter (key · = k')) :
    Represents key hash (update table (hash k) chain) (update f k v) := by
  intro b k'
  by_cases hk : k' = k
  · subst hk
    rw [update_self]
    by_cases hb : hash k' = b
    · subst hb
      rw [update_self, if_pos rfl, hown]
    · rw [update_of_ne (Ne.symm hb), h, if_neg hb, if_neg hb]
  · rw [update_of_ne hk]
    by_cases hb : b = hash k
    · subst hb
      rw [update_self, hother k' hk, h]
    · rw [update_of_ne hb, h]

theorem Represents.link {e : ι} (he : f (key e) = none) :
    Represents key hash (link key hash table e) (Function.update f (key e) (some e)) := by
  refine h.update ?_ fun k' hk' => ?_
  · rw [filter_cons_of_pos (by exact decide_eq_true rfl), h.filter, he]
    rfl
  · exact filter_cons_of_neg fun heq => hk' (of_decide_eq_true heq).symm

theorem Represents.take (k : ℕ) : (f k = none ∧ take key hash table k = none) ∨
      ∃ e t, f k = some e ∧ take key hash table k = some (e, t) ∧ key e = k ∧
        Represents key hash t (Function.update f k none) := by
  have hchain := h.filter k
  unfold HashChains.take
  rw [← head?_filter, hchain]
  cases hf : f k with
  | none => exact .inl ⟨rfl, rfl⟩
  | some e =>
    have hmem : e ∈ (table (hash k)).filter (key · = k) := by
      rw [hchain, hf]
      exact mem_singleton_self e
    refine .inr ⟨e, _, rfl, rfl, of_decide_eq_true (mem_filter.mp hmem).2, ?_⟩
    refine h.update ?_ fun k' hk' => ?_
    · rw [filter_eraseP_self, hchain, hf]
      rfl
    · refine filter_eraseP_of_disjoint (fun e' he' => decide_eq_false ?_) _
      rw [of_decide_eq_true he']
      exact Ne.symm hk'

theorem Represents.eq_nil (hf : ∀ k, f k = none) (b : ℕ) : table b = [] := by
  refine eq_nil_iff_forall_not_mem.mpr fun e he => ?_
  have hmem : e ∈ (table b).filter (key · = key e) :=
    mem_filter.mpr ⟨he, decide_eq_true rfl⟩
  rw [h, hf] at hmem
  split_ifs at hmem
  · exact not_mem_nil hmem
  · exact not_mem_nil hmem

omit h

/-- What holds of the entries of a table and of a new entry holds after it has been linked. -/
theorem forall_link {P : ι → Prop} (h : ∀ b, ∀ e ∈ table b, P e) {e : ι} (he : P e) (b : ℕ) :
    ∀ e' ∈ link key hash table e b, P e' := by
  intro e' he'
  rw [HashChains.link, update_apply] at he'
  split_ifs at he'
  · rcases mem_cons.mp he' with rfl | hmem
    · exact he
    · exact h _ e' hmem
  · exact h b e' he'

theorem forall_take {P : ι → Prop} (h : ∀ b, ∀ e ∈ table b, P e) {k : ℕ} {e : ι} {t : ℕ → List ι}
    (ht : take key hash table k = some (e, t)) : P e ∧ ∀ b, ∀ e' ∈ t b, P e' := by
  unfold HashChains.take at ht
  split at ht
  · cases ht
  · next hfind =>
      cases ht
      refine ⟨h _ e (mem_of_find?_eq_some hfind), fun b e' he' => ?_⟩
      rw [update_apply] at he'
      split_ifs at he'
      · exact h _ e' (mem_of_mem_eraseP he')
      · exact h b e' he'

end HashChains
