import Mathlib

/-! # Scatter tables with chains

A table of slots that holds as many entries as it has slots.  An entry belongs to a main position.
The table is filled in two passes: the first gives each main position to the first entry that
belongs there (`Layout.place`), the second puts every other entry into a free slot and links that
slot behind the main position (`Layout.chain`).

The chains need not be disjoint for a search to be right: it is enough that every entry is
reached from its main position, that a chain leads through occupied slots, and that it ends. -/

namespace ScatterTable

open List Function

variable {ε : Type}

structure Layout (ε : Type) where
  entry : ℕ → Option ε
  next : ℕ → Option ℕ

namespace Layout

def empty : Layout ε := ⟨fun _ => none, fun _ => none⟩

def place (t : Layout ε) (p : ℕ) (e : ε) : Layout ε :=
  ⟨update t.entry p (some e), update t.next p none⟩

/-- The entry is put into the slot `f`, which becomes the second of the chain from `m`. -/
def chain (t : Layout ε) (m f : ℕ) (e : ε) : Layout ε :=
  ⟨update t.entry f (some e),
    update (update t.next f (t.next m)) m (some f)⟩

def Reaches (t : Layout ε) : ℕ → ℕ → Prop := Relation.ReflTransGen fun i j => t.next i = some j

/-- The chain from `i` is finite. -/
def Ends (t : Layout ε) : ℕ → Prop := Acc fun j i => t.next i = some j

/-- The first entry of the chain from a slot that is looked for. -/
def search (found : ε → Bool) (t : Layout ε) : ℕ → ℕ → Option (Option ε)
  | 0, _ => none
  | n + 1, i =>
    match t.entry i with
    | none => none
    | some e =>
      if found e then some (some e)
      else
        match t.next i with
        | none => some none
        | some j => search found t n j

end Layout

open Layout

variable {main : ε → ℕ} {t : Layout ε} {e : ε}

/-! ### The first pass -/

/-- The table after the first pass over `seen`. -/
structure Placed (main : ε → ℕ) (seen : List ε) (t : Layout ε) : Prop where
  spec : ∀ {i e}, t.entry i = some e → e ∈ seen ∧ main e = i ∧ t.next i = none
  head : ∀ e ∈ seen, ∃ e', t.entry (main e) = some e'

namespace Placed

variable {seen : List ε}

theorem nil : Placed main [] (Layout.empty : Layout ε) where
  spec h := by cases h
  head e he := absurd he not_mem_nil

theorem place (h : Placed main seen t) : Placed main (seen ++ [e]) (t.place (main e) e) where
  spec {i e'} he' := by
    by_cases hi : i = main e
    · subst hi
      obtain rfl : e = e' := by simpa [Layout.place] using he'
      exact ⟨mem_append_right _ mem_cons_self, rfl, by simp [Layout.place]⟩
    · simp only [Layout.place, update_of_ne hi] at he' ⊢
      obtain ⟨hmem, hmain, hnext⟩ := h.spec he'
      exact ⟨mem_append_left _ hmem, hmain, hnext⟩
  head e' he' := by
    by_cases hi : main e' = main e
    · exact ⟨e, by simp [Layout.place, hi]⟩
    · simp only [Layout.place, update_of_ne hi]
      rcases mem_append.mp he' with hseen | hnew
      · exact h.head e' hseen
      · exact absurd (congrArg main (mem_singleton.mp hnew)) hi

theorem skip {e' : ε} (h : Placed main seen t) (htaken : t.entry (main e) = some e') :
    Placed main (seen ++ [e]) t where
  spec he' := by
    obtain ⟨hmem, hrest⟩ := h.spec he'
    exact ⟨mem_append_left _ hmem, hrest⟩
  head x hx := by
    rcases mem_append.mp hx with hseen | hnew
    · exact h.head x hseen
    · rw [mem_singleton.mp hnew]
      exact ⟨e', htaken⟩

end Placed

/-! ### The second pass -/

/-- The table in the second pass over `all`, when `done` were looked at. -/
structure Chained (main : ε → ℕ) (size : ℕ) (all done : List ε) (t : Layout ε) : Prop where
  bound : ∀ {i e}, t.entry i = some e → i < size
  mem : ∀ {i e}, t.entry i = some e → e ∈ all
  inj : ∀ {i j e}, t.entry i = some e → t.entry j = some e → i = j
  reach : ∀ {i e}, t.entry i = some e → t.Reaches (main e) i
  closed : ∀ {i j e}, t.entry i = some e → t.next i = some j → ∃ e', t.entry j = some e'
  ends : ∀ {i e}, t.entry i = some e → t.Ends i
  head : ∀ e ∈ all, ∃ e', t.entry (main e) = some e'
  late : ∀ {i e}, t.entry i = some e → main e = i ∨ e ∈ done
  inserted : ∀ e ∈ done, ∃ i, t.entry i = some e

variable {size : ℕ} {all done : List ε}

theorem Placed.chained (h : Placed main all t) (hsize : ∀ e ∈ all, main e < size) :
    Chained main size all [] t where
  bound he := by
    obtain ⟨hmem, rfl, -⟩ := h.spec he
    exact hsize _ hmem
  mem he := (h.spec he).1
  inj he he' := (h.spec he).2.1.symm.trans (h.spec he').2.1
  reach he := by
    rw [(h.spec he).2.1]
    exact .refl
  closed he hnext := by
    rw [(h.spec he).2.2] at hnext
    cases hnext
  ends he := ⟨_, fun j hj => by
    rw [(h.spec he).2.2] at hj
    cases hj⟩
  head := h.head
  late he := .inl (h.spec he).2.1
  inserted e he := absurd he not_mem_nil

namespace Chained

theorem skip (h : Chained main size all done t) (hin : t.entry (main e) = some e) :
    Chained main size all (done ++ [e]) t :=
  { h with
    late := fun he => (h.late he).imp_right (mem_append_left _)
    inserted := fun x hx => by
      rcases mem_append.mp hx with hdone | hnew
      · exact h.inserted x hdone
      · rw [mem_singleton.mp hnew]
        exact ⟨_, hin⟩ }

/-- An entry that was not looked at and is not at its main position is not in the table. -/
theorem not_entry (h : Chained main size all done t) (hnew : e ∉ done)
    (hmain : t.entry (main e) ≠ some e) (i : ℕ) : t.entry i ≠ some e := by
  intro hi
  rcases h.late hi with rfl | hdone
  · exact hmain hi
  · exact hnew hdone

theorem exists_free (h : Chained main size all done t) (hlen : all.length = size)
    (hmem : e ∈ all) (hout : ∀ i, t.entry i ≠ some e) : ∃ f < size, t.entry f = none := by
  by_contra hfull
  have hslot : ∀ i : Fin size, ∃ k : Fin all.length, t.entry i = some all[k] := by
    intro i
    cases hi : t.entry i with
    | none => exact absurd ⟨i, i.2, hi⟩ hfull
    | some x =>
      obtain ⟨k, hk, hx⟩ := mem_iff_getElem.mp (h.mem hi)
      exact ⟨⟨k, hk⟩, congrArg some hx.symm⟩
  choose place hplace using hslot
  -- As many slots as entries: an injective choice of entries misses none.
  have hinj : Function.Injective (Fin.cast hlen ∘ place) := by
    intro i j hij
    have heq : place i = place j := Fin.cast_injective hlen hij
    have hj := hplace j
    rw [← heq] at hj
    exact Fin.ext (h.inj (hplace i) hj)
  obtain ⟨k, hk, hx⟩ := mem_iff_getElem.mp hmem
  obtain ⟨i, hi⟩ := Finite.surjective_of_injective hinj ⟨k, hlen ▸ hk⟩
  have hpk : place i = ⟨k, hk⟩ := Fin.cast_injective hlen hi
  refine hout i ?_
  rw [hplace i, hpk]
  exact congrArg some hx

theorem full (h : Chained main size all all t) (hnodup : all.Nodup) (hlen : all.length = size) :
    ∀ i < size, ∃ e, t.entry i = some e := by
  have hslot : ∀ k : Fin all.length, ∃ i, t.entry i = some all[k] := fun k =>
    h.inserted _ (getElem_mem k.2)
  choose slot hslot using hslot
  have hinj : Function.Injective fun k : Fin size =>
      (⟨slot (Fin.cast hlen.symm k), h.bound (hslot _)⟩ : Fin size) := by
    intro k l hkl
    have heq := congrArg t.entry (Fin.mk.inj hkl)
    rw [hslot, hslot] at heq
    exact Fin.cast_injective _ (Fin.ext (hnodup.getElem_inj_iff.mp (Option.some.inj heq)))
  intro i hi
  obtain ⟨k, hk⟩ := Finite.surjective_of_injective hinj ⟨i, hi⟩
  exact ⟨_, (congrArg t.entry (Fin.mk.inj hk)).symm.trans (hslot _)⟩

section chain

variable {f : ℕ} (h : Chained main size all done t) (hfree : t.entry f = none)

include h hfree in
theorem reaches_chain {i j : ℕ} {x : ε} (hi : t.entry i = some x) (hij : t.Reaches i j) :
    (t.chain (main e) f e).Reaches i j ∧ ∃ y, t.entry j = some y := by
  induction hij with
  | refl => exact ⟨.refl, x, hi⟩
  | @tail j k _ hstep ih =>
    obtain ⟨hreach, y, hy⟩ := ih
    refine ⟨?_, h.closed hy hstep⟩
    have hne : j ≠ f := by
      rintro rfl
      rw [hfree] at hy
      cases hy
    by_cases hm : j = main e
    · subst hm
      refine (hreach.tail (c := f) ?_).tail ?_
      · simp [Layout.chain]
      · simp only [Layout.chain, update_of_ne hne.symm, update_self]
        exact hstep
    · refine hreach.tail ?_
      simp only [Layout.chain, update_of_ne hm, update_of_ne hne]
      exact hstep

include h hfree in
theorem ends_chain {i : ℕ} {x : ε} (hi : t.entry i = some x) : (t.chain (main e) f e).Ends i := by
  have hends := h.ends hi
  induction hends generalizing x with
  | intro i _ ih =>
    have hne : i ≠ f := by
      rintro rfl
      rw [hfree] at hi
      cases hi
    refine ⟨i, fun j hj => ?_⟩
    by_cases hm : i = main e
    · subst hm
      obtain rfl : f = j := by simpa [Layout.chain] using hj
      refine ⟨f, fun k hk => ?_⟩
      simp only [Layout.chain, update_of_ne hne.symm, update_self] at hk
      obtain ⟨y, hy⟩ := h.closed hi hk
      exact ih k hk hy
    · simp only [Layout.chain, update_of_ne hm, update_of_ne hne] at hj
      obtain ⟨y, hy⟩ := h.closed hi hj
      exact ih j hj hy

include h hfree in
theorem chain (hmem : e ∈ all) (hout : ∀ i, t.entry i ≠ some e) (hsize : f < size) :
    Chained main size all (done ++ [e]) (t.chain (main e) f e) := by
  obtain ⟨m, hm⟩ := h.head e hmem
  have hentry : ∀ {i x}, (t.chain (main e) f e).entry i = some x →
      i = f ∧ x = e ∨ i ≠ f ∧ t.entry i = some x := by
    intro i x hx
    by_cases hi : i = f
    · subst hi
      simp only [Layout.chain, update_self, Option.some.injEq] at hx
      exact .inl ⟨rfl, hx.symm⟩
    · simp only [Layout.chain, update_of_ne hi] at hx
      exact .inr ⟨hi, hx⟩
  have hold : ∀ {i x}, t.entry i = some x → (t.chain (main e) f e).entry i = some x := by
    intro i x hx
    have hi : i ≠ f := by
      rintro rfl
      rw [hfree] at hx
      cases hx
    simp only [Layout.chain, update_of_ne hi]
    exact hx
  have hself : (t.chain (main e) f e).entry f = some e := by simp [Layout.chain]
  have hlink : (t.chain (main e) f e).next (main e) = some f := by simp [Layout.chain]
  have hends := ends_chain (e := e) h hfree hm
  refine ⟨?_, ?_, ?_, ?_, ?_, ?_, ?_, ?_, ?_⟩
  · intro i x hx
    rcases hentry hx with ⟨rfl, -⟩ | ⟨-, hx⟩
    · exact hsize
    · exact h.bound hx
  · intro i x hx
    rcases hentry hx with ⟨-, rfl⟩ | ⟨-, hx⟩
    · exact hmem
    · exact h.mem hx
  · intro i j x hi hj
    rcases hentry hi with ⟨rfl, rfl⟩ | ⟨-, hi'⟩
    · rcases hentry hj with ⟨rfl, -⟩ | ⟨-, hj⟩
      · rfl
      · exact absurd hj (hout j)
    · rcases hentry hj with ⟨-, rfl⟩ | ⟨-, hj⟩
      · exact absurd hi' (hout i)
      · exact h.inj hi' hj
  · intro i x hx
    rcases hentry hx with ⟨rfl, rfl⟩ | ⟨-, hx⟩
    · exact .single hlink
    · obtain ⟨y, hy⟩ := h.head x (h.mem hx)
      exact (h.reaches_chain hfree hy (h.reach hx)).1
  · intro i j x hx hnext
    by_cases hi : i = main e
    · subst hi
      rw [hlink] at hnext
      cases hnext
      exact ⟨e, hself⟩
    · simp only [Layout.chain, update_of_ne hi] at hnext
      rcases hentry hx with ⟨rfl, -⟩ | ⟨hne, hx⟩
      · rw [update_self] at hnext
        obtain ⟨y, hy⟩ := h.closed hm hnext
        exact ⟨y, hold hy⟩
      · rw [update_of_ne hne] at hnext
        obtain ⟨y, hy⟩ := h.closed hx hnext
        exact ⟨y, hold hy⟩
  · intro i x hx
    rcases hentry hx with ⟨rfl, -⟩ | ⟨-, hx⟩
    · exact hends.inv hlink
    · exact h.ends_chain hfree hx
  · intro x hx
    obtain ⟨y, hy⟩ := h.head x hx
    exact ⟨y, hold hy⟩
  · intro i x hx
    rcases hentry hx with ⟨-, rfl⟩ | ⟨-, hx⟩
    · exact .inr (mem_append_right _ mem_cons_self)
    · exact (h.late hx).imp_right (mem_append_left _)
  · intro x hx
    rcases mem_append.mp hx with hdone | hnew
    · obtain ⟨i, hi⟩ := h.inserted x hdone
      exact ⟨i, hold hi⟩
    · rw [mem_singleton.mp hnew]
      exact ⟨f, hself⟩

end chain

/-! ### Searches -/

/-- A search from an occupied slot ends, with an entry that is looked for if the chain has one. -/
theorem search_spec (h : Chained main size all done t) (found : ε → Bool) {i : ℕ} {x : ε}
    (hi : t.entry i = some x) : ∃ r n₀, (∀ n ≥ n₀, t.search found n i = some r) ∧
      (∀ e, r = some e → found e = true ∧ ∃ j, t.entry j = some e) ∧
      (r = none → ∀ j e, t.Reaches i j → t.entry j = some e → found e = false) := by
  have hends := h.ends hi
  induction hends generalizing x with
  | intro i _ ih =>
    cases hx : found x with
    | true =>
      refine ⟨some x, 1, ?_, ?_, fun hr => by cases hr⟩
      · rintro (_ | n) hn
        · cases hn
        · simp only [Layout.search, hi, hx, if_true]
      · rintro e ⟨⟩
        exact ⟨hx, i, hi⟩
    | false =>
      cases hnext : t.next i with
      | none =>
        refine ⟨none, 1, ?_, by rintro e ⟨⟩, fun _ j e hij hj => ?_⟩
        · rintro (_ | n) hn
          · cases hn
          · simp only [Layout.search, hi, hx, hnext, Bool.false_eq_true, if_false]
        · rcases hij.cases_head with rfl | ⟨k, hk, -⟩
          · rw [hi] at hj
            cases hj
            exact hx
          · rw [hnext] at hk
            cases hk
      | some k =>
        obtain ⟨y, hy⟩ := h.closed hi hnext
        obtain ⟨r, n₀, hrun, hsome, hnone⟩ := ih k hnext hy
        refine ⟨r, n₀ + 1, ?_, hsome, fun hr j e hij hj => ?_⟩
        · rintro (_ | n) hn
          · cases hn
          · simp only [Layout.search, hi, hx, hnext, Bool.false_eq_true, if_false]
            exact hrun n (Nat.le_of_succ_le_succ hn)
        · rcases hij.cases_head with rfl | ⟨l, hl, hlj⟩
          · rw [hi] at hj
            cases hj
            exact hx
          · rw [hnext] at hl
            cases hl
            exact hnone hr j e hlj hj

end Chained

end ScatterTable
