import Skynet.ScatterTable
import Skynet.ShareData

/-! # Lookups in a shared table

The hash part that the two passes of `convtable` build is a scatter table: its entries are those of
the Lua table that do not lie in the array (`Models`).  A lookup with a key that fits an `int`
finds what the Lua table has for it, at any depth (`indexes_of_fits`, `index_newconf`).

Other integers are cut to 32 bits, so a lookup with `2^32 + 1` reads the first element of the
array (`index_beyond_int`). -/

namespace Skynet.ShareData

open Function ScatterTable
open List hiding lookup get

theorem bind_eq_ok {ε σ α β : Type} {m : EStateM ε σ α} {f : α → EStateM ε σ β} {s u : σ} {b : β}
    (h : (m >>= f) s = .ok b u) : ∃ a t, m s = .ok a t ∧ f a t = .ok b u := by
  simp only [Bind.bind, EStateM.bind] at h
  cases hms : m s with rw [hms] at h
  | ok a t => exact ⟨a, t, rfl, h⟩
  | error e t => cases h

/-! ### Keys -/

theorem toInt_toInt32 {n : Int64} (h : (Value.integer n).Fits) : n.toInt32.toInt = n.toInt := by
  obtain ⟨hlo, hhi⟩ := h
  rw [Int64.toInt_toInt32]
  apply Int.bmod_eq_of_le <;> omega

/-- The hash of a key. -/
def hashOf : Value → UInt32
  | .integer n => n.toInt32.toUInt32
  | k => calchash k.tolstring

/-- What a node keeps of a key. -/
inductive Names (strings : List Bytes) : Value → HashKey → Prop
  | integer (n : Int64) :
      Names strings (.integer n) ⟨n.toInt32.toInt, n.toInt32.toUInt32, .integer⟩
  | string (s : Bytes) (i : ℕ) (hi : strings[i]? = some s) :
      Names strings (.string s) ⟨i + 2, calchash s, .string⟩

variable {strings s s' : List Bytes} {k : Value} {hk : HashKey} {i : ℕ} {es : List (Value × Value)}
  {e : Value × Value} {nodes : List (Node Item)}

theorem Names.mono {strings' : List Bytes} (h : Names strings k hk) (hsub : strings <+: strings') :
    Names strings' k hk := by
  cases h with
  | integer n => exact .integer n
  | string s i hi =>
    obtain ⟨more, rfl⟩ := hsub
    refine .string s i ?_
    rw [getElem?_append_left (List.getElem?_eq_some_iff.mp hi).1, hi]

theorem Names.keyhash (h : Names strings k hk) : hk.keyhash = hashOf k := by
  cases h <;> rfl

theorem text_of_getElem? {s : Bytes} (h : strings[i]? = some s) :
    text strings ((i : ℤ) + 2) = s := by
  rw [text, if_neg (by omega), getD_eq_getElem?_getD]
  have hi : ((i : ℤ) + 2 - 2).toNat = i := by omega
  rw [hi, h]
  rfl

theorem isAt_iff {k' : Value} {n : Node Item} (h : Names strings k ⟨n.key, n.keyhash, n.keytype⟩)
    (hfits : k.Fits) (hfits' : k'.Fits)
    (hk' : match k' with
      | .integer m => hk = ⟨m.toInt32.toInt, m.toInt32.toUInt32, .integer⟩
      | _ => hk = ⟨0, calchash k'.tolstring, .string⟩) :
    isAt strings n hk k'.tolstring = true ↔ k = k' := by
  generalize hnode : (⟨n.key, n.keyhash, n.keytype⟩ : HashKey) = node at h
  cases h with simp only [HashKey.mk.injEq] at hnode
  | integer a =>
    obtain ⟨hkey, hhash, htype⟩ := hnode
    cases k' with
    | integer b =>
      subst hk'
      simp only [isAt, hkey, hhash, htype]
      constructor
      · intro h
        have heq : a.toInt32.toInt = b.toInt32.toInt := by
          split at h
          · exact of_decide_eq_true h
          · cases h
        rw [toInt_toInt32 hfits, toInt_toInt32 hfits'] at heq
        rw [Int64.toInt_inj.mp heq]
      · rintro ⟨⟩
        simp
    | string s =>
      subst hk'
      simp [isAt, htype]
    | _ => exact absurd hfits' id
  | string s i hi =>
    obtain ⟨hkey, hhash, htype⟩ := hnode
    cases k' with
    | integer b =>
      subst hk'
      simp [isAt, htype]
    | string s' =>
      subst hk'
      simp only [isAt, hkey, hhash, htype, text_of_getElem? hi, Value.tolstring]
      constructor
      · intro h
        split at h
        · rw [of_decide_eq_true h]
        · cases h
      · rintro ⟨⟩
        simp
    | _ => exact absurd hfits' id

/-- The test of `fillcolliding`. -/
theorem Names.eq_iff {k' : Value} {hk' : HashKey} (h : Names strings k hk)
    (h' : Names strings k' hk') (hnodup : strings.Nodup) (hfits : k.Fits) (hfits' : k'.Fits) :
    (hk.keytype = hk'.keytype ∧ hk.key = hk'.key) ↔ k = k' := by
  cases h with
  | integer a =>
    cases h' with
    | integer b =>
      simp only [true_and, toInt_toInt32 hfits, toInt_toInt32 hfits', Int64.toInt_inj,
        Value.integer.injEq]
    | string s i hi => simp
  | string s i hi =>
    cases h' with
    | integer b => simp
    | string s' j hj =>
      simp only [true_and, Value.string.injEq]
      constructor
      · intro hij
        obtain rfl : i = j := by omega
        rw [hi] at hj
        exact Option.some.inj hj
      · rintro rfl
        obtain ⟨hi, hs⟩ := List.getElem?_eq_some_iff.mp hi
        obtain ⟨hj, hs'⟩ := List.getElem?_eq_some_iff.mp hj
        rw [hnodup.getElem_inj_iff.mp (hs.trans hs'.symm)]

/-! ### The strings -/

/-- A part of the conversion only adds strings. -/
def Grows (s s' : List Bytes) : Prop := s <+: s' ∧ s'.Nodup

theorem Grows.refl (hs : s.Nodup) : Grows s s := ⟨prefix_rfl, hs⟩

theorem Grows.trans {s'' : List Bytes} (h : Grows s s') (h' : Grows s' s'') : Grows s s'' :=
  ⟨h.1.trans h'.1, h'.2⟩

variable {str : Bytes} {sizearray : ℤ}

theorem stringindex_spec (h : stringindex str s = .ok i s') (hs : s.Nodup) :
    Grows s s' ∧ ∃ j, i = j + 2 ∧ s'[j]? = some str := by
  simp only [stringindex, Bind.bind, EStateM.bind, get, getThe, MonadStateOf.get, EStateM.get] at h
  split at h
  · rename_i hmem
    cases h
    have hlt := idxOf_lt_length_of_mem hmem
    exact ⟨.refl hs, _, rfl, List.getElem?_eq_some_iff.mpr ⟨hlt, getElem_idxOf hlt⟩⟩
  · rename_i hmem
    cases h
    refine ⟨⟨prefix_append _ _, ?_⟩, _, rfl, getElem?_concat_length⟩
    rw [nodup_append_comm]
    exact nodup_cons.mpr ⟨hmem, hs⟩

/-- A key that lies in the array. -/
def InArray (sizearray : ℤ) : Value → Prop
  | .integer n => 0 < n.toInt ∧ n.toInt ≤ sizearray
  | _ => False

instance (sizearray : ℤ) : DecidablePred (InArray sizearray) := fun k => by
  cases k <;> simp only [InArray] <;> infer_instance

theorem ishashkey_spec {x : ℤ ⊕ HashKey} (h : ishashkey sizearray k s = .ok x s') (hfits : k.Fits)
    (hs : s.Nodup) : Grows s s' ∧
      ((∃ n : Int64, k = .integer n ∧ InArray sizearray k ∧ x = .inl n.toInt) ∨
        ¬ InArray sizearray k ∧ ∃ hk, x = .inr hk ∧ Names s' k hk) := by
  cases k with
  | integer n =>
    simp only [ishashkey] at h
    rw [toInt_toInt32 hfits] at h
    split at h
    · rename_i harr
      cases h
      exact ⟨.refl hs, .inl ⟨n, rfl, harr, rfl⟩⟩
    · rename_i harr
      cases h
      refine ⟨.refl hs, .inr ⟨harr, _, rfl, ?_⟩⟩
      rw [← toInt_toInt32 hfits]
      exact .integer n
  | string str =>
    obtain ⟨i, t, hi, h⟩ := bind_eq_ok h
    cases h
    obtain ⟨hgrows, j, rfl, hj⟩ := stringindex_spec hi hs
    exact ⟨hgrows, .inr ⟨id, _, rfl, .string str j hj⟩⟩
  | _ => exact absurd hfits id

/-! ### Values -/

/-- The item stands for the value, also when strings are added later. -/
def Stored (heap : Heap) (s : List Bytes) (v : Value) (item : Item) : Prop :=
  ∀ s', s <+: s' → Represents heap s' v (pushvalue s' item)

variable {heap : Heap}

theorem Stored.mono {v : Value} {item : Item} (h : Stored heap s v item) (hsub : s <+: s') :
    Stored heap s' v item :=
  fun s'' hs'' => h s'' (hsub.trans hs'')

theorem Stored.nil (s : List Bytes) : Stored heap s .nil .nil := fun _ _ => .nil

theorem Stored.isNil {v : Value} {item : Item} (h : Stored heap s v item) (hv : v ≠ .nil) :
    item.isNil = false := by
  have hrep := h s prefix_rfl
  cases item with
  | nil =>
    cases hrep
    exact absurd rfl hv
  | _ => rfl

/-- What a conversion of the tables in `R` gives. -/
def Converts (heap : Heap) (conv : ℕ → Conv (Tbl Item)) (R : ℕ → Prop) : Prop :=
  ∀ r s tbl s', R r → conv r s = .ok tbl s' → s.Nodup →
    Grows s s' ∧ Stored heap s' (.table r) (.table tbl)

section fill

variable {conv : ℕ → Conv (Tbl Item)} {R : ℕ → Prop} (hconv : Converts heap conv R)

include hconv in
theorem setvalue_spec {v : Value} {item : Item} (h : setvalue conv v s = .ok item s')
    (hv : ∀ r, v = .table r → R r) (hs : s.Nodup) :
    Grows s s' ∧ Stored heap s' v item := by
  cases v with
  | nil | boolean | integer | real =>
    cases h
    exact ⟨.refl hs, fun _ _ => by constructor⟩
  | string str =>
    obtain ⟨i, t, hi, h⟩ := bind_eq_ok h
    cases h
    obtain ⟨hgrows, j, rfl, hj⟩ := stringindex_spec hi hs
    refine ⟨hgrows, fun s'' hs'' => ?_⟩
    obtain ⟨more, rfl⟩ := hs''
    have hj' : (s' ++ more)[j]? = some str := by
      rw [getElem?_append_left (List.getElem?_eq_some_iff.mp hj).1, hj]
    have hindex : ((j + 2 : ℕ) : ℤ) = (j : ℤ) + 2 := by omega
    simp only [pushvalue, hindex, text_of_getElem? hj']
    exact .string str
  | table r =>
    obtain ⟨tbl, t, htbl, h⟩ := bind_eq_ok h
    cases h
    exact hconv r s tbl s' (hv r rfl) htbl hs
  | other r => cases h

end fill

/-! ### Entries -/

theorem lookup_of_notMem (h : k ∉ es.map Prod.fst) : lookup es k = .nil := by
  have hfind : es.find? (fun e => e.1 = k) = none := by
    rw [find?_eq_none]
    intro e he hk
    exact h (mem_map.mpr ⟨e, he, of_decide_eq_true hk⟩)
  rw [lookup, hfind]

theorem lookup_of_mem (hnodup : (es.map Prod.fst).Nodup) (h : e ∈ es) : lookup es e.1 = e.2 := by
  rw [lookup]
  cases hfind : es.find? fun x => x.1 = e.1 with
  | none =>
    have hall := find?_eq_none.mp hfind e h
    simp at hall
  | some x =>
    have hx : x.1 = e.1 := by simpa using find?_some hfind
    rw [inj_on_of_nodup_map hnodup (mem_of_find?_eq_some hfind) h hx]

theorem mem_of_lookup (h : lookup es k ≠ .nil) : (k, lookup es k) ∈ es := by
  rw [lookup] at h ⊢
  cases hfind : es.find? fun e => e.1 = k with
  | none =>
    rw [hfind] at h
    exact absurd rfl h
  | some e =>
    have hk : e.1 = k := by simpa using find?_some hfind
    rw [← hk]
    exact mem_of_find?_eq_some hfind

theorem lookup_concat_of_ne (h : e.1 ≠ k) : lookup (es ++ [e]) k = lookup es k := by
  rw [lookup, lookup, find?_append, find?_singleton, if_neg (by simpa using h),
    Option.or_none]

/-- The entries of the hash part. -/
def hashed (sizearray : ℤ) (es : List (Value × Value)) : List (Value × Value) :=
  es.filter fun e => ¬ InArray sizearray e.1

theorem hashed_concat_of_inArray (h : InArray sizearray e.1) (es : List (Value × Value)) :
    hashed sizearray (es ++ [e]) = hashed sizearray es := by
  simp [hashed, filter_append, h]

theorem hashed_concat (h : ¬ InArray sizearray e.1) (es : List (Value × Value)) :
    hashed sizearray (es ++ [e]) = hashed sizearray es ++ [e] := by
  simp [hashed, filter_append, h]

/-- The main position of an entry. -/
def mainpos (size : ℕ) (e : Value × Value) : ℕ := (hashOf e.1).toNat % size

theorem Names.slot {size : ℕ} {tbl : Tbl Item} {v : Value} (h : Names strings k hk)
    (hlen : tbl.hash.length = size) : tbl.slot hk.keyhash = mainpos size (k, v) := by
  rw [Tbl.slot, mainpos, hlen, h.keyhash]

theorem toInt_ofInt_index (h : i < 2 ^ 31) : (Int64.ofInt (i + 1 : ℕ)).toInt = (i + 1 : ℕ) := by
  apply Int64.toInt_ofInt_of_le <;> omega

/-! ### The nodes and the scatter table -/

/-- The field `next` -/
def link : Option ℕ → ℤ
  | none => -1
  | some j => j

/-- The nodes hold the entries of the scatter table. -/
structure Models (heap : Heap) (s : List Bytes) (nodes : List (Node Item))
    (lay : Layout (Value × Value)) : Prop where
  free : ∀ {i n}, nodes[i]? = some n → lay.entry i = none → n.value.isNil = true
  used : ∀ {i n e}, nodes[i]? = some n → lay.entry i = some e →
    Names s e.1 ⟨n.key, n.keyhash, n.keytype⟩ ∧ Stored heap s e.2 n.value ∧
      n.value.isNil = false ∧ n.next = link (lay.next i) ∧
      (n.nocolliding = true → lay.next i = none)

namespace Models

variable {s s' : List Bytes} {nodes : List (Node Item)} {lay : Layout (Value × Value)}
  {e : Value × Value} {hk : HashKey} {item : Item}

theorem mono (h : Models heap s nodes lay) (hsub : s <+: s') : Models heap s' nodes lay where
  free := h.free
  used hn he := by
    obtain ⟨hname, hstored, hrest⟩ := h.used hn he
    exact ⟨hname.mono hsub, hstored.mono hsub, hrest⟩

theorem fresh (h : ∀ n ∈ nodes, n.value = .nil) : Models heap s nodes .empty where
  free hn _ := by rw [h _ (mem_of_getElem? hn), Item.isNil]
  used _ he := by cases he

theorem place (h : Models heap s nodes lay) (p : ℕ) (hname : Names s e.1 hk)
    (hstored : Stored heap s e.2 item) (hnil : item.isNil = false) :
    Models heap s (nodes.set p ⟨item, hk.key, -1, hk.keyhash, hk.keytype, true⟩)
      (lay.place p e) where
  free {i n} hn he := by
    have hi : i ≠ p := by
      rintro rfl
      simp [Layout.place] at he
    simp only [Layout.place, update_of_ne hi] at he
    rw [getElem?_set_ne hi.symm] at hn
    exact h.free hn he
  used {i n x} hn hx := by
    by_cases hi : i = p
    · subst hi
      obtain rfl : e = x := by simpa [Layout.place] using hx
      rw [getElem?_set_self'] at hn
      cases hget : nodes[i]? with rw [hget] at hn
      | none => cases hn
      | some m =>
        cases hn
        have hnext : (lay.place i e).next i = none := by simp [Layout.place]
        exact ⟨hname, hstored, hnil, by rw [hnext]; rfl, fun _ => hnext⟩
    · simp only [Layout.place, update_of_ne hi] at hx ⊢
      rw [getElem?_set_ne (Ne.symm hi)] at hn
      exact h.used hn hx

section chain

variable {m f : ℕ} {main x : Node Item} (hmf : m ≠ f)

include hmf in
theorem chainNode_main (hm : nodes[m]? = some main) : (chainNode nodes m f main hk item)[m]? =
      some { main with next := f, nocolliding := false } := by
  simp [chainNode, hm, hmf.symm]

include hmf in
theorem chainNode_free (hf : nodes[f]? = some x) : (chainNode nodes m f main hk item)[f]? =
      some ⟨item, hk.key, main.next, hk.keyhash, hk.keytype, false⟩ := by
  simp [chainNode, hf, hmf]

theorem chainNode_of_ne (him : i ≠ m) (hif : i ≠ f) :
    (chainNode nodes m f main hk item)[i]? = nodes[i]? := by
  simp [chainNode, him.symm, hif.symm]

theorem length_chainNode : (chainNode nodes m f main hk item).length = nodes.length := by
  simp [chainNode]

theorem chain (h : Models heap s nodes lay) {y : Value × Value} (hm : nodes[m]? = some main)
    (hy : lay.entry m = some y) (hf : nodes[f]? = some x) (hfree : lay.entry f = none)
    (hname : Names s e.1 hk) (hstored : Stored heap s e.2 item) (hnil : item.isNil = false) :
    Models heap s (chainNode nodes m f main hk item) (lay.chain m f e) := by
  have hmf : m ≠ f := by
    rintro rfl
    rw [hfree] at hy
    cases hy
  have hentry : ∀ i, i ≠ f → (lay.chain m f e).entry i = lay.entry i := fun i hi => by
    simp only [Layout.chain, update_of_ne hi]
  refine ⟨fun {i n} hn he => ?_, fun {i n z} hn hz => ?_⟩
  · have hif : i ≠ f := by
      rintro rfl
      simp [Layout.chain] at he
    rw [hentry i hif] at he
    have him : i ≠ m := by
      rintro rfl
      rw [hy] at he
      cases he
    rw [chainNode_of_ne him hif] at hn
    exact h.free hn he
  · by_cases hif : i = f
    · subst hif
      obtain rfl : e = z := by simpa [Layout.chain] using hz
      rw [chainNode_free hmf hf] at hn
      cases hn
      have hnext : (lay.chain m i e).next i = lay.next m := by
        simp [Layout.chain, update_of_ne hmf.symm]
      refine ⟨hname, hstored, hnil, ?_, fun hcol => by cases hcol⟩
      rw [hnext]
      exact (h.used hm hy).2.2.2.1
    · rw [hentry i hif] at hz
      by_cases him : i = m
      · subst him
        rw [chainNode_main hmf hm] at hn
        cases hn
        obtain ⟨hname', hstored', hnil', -, -⟩ := h.used hm hz
        have hnext : (lay.chain i f e).next i = some f := by simp [Layout.chain]
        exact ⟨hname', hstored', hnil', by rw [hnext]; rfl, fun hcol => by cases hcol⟩
      · rw [chainNode_of_ne him hif] at hn
        simp only [Layout.chain, update_of_ne him, update_of_ne hif]
        exact h.used hn hz

end chain

end Models

theorem freeSlot_eq_some {f : ℕ} (h : freeSlot i nodes = some f) :
    ∃ j, f = i + j ∧ (∃ n, nodes[j]? = some n ∧ n.value.isNil = true) ∧
      ∀ l < j, ∀ n, nodes[l]? = some n → n.value.isNil = false := by
  induction nodes generalizing i with
  | nil => cases h
  | cons n nodes ih =>
    rw [freeSlot] at h
    split at h
    · rename_i hnil
      cases h
      exact ⟨0, rfl, ⟨n, rfl, hnil⟩, fun l hl => absurd hl (Nat.not_lt_zero l)⟩
    · rename_i hnil
      obtain ⟨j, rfl, hn, hall⟩ := ih h
      refine ⟨j + 1, by omega, hn, ?_⟩
      rintro (_ | l) hl m hm
      · cases hm
        exact Bool.eq_false_of_not_eq_true hnil
      · exact hall l (by omega) m hm

theorem freeSlot_eq_none (h : freeSlot i nodes = none) : ∀ n ∈ nodes, n.value.isNil = false := by
  induction nodes generalizing i with
  | nil => simp
  | cons n nodes ih =>
    rw [freeSlot] at h
    split at h
    · cases h
    · rename_i hnil
      rintro m (_ | ⟨_, hm⟩)
      · exact Bool.eq_false_of_not_eq_true hnil
      · exact ih h m hm

/-! ### The array -/

/-- The array holds what `es` has for its indices. -/
def ArrayOf (heap : Heap) (s : List Bytes) (es : List (Value × Value)) (array : List Item) : Prop :=
  ∀ i item, array[i]? = some item →
    Stored heap s (lookup es (.integer (Int64.ofInt (i + 1 : ℕ)))) item

namespace ArrayOf

variable {s s' : List Bytes} {es : List (Value × Value)} {array : List Item}
  {e : Value × Value} {item : Item}

theorem mono (h : ArrayOf heap s es array) (hsub : s <+: s') : ArrayOf heap s' es array :=
  fun i item hi => (h i item hi).mono hsub

theorem replicate_nil (s : List Bytes) (n : ℕ) : ArrayOf heap s [] (List.replicate n .nil) := by
  intro i item hi
  obtain ⟨hlt, rfl⟩ := List.getElem?_eq_some_iff.mp hi
  rw [getElem_replicate]
  exact .nil s

theorem concat (h : ArrayOf heap s es array) (hlen : array.length < 2 ^ 31)
    (hkey : ¬ InArray array.length e.1) : ArrayOf heap s (es ++ [e]) array := by
  intro i item hi
  have hlt := (List.getElem?_eq_some_iff.mp hi).1
  rw [lookup_concat_of_ne]
  · exact h i item hi
  · intro heq
    apply hkey
    rw [heq, InArray, toInt_ofInt_index (by omega)]
    omega

theorem set {n : Int64} {v : Value} (h : ArrayOf heap s es array) (hlen : array.length < 2 ^ 31)
    (hnew : .integer n ∉ es.map Prod.fst) (hkey : InArray array.length (.integer n))
    (hstored : Stored heap s v item) :
    ArrayOf heap s (es ++ [(.integer n, v)]) (array.set (n.toInt - 1).toNat item) := by
  obtain ⟨hpos, hle⟩ := hkey
  intro i x hi
  by_cases hin : i = (n.toInt - 1).toNat
  · subst hin
    rw [getElem?_set_self (by omega)] at hi
    cases hi
    have hn : Int64.ofInt ((n.toInt - 1).toNat + 1 : ℕ) = n := by
      rw [← Int64.toInt_inj, toInt_ofInt_index (by omega)]
      omega
    rw [hn, lookup, find?_append, find?_eq_none.mpr]
    · simpa using hstored
    · intro e he hk
      exact hnew (mem_map.mpr ⟨e, he, of_decide_eq_true hk⟩)
  · rw [getElem?_set_ne (Ne.symm hin)] at hi
    have hlt := (List.getElem?_eq_some_iff.mp hi).1
    rw [lookup_concat_of_ne]
    · exact h i x hi
    · intro heq
      have hn := congrArg Int64.toInt (Value.integer.inj heq)
      rw [toInt_ofInt_index (by omega)] at hn
      omega

end ArrayOf

/-! ### The passes -/

/-- The first pass, when the entries `seen` were looked at. -/
structure First (heap : Heap) (sizearray : ℤ) (size : ℕ) (seen : List (Value × Value))
    (s : List Bytes) (tbl : Tbl Item) (lay : Layout (Value × Value)) : Prop where
  nodup : s.Nodup
  length_array : (tbl.array.length : ℤ) = sizearray
  length_hash : tbl.hash.length = size
  array : ArrayOf heap s seen tbl.array
  models : Models heap s tbl.hash lay
  placed : Placed (mainpos size) (hashed sizearray seen) lay

/-- The second pass; the slots below `emptyslot` are taken. -/
structure Second (heap : Heap) (sizearray : ℤ) (size : ℕ) (es seen : List (Value × Value))
    (emptyslot : ℕ) (s : List Bytes) (tbl : Tbl Item) (lay : Layout (Value × Value)) : Prop where
  nodup : s.Nodup
  length_array : (tbl.array.length : ℤ) = sizearray
  length_hash : tbl.hash.length = size
  array : ArrayOf heap s es tbl.array
  models : Models heap s tbl.hash lay
  chained : Chained (mainpos size) size (hashed sizearray es) (hashed sizearray seen) lay
  taken : ∀ i < emptyslot, i < size → ∃ e, lay.entry i = some e

section passes

variable {sizearray : ℤ} {size : ℕ} {es seen : List (Value × Value)} {s s' : List Bytes}
  {tbl : Tbl Item} {lay : Layout (Value × Value)} {k v : Value} {hk : HashKey} {item : Item}

theorem First.start {hash : List (Node Item)} (hs : s.Nodup) (n : ℕ) (hlen : hash.length = size)
    (hnil : ∀ n ∈ hash, n.value = .nil) :
    First heap n size [] s ⟨replicate n .nil, hash⟩ .empty where
  nodup := hs
  length_array := by rw [length_replicate]
  length_hash := hlen
  array := .replicate_nil s n
  models := .fresh hnil
  placed := .nil

theorem First.mono (h : First heap sizearray size seen s tbl lay) (hgrows : Grows s s') :
    First heap sizearray size seen s' tbl lay :=
  { h with
    nodup := hgrows.2
    array := h.array.mono hgrows.1
    models := h.models.mono hgrows.1 }

variable {emptyslot : ℕ}

theorem Second.mono (h : Second heap sizearray size es seen emptyslot s tbl lay)
    (hgrows : Grows s s') : Second heap sizearray size es seen emptyslot s' tbl lay :=
  { h with
    nodup := hgrows.2
    array := h.array.mono hgrows.1
    models := h.models.mono hgrows.1 }

variable (h : First heap sizearray size seen s tbl lay)

include h

theorem First.setarray {n : Int64} (hlt : sizearray < 2 ^ 31)
    (hnew : .integer n ∉ seen.map Prod.fst) (hkey : InArray sizearray (.integer n))
    (hstored : Stored heap s v item) :
    First heap sizearray size (seen ++ [(.integer n, v)]) s (tbl.setarray n.toInt item) lay where
  nodup := h.nodup
  length_array := by
    simp only [Tbl.setarray, length_set]
    exact h.length_array
  length_hash := h.length_hash
  array := by
    have hlen := h.length_array
    refine h.array.set (by omega) hnew ?_ hstored
    rw [hlen]
    exact hkey
  models := h.models
  placed := by
    rw [hashed_concat_of_inArray hkey]
    exact h.placed

theorem First.concat (hlt : sizearray < 2 ^ 31) (hkey : ¬ InArray sizearray k) :
    ArrayOf heap s (seen ++ [(k, v)]) tbl.array := by
  have hlen := h.length_array
  refine h.array.concat (by omega) ?_
  rw [hlen]
  exact hkey

theorem First.place (hlt : sizearray < 2 ^ 31) (hkey : ¬ InArray sizearray k) (hname : Names s k hk)
    (hstored : Stored heap s v item) (hnil : item.isNil = false) :
    First heap sizearray size (seen ++ [(k, v)]) s { tbl with
        hash := tbl.hash.set (tbl.slot hk.keyhash)
          ⟨item, hk.key, -1, hk.keyhash, hk.keytype, true⟩ }
      (lay.place (mainpos size (k, v)) (k, v)) where
  nodup := h.nodup
  length_array := h.length_array
  length_hash := by rw [length_set, h.length_hash]
  array := h.concat hlt hkey
  models := by
    rw [hname.slot h.length_hash]
    exact h.models.place _ hname hstored hnil
  placed := by
    rw [hashed_concat hkey]
    exact h.placed.place

theorem First.skip {x : Value × Value} (hlt : sizearray < 2 ^ 31) (hkey : ¬ InArray sizearray k)
    (htaken : lay.entry (mainpos size (k, v)) = some x) :
    First heap sizearray size (seen ++ [(k, v)]) s tbl lay :=
  { h with
    array := h.concat hlt hkey
    placed := by
      rw [hashed_concat hkey]
      exact h.placed.skip htaken }

omit h

variable {conv : ℕ → Conv (Tbl Item)} {R : ℕ → Prop} (hconv : Converts heap conv R) {t : Table}
  (ht : t.Fits) (hsub : ∀ e ∈ t.entries, ∀ r, e.2 = .table r → R r)

variable {tbl' : Tbl Item} {s₀ : List Bytes}

theorem not_mem_seen (hes : t.entries = seen ++ (k, v) :: es) : k ∉ seen.map Prod.fst := by
  have hnodup := t.nodup
  rw [hes, map_append, nodup_append] at hnodup
  exact fun hk => hnodup.2.2 k hk k (by simp) rfl

include hconv ht hsub in
theorem fillnocolliding_spec (hlt : sizearray < 2 ^ 31) (hes : t.entries = seen ++ es)
    (h : First heap sizearray size seen s tbl lay) (hs : Grows s₀ s)
    (hrun : fillnocolliding conv sizearray es tbl s = .ok tbl' s') :
    Grows s₀ s' ∧ ∃ lay', First heap sizearray size t.entries s' tbl' lay' := by
  induction es generalizing seen s tbl lay with
  | nil =>
    cases hrun
    rw [append_nil] at hes
    exact ⟨hs, lay, hes ▸ h⟩
  | cons e es ih =>
    obtain ⟨k, v⟩ := e
    have hmem : (k, v) ∈ t.entries := by simp [hes]
    have hrest : t.entries = (seen ++ [(k, v)]) ++ es := by simp [hes]
    obtain ⟨x, s₁, hx, hrun⟩ := bind_eq_ok hrun
    obtain ⟨hgrows, hcase⟩ := ishashkey_spec hx (ht.key _ hmem) h.nodup
    have h₁ := h.mono hgrows
    have hs₁ := hs.trans hgrows
    rcases hcase with ⟨n, rfl, harr, rfl⟩ | ⟨harr, hk, rfl, hname⟩
    · obtain ⟨item, s₂, hitem, hrun⟩ := bind_eq_ok hrun
      obtain ⟨hgrows', hstored⟩ := setvalue_spec hconv hitem (hsub _ hmem) h₁.nodup
      exact ih hrest ((h₁.mono hgrows').setarray hlt (not_mem_seen hes) harr hstored)
        (hs₁.trans hgrows') hrun
    · cases hn : tbl.hash[tbl.slot hk.keyhash]? with simp only [hn] at hrun
      | none => cases hrun
      | some n =>
        rw [hname.slot h.length_hash] at hn
        by_cases hnil : n.value.isNil = true
        · rw [if_pos hnil] at hrun
          obtain ⟨item, s₂, hitem, hrun⟩ := bind_eq_ok hrun
          obtain ⟨hgrows', hstored⟩ := setvalue_spec hconv hitem (hsub _ hmem) h₁.nodup
          have hitem := hstored.isNil (t.present _ hmem)
          exact ih hrest ((h₁.mono hgrows').place hlt harr (hname.mono hgrows'.1) hstored hitem)
            (hs₁.trans hgrows') hrun
        · rw [if_neg hnil] at hrun
          cases hentry : lay.entry (mainpos size (k, v)) with
          | none => exact absurd (h.models.free hn hentry) hnil
          | some y => exact ih hrest (h₁.skip hlt harr hentry) hs₁ hrun

theorem Second.skip (h : Second heap sizearray size es seen emptyslot s tbl lay)
    (hkey : ¬ InArray sizearray k) (hin : lay.entry (mainpos size (k, v)) = some (k, v)) :
    Second heap sizearray size es (seen ++ [(k, v)]) emptyslot s tbl lay :=
  { h with
    chained := by
      rw [hashed_concat hkey]
      exact h.chained.skip hin }

theorem Second.freeSlot_spec {f : ℕ} (h : Second heap sizearray size es seen emptyslot s tbl lay)
    (hf : freeSlot emptyslot (tbl.hash.drop emptyslot) = some f) :
    (∃ n, tbl.hash[f]? = some n) ∧ lay.entry f = none ∧
      ∀ i < f, i < size → ∃ e, lay.entry i = some e := by
  obtain ⟨j, rfl, ⟨n, hn, hnil⟩, hall⟩ := freeSlot_eq_some hf
  rw [getElem?_drop] at hn
  refine ⟨⟨n, hn⟩, ?_, fun i hi hsize => ?_⟩
  · cases hentry : lay.entry (emptyslot + j) with
    | none => rfl
    | some e =>
      rw [(h.models.used hn hentry).2.2.1] at hnil
      cases hnil
  · by_cases hlow : i < emptyslot
    · exact h.taken i hlow hsize
    · cases hentry : lay.entry i with
      | some e => exact ⟨e, rfl⟩
      | none =>
        have hlen : i < tbl.hash.length := by rw [h.length_hash]; exact hsize
        have hget := getElem?_eq_getElem hlen
        have hdrop : (tbl.hash.drop emptyslot)[i - emptyslot]? = some tbl.hash[i] := by
          rw [getElem?_drop, ← hget]
          congr 1
          omega
        have hused := hall (i - emptyslot) (by omega) _ hdrop
        rw [h.models.free hget hentry] at hused
        cases hused

theorem Second.chain {f m : ℕ} {x y : Node Item}
    (h : Second heap sizearray size es seen emptyslot s tbl lay) (hmain : m = mainpos size (k, v))
    (hm : tbl.hash[m]? = some x) (hf : tbl.hash[f]? = some y) (hfree : lay.entry f = none)
    (hslots : ∀ i < f, i < size → ∃ e, lay.entry i = some e) (hmem : (k, v) ∈ hashed sizearray es)
    (hkey : ¬ InArray sizearray k) (hout : ∀ i, lay.entry i ≠ some (k, v)) (hname : Names s k hk)
    (hstored : Stored heap s v item) (hnil : item.isNil = false) :
    Second heap sizearray size es (seen ++ [(k, v)]) (f + 1) s
      { tbl with hash := chainNode tbl.hash m f x hk item } (lay.chain m f (k, v)) where
  nodup := h.nodup
  length_array := h.length_array
  length_hash := by rw [Models.length_chainNode, h.length_hash]
  array := h.array
  models := by
    obtain ⟨z, hz⟩ := h.chained.head _ hmem
    rw [← hmain] at hz
    exact h.models.chain hm hz hf hfree hname hstored hnil
  chained := by
    have hlt := (List.getElem?_eq_some_iff.mp hf).1
    rw [h.length_hash] at hlt
    rw [hashed_concat hkey, hmain]
    exact h.chained.chain hfree hmem hout hlt
  taken i hi hsize := by
    by_cases hif : i = f
    · exact ⟨(k, v), by simp [Layout.chain, hif]⟩
    · simp only [Layout.chain, update_of_ne hif]
      exact hslots i (by omega) hsize

/-- While an entry is missing, `fillcolliding` finds an empty slot. -/
theorem Second.freeSlot_ne_none (h : Second heap sizearray size es seen emptyslot s tbl lay)
    (hlen : (hashed sizearray es).length = size) (hmem : (k, v) ∈ hashed sizearray es)
    (hout : ∀ i, lay.entry i ≠ some (k, v)) :
    freeSlot emptyslot (tbl.hash.drop emptyslot) ≠ none := by
  intro hnone
  obtain ⟨f, hf, hfree⟩ := h.chained.exists_free hlen hmem hout
  have hlow : emptyslot ≤ f := by
    by_contra hlow
    obtain ⟨e, he⟩ := h.taken f (by omega) hf
    rw [hfree] at he
    cases he
  have hlt : f < tbl.hash.length := by rw [h.length_hash]; exact hf
  have hdrop : tbl.hash[f] ∈ tbl.hash.drop emptyslot := by
    rw [mem_drop_iff_getElem]
    exact ⟨f - emptyslot, by omega, by congr 1; omega⟩
  have hused := freeSlot_eq_none hnone _ hdrop
  rw [h.models.free (getElem?_eq_getElem hlt) hfree] at hused
  cases hused

include hconv ht hsub in
theorem fillcolliding_spec (hlen : (hashed sizearray t.entries).length = size)
    (hes : t.entries = seen ++ es)
    (h : Second heap sizearray size t.entries seen emptyslot s tbl lay) (hs : Grows s₀ s)
    (hrun : fillcolliding conv sizearray es emptyslot tbl s = .ok tbl' s') :
    Grows s₀ s' ∧ ∃ n lay', Second heap sizearray size t.entries t.entries n s' tbl' lay' := by
  induction es generalizing seen s tbl lay emptyslot with
  | nil =>
    cases hrun
    rw [append_nil] at hes
    exact ⟨hs, emptyslot, lay, hes ▸ h⟩
  | cons e es ih =>
    obtain ⟨k, v⟩ := e
    have hmem : (k, v) ∈ t.entries := by simp [hes]
    have hrest : t.entries = (seen ++ [(k, v)]) ++ es := by simp [hes]
    obtain ⟨x, s₁, hx, hrun⟩ := bind_eq_ok hrun
    obtain ⟨hgrows, hcase⟩ := ishashkey_spec hx (ht.key _ hmem) h.nodup
    have h₁ := h.mono hgrows
    have hs₁ := hs.trans hgrows
    rcases hcase with ⟨n, rfl, harr, rfl⟩ | ⟨harr, hk, rfl, hname⟩
    · have h₂ : Second heap sizearray size t.entries (seen ++ [(.integer n, v)]) emptyslot s₁
          tbl lay :=
        { h₁ with
          chained := by
            rw [hashed_concat_of_inArray harr]
            exact h₁.chained }
      exact ih hrest h₂ hs₁ hrun
    · have hslot := hname.slot (v := v) h.length_hash
      have hhash : (k, v) ∈ hashed sizearray t.entries :=
        mem_filter.mpr ⟨hmem, by simpa using harr⟩
      cases hn : tbl.hash[tbl.slot hk.keyhash]? with simp only [hn] at hrun
      | none => cases hrun
      | some n =>
        obtain ⟨y, hy⟩ := h.chained.head _ hhash
        rw [← hslot] at hy
        obtain ⟨hyname, -⟩ := h₁.models.used hn hy
        have hymem := (mem_filter.mp (h.chained.mem hy)).1
        have hsame := hyname.eq_iff hname h₁.nodup (ht.key _ hymem) (ht.key _ hmem)
        by_cases hin : n.keytype = hk.keytype ∧ n.key = hk.key
        · rw [if_pos hin] at hrun
          have hyk : y = (k, v) :=
            inj_on_of_nodup_map t.nodup hymem hmem (hsame.mp hin)
          rw [hyk, hslot] at hy
          exact ih hrest (h₁.skip harr hy) hs₁ hrun
        · rw [if_neg hin] at hrun
          have hout : ∀ i, lay.entry i ≠ some (k, v) := by
            refine h.chained.not_entry ?_ ?_
            · intro hseen
              exact not_mem_seen hes (mem_map.mpr ⟨_, (mem_filter.mp hseen).1, rfl⟩)
            · rw [← hslot, hy]
              rintro ⟨⟩
              exact hin (hsame.mpr rfl)
          cases hf : freeSlot emptyslot (tbl.hash.drop emptyslot) with
          | none => exact absurd hf (h.freeSlot_ne_none hlen hhash hout)
          | some f =>
            simp only [hf] at hrun
            obtain ⟨⟨z, hz⟩, hfree, hslots⟩ := h.freeSlot_spec hf
            obtain ⟨item, s₂, hitem, hrun⟩ := bind_eq_ok hrun
            obtain ⟨hgrows', hstored⟩ := setvalue_spec hconv hitem (hsub _ hmem) h₁.nodup
            exact ih hrest
              ((h₁.mono hgrows').chain hslot hn hz hfree hslots hhash harr hout
                (hname.mono hgrows'.1) hstored (hstored.isNil (t.present _ hmem)))
              (hs₁.trans hgrows') hrun

include hconv hsub in
theorem fillarray_spec {n : ℕ}
    (hdone : ∀ j < i, ∀ item, tbl.array[j]? = some item →
      Stored heap s (t.get (.integer (Int64.ofInt (j + 1 : ℕ)))) item)
    (hlen : n + i = tbl.array.length) (hs : s.Nodup)
    (hrun : fillarray conv t n (i + 1) tbl s = .ok tbl' s') :
    Grows s s' ∧ ArrayOf heap s' t.entries tbl'.array ∧ tbl'.array.length = tbl.array.length ∧
      tbl'.hash = tbl.hash := by
  induction n generalizing i s tbl with
  | zero =>
    cases hrun
    refine ⟨.refl hs, fun j item hj => ?_, rfl, rfl⟩
    have hlt := (List.getElem?_eq_some_iff.mp hj).1
    exact hdone j (by omega) item hj
  | succ n ih =>
    obtain ⟨item, s₁, hitem, hrun⟩ := bind_eq_ok hrun
    have hvalue : ∀ r, t.get (.integer (Int64.ofInt (i + 1 : ℕ))) = .table r → R r := by
      intro r hr
      have hne : t.get (.integer (Int64.ofInt (i + 1 : ℕ))) ≠ .nil := by
        rw [hr]
        exact Value.noConfusion
      exact hsub _ (mem_of_lookup hne) r hr
    obtain ⟨hgrows, hstored⟩ := setvalue_spec hconv hitem hvalue hs
    have hindex : ((i + 1 : ℕ) - 1 : ℤ).toNat = i := by omega
    have hset : (tbl.setarray (i + 1 : ℕ) item).array.length = tbl.array.length := by
      simp only [Tbl.setarray, length_set]
    have hnext : ∀ j < i + 1, ∀ x, (tbl.setarray (i + 1 : ℕ) item).array[j]? = some x →
        Stored heap s₁ (t.get (.integer (Int64.ofInt (j + 1 : ℕ)))) x := by
      intro j hj x hx
      simp only [Tbl.setarray, hindex] at hx
      by_cases hji : j = i
      · subst hji
        rw [getElem?_set_self (by omega)] at hx
        cases hx
        exact hstored
      · rw [getElem?_set_ne (Ne.symm hji)] at hx
        exact (hdone j (by omega) x hx).mono hgrows.1
    obtain ⟨hgrows', harray, hlen', hhash⟩ := ih hnext (by rw [hset]; omega) hgrows.2 hrun
    exact ⟨hgrows.trans hgrows', harray, hlen'.trans hset, hhash⟩

theorem countsize_spec {n : ℕ} {m : ℤ} (hfits : ∀ e ∈ es, e.1.Fits)
    (hlen : n + es.length < 2 ^ 31) (hrun : countsize sizearray es n s = .ok m s') :
    s' = s ∧ m = (n + (hashed sizearray es).length : ℕ) := by
  induction es generalizing n with
  | nil =>
    cases hrun
    exact ⟨rfl, rfl⟩
  | cons e es ih =>
    obtain ⟨k, v⟩ := e
    have hrest : ∀ e ∈ es, e.1.Fits := fun e he => hfits e (mem_cons_of_mem _ he)
    have hkey := hfits _ mem_cons_self
    rw [length_cons] at hlen
    have hnext : MachineInt.toInt ((n : ℤ) + 1) = (n + 1 : ℕ) := by
      have hcast : (n : ℤ) + 1 = (n + 1 : ℕ) := by omega
      rw [hcast]
      exact MachineInt.toInt_of_lt (by omega)
    have hcount : ¬ InArray sizearray k → countsize sizearray es (n + 1 : ℕ) s = .ok m s' →
        s' = s ∧ m = (n + (hashed sizearray ((k, v) :: es)).length : ℕ) := by
      intro harr hrun
      obtain ⟨hs, hm⟩ := ih hrest (by omega) hrun
      refine ⟨hs, ?_⟩
      rw [hm, hashed, hashed, filter_cons_of_pos (by simpa using harr), length_cons]
      omega
    cases k with
    | integer a =>
      rw [countsize] at hrun
      split at hrun
      · rename_i harr
        obtain ⟨hs, hm⟩ := ih hrest (by omega) hrun
        refine ⟨hs, ?_⟩
        have hin : InArray sizearray (.integer a) := harr
        rw [hm, hashed, hashed, filter_cons_of_neg (by simpa using hin)]
      · rename_i harr
        rw [hnext] at hrun
        exact hcount harr hrun
    | string str =>
      rw [countsize, hnext] at hrun
      exact hcount id hrun
    | _ => exact absurd hkey id

end passes

/-! ### One table -/

/-- The C table of a Lua table. -/
structure Built (heap : Heap) (s : List Bytes) (t : Table) (tbl : Tbl Item) : Prop where
  fits : t.Fits
  array : ArrayOf heap s t.entries tbl.array
  short : tbl.array.length < 2 ^ 31
  size : (hashed tbl.array.length t.entries).length = tbl.hash.length
  nodes : ∃ lay, Models heap s tbl.hash lay ∧
    Chained (mainpos tbl.hash.length) tbl.hash.length (hashed tbl.array.length t.entries)
      (hashed tbl.array.length t.entries) lay

theorem lookupLoop_succ {rounds : ℕ} {x : Option (Node Item)}
    (h : lookupLoop s nodes hk str rounds i = .ok x) :
    lookupLoop s nodes hk str (rounds + 1) i = .ok x := by
  induction rounds generalizing i with
  | zero => cases h
  | succ rounds ih =>
    rw [lookupLoop] at h ⊢
    cases hn : nodes[i]? with simp only [hn] at h ⊢
    | none => cases h
    | some n =>
      split_ifs at h ⊢
      · exact h
      · exact h
      · exact ih h

theorem lookupLoop_search {lay : Layout (Value × Value)} (h : Models heap s nodes lay)
    (hbound : ∀ i e, lay.entry i = some e → i < nodes.length)
    (hat : ∀ i n e, nodes[i]? = some n → lay.entry i = some e → (isAt s n hk str = true ↔ e.1 = k))
    {rounds : ℕ} {r : Option (Value × Value)} (hr : lay.search (fun e => e.1 = k) rounds i = some r)
    :
    ∃ x, lookupLoop s nodes hk str rounds i = .ok x ∧ (r = none → x = none) ∧
      ∀ e, r = some e → ∃ n, x = some n ∧ Stored heap s e.2 n.value := by
  induction rounds generalizing i with
  | zero => cases hr
  | succ rounds ih =>
    rw [Layout.search] at hr
    cases hentry : lay.entry i with
    | none =>
      rw [hentry] at hr
      cases hr
    | some e =>
      have hn := getElem?_eq_getElem (hbound i e hentry)
      have hiff := hat _ _ _ hn hentry
      obtain ⟨-, hstored, -, hnext, -⟩ := h.used hn hentry
      simp only [hentry] at hr
      rw [lookupLoop, hn]
      by_cases hk' : e.1 = k
      · rw [if_pos (by simpa using hk')] at hr
        cases hr
        refine ⟨_, if_pos (hiff.mpr hk'), by rintro ⟨⟩, ?_⟩
        rintro e ⟨⟩
        exact ⟨_, rfl, hstored⟩
      · rw [if_neg (by simpa using hk')] at hr
        simp only [if_neg (fun hc => hk' (hiff.mp hc))]
        rw [hnext]
        cases hlink : lay.next i with rw [hlink] at hr
        | none =>
          cases hr
          exact ⟨none, rfl, fun _ => rfl, by rintro e ⟨⟩⟩
        | some j =>
          have hpos : ¬ link (some j) < 0 := by
            rw [link]
            omega
          rw [if_neg hpos]
          exact ih hr

namespace Built

variable {s s' : List Bytes} {t : Table} {tbl : Tbl Item}

theorem lookupKey_spec (h : Built heap s t tbl) (hsub : s <+: s') {k : Value} {hk : HashKey}
    {str : Bytes} (harr : ¬ InArray tbl.array.length k) (hhash : hk.keyhash = hashOf k)
    (hat : ∀ n k', Names s' k' ⟨n.key, n.keyhash, n.keytype⟩ → k'.Fits →
      (isAt s' n hk str = true ↔ k' = k)) :
    ∃ x n₀, (∀ rounds ≥ n₀, lookupKey s' tbl hk str rounds = .ok x) ∧
      match x with
      | none => t.get k = .nil
      | some n => Stored heap s' (t.get k) n.value := by
  obtain ⟨lay, hmodels, hchained⟩ := h.nodes
  have hmodels := hmodels.mono hsub
  -- An entry of the table with the key is in the hash part.
  have hin : ∀ e ∈ t.entries, e.1 = k → e ∈ hashed tbl.array.length t.entries := by
    rintro e he rfl
    exact mem_filter.mpr ⟨he, by simpa using harr⟩
  have habsent : (∀ e ∈ t.entries, e.1 ≠ k) → t.get k = .nil := by
    intro hno
    refine lookup_of_notMem fun hmem => ?_
    obtain ⟨e, he, hek⟩ := mem_map.mp hmem
    exact hno e he hek
  by_cases hzero : tbl.hash.length = 0
  · refine ⟨none, 0, fun _ _ => by rw [lookupKey, if_pos hzero], habsent fun e he hek => ?_⟩
    have hmem := hin e he hek
    rw [eq_nil_of_length_eq_zero (h.size.trans hzero)] at hmem
    cases hmem
  · have hmap : ((hashed tbl.array.length t.entries).map Prod.fst).Nodup :=
      t.nodup.sublist (filter_sublist.map _)
    have hlt : tbl.slot hk.keyhash < tbl.hash.length := Nat.mod_lt _ (Nat.pos_of_ne_zero hzero)
    obtain ⟨x, hx⟩ := hchained.full (List.Nodup.of_map _ hmap) h.size _ hlt
    have hn := getElem?_eq_getElem hlt
    have hmain : ∀ e ∈ t.entries, e.1 = k → mainpos tbl.hash.length e = tbl.slot hk.keyhash := by
      rintro e - rfl
      rw [mainpos, Tbl.slot, hhash]
    have hfits' : ∀ {i e}, lay.entry i = some e → e ∈ t.entries := fun he =>
      (mem_filter.mp (hchained.mem he)).1
    simp only [lookupKey, if_neg hzero, hn]
    by_cases hcol : hk.keyhash ≠ tbl.hash[tbl.slot hk.keyhash].keyhash ∧
        tbl.hash[tbl.slot hk.keyhash].nocolliding = true
    · refine ⟨none, 0, fun _ _ => if_pos hcol, habsent fun e he hek => hcol.1 ?_⟩
      obtain ⟨hname, -, -, -, hnext⟩ := hmodels.used hn hx
      obtain ⟨i, hi⟩ := hchained.inserted e (hin e he hek)
      have hreach := hchained.reach hi
      rw [hmain e he hek] at hreach
      rcases hreach.cases_head with heq | ⟨j, hj, -⟩
      · rw [← heq, hx] at hi
        cases hi
        exact hhash.trans (hek ▸ hname.keyhash.symm)
      · rw [hnext hcol.2] at hj
        cases hj
    · obtain ⟨r, n₀, hrun, hsome, hnone⟩ :=
        hchained.search_spec (fun e => decide (e.1 = k)) hx
      obtain ⟨y, hy, hmiss, hhit⟩ := lookupLoop_search hmodels (fun i e he => hchained.bound he)
        (fun i n e hn he => hat n e.1 (hmodels.used hn he).1 (h.fits.key e (hfits' he)))
        (hrun n₀ le_rfl)
      have hall : ∀ rounds ≥ n₀, lookupLoop s' tbl.hash hk str rounds (tbl.slot hk.keyhash) =
          .ok y := by
        intro rounds hrounds
        induction rounds, hrounds using Nat.le_induction with
        | base => exact hy
        | succ n hn ih => exact lookupLoop_succ ih
      refine ⟨y, n₀, fun rounds hrounds => ?_, ?_⟩
      · rw [if_neg hcol]
        exact hall rounds hrounds
      · cases r with
        | none =>
          rw [hmiss rfl]
          refine habsent fun e he hek => ?_
          obtain ⟨i, hi⟩ := hchained.inserted e (hin e he hek)
          have hreach := hchained.reach hi
          rw [hmain e he hek] at hreach
          exact of_decide_eq_false (hnone rfl i e hreach hi) hek
        | some e =>
          obtain ⟨n, rfl, hstored⟩ := hhit e rfl
          obtain ⟨hek, i, hi⟩ := hsome e rfl
          have hek := of_decide_eq_true hek
          have hget := lookup_of_mem t.nodup (hfits' hi)
          rw [hek] at hget
          rw [Table.get, hget]
          exact hstored

theorem indexes (h : Built heap s t tbl) (hsub : s <+: s') (hfits : k.Fits) :
    ∃ p, Indexes s' tbl k p ∧ Represents heap s' (t.get k) p := by
  -- What `lookup_key` returns is pushed.
  have hpush : ∀ hk str, hk.keyhash = hashOf k → ¬ InArray tbl.array.length k →
      (∀ n k', Names s' k' ⟨n.key, n.keyhash, n.keytype⟩ → k'.Fits →
        (isAt s' n hk str = true ↔ k' = k)) →
      ∃ p n₀, (∀ rounds ≥ n₀, pushNode s' (lookupKey s' tbl hk str rounds) = .ok p) ∧
        Represents heap s' (t.get k) p := by
    intro hk str hhash harr hat
    obtain ⟨x, n₀, hrun, hx⟩ := h.lookupKey_spec hsub harr hhash hat
    cases x with
    | none =>
      refine ⟨.nil, n₀, fun rounds hrounds => ?_, ?_⟩
      · rw [hrun rounds hrounds, pushNode]
      · rw [hx]
        exact .nil
    | some n =>
      refine ⟨pushvalue s' n.value, n₀, fun rounds hrounds => ?_, hx s' prefix_rfl⟩
      rw [hrun rounds hrounds, pushNode]
  cases k with
  | integer n =>
    have hcut := toInt_toInt32 hfits
    by_cases harr : 0 < n.toInt ∧ n.toInt ≤ tbl.array.length
    · have hlt : (n.toInt - 1).toNat < tbl.array.length := by
        omega
      have hn : Int64.ofInt ((n.toInt - 1).toNat + 1 : ℕ) = n := by
        have hshort := h.short
        rw [← Int64.toInt_inj, toInt_ofInt_index (by omega)]
        omega
      have hstored := h.array _ _ (getElem?_eq_getElem hlt)
      rw [hn] at hstored
      refine ⟨_, ⟨0, fun rounds _ => ?_⟩, hstored s' hsub⟩
      simp only [lindexconf, hcut]
      rw [if_pos harr, getD_eq_getElem?_getD, getElem?_eq_getElem hlt]
      rfl
    · obtain ⟨p, n₀, hrun, hp⟩ := hpush ⟨n.toInt32.toInt, n.toInt32.toUInt32, .integer⟩ []
        rfl harr fun m k' hname hfits' => isAt_iff hname hfits' hfits rfl
      refine ⟨p, ⟨n₀, fun rounds hrounds => ?_⟩, hp⟩
      rw [← hrun rounds hrounds]
      simp only [lindexconf]
      rw [hcut, if_neg harr]
  | string str =>
    obtain ⟨p, n₀, hrun, hp⟩ := hpush ⟨0, calchash str, .string⟩ str rfl id
      fun m k' hname hfits' => isAt_iff hname hfits' hfits rfl
    exact ⟨p, ⟨n₀, hrun⟩, hp⟩
  | _ => exact absurd hfits id

end Built

/-! ### All tables -/

theorem represents_table {r : ℕ} {tbl : Tbl Item}
    (h : ∀ k, k.Fits → ∃ p, Indexes s tbl k p ∧ Represents heap s ((heap r).get k) p) :
    Represents heap s (.table r) (.table tbl) := by
  have : Nonempty Pushed := ⟨.nil⟩
  choose! value hvalue using h
  exact .table r tbl value (fun k hk => (hvalue k hk).1) fun k hk => (hvalue k hk).2

/-- All tables in a table have keys and sizes that fit. -/
def FitsWithin (heap : Heap) (r : ℕ) : Prop := ∀ r', heap.Within r r' → (heap r').Fits

theorem convtable_built {junk : ℕ → Node Item} {depth r : ℕ} {tbl : Tbl Item}
    (hconv : Converts heap (convtable junk heap depth) (FitsWithin heap))
    (hfits : FitsWithin heap r) (hrun : convtable junk heap (depth + 1) r s = .ok tbl s')
    (hs : s.Nodup) : Grows s s' ∧ Built heap s' (heap r) tbl := by
  have ht : (heap r).Fits := hfits r .refl
  have hsub : ∀ e ∈ (heap r).entries, ∀ r', e.2 = .table r' → FitsWithin heap r' := by
    rintro ⟨k, v⟩ he r' rfl r'' hr''
    exact hfits r'' (.head ⟨k, he⟩ hr'')
  have hlen : MachineInt.toInt (heap r).rawlen = ((heap r).rawlen : ℤ) :=
    MachineInt.toInt_of_lt ht.rawlen
  have hshort := ht.rawlen
  rw [convtable, hlen] at hrun
  obtain ⟨sizehash, s₁, hcount, hrun⟩ := bind_eq_ok hrun
  obtain ⟨rfl, rfl⟩ := countsize_spec ht.key (by rw [Nat.zero_add]; exact ht.size) hcount
  rw [Nat.zero_add] at hrun
  simp only [if_neg (not_lt.mpr (Int.natCast_nonneg _)), Int.toNat_natCast] at hrun
  by_cases hzero : (hashed (heap r).rawlen (heap r).entries).length = 0
  · rw [if_pos (by rw [hzero]; rfl)] at hrun
    obtain ⟨hgrows, harray, hlength, hhash⟩ := fillarray_spec hconv hsub
      (fun j hj => absurd hj (Nat.not_lt_zero j)) (by simp) hs hrun
    have harr : tbl.array.length = (heap r).rawlen := by simpa using hlength
    have hnil := eq_nil_of_length_eq_zero hzero
    refine ⟨hgrows, ht, harray, by rw [harr]; exact hshort, ?_, .empty, ?_, ?_⟩
    · rw [harr, hhash]
      exact hzero
    · rw [hhash]
      exact .fresh (by simp)
    · rw [harr, hhash, hnil]
      exact Placed.nil.chained (by simp)
  · rw [if_neg (by simpa using hzero)] at hrun
    obtain ⟨tbl₁, s₂, hfirst, hrun⟩ := bind_eq_ok hrun
    have hsize : ∀ f : ℕ → Node Item,
        ((range (hashed (heap r).rawlen (heap r).entries).length).map f).length =
          (hashed (heap r).rawlen (heap r).entries).length := by simp
    obtain ⟨hgrows, lay, h⟩ := fillnocolliding_spec hconv ht hsub (by omega) rfl
      (.start hs _ (hsize _) (by simp)) (.refl hs) hfirst
    have hsecond : Second heap (heap r).rawlen
        (hashed (heap r).rawlen (heap r).entries).length (heap r).entries [] 0 s₂ tbl₁ lay :=
      { h with
        chained := h.placed.chained fun e _ => Nat.mod_lt _ (Nat.pos_of_ne_zero hzero)
        taken := fun i hi => absurd hi (Nat.not_lt_zero i) }
    obtain ⟨hgrows', n, lay', h'⟩ := fillcolliding_spec hconv ht hsub rfl rfl hsecond hgrows hrun
    have harr := h'.length_array
    refine ⟨hgrows', ht, h'.array, by omega, ?_, lay', h'.models, ?_⟩
    · rw [harr, h'.length_hash]
    · rw [harr, h'.length_hash]
      exact h'.chained

theorem convtable_spec (junk : ℕ → Node Item) (heap : Heap) (depth : ℕ) :
    Converts heap (convtable junk heap depth) (FitsWithin heap) := by
  induction depth with
  | zero =>
    intro r s tbl s' _ hrun
    cases hrun
  | succ depth ih =>
    intro r s tbl s' hfits hrun hs
    obtain ⟨hgrows, hbuilt⟩ := convtable_built ih hfits hrun hs
    exact ⟨hgrows, fun s'' hs'' => represents_table fun k hk => hbuilt.indexes hs'' hk⟩

theorem indexes_of_fits {junk : ℕ → Node Item} {heap : Heap} {depth stack r : ℕ} {obj : Object}
    (hnew : newconf junk heap depth stack r = .ok obj) (hfits : FitsWithin heap r) {k : Value}
    (hk : k.Fits) : ∃ p, Indexes obj.strings obj.root k p ∧
      Represents heap obj.strings ((heap r).get k) p := by
  rw [newconf] at hnew
  split at hnew
  · cases hnew
  · rename_i tbl strings hrun
    split at hnew
    · cases hnew
    · cases hnew
      obtain ⟨-, hstored⟩ := convtable_spec junk heap depth r [] tbl strings hfits hrun .nil
      cases hstored strings prefix_rfl with
      | table _ _ value hindexes hrepresents => exact ⟨value k, hindexes k hk, hrepresents k hk⟩

/-! ### Every key -/

/-- The key that `lindexconf` looks for when it is given the integer `n`. -/
def cut (n : Int64) : Int64 := n.toInt32.toInt64

theorem cut_fits (n : Int64) : (Value.integer (cut n)).Fits := by
  have hlo := n.toInt32.minValue_le_toInt
  have hhi := n.toInt32.toInt_le
  simp only [Value.Fits, cut, Int32.toInt_toInt64]
  constructor
  · exact hlo
  · exact Int.lt_of_le_sub_one hhi

theorem indexes_cut {strings : List Bytes} {tbl : Tbl Item} {n : Int64} {p : Pushed} :
    Indexes strings tbl (.integer (cut n)) p ↔ Indexes strings tbl (.integer n) p := by
  simp [Indexes, lindexconf, cut]

theorem Indexes.unique {strings : List Bytes} {tbl : Tbl Item} {k : Value} {p p' : Pushed}
    (h : Indexes strings tbl k p) (h' : Indexes strings tbl k p') : p = p' := by
  obtain ⟨n, hn⟩ := h
  obtain ⟨n', hn'⟩ := h'
  exact Except.ok.inj ((hn _ (le_max_left n n')).symm.trans (hn' _ (le_max_right n n')))

/-- For the key `k` the table has what it has for the key that `lindexconf` looks for. -/
def Table.Agrees (t : Table) : Value → Prop
  | .integer n => t.get (.integer (cut n)) = t.get (.integer n)
  | .string _ => True
  | _ => False

theorem Table.Fits.agrees {t : Table} (h : t.Fits) {n : Int64} {heap : Heap} {strings : List Bytes}
    {p : Pushed} (hcut : Represents heap strings (t.get (.integer (cut n))) p)
    (hn : Represents heap strings (t.get (.integer n)) p) : t.Agrees (.integer n) := by
  by_cases hfits : (Value.integer n).Fits
  · have heq : cut n = n := Int64.toInt_inj.mp (by
      rw [cut, Int32.toInt_toInt64, toInt_toInt32 hfits])
    simp only [Table.Agrees, heq]
  · have hnil : t.get (.integer n) = .nil := lookup_of_notMem fun hmem => by
      obtain ⟨e, he, hkey⟩ := mem_map.mp hmem
      exact hfits (hkey ▸ h.key e he)
    rw [hnil] at hn
    cases hn
    rw [Table.Agrees, hnil]
    generalize t.get (.integer (cut n)) = v at hcut
    cases hcut
    rfl

/-- **Lookups**: when the keys of the tables are strings or integers that fit an `int`, an object
that was accepted gives for a key what the Lua table has for it exactly if the key is a string, or
an integer and the table has the same for its last 32 bits. -/
theorem index_newconf {junk : ℕ → Node Item} {heap : Heap} {depth stack r : ℕ} {obj : Object}
    (hnew : newconf junk heap depth stack r = .ok obj) (hfits : FitsWithin heap r) (k : Value) :
    (∃ p, Indexes obj.strings obj.root k p ∧ Represents heap obj.strings ((heap r).get k) p) ↔
      (heap r).Agrees k := by
  cases k with
  | string str => exact iff_of_true (indexes_of_fits hnew hfits trivial) trivial
  | integer n =>
    obtain ⟨p, hindexes, hrepresents⟩ := indexes_of_fits hnew hfits (cut_fits n)
    constructor
    · rintro ⟨p', hindexes', hrepresents'⟩
      obtain rfl := hindexes.unique (indexes_cut.mpr hindexes')
      exact (hfits r .refl).agrees hrepresents hrepresents'
    · intro hagrees
      exact ⟨p, indexes_cut.mp hindexes, hagrees ▸ hrepresents⟩
  | nil | boolean | real | table | other =>
    refine iff_of_false ?_ id
    rintro ⟨p, ⟨n, hn⟩, -⟩
    cases hn n le_rfl

/-- Nodes of zero bytes. -/
def zeroNodes : ℕ → Node Item := fun _ => ⟨.nil, 0, 0, 0, .integer, false⟩

/-- The table `{ 10, a = { [-1] = true } }`. -/
def nestedHeap : Heap
  | 0 => ⟨1, [(.integer 1, .integer 10), (.string [97], .table 1)], by decide, by decide⟩
  | _ => ⟨0, [(.integer (-1), .boolean true)], by decide, by decide⟩

theorem nestedHeap_fits (r : ℕ) : (nestedHeap r).Fits := by
  rcases r with _ | r
  · refine ⟨?_, by decide, by decide⟩
    rintro e (_ | ⟨_, _ | ⟨_, h⟩⟩)
    · exact ⟨by decide, by decide⟩
    · trivial
    · cases h
  · refine ⟨?_, by simp [nestedHeap], by simp [nestedHeap]⟩
    rintro e (_ | ⟨_, h⟩)
    · exact ⟨by decide, by decide⟩
    · cases h

theorem index_newconf_of_nested : ∃ obj, newconf zeroNodes nestedHeap 2 100 0 = .ok obj ∧
      ∃ p, Indexes obj.strings obj.root (.string [97]) p ∧
        Represents nestedHeap obj.strings (.table 1) p := by
  have haccepted : (newconf zeroNodes nestedHeap 2 100 0).isOk = true := by decide +kernel
  cases hnew : newconf zeroNodes nestedHeap 2 100 0 with
  | error e =>
    rw [hnew] at haccepted
    cases haccepted
  | ok obj =>
    exact ⟨obj, rfl,
      (index_newconf hnew (fun r _ => nestedHeap_fits r) (.string [97])).mpr trivial⟩

/-- The table `{ 10 }`. -/
def arrayHeap : Heap := fun _ => ⟨1, [(.integer 1, .integer 10)], by decide, by decide⟩

/-- The table has nothing for `2^32 + 1`, and the object gives the element at 1. -/
theorem index_beyond_int : ∃ obj, newconf zeroNodes arrayHeap 1 100 0 = .ok obj ∧
      (arrayHeap 0).get (.integer 4294967297) = .nil ∧
      Indexes obj.strings obj.root (.integer 4294967297) (.integer 10) := by
  have hlen : MachineInt.toInt (arrayHeap 0).rawlen = 1 := MachineInt.toInt_of_lt (by decide)
  refine ⟨⟨[], [.integer 10], []⟩, ?_, by decide, 0, fun _ _ => rfl⟩
  rw [newconf, convtable, hlen]
  rfl

end Skynet.ShareData
