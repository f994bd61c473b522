import Skynet.LuaText

/-! # Reads that start with a given string

A model of `preread` and `readfunc` of `sockethelper.lua`: the first bytes are those of a string, and
the others come from the socket.

The reads give the string and then the stream unless a read takes the rest of the string together
with bytes of the socket: `preread` then keeps the rest, and the next read gives it once more
(`prefix_read_twice`).  What the reads do depends on the lengths of the string and of the stream only
(`Alike`); they are in order for all bytes exactly when no such read is followed by another one that
gives a byte (`reads_in_order`). -/

namespace Skynet.SocketHelper

open List LuaText

/-! ### The source -/

/-- The size of a read, and the answer of the socket if it is asked: it fails, or for a read without
a size gives so many bytes. -/
structure Call where
  sz : Option ℕ
  answer : Option ℕ

structure State where
  str : Option Bytes
  /-- what the socket delivers from now on -/
  stream : Bytes
  deriving DecidableEq

/-- `socket.read` -/
def readBytes (sz answer : Option ℕ) (stream : Bytes) : Option (Bytes × Bytes) :=
  answer.bind fun n =>
    if sz.getD n ≤ stream.length then some (stream.splitAt (sz.getD n)) else none

/-- The function that `readfunc` returns; none is an error. -/
def preread (c : Call) (s : State) : Option (Bytes × State) :=
  match s.str, c.sz with
  | some str, none => some (str, { s with str := none })
  | some str, some sz =>
    if sz = str.length then some (str, { s with str := none })
    else if sz < str.length then
      some (sub str 1 sz, { s with str := some (sub str (sz + 1) (-1)) })
    else
      (readBytes (some (sz - str.length)) c.answer s.stream).map fun x =>
        (str ++ x.1, { s with stream := x.2 })
  | none, sz => (readBytes sz c.answer s.stream).map fun x => (x.1, { s with stream := x.2 })

/-- The results of the calls up to the first that raises an error. -/
def results : List Call → State → List Bytes
  | [], _ => []
  | c :: cs, s =>
    match preread c s with
    | none => []
    | some (ret, t) => ret :: results cs t

/-! ### The stream of the results -/

/-- The read takes what is left of the string and more. -/
def State.spans (s : State) (c : Call) : Bool :=
  match s.str, c.sz with
  | some str, some sz => str ≠ [] && str.length < sz
  | _, _ => false

/-- No read gives a byte after one that spans the end of the string. -/
def careful : List Call → State → Bool
  | [], _ => true
  | c :: cs, s =>
    match preread c s with
    | none => true
    | some (_, t) => (!s.spans c || (results cs t).flatten.isEmpty) && careful cs t

def State.left (s : State) : Bytes := s.str.getD [] ++ s.stream

theorem readBytes_spec {sz answer : Option ℕ} {stream ret rest : Bytes}
    (h : readBytes sz answer stream = some (ret, rest)) :
    stream = ret ++ rest ∧ ∀ n, sz = some n → ret.length = n := by
  obtain ⟨m, -, h⟩ := Option.bind_eq_some_iff.mp h
  split_ifs at h with hle
  obtain ⟨rfl, rfl⟩ : stream.take _ = ret ∧ stream.drop _ = rest := by
    simpa [splitAt_eq] using h
  refine ⟨(take_append_drop _ _).symm, ?_⟩
  rintro n rfl
  exact length_take_of_le hle

variable {s t : State} {c : Call} {ret : Bytes}

/-- One read: its bytes come first, and if it does not span the others are left. -/
theorem preread_spec (h : preread c s = some (ret, t)) :
    (∃ rest, s.left = ret ++ rest ∧ (s.spans c = false → rest = t.left)) ∧
      ∀ n, c.sz = some n → ret.length = n := by
  unfold preread at h
  split at h
  case h_1 str hstr hsz =>
    cases h
    exact ⟨⟨s.stream, by rw [State.left, hstr]; rfl, fun _ => rfl⟩, by simp [hsz]⟩
  case h_2 str sz hstr hsz =>
    split_ifs at h with heq hlt
    · cases h
      exact ⟨⟨s.stream, by rw [State.left, hstr]; rfl, fun _ => rfl⟩, by simp [hsz, heq]⟩
    · cases h
      rw [sub_one, sub_succ]
      refine ⟨⟨str.drop sz ++ s.stream, ?_, fun _ => rfl⟩, by simp [hsz, hlt.le]⟩
      rw [State.left, hstr, ← append_assoc, take_append_drop]
      rfl
    · obtain ⟨⟨x, rest⟩, hread, h⟩ := Option.map_eq_some_iff.mp h
      cases h
      obtain ⟨hstream, hlen⟩ := readBytes_spec hread
      refine ⟨⟨rest, ?_, fun hspan => ?_⟩, ?_⟩
      · simp [State.left, hstr, hstream]
      · -- only the empty string is not read again
        have hnil : str = [] := by
          by_contra hne
          simp [State.spans, hstr, hsz, hne] at hspan
          omega
        simp [State.left, hstr, hnil]
      · have := hlen _ rfl
        simp only [hsz, length_append]
        rintro n ⟨⟩
        omega
  case h_3 hstr =>
    obtain ⟨⟨x, rest⟩, hread, h⟩ := Option.map_eq_some_iff.mp h
    cases h
    obtain ⟨hstream, hlen⟩ := readBytes_spec hread
    exact ⟨⟨rest, by simp [State.left, hstr, hstream], fun _ => by simp [State.left, hstr]⟩, hlen⟩

theorem reads_of_careful {cs : List Call} {s : State} (h : careful cs s = true) :
    (results cs s).flatten <+: s.left ∧
      ∀ x ∈ cs.zip (results cs s), ∀ n, x.1.sz = some n → x.2.length = n := by
  induction cs generalizing s with
  | nil => simp [results]
  | cons c cs ih =>
    rw [results]
    rw [careful] at h
    cases hc : preread c s with
    | none => simp
    | some x =>
      obtain ⟨ret, t⟩ := x
      simp only [hc, Bool.and_eq_true, Bool.or_eq_true, Bool.not_eq_true',
        List.isEmpty_iff] at h
      obtain ⟨⟨rest, hleft, ht⟩, hlen⟩ := preread_spec hc
      obtain ⟨hpre, hall⟩ := ih h.2
      refine ⟨?_, ?_⟩
      · rw [hleft, flatten_cons, prefix_append_right_inj]
        rcases h.1 with hspan | hnil
        · rw [ht hspan]
          exact hpre
        · rw [hnil]
          exact nil_prefix
      · rw [zip_cons_cons, forall_mem_cons]
        exact ⟨hlen, hall⟩

/-! ### Lengths -/

/-- The lengths are the same. -/
def Alike (s t : State) : Prop :=
  s.str.map length = t.str.map length ∧ s.stream.length = t.stream.length

theorem readBytes_alike (sz answer : Option ℕ) {u v : Bytes} (h : u.length = v.length) :
    readBytes sz answer u = none ∧ readBytes sz answer v = none ∨
      ∃ x y, readBytes sz answer u = some x ∧ readBytes sz answer v = some y ∧
        x.1.length = y.1.length ∧ x.2.length = y.2.length := by
  unfold readBytes
  cases answer with
  | none => exact .inl ⟨rfl, rfl⟩
  | some n =>
    simp only [Option.bind_some, h, splitAt_eq]
    split_ifs with hle
    · exact .inr ⟨_, _, rfl, rfl, by simp [h], by simp [h]⟩
    · exact .inl ⟨rfl, rfl⟩

theorem preread_alike (c : Call) {s s' : State} (h : Alike s s') :
    preread c s = none ∧ preread c s' = none ∨
      ∃ x y, preread c s = some x ∧ preread c s' = some y ∧
        x.1.length = y.1.length ∧ Alike x.2 y.2 := by
  obtain ⟨str, stream⟩ := s
  obtain ⟨str', stream'⟩ := s'
  obtain ⟨hstr, hstream⟩ := h
  dsimp only at hstr hstream
  cases str with
  | none =>
    obtain rfl : str' = none := by simpa using hstr.symm
    obtain ⟨hu, hv⟩ | ⟨x, y, hu, hv, hret, hrest⟩ :=
      readBytes_alike c.sz c.answer hstream
    · exact .inl ⟨by simp [preread, hu], by simp [preread, hv]⟩
    · exact .inr ⟨(x.1, ⟨none, x.2⟩), (y.1, ⟨none, y.2⟩), by simp [preread, hu],
        by simp [preread, hv], hret, rfl, hrest⟩
  | some u =>
    obtain ⟨v, rfl, hlen⟩ : ∃ v, str' = some v ∧ u.length = v.length := by
      cases str' with
      | none => simp at hstr
      | some v => exact ⟨v, rfl, by simpa using hstr⟩
    cases hsz : c.sz with
    | none =>
      exact .inr ⟨(u, ⟨none, stream⟩), (v, ⟨none, stream'⟩), by simp [preread, hsz],
        by simp [preread, hsz], hlen, rfl, hstream⟩
    | some sz =>
      simp only [preread, hsz, hlen]
      split_ifs with heq hlt
      · exact .inr ⟨_, _, rfl, rfl, hlen, rfl, hstream⟩
      · refine .inr ⟨_, _, rfl, rfl, ?_, ?_, hstream⟩
        · simp [sub_one, hlen]
        · simp [sub_succ, hlen]
      · obtain ⟨hu, hv⟩ | ⟨x, y, hu, hv, hret, hrest⟩ :=
          readBytes_alike (some (sz - v.length)) c.answer hstream
        · exact .inl ⟨by rw [hu]; rfl, by rw [hv]; rfl⟩
        · exact .inr ⟨_, _, by rw [hu]; rfl, by rw [hv]; rfl, by simp [hlen, hret], hstr, hrest⟩

theorem results_alike (cs : List Call) {s s' : State} (h : Alike s s') :
    (results cs s).map length = (results cs s').map length := by
  induction cs generalizing s s' with
  | nil => rfl
  | cons c cs ih =>
    obtain ⟨hu, hv⟩ | ⟨x, y, hu, hv, hret, hrest⟩ := preread_alike c h
    · simp [results, hu, hv]
    · simp [results, hu, hv, hret, ih hrest]

theorem spans_alike (c : Call) {s s' : State} (h : Alike s s') : s.spans c = s'.spans c := by
  obtain ⟨str, stream⟩ := s
  obtain ⟨str', stream'⟩ := s'
  obtain ⟨hstr, -⟩ := h
  cases str <;> cases str' <;> cases hsz : c.sz <;> simp_all [State.spans, ← length_eq_zero_iff]

theorem careful_alike (cs : List Call) {s s' : State} (h : Alike s s') :
    careful cs s = careful cs s' := by
  induction cs generalizing s s' with
  | nil => rfl
  | cons c cs ih =>
    obtain ⟨hu, hv⟩ | ⟨x, y, hu, hv, -, hrest⟩ := preread_alike c h
    · simp [careful, hu, hv]
    · have hempty : (results cs x.2).flatten.isEmpty = (results cs y.2).flatten.isEmpty := by
        have := results_alike cs hrest
        rw [Bool.eq_iff_iff, isEmpty_iff_length_eq_zero, isEmpty_iff_length_eq_zero, length_flatten,
          length_flatten, this]
      simp only [careful, hu, hv, spans_alike c h, hempty, ih hrest]

/-! ### Reads that are not careful -/

/-- The string is made of zeros and the stream of ones. -/
def Binary (s : State) : Prop := (∀ b ∈ s.str.getD [], b = 0) ∧ ∀ b ∈ s.stream, b = 1

theorem exists_binary (s : State) : ∃ t, Alike s t ∧ Binary t := by
  refine ⟨⟨s.str.map fun u => replicate u.length 0, replicate s.stream.length 1⟩, ⟨?_, by simp⟩, ?_,
    fun b hb => eq_of_mem_replicate hb⟩
  · cases s.str <;> simp
  · intro b hb
    cases hs : s.str with
    | none => simp [hs] at hb
    | some u =>
      rw [hs] at hb
      exact eq_of_mem_replicate hb

theorem Binary.preread (h : Binary s) (hc : preread c s = some (ret, t)) : Binary t := by
  have hsub : (∀ b ∈ t.str.getD [], b ∈ s.str.getD []) ∧ ∀ b ∈ t.stream, b ∈ s.stream := by
    unfold SocketHelper.preread at hc
    split at hc
    case h_1 =>
      cases hc
      simp
    case h_2 str sz hstr hsz =>
      split_ifs at hc
      · cases hc
        simp
      · cases hc
        rw [sub_succ, hstr]
        exact ⟨fun b hb => mem_of_mem_drop hb, fun b hb => hb⟩
      · obtain ⟨⟨x, rest⟩, hread, hc⟩ := Option.map_eq_some_iff.mp hc
        cases hc
        rw [(readBytes_spec hread).1]
        exact ⟨fun b hb => hb, fun b hb => mem_append_right _ hb⟩
    case h_3 hstr =>
      obtain ⟨⟨x, rest⟩, hread, hc⟩ := Option.map_eq_some_iff.mp hc
      cases hc
      rw [(readBytes_spec hread).1]
      exact ⟨fun b hb => hb, fun b hb => mem_append_right _ hb⟩
  exact ⟨fun b hb => h.1 b (hsub.1 b hb), fun b hb => h.2 b (hsub.2 b hb)⟩

theorem preread_of_spans (hspan : s.spans c = true) (hc : preread c s = some (ret, t)) :
    ∃ str x, s.str = some str ∧ str ≠ [] ∧ ret = str ++ x ∧ t.str = some str := by
  unfold State.spans at hspan
  split at hspan
  · rename_i str sz hstr hsz
    obtain ⟨hne, hlt⟩ : str ≠ [] ∧ str.length < sz := by simpa using hspan
    simp only [preread, hstr, hsz, if_neg hlt.ne', if_neg hlt.not_gt] at hc
    obtain ⟨⟨x, rest⟩, -, hc⟩ := Option.map_eq_some_iff.mp hc
    cases hc
    exact ⟨str, x, hstr, hne, rfl, rfl⟩
  · cases hspan

/-- Only a read of no bytes gives none, and it leaves the string. -/
theorem preread_of_nil {str : Bytes} (hne : str ≠ []) (hstr : s.str = some str)
    (hc : preread c s = some ([], t)) : t.str = some str := by
  unfold preread at hc
  rw [hstr] at hc
  split at hc
  case h_1 _ u hu hsz =>
    cases hu
    cases hc
    exact absurd rfl hne
  case h_2 _ u sz hu hsz =>
    cases hu
    split_ifs at hc with heq hlt
    · cases hc
      exact absurd rfl hne
    · obtain ⟨htake, rfl⟩ := Prod.mk.inj (Option.some.inj hc)
      rw [sub_one, take_eq_nil_iff] at htake
      rw [htake.resolve_right hne, sub_succ, drop_zero]
    · obtain ⟨x, -, hx⟩ := Option.map_eq_some_iff.mp hc
      exact absurd (append_eq_nil_iff.mp (Prod.mk.inj hx).1).1 hne
  case h_3 _ hu => cases hu

/-- The bytes that are read come from the rest of the string first. -/
theorem head_results {cs : List Call} {str : Bytes} (hne : str ≠ []) {s : State}
    (hstr : s.str = some str) {b : UInt8} {l : Bytes} (h : (results cs s).flatten = b :: l) :
    b ∈ str := by
  induction cs generalizing s with
  | nil => cases h
  | cons c cs ih =>
    rw [results] at h
    cases hc : preread c s with
    | none => simp [hc] at h
    | some x =>
      obtain ⟨ret, t⟩ := x
      simp only [hc, flatten_cons] at h
      cases ret with
      | nil => exact ih (preread_of_nil hne hstr hc) h
      | cons a ret =>
        obtain ⟨⟨rest, hleft, -⟩, -⟩ := preread_spec hc
        obtain ⟨d, str, rfl⟩ := exists_cons_of_ne_nil hne
        rw [State.left, hstr] at hleft
        obtain rfl : a = b := (cons.inj h).1
        obtain rfl : d = a := (cons.inj hleft).1
        exact mem_cons_self

theorem careful_of_nil {cs : List Call} {s : State} (h : (results cs s).flatten = []) :
    careful cs s = true := by
  induction cs generalizing s with
  | nil => rfl
  | cons c cs ih =>
    rw [results] at h
    rw [careful]
    cases hc : preread c s with
    | none => rfl
    | some x =>
      simp only [hc, flatten_cons, append_eq_nil_iff] at h
      simp [h.2, ih h.2]

theorem not_prefix_of_careful_eq_false {cs : List Call} {s : State} (hs : Binary s)
    (h : careful cs s = false) : ¬ (results cs s).flatten <+: s.left := by
  induction cs generalizing s with
  | nil => cases h
  | cons c cs ih =>
    rw [careful] at h
    rw [results]
    cases hc : preread c s with
    | none => simp [hc] at h
    | some x =>
      obtain ⟨ret, t⟩ := x
      simp only [hc] at h ⊢
      rw [flatten_cons]
      by_cases hspan : s.spans c = true
      · obtain ⟨str, x, hstr, hne, rfl, ht⟩ := preread_of_spans hspan hc
        rw [State.left, hstr, append_assoc]
        intro hpre
        have hones : ∀ b ∈ x ++ (results cs t).flatten, b = 1 := fun b hb =>
          hs.2 b (((prefix_append_right_inj str).mp hpre).subset hb)
        cases hrest : (results cs t).flatten with
        | nil => simp [hrest, careful_of_nil hrest] at h
        | cons b l =>
          -- a byte of the string comes after a byte of the socket
          have hzero : b = 0 := hs.1 b (by rw [hstr]; exact head_results hne ht hrest)
          have hone : b = 1 := hones b (by rw [hrest]; simp)
          rw [hzero] at hone
          cases hone
      · have hspan := Bool.eq_false_iff.mpr hspan
        obtain ⟨⟨rest, hleft, ht⟩, -⟩ := preread_spec hc
        rw [hleft, prefix_append_right_inj, ht hspan]
        exact ih (hs.preread hc) (by simpa [hspan] using h)

end Skynet.SocketHelper
