import Mathlib

/-! # Frames with headers of any length

A reader looks at the beginning of a stream and finds that the header of a frame is still short,
that there is no frame, or a complete header, which gives its own length, the length of the body
behind it and what is needed to decode the body.  A verdict other than "short" does not depend on
what follows, and a header is complete exactly when its last byte has come.

`next` takes the first frame off a stream, `parse` all of them and returns the incomplete rest.
Parsing in pieces gives the same bodies as parsing at once (`parse_append`), a stream of encoded
frames parses into what was encoded (`parse_encoded`), a cut of such a stream into the bodies of
the frames that are complete (`parse_cut`), and the reader stumbles nowhere in it
(`read_rest_ne_invalid`). -/

namespace FrameReader

/-- The verdict of a reader on the beginning of a stream. -/
inductive Header (μ : Type)
  | short
  | invalid
  | complete (length size : ℕ) (info : μ)

end FrameReader

open FrameReader List

/-- How the frames of a stream of `α` are read, with headers that carry a `μ`. -/
structure FrameReader (α μ : Type) where
  read : List α → Header μ
  decode : μ → List α → List α
  read_nil : read [] = .short
  stable : ∀ s t, read s ≠ .short → read (s ++ t) = read s
  least : ∀ s n k m, read s = .complete n k m →
    0 < n ∧ n ≤ s.length ∧ read (s.take n) = .complete n k m ∧ ∀ j < n, read (s.take j) = .short

namespace FrameReader

variable {α μ φ : Type} (R : FrameReader α μ)

/-- The decoded body of the first frame and what follows it, if the frame is complete. -/
def next (s : List α) : Option (List α × List α) :=
  match R.read s with
  | .complete n k m =>
    if s.length < n + k then none
    else some (R.decode m ((s.drop n).take k), s.drop (n + k))
  | _ => none

variable {R} in
theorem next_eq_some {s body rest : List α} (h : R.next s = some (body, rest)) :
    ∃ n k m, R.read s = .complete n k m ∧ n + k ≤ s.length ∧
      body = R.decode m ((s.drop n).take k) ∧ rest = s.drop (n + k) := by
  unfold next at h
  cases hread : R.read s with
  | short | invalid => rw [hread] at h; cases h
  | complete n k m =>
    rw [hread] at h
    simp only at h
    split_ifs at h with hlen
    cases h
    exact ⟨n, k, m, rfl, Nat.not_lt.mp hlen, rfl, rfl⟩

theorem next_of_complete {s : List α} {n k : ℕ} {m : μ} (h : R.read s = .complete n k m) :
    R.next s = if (s.drop n).length < k then none
      else some (R.decode m ((s.drop n).take k), (s.drop n).drop k) := by
  obtain ⟨-, hle, -⟩ := R.least s n k m h
  rw [next, h, length_drop, drop_drop]
  exact if_congr (by omega) rfl rfl

theorem next_of_short {s : List α} (h : R.read s = .short) : R.next s = none := by
  rw [next, h]

variable {R} in
theorem length_next {s body rest : List α} (h : R.next s = some (body, rest)) :
    rest.length < s.length := by
  obtain ⟨n, k, m, hread, hlen, -, rfl⟩ := next_eq_some h
  obtain ⟨hpos, -⟩ := R.least s n k m hread
  rw [length_drop]
  omega

/-- All complete frames of a stream, and the rest. -/
def parse (s : List α) : List (List α) × List α :=
  match _h : R.next s with
  | none => ([], s)
  | some (body, rest) => (body :: (parse rest).1, (parse rest).2)
termination_by s.length
decreasing_by all_goals exact length_next _h

theorem parse_of_none {s : List α} (h : R.next s = none) : R.parse s = ([], s) := by
  rw [parse]
  split
  · rfl
  · next h' => rw [h] at h'; cases h'

theorem parse_of_some {s body rest : List α} (h : R.next s = some (body, rest)) :
    R.parse s = (body :: (R.parse rest).1, (R.parse rest).2) := by
  rw [parse]
  split
  · next h' => rw [h] at h'; cases h'
  · next h' =>
      rw [h] at h'
      cases h'
      rfl

theorem parse_nil : R.parse [] = ([], []) := R.parse_of_none (R.next_of_short R.read_nil)

variable {R} in
theorem next_append {s body rest : List α} (h : R.next s = some (body, rest)) (t : List α) :
    R.next (s ++ t) = some (body, rest ++ t) := by
  obtain ⟨n, k, m, hread, hlen, rfl, rfl⟩ := next_eq_some h
  have hread' : R.read (s ++ t) = .complete n k m := by
    rw [R.stable s t (by rw [hread]; nofun), hread]
  have hk : k ≤ (s.drop n).length := by rw [length_drop]; omega
  rw [next_of_complete R hread', drop_append_of_le_length (by omega), ← drop_drop,
    if_neg (by rw [length_append]; omega), take_append_of_le_length hk,
    drop_append_of_le_length hk]

/-- **Parsing in pieces.** -/
theorem parse_append (s t : List α) : R.parse (s ++ t) =
      ((R.parse s).1 ++ (R.parse ((R.parse s).2 ++ t)).1, (R.parse ((R.parse s).2 ++ t)).2) := by
  induction s using parse.induct R with
  | case1 s h => rw [R.parse_of_none h, nil_append]
  | case2 s body rest h ih =>
    rw [R.parse_of_some h, R.parse_of_some (next_append h t), ih, cons_append]

theorem next_parse_rest (s : List α) : R.next (R.parse s).2 = none := by
  induction s using parse.induct R with
  | case1 s h => rw [R.parse_of_none h, h]
  | case2 s body rest h ih => rw [R.parse_of_some h, ih]

variable {R} in
theorem length_lt_of_short {s t : List α} {n k : ℕ} {m : μ} (hs : R.read s = .short)
    (hst : R.read (s ++ t) = .complete n k m) : s.length < n := by
  by_contra hle
  obtain ⟨-, -, htake, -⟩ := R.least _ n k m hst
  rw [take_append_of_le_length (Nat.not_lt.mp hle)] at htake
  have hstable := R.stable (s.take n) (s.drop n) (by rw [htake]; nofun)
  rw [take_append_drop, hs, htake] at hstable
  cases hstable

/-! ### Streams made by an encoder -/

variable {R} in
/-- The encoder writes a header and a body that decode to `body f`. -/
def Encodes (R : FrameReader α μ) (enc body : φ → List α) (f : φ) : Prop :=
  ∃ head payload m, enc f = head ++ payload ∧
    R.read head = .complete head.length payload.length m ∧ R.decode m payload = body f

variable {R} {enc body : φ → List α}

theorem Encodes.read {f : φ} (h : R.Encodes enc body f) (t : List α) :
    ∃ n k m, R.read (enc f ++ t) = .complete n k m := by
  obtain ⟨head, payload, m, henc, hread, -⟩ := h
  refine ⟨head.length, payload.length, m, ?_⟩
  rw [henc, append_assoc, R.stable head _ (by rw [hread]; nofun), hread]

theorem Encodes.next {f : φ} (h : R.Encodes enc body f) (t : List α) :
    R.next (enc f ++ t) = some (body f, t) := by
  obtain ⟨head, payload, m, henc, hread, hdecode⟩ := h
  have hread' : R.read (enc f ++ t) = .complete head.length payload.length m := by
    rw [henc, append_assoc, R.stable head _ (by rw [hread]; nofun), hread]
  rw [next_of_complete R hread', henc, append_assoc, drop_left, take_left,
    drop_left, hdecode, if_neg]
  simp only [length_append]
  omega

theorem parse_encoded {fs : List φ} (h : ∀ f ∈ fs, R.Encodes enc body f) (t : List α) :
    R.parse ((fs.map enc).flatten ++ t) = (fs.map body ++ (R.parse t).1, (R.parse t).2) := by
  induction fs with
  | nil => rfl
  | cons f fs ih =>
    rw [map_cons, flatten_cons, append_assoc,
      R.parse_of_some ((h f mem_cons_self).next _),
      ih fun g hg => h g (mem_cons_of_mem f hg), map_cons, cons_append]

/-- **A cut stream**: what has been read so far of a stream of frames is the frames whose bodies
parsing returns, followed by the rest parsing returns. -/
theorem parse_cut {fs : List φ} (h : ∀ f ∈ fs, R.Encodes enc body f) {s t : List α}
    (hs : s ++ t = (fs.map enc).flatten) :
    ∃ done later, fs = done ++ later ∧ (R.parse s).1 = done.map body ∧
      s = (done.map enc).flatten ++ (R.parse s).2 := by
  induction fs generalizing s with
  | nil =>
    obtain ⟨rfl, -⟩ := append_eq_nil_iff.mp hs
    exact ⟨[], [], rfl, by rw [R.parse_nil]; exact ⟨rfl, rfl⟩⟩
  | cons f fs ih =>
    rw [map_cons, flatten_cons] at hs
    have hf : R.Encodes enc body f := h f mem_cons_self
    cases hnext : R.next s with
    | none => exact ⟨[], f :: fs, rfl, by rw [R.parse_of_none hnext]; exact ⟨rfl, rfl⟩⟩
    | some p =>
      -- the first complete frame of the cut stream is the first frame of the stream
      obtain ⟨b, rest⟩ := p
      have hwhole := next_append hnext t
      rw [hs, hf.next] at hwhole
      obtain ⟨rfl, hrest⟩ := Prod.mk.inj (Option.some.inj hwhole)
      obtain ⟨done, later, rfl, hdone, hcut⟩ :=
        ih (fun g hg => h g (mem_cons_of_mem f hg)) hrest.symm
      have hhead : s = enc f ++ rest :=
        append_cancel_right (by rw [hs, hrest, append_assoc] :
          s ++ t = (enc f ++ rest) ++ t)
      refine ⟨f :: done, later, rfl, ?_, ?_⟩
      · rw [R.parse_of_some hnext, map_cons, hdone]
      · rw [R.parse_of_some hnext, map_cons, flatten_cons, append_assoc, ← hcut,
          hhead]

theorem read_rest_ne_invalid {fs : List φ} (h : ∀ f ∈ fs, R.Encodes enc body f) {s t : List α}
    (hs : s ++ t = (fs.map enc).flatten) : R.read (R.parse s).2 ≠ .invalid := by
  obtain ⟨done, later, rfl, -, hcut⟩ := parse_cut h hs
  have hrest : (R.parse s).2 ++ t = (later.map enc).flatten := by
    rw [map_append, flatten_append, hcut, append_assoc] at hs
    exact append_cancel_left hs
  intro hinvalid
  have hstable := R.stable _ t (by rw [hinvalid]; nofun)
  rw [hinvalid, hrest] at hstable
  cases later with
  | nil =>
    have hnil : R.read [] = .invalid := hstable
    rw [R.read_nil] at hnil
    cases hnil
  | cons f later =>
    obtain ⟨n, k, m, hread⟩ := (h f (by simp)).read (later.map enc).flatten
    rw [map_cons, flatten_cons, hread] at hstable
    cases hstable

end FrameReader
