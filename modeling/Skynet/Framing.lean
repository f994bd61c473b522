import Skynet.FrameReader

/-! # Length-prefixed frames in a stream

A frame is a header of fixed length followed by a body whose length the header gives.  The header
has come as soon as there are as many bytes (`reader`), and an encoder that writes the right header
is an encoder for this reader (`Encodes.reader`). -/

/-- How a frame is delimited: the length of its header, and the length of the body it
announces. -/
structure Framing (α : Type) where
  header : ℕ
  header_pos : 0 < header
  size : List α → ℕ

namespace Framing

variable {α : Type} (F : Framing α)

/-- Frames with headers of fixed length, as a reader of frames. -/
def reader : FrameReader α Unit where
  read s :=
    if s.length < F.header then .short else .complete F.header (F.size (s.take F.header)) ()
  decode _ body := body
  read_nil := if_pos F.header_pos
  stable s t h := by
    have hlen : ¬ s.length < F.header := fun hlt => h (if_pos hlt)
    rw [if_neg hlen, if_neg (by rw [List.length_append]; omega),
      List.take_append_of_le_length (by omega)]
  least s n k m h := by
    split_ifs at h with hlen
    cases h
    refine ⟨F.header_pos, by omega, ?_, fun j hj => if_pos (by rw [List.length_take]; omega)⟩
    rw [if_neg (by rw [List.length_take]; omega), List.take_take, Nat.min_self]

theorem reader_read {s : List α} (h : F.header ≤ s.length) :
    F.reader.read s = .complete F.header (F.size (s.take F.header)) () := if_neg (by omega)

/-- The encoder `enc` writes `body` behind a header that announces its length. -/
def Encodes (enc : List α → List α) (body : List α) : Prop :=
  ∃ head, enc body = head ++ body ∧ head.length = F.header ∧ F.size head = body.length

variable {F} in
theorem Encodes.reader {enc : List α → List α} {body : List α} (h : F.Encodes enc body) :
    F.reader.Encodes enc id body := by
  obtain ⟨head, henc, hlen, hsize⟩ := h
  refine ⟨head, body, (), henc, ?_, rfl⟩
  rw [F.reader_read (Nat.le_of_eq hlen.symm), ← hlen, List.take_length, hsize]

end Framing
