import Skynet.WebSocketFrames

/-! # The size of frames and messages

A server reads no payload of more than `MAX_FRAME_SIZE` bytes and hands no longer message to its
handler (`frame_size_limited`).  The limit is compared with the declared length as a Lua integer,
so that a length of `2^63` or more is negative and below it: such a frame is taken for an empty one,
and the bytes of its payload for frames (`huge_frame_accepted`).  It ends with an error only if its
masking key is missing or its opcode unknown (`Broken`). -/

namespace Skynet.WebSocket

open List LuaText ByteReader ByteOrder Http

/-- The payload length that a frame declares in its 7, 16 or 64 bits, if they have arrived. -/
def declaredLen : Bytes → Option ℕ
  | _ :: v2 :: s =>
    let field (k : ℕ) : Option ℕ := if s.length < k then none else some (ofBE (s.take k))
    if v2.toNat &&& 0x7f = 126 then field 2
    else if v2.toNat &&& 0x7f = 127 then field 8
    else some (v2.toNat &&& 0x7f)
  | _ => none

/-- A frame with a length of 64 bits lacks bytes of its masking key, or its opcode is unknown. -/
def Broken : Bytes → Prop
  | v1 :: v2 :: s => v2.toNat &&& 0x80 ≠ 0 ∧ s.length < 12 ∨ Op.ofCode (v1.toNat &&& 0x0f) = none
  | _ => False

variable {pieces : Pieces}

theorem read_of_length {k : ℕ} (h : ¬ pieces.flatten.length < k) :
    ∃ ps, read k pieces = .ok (pieces.flatten.take k, ps) := by
  obtain ⟨ps, hread, -⟩ := read_flatten (take_append_drop k _).symm
    (length_take_of_le (not_lt.mp h))
  exact ⟨ps, hread⟩

theorem read_of_short {k : ℕ} (h : pieces.flatten.length < k) :
    read k pieces = .error .socketError := by
  unfold Http.read
  split
  · rename_i r hr
    obtain ⟨hlen, hflat⟩ := readExact_eq_some hr
    rw [← hflat, length_append] at h
    omega
  · rfl

/-- What follows the length of a frame that has no payload. -/
theorem readKey_then_payload {len : ℤ} (hlen : len < 0) (masked : Bool) (pieces : Pieces) :
    readKey masked pieces = .error .socketError ∧ masked = true ∧ pieces.flatten.length < 4 ∨
      ∃ key ps, readKey masked pieces = .ok (key, ps) ∧ readPayload len key ps = .ok ([], ps) ∧
        ¬ (masked = true ∧ pieces.flatten.length < 4) := by
  have hpayload (key : Option Bytes) (hkey : key ≠ some []) (ps : Pieces) :
      readPayload len key ps = .ok ([], ps) := by
    rw [readPayload, if_neg (by omega)]
    cases key with
    | none => rfl
    | some key =>
      have hne : key ≠ [] := fun h => hkey (congrArg some h)
      simp [xorStr_of_lt (s := []) (by decide) hne, xorBytes]
  cases masked with
  | false => exact .inr ⟨none, pieces, rfl, hpayload none (by simp) pieces, by simp⟩
  | true =>
    by_cases hshort : pieces.flatten.length < 4
    · exact .inl ⟨by simp only [readKey, if_pos, read_of_short hshort], rfl, hshort⟩
    · obtain ⟨ps, hread⟩ := read_of_length hshort
      have hne : pieces.flatten.take 4 ≠ [] :=
        ne_nil_of_length_pos (by rw [length_take]; omega)
      refine .inr ⟨some (pieces.flatten.take 4), ps, by simp only [readKey, if_pos, hread],
        hpayload _ ?_ ps, fun h => hshort h.2⟩
      exact fun h => hne (Option.some.inj h)

theorem readRest_of_neg (v1 : ℕ) {v2 : ℕ} {len : ℤ} {ps : Pieces}
    (hlen : payloadLen (v2 &&& 0x7f) pieces = .ok (len, ps)) (hneg : len < 0) :
    (∃ e, readRest true v1 v2 pieces = .error e) ↔
      v2 &&& 0x80 ≠ 0 ∧ ps.flatten.length < 4 ∨ Op.ofCode (v1 &&& 0x0f) = none := by
  have hsmall : ¬ (maxFrameSize : ℤ) < len := by
    have := Int.natCast_nonneg maxFrameSize
    omega
  simp only [readRest, hlen, hsmall, and_false, if_false]
  obtain ⟨hkey, hmask, hs⟩ | ⟨key, ps', hkey, hpayload, hs⟩ :=
    readKey_then_payload hneg (v2 &&& 0x80 ≠ 0) ps
  · rw [hkey]
    exact ⟨fun _ => .inl ⟨of_decide_eq_true hmask, hs⟩, fun _ => ⟨_, rfl⟩⟩
  · rw [decide_eq_true_iff] at hs
    simp only [hkey, hpayload, hs, false_or]
    cases Op.ofCode (v1 &&& 0x0f) <;> simp

theorem wrap_neg {n : ℕ} (h : 2 ^ 63 ≤ n) (hlt : n < 256 ^ 8) : wrap n < 0 := by
  rw [wrap, Int.bmod_def]
  omega

/-- A length of `2^63` or more is negative. -/
theorem readFrame_huge {n : ℕ} (hn : declaredLen pieces.flatten = some n) (hhuge : 2 ^ 63 ≤ n) :
    (∃ e, readFrame true pieces = .error e) ↔ Broken pieces.flatten := by
  unfold declaredLen at hn
  split at hn
  · rename_i v1 v2 s hflat
    obtain ⟨ps, hread, rfl⟩ := read_flatten (a := [v1, v2]) hflat rfl
    have hlow : v2.toNat &&& 0x7f < 2 ^ 7 := Nat.and_lt_two_pow _ (by decide)
    have hbound (k : ℕ) (hk : ¬ ps.flatten.length < k) : ofBE (ps.flatten.take k) < 256 ^ k := by
      have := ofBE_lt (ps.flatten.take k)
      rwa [length_take_of_le (not_lt.mp hk)] at this
    dsimp only at hn
    split_ifs at hn with h126 hshort h127 hshort <;> have hn := Option.some.inj hn
    · exact absurd (hbound 2 hshort) (by rw [hn]; omega)
    · obtain ⟨ps', hps, hdrop⟩ := read_flatten (take_append_drop 8 _).symm
        (length_take_of_le (not_lt.mp hshort))
      have hlen : payloadLen (v2.toNat &&& 0x7f) ps = .ok (wrap n, ps') := by
        rw [payloadLen, if_neg h126, if_pos h127, hps, ← hn]
      have hread' : read 2 pieces = _ := hread
      have hrest := readRest_of_neg v1.toNat hlen (wrap_neg hhuge (hn ▸ hbound 8 hshort))
      rw [hdrop, length_drop] at hrest
      simp only [hflat, readFrame, hread', hrest, Broken]
      have hiff : ps.flatten.length - 8 < 4 ↔ ps.flatten.length < 12 := by omega
      rw [hiff]
    · omega
  · cases hn

theorem readFrame_too_large {n : ℕ} (hn : declaredLen pieces.flatten = some n)
    (hmax : maxFrameSize < n) (hlt : n < 2 ^ 63) : readFrame true pieces = .error .raised := by
  unfold declaredLen at hn
  split at hn
  · rename_i v1 v2 s hflat
    obtain ⟨ps, hread, rfl⟩ := read_flatten (a := [v1, v2]) hflat rfl
    have hlen : ∃ ps', payloadLen (v2.toNat &&& 0x7f) ps = .ok ((n : ℤ), ps') := by
      unfold payloadLen
      dsimp only at hn
      split_ifs at hn ⊢ with h126 hshort h127 hshort
      · obtain ⟨ps', hps⟩ := read_of_length hshort
        exact ⟨ps', by rw [hps, ← Option.some.inj hn]⟩
      · obtain ⟨ps', hps⟩ := read_of_length hshort
        rw [← wrap_of_lt hlt, ← Option.some.inj hn]
        exact ⟨ps', by rw [hps]⟩
      · exact ⟨ps, by rw [Option.some.inj hn]⟩
    obtain ⟨ps', hlen⟩ := hlen
    have hlarge : (maxFrameSize : ℤ) < n := by omega
    have hread' : read 2 pieces = _ := hread
    simp only [readFrame, hread', readRest, hlen, hlarge, and_self, if_true]
  · cases hn

/-! ### Messages -/

theorem readPayload_length {len : ℤ} (hlt : len < 2 ^ 31) {key : Option Bytes} {payload : Bytes}
    {ps : Pieces}
    (h : readPayload len key pieces = .ok (payload, ps)) : payload.length = len.toNat := by
  unfold readPayload at h
  split at h
  · cases h
  · rename_i s ps' hr
    have hs : s.length = len.toNat := by
      split_ifs at hr with hpos
      · rw [readSized_of_lt hpos hlt] at hr
        exact (read_eq_ok hr).1
      · cases hr
        rw [length_nil]
        omega
    split at h
    · cases h
      exact hs
    · unfold xorStr at h
      split_ifs at h
      cases h
      rw [length_xorBytes, hs]

theorem readFrame_length {ps : Pieces} {r : Read} (h : readFrame true pieces = .ok (r, ps)) :
    r.payload.length ≤ maxFrameSize := by
  unfold readFrame readRest at h
  repeat' split at h
  all_goals cases h
  have hle := not_lt.mp fun hlt => ‹¬ (true = true ∧ _)› ⟨rfl, hlt⟩
  have hlen := readPayload_length (lt_of_le_of_lt hle (by decide)) ‹_›
  dsimp only
  omega

/-- No message is too large. -/
def Limited (trace : List Event) : Prop :=
  ∀ data, Event.message data ∈ trace → data.length ≤ maxFrameSize

section

variable {env : Env} {trace events : List Event} {buf : Buffer}

theorem Limited.append {a b : List Event} (ha : Limited a) (hb : Limited b) : Limited (a ++ b) :=
  fun data hdata => (mem_append.mp hdata).elim (ha data) (hb data)

theorem limited_message {data : Bytes} (h : data.length ≤ maxFrameSize) :
    Limited [.message data] := by
  simpa [Limited] using h

theorem Limited.emit (h : Limited trace) (he : Limited events) :
    Limited (emit env trace events).trace := by
  induction events generalizing trace with
  | nil => exact h
  | cons e es ih =>
    have hone : Limited (trace ++ [e]) :=
      h.append fun data hdata => he data (mem_cons.mpr (.inl (mem_singleton.mp hdata)))
    unfold WebSocket.emit
    split
    · exact hone
    · exact ih hone fun data hdata => he data (mem_cons_of_mem _ hdata)

/-- What a round leaves behind. -/
def Round.Limited : Round → Prop
  | .stop run => WebSocket.Limited run.trace
  | .again trace buf => WebSocket.Limited trace ∧ buf.Counts

theorem Limited.after (h : Limited trace) (he : Limited events) (hbuf : buf.Counts) :
    (Round.after env trace events buf).Limited := by
  have hemit : Limited (WebSocket.emit env trace events).trace := h.emit he
  unfold Round.after
  split <;> simp_all [Round.Limited]

theorem Limited.round {r : Read} (h : Limited trace) (hbuf : buf.Counts)
    (hr : r.payload.length ≤ maxFrameSize) : (round env trace buf r).Limited := by
  have hcount : Buffer.Counts ⟨buf.recvBuf ++ [r.payload], buf.recvCount + r.payload.length⟩ := by
    simpa [Buffer.Counts] using hbuf
  unfold WebSocket.round
  split
  · exact h.emit (by simp [Limited, frameEvents, writeFrame])
  · exact h.after (by simp [Limited, frameEvents, writeFrame]) hbuf
  · exact h.after (by simp [Limited]) hbuf
  all_goals
    dsimp only
    split_ifs with hone hmax
    · exact h.after (limited_message hr) hbuf
    · exact h
    · exact h.after (limited_message (hcount.symm.le.trans (not_lt.mp hmax))) rfl
    · exact ⟨h, hcount⟩

theorem Limited.serve (pieces : Pieces) {trace : List Event} {buf : Buffer}
    (h : Limited trace) (hbuf : buf.Counts) : Limited (serve env trace buf pieces).trace := by
  unfold WebSocket.serve
  split_ifs
  · exact h.emit (by simp [Limited])
  · split
    · exact h
    · rename_i r ps hread
      have hround : (WebSocket.round env trace buf r).Limited :=
        h.round hbuf (readFrame_length hread)
      split
      · rename_i run hrun
        rwa [hrun] at hround
      · rename_i trace' buf' hrun
        rw [hrun] at hround
        exact Limited.serve ps hround.1 hround.2
termination_by pieces.flatten.length
decreasing_by exact readFrame_lt ‹_›

theorem Limited.emit_then {next : List Event → Run} (h : Limited trace) (he : Limited events)
    (hnext : ∀ trace, Limited trace → Limited (next trace).trace) :
    Limited (match WebSocket.emit env trace events with
      | ⟨trace, some f⟩ => (⟨trace, some f⟩ : Run)
      | ⟨trace, none⟩ => next trace).trace := by
  have hemit : Limited (WebSocket.emit env trace events).trace := h.emit he
  split
  · simp_all
  · exact hnext _ (by simp_all)

theorem Limited.start (h : Limited trace) (header : Handed)
    (url : Option Bytes) (pieces : Pieces) : Limited (start env trace header url pieces).trace :=
  h.emit_then (by simp [Limited]) fun _ ht => ht.serve pieces rfl

end

theorem Limited.resolveAccept (lib : Lib) (env : Env) (pieces : Pieces) :
    Limited (resolveAccept lib env pieces).trace := by
  refine emit_then (by simp [Limited]) (by simp [Limited]) fun trace h => ?_
  split
  · exact h
  · exact h.emit_then (by simp [Limited, rejectionEvents]) fun _ ht => ht.start _ _ _
  · exact h.emit_then (by simp [Limited]) fun _ ht => ht.start _ _ _

/-- **The size limit**: no message is too large, and a frame that declares more ends the loop with
an error, whatever has arrived of its payload, exactly when it declares less than `2^63` bytes or is
broken. -/
theorem frame_size_limited (lib : Lib) (env : Env) (pieces : Pieces) :
    (∀ data, .message data ∈ (resolveAccept lib env pieces).trace → data.length ≤ maxFrameSize) ∧
    ∀ n, declaredLen pieces.flatten = some n → maxFrameSize < n →
      ((∃ e, readFrame true pieces = .error e) ↔ n < 2 ^ 63 ∨ Broken pieces.flatten) ∧
      (n < 2 ^ 63 → ∀ trace buf, env.closed trace = false →
        serve env trace buf pieces = ⟨trace, some .raised⟩) := by
  refine ⟨Limited.resolveAccept lib env pieces, fun n hn hmax => ?_⟩
  by_cases hlt : n < 2 ^ 63
  · have hread := readFrame_too_large hn hmax hlt
    refine ⟨⟨fun _ => .inl hlt, fun _ => ⟨_, hread⟩⟩, fun _ trace buf hclosed => ?_⟩
    rw [serve, hclosed, if_neg Bool.false_ne_true]
    split <;> simp_all
  · have hread := readFrame_huge hn (not_lt.mp hlt)
    exact ⟨by simp only [hread, hlt, false_or], fun h => absurd h hlt⟩

/-- A frame of `2^18 + 1` bytes. -/
theorem frame_size_limited_of_long :
    serve ⟨fun _ => none, fun _ => false⟩ [] ⟨[], 0⟩ [[0x82, 0xff, 0, 0, 0, 0], [0, 4, 0, 1]] =
      ⟨[], some .raised⟩ :=
  ((frame_size_limited ⟨fun _ => none, id⟩ _ _).2 (2 ^ 18 + 1) (by decide +kernel) (by decide)).2
    (by decide) [] _ rfl

/-- A frame that declares `2^63` bytes is handled as an empty message. -/
theorem huge_frame_accepted : declaredLen [0x82, 0x7f, 0x80, 0, 0, 0, 0, 0, 0, 0] = some (2 ^ 63) ∧
    readFrame true [[0x82, 0x7f, 0x80, 0, 0, 0, 0, 0, 0, 0]] = .ok (⟨true, .binary, []⟩, []) :=
  by decide +kernel

end Skynet.WebSocket
