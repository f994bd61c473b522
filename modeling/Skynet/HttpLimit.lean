import Skynet.Http

/-! # The limit of a request body

`read_all` of `http.httpd` compares the sizes in a request with `bodylimit` and builds the body
with the same numbers.  Both `tonumber(s)` and `tonumber(s, 16)` take negative numbers: a negative
size passes the test, makes `string.sub` count from the end, and is taken off the size of the
chunks before.  Without a number in its `content-length` a body is not tested at all.  So the body
can be longer than the limit (`body_beyond_limit`), but only so (`body_within_limit`).  The
conditions are on the stream: on the header and on the start of the body that the stream has
(`Head`) and on the chunks in it (`HasChunk`). -/

namespace Skynet.Http

open List LuaText ByteReader

/-! ### Numbers -/

section Numbers

variable {x : Number} {n : ℤ}

theorem le_lt_of_toInteger (h : x.toInteger = some n) (q : ℚ) :
    x.le q = decide ((n : ℚ) ≤ q) ∧ x.lt q = decide ((n : ℚ) < q) := by
  cases x with
  | int m =>
    cases h
    exact ⟨rfl, rfl⟩
  | float y =>
    simp only [Number.toInteger] at h
    split_ifs at h with hy
    cases h
    rw [Number.le, Number.lt, (Rat.den_eq_one_iff y).mp hy.1]
    exact ⟨rfl, rfl⟩
  | inf s => cases h

theorem nonneg_of_toInteger (h : x.toInteger = some n) (hx : x.lt 0 = false) : 0 ≤ n := by
  rw [(le_lt_of_toInteger h 0).2, decide_eq_false_iff_not, not_lt] at hx
  exact_mod_cast hx

theorem neg_of_toInteger (h : x.toInteger = some n) (hx : ¬ x.lt 0 = false) : n < 0 := by
  rw [(le_lt_of_toInteger h 0).2, decide_eq_false_iff_not, not_not] at hx
  exact_mod_cast hx

theorem le_nat_of_toInteger (h : x.toInteger = some n) (k : ℕ) : x.le k = decide (n ≤ k) := by
  rw [(le_lt_of_toInteger h k).1, decide_eq_decide]
  exact_mod_cast Iff.rfl

end Numbers

/-! ### What is read -/

variable {body : Bytes} {pieces pieces' : Pieces}

theorem sub_nonneg_length {n : ℤ} (h : 0 ≤ n) (hn : n ≤ body.length) :
    ((sub body 1 n).length : ℤ) = n := by
  obtain ⟨k, rfl⟩ := Int.eq_ofNat_of_zero_le h
  rw [sub_one, length_take_of_le (by omega)]

theorem sub_neg_length {n : ℤ} (h : n < 0) :
    ((sub body 1 n).length : ℤ) = max 0 (body.length + n + 1) := by
  simp only [sub, zero_lt_one, if_true, sub_self, Int.toNat_zero, drop_zero, length_take]
  split_ifs <;> omega

theorem identityBody_length {length : Number} {body' : Bytes}
    (h : identityBody length body pieces = .ok (body', pieces')) (hneg : length.lt 0 = false) :
    length.toInteger = some (body'.length : ℤ) := by
  unfold identityBody at h
  split_ifs at h with hle
  · split at h
    · cases h
    · rename_i n hn
      cases h
      rw [le_nat_of_toInteger hn, decide_eq_true_eq] at hle
      rw [hn, sub_nonneg_length (nonneg_of_toInteger hn hneg) hle]
  · split at h
    · cases h
    · rename_i n hn
      split at h
      · cases h
      · rename_i padding ps hr
        cases h
        rw [le_nat_of_toInteger hn, decide_eq_true_eq] at hle
        rw [hn, length_append, (read_eq_ok hr).1]
        congr 1
        omega

/-- A negative length leaves so many bytes less one out. -/
theorem identityBody_neg {length : Number} {body' : Bytes}
    (h : identityBody length body pieces = .ok (body', pieces')) (hneg : ¬ length.lt 0 = false) :
    ∃ k < 0, length.toInteger = some k ∧ (body'.length : ℤ) = max 0 (body.length + k + 1) := by
  unfold identityBody at h
  split_ifs at h with hle
  · split at h
    · cases h
    · rename_i n hn
      cases h
      have hlt := neg_of_toInteger hn hneg
      exact ⟨n, hlt, hn, sub_neg_length hlt⟩
  · split at h
    · cases h
    · rename_i n hn
      have hlt := neg_of_toInteger hn hneg
      rw [le_nat_of_toInteger hn, decide_eq_true_eq] at hle
      omega

theorem chunkData_length {sz : ℤ} {data rest : Bytes}
    (h : chunkData sz body pieces = .ok (data, rest, pieces')) (hsz : 0 ≤ sz)
    (hlt : unread body pieces + 1 < 2 ^ 63) :
    (data.length : ℤ) = sz ∧ data.length + unread rest pieces' = unread body pieces := by
  obtain ⟨k, rfl⟩ := Int.eq_ofNat_of_zero_le hsz
  unfold chunkData at h
  split_ifs at h with hle
  · simp only [Except.ok.injEq, Prod.mk.injEq] at h
    obtain ⟨rfl, rfl, rfl⟩ := h
    have hk : k ≤ body.length := by omega
    have hwrap : wrap ((k : ℤ) + 1) = (k : ℤ) + 1 := by
      unfold unread at hlt
      exact_mod_cast wrap_of_lt (by omega)
    rw [hwrap, sub_one, sub_succ, length_take_of_le hk]
    refine ⟨rfl, ?_⟩
    simp only [unread, length_drop]
    omega
  · split at h
    · cases h
    · rename_i padding ps hr
      cases h
      obtain ⟨hlen, hflat⟩ := read_eq_ok hr
      have hlen' := congrArg List.length hflat
      simp only [length_append] at hlen'
      simp only [unread, length_append, length_nil]
      omega

theorem unread_drop_le (n : ℕ) : unread (body.drop n) pieces ≤ unread body pieces :=
  Nat.add_le_add_right (by rw [length_drop]; omega) _

theorem recvheaderLoop_le {header : Bytes} {r : Received}
    (h : recvheaderLoop header pieces = .ok (some r, pieces')) :
    unread r.rest pieces' ≤ unread header pieces := by
  induction pieces generalizing header with
  | nil => cases h
  | cons bytes pieces ih =>
    have hflat : unread header (bytes :: pieces) = unread (header ++ bytes) pieces := by
      simp only [unread, flatten_cons, length_append]
      omega
    simp only [recvheaderLoop] at h
    rw [hflat]
    split at h
    · cases h
      exact unread_drop_le _
    · split_ifs at h
      · cases h
        exact unread_drop_le _
      · cases h
      · exact ih h

theorem recvheader_le {header : Bytes} {r : Received}
    (h : recvheader header pieces = .ok (some r, pieces')) :
    unread r.rest pieces' ≤ unread header pieces := by
  unfold recvheader at h
  split_ifs at h
  · cases h
    exact unread_drop_le _
  · split at h
    · cases h
      exact unread_drop_le _
    · exact recvheaderLoop_le h

/-! ### Chunks -/

/-- A chunk of size `sz` is among the chunks that begin with `body`. -/
inductive HasChunk (sz : ℤ) : Bytes → Pieces → Prop
  | head {body data rest : Bytes} {pieces pieces' : Pieces}
      (h : chunk none 0 body pieces = .ok (.data sz data rest, pieces')) : HasChunk sz body pieces
  | tail {body data rest : Bytes} {pieces pieces' : Pieces} {sz' : ℤ}
      (h : chunk none 0 body pieces = .ok (.data sz' data rest, pieces'))
      (hc : HasChunk sz rest pieces') : HasChunk sz body pieces

/-- The limit only decides whether a chunk is taken. -/
theorem chunk_unlimited {bodylimit : Option ℕ} {size sz : ℤ} {data rest : Bytes}
    (h : chunk bodylimit size body pieces = .ok (.data sz data rest, pieces')) :
    chunk none 0 body pieces = .ok (.data sz data rest, pieces') := by
  unfold chunk at h ⊢
  split at h
  · cases h
  · cases h
  · split_ifs at h with hz hl
    · cases h
    · cases h
    · simpa [hz] using h

theorem chunks_length {l : ℕ} {result : Bytes} {size : ℤ} {c : Chunks}
    (h : chunks (some l) result size body pieces = .ok (some c, pieces'))
    (hsize : (result.length : ℤ) = size) (hle : size ≤ l)
    (hlt : result.length + unread body pieces < 2 ^ 63)
    (hneg : ∀ sz, HasChunk sz body pieces → 0 ≤ sz) : c.result.length ≤ l := by
  induction result, size, body, pieces using chunks.induct (some l) with rw [chunks, he] at h
  | case1 result size body pieces e he => cases h
  | case2 result size body pieces ps he => cases h
  | case3 result size body pieces b ps he =>
    cases h
    show result.length ≤ l
    omega
  | case4 result size body pieces sz data b ps he ih =>
    have hsz : 0 ≤ sz := hneg sz (.head (chunk_unlimited he))
    obtain ⟨body₁, pieces₁, body₂, pieces₂, h₁, hl, h₂, h₃⟩ := chunk_data he
    have hlt₁ := chunksize_lt h₁
    obtain ⟨hdata, hsum⟩ := chunkData_length h₂ hsz (by omega)
    have hle₃ := readcrln_le h₃
    have hwrap : wrap (size + sz) = size + sz := by
      have : size + sz = ((result.length + data.length : ℕ) : ℤ) := by
        omega
      rw [this, wrap_of_lt (by omega)]
    rw [Option.any_some, decide_eq_false_iff_not, hwrap] at hl
    refine ih h ?_ (by omega) ?_ fun sz' hsz' => hneg sz' (.tail (chunk_unlimited he) hsz')
    · rw [hwrap, length_append]
      omega
    · rw [length_append]
      omega

/-! ### Requests -/

/-- The stream begins with this header; `body` is what is left of the piece it ends in. -/
def Head (pieces : Pieces) (header : Header) (body : Bytes) (rest : Pieces) : Prop :=
  ∃ request fields, recvheader [] pieces = .ok (some ⟨request :: fields, body⟩, rest) ∧
    parseheader none (fun _ => none) fields = .ok (some header)

/-- What a body that is not chunked needs to stay within the limit `l`: without a number in the
`content-length` the piece is the body, and with a negative one the piece without its end. -/
def Fits (str2d : Bytes → Option Number) (l : ℕ) (header : Header) (body : Bytes) : Prop :=
  transferEncoding header = .identity →
    (contentLength str2d header = none → body.length ≤ l) ∧
    ∀ length k, contentLength str2d header = some length → length.toInteger = some k → k < 0 →
      body.length + k + 1 ≤ l

section Requests

variable {str2d : Bytes → Option Number} {l : ℕ} {body : Bytes} {pieces pieces' : Pieces}

theorem Head.unique {header header' : Header} {body' : Bytes} {rest rest' : Pieces}
    (h : Head pieces header body rest) (h' : Head pieces header' body' rest') :
    header = header' ∧ body = body' := by
  obtain ⟨request, fields, hrecv, hparse⟩ := h
  obtain ⟨request', fields', hrecv', hparse'⟩ := h'
  obtain ⟨⟨⟨rfl, rfl⟩, rfl⟩, rfl⟩ : ((request = request' ∧ fields = fields') ∧ body = body') ∧
      rest = rest' := by simpa using hrecv.symm.trans hrecv'
  exact ⟨by simpa using hparse.symm.trans hparse', rfl⟩

theorem Head.unread_le {header : Header} {rest : Pieces} (h : Head pieces header body rest) :
    unread body rest ≤ pieces.flatten.length := by
  obtain ⟨request, fields, hrecv, -⟩ := h
  simpa [unread] using recvheader_le hrecv

theorem recvchunkedbody_length {header : Header} {c : ChunkedBody}
    (h : recvchunkedbody (some l) header body pieces = .ok (some c, pieces'))
    (hlt : unread body pieces < 2 ^ 63) (hneg : ∀ sz, HasChunk sz body pieces → 0 ≤ sz) :
    c.result.length ≤ l := by
  unfold recvchunkedbody at h
  split at h
  · cases h
  · cases h
  · rename_i d ps hd
    split at h
    · cases h
    · cases h
    · split at h
      · cases h
      · obtain ⟨rfl, -⟩ := h
        exact chunks_length hd rfl (Int.natCast_nonneg l) (by simpa using hlt) hneg

theorem identityBody_fits {length : Number} {body' : Bytes} {header : Header}
    (h : identityBody length body pieces = .ok (body', pieces')) (hle : length.le l = true)
    (hmode : transferEncoding header = .identity)
    (hlength : contentLength str2d header = some length) :
    body'.length ≤ l ↔ Fits str2d l header body := by
  by_cases hneg : length.lt 0 = false
  · have hint := identityBody_length h hneg
    rw [le_nat_of_toInteger hint, decide_eq_true_eq] at hle
    refine iff_of_true (by omega) fun _ => ⟨fun hnone => ?_, fun length' k hl hk hlt => ?_⟩
    · rw [hnone] at hlength
      cases hlength
    · obtain rfl := Option.some.inj (hlength.symm.trans hl)
      obtain rfl := Option.some.inj (hint.symm.trans hk)
      omega
  · obtain ⟨k, hk, hint, hlen⟩ := identityBody_neg h hneg
    constructor
    · refine fun hb _ => ⟨fun hnone => ?_, fun length' k' hl hk' _ => ?_⟩
      · rw [hnone] at hlength
        cases hlength
      · obtain rfl := Option.some.inj (hlength.symm.trans hl)
        obtain rfl := Option.some.inj (hint.symm.trans hk')
        omega
    · intro hfits
      have := (hfits hmode).2 length k hlength hint hk
      omega

theorem readBody_length {method url : Bytes} {header : Header} {r : Request}
    (h : readBody str2d (some l) method url header body pieces = .ok (200, some r, pieces'))
    (hlt : unread body pieces < 2 ^ 63)
    (hneg : transferEncoding header = .chunked → ∀ sz, HasChunk sz body pieces → 0 ≤ sz) :
    r.body.length ≤ l ↔ Fits str2d l header body := by
  unfold readBody at h
  split at h
  · cases h
  · rename_i hmode
    split at h
    · cases h
    · cases h
    · rename_i c ps hc
      obtain ⟨rfl, -⟩ := h
      refine iff_of_true (recvchunkedbody_length hc hlt (hneg hmode)) fun hid => ?_
      rw [hmode] at hid
      cases hid
  · rename_i hmode
    split at h
    · -- no number in the `content-length`
      rename_i hnone
      obtain ⟨rfl, -⟩ := h
      refine ⟨fun hb _ => ⟨fun _ => hb, fun length k hl => ?_⟩, fun hfits => (hfits hmode).1 hnone⟩
      rw [hnone] at hl
      cases hl
    · rename_i length hlength
      split_ifs at h with hl
      · cases h
      · split at h
        · cases h
        · rename_i body' ps hbody
          obtain ⟨rfl, -⟩ := h
          exact identityBody_fits hbody (by simpa using hl) hmode hlength

theorem readAll_head {bodylimit : Option ℕ} {r : Request}
    (h : readAll str2d bodylimit pieces = .ok (200, some r, pieces')) :
    ∃ method url header body rest, Head pieces header body rest ∧
      readBody str2d bodylimit method url header body rest = .ok (200, some r, pieces') := by
  unfold readAll at h
  split at h
  · cases h
  · cases h
  · cases h
  · rename_i request fields body ps hheader
    split at h
    · cases h
    · rename_i method url version _
      split at h
      · cases h
      · split_ifs at h
        · cases h
        · split at h
          · cases h
          · cases h
          · rename_i header hparse
            exact ⟨method, url, header, body, ps, ⟨request, fields, hheader, hparse⟩, h⟩

end Requests

/-- **When a body is within the limit**: for every stream and every limit, a request that is
returned with the code 200 and has no chunk of negative size has a body within the limit exactly
if its body is chunked or `Fits`. -/
theorem body_within_limit (str2d : Bytes → Option Number) (l : ℕ) (pieces : Pieces)
    (hlt : pieces.flatten.length < 2 ^ 63) {r : Request}
    (h : readRequest str2d (some l) pieces = some (200, some r))
    (hneg : ∀ header body rest, Head pieces header body rest →
      transferEncoding header = .chunked → ∀ sz, HasChunk sz body rest → 0 ≤ sz) :
    r.body.length ≤ l ↔ ∀ header body rest, Head pieces header body rest →
      Fits str2d l header body := by
  unfold readRequest at h
  split at h
  · cases h
  · rename_i code request ps hread
    cases h
    obtain ⟨method, url, header, body, rest, hhead, hbody⟩ := readAll_head hread
    have hiff := readBody_length hbody (hhead.unread_le.trans_lt hlt) (hneg header body rest hhead)
    refine hiff.trans ⟨fun hfits header' body' rest' hhead' => ?_, fun hall => hall _ _ _ hhead⟩
    obtain ⟨rfl, rfl⟩ := hhead.unique hhead'
    exact hfits

theorem exists_request (str2d : Bytes → Option Number) (bodylimit : Option ℕ) (pieces : Pieces)
    (P : Request → Prop) [DecidablePred P]
    (h : ((readRequest str2d bodylimit pieces).any fun x =>
      x.1 = 200 && x.2.any fun r => decide (P r)) = true) :
    ∃ r, readRequest str2d bodylimit pieces = some (200, some r) ∧ P r := by
  obtain ⟨code, request, hread, rfl, r, rfl, hP⟩ : ∃ code request,
      readRequest str2d bodylimit pieces = some (code, request) ∧ code = 200 ∧
        ∃ r, request = some r ∧ P r := by
    simpa [Option.any_eq_true] using h
  exact ⟨r, hread, hP⟩

/-- A request with the given `content-length`, in two pieces. -/
def lengthRequest (length : String) : Pieces :=
  [ofString "GET / HTTP/1\r\ncontent-len", ofString "gth: " ++ ofString length ++
    ofString "\r\n\r\nabcdef"]

/-- The chunk "abc" and the last chunk. -/
def chunkedRequest : Pieces :=
  [ofString "GET / HTTP/1\r\ntransfer-encoding: chunked\r\n\r\n3\r\nabc\r\n0\r\n\r\n"]

theorem chunkedRequest_head {header : Header} {body : Bytes} {rest : Pieces}
    (h : Head chunkedRequest header body rest) : transferEncoding header = .chunked ∧
      body = ofString "3\r\nabc\r\n0\r\n\r\n" ∧ rest = [] := by
  obtain ⟨request, fields, hrecv, hparse⟩ := h
  have hhead : recvheader [] chunkedRequest = .ok (some ⟨[ofString "GET / HTTP/1",
      ofString "transfer-encoding: chunked"], ofString "3\r\nabc\r\n0\r\n\r\n"⟩, []) := by
    decide +kernel
  obtain ⟨⟨⟨rfl, rfl⟩, rfl⟩, rfl⟩ : ((ofString "GET / HTTP/1" = request ∧
      [ofString "transfer-encoding: chunked"] = fields) ∧
      ofString "3\r\nabc\r\n0\r\n\r\n" = body) ∧ [] = rest := by
    simpa using hhead.symm.trans hrecv
  have hmode : ((parseheader none (fun _ => none) [ofString "transfer-encoding: chunked"]).toOption.any
      fun h => h.any fun header => decide (transferEncoding header = .chunked)) = true := by
    decide +kernel
  rw [hparse] at hmode
  exact ⟨of_decide_eq_true hmode, rfl, rfl⟩

/-- A chunk of three bytes for a limit of three. -/
theorem body_within_limit_of_chunk : ∃ r,
    readRequest (fun _ => none) (some 3) chunkedRequest = some (200, some r) ∧
      r.body = ofString "abc" ∧ r.body.length ≤ 3 := by
  obtain ⟨r, hr, hbody⟩ := exists_request (fun _ => none) (some 3) chunkedRequest
    (fun r => r.body = ofString "abc") (by decide +kernel)
  refine ⟨r, hr, hbody, (body_within_limit _ 3 chunkedRequest (by decide +kernel) hr ?_).mpr ?_⟩
  · intro header body rest hhead _ sz hsz
    obtain ⟨-, rfl, rfl⟩ := chunkedRequest_head hhead
    have hfirst : chunk none 0 (ofString "3\r\nabc\r\n0\r\n\r\n") [] =
        .ok (.data 3 (ofString "abc") (ofString "0\r\n\r\n"), []) := by decide +kernel
    have hlast : chunk none 0 (ofString "0\r\n\r\n") [] = .ok (.last (ofString "\r\n"), []) := by
      decide +kernel
    cases hsz with
    | head h =>
      rw [hfirst] at h
      cases h
      decide
    | tail h hc =>
      rw [hfirst] at h
      cases h
      cases hc with
      | head h | tail h _ =>
        rw [hlast] at h
        cases h
  · intro header body rest hhead hid
    rw [(chunkedRequest_head hhead).1] at hid
    cases hid

/-- With a negative `content-length` the whole piece is the body, here six bytes for a limit of
two. -/
theorem body_beyond_limit : ∃ r,
    readRequest (fun _ => none) (some 2) (lengthRequest "-1") = some (200, some r) ∧
      r.body = ofString "abcdef" :=
  exists_request (fun _ => none) (some 2) (lengthRequest "-1")
    (fun r => r.body = ofString "abcdef") (by decide +kernel)

end Skynet.Http
