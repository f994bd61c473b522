import Skynet.Http

/-! # HTTP responses are read back

What `httpd.write_response` writes is read by `internal.request`, however the bytes are cut into
pieces: the header may end, and a chunk size, a chunk or a line end may be cut, at any byte.  The
readers `recvheader`, `chunksize` and `readcrln` hand the bytes they have read too much to one
another.  For each of them a lemma says which bytes it takes off the front of what is unread
(`body ++ pieces.flatten`); the result for whole responses is `response_round_trip`. -/

namespace Skynet.Http

open List Function LuaText ByteReader

/-! ### Lines -/

/-- The lines with their ends. -/
def unlines (lines : List Bytes) : Bytes := lines.flatMap (· ++ crlf)

/-- A line that stays in one piece. -/
def Plain (l : Bytes) : Prop := l ≠ [] ∧ 13 ∉ l

theorem headerLines_append {line : Bytes} (hl : 13 ∉ line) (before s : Bytes) :
    headerLines before (line ++ crlf ++ s) =
      if before ++ line = [] then [] else (before ++ line) :: headerLines [] s := by
  induction line generalizing before with
  | nil => simp [headerLines, crlf]
  | cons a line ih =>
    rw [mem_cons, not_or] at hl
    obtain ⟨b, rest, hb⟩ : ∃ b rest, line ++ crlf ++ s = b :: rest := by
      cases line with
      | nil => exact ⟨13, 10 :: s, rfl⟩
      | cons b line => exact ⟨b, line ++ crlf ++ s, rfl⟩
    have hstep : headerLines before (a :: line ++ crlf ++ s) =
        headerLines (before ++ [a]) (line ++ crlf ++ s) := by
      rw [cons_append, cons_append, hb, headerLines, if_neg]
      exact fun h => hl.1 h.1.symm
    rw [hstep, ih hl.2, append_assoc]
    rfl

variable {lines : List Bytes}

theorem headerLines_unlines (h : ∀ l ∈ lines, Plain l) (s : Bytes) :
    headerLines [] (unlines lines ++ crlf ++ s) = lines := by
  induction lines with
  | nil => simp [unlines, headerLines, crlf]
  | cons l lines ih =>
    obtain ⟨hne, hl⟩ := h l mem_cons_self
    have : unlines (l :: lines) ++ crlf ++ s = l ++ crlf ++ (unlines lines ++ crlf ++ s) := by
      simp [unlines]
    rw [this, headerLines_append hl, nil_append, if_neg hne,
      ih fun m hm => h m (mem_cons_of_mem l hm)]

theorem find_unlines (h : ∀ l ∈ lines, Plain l) (hne : lines ≠ []) (s : Bytes) :
    find crlf2 (unlines lines ++ crlf ++ s) = some ((unlines lines).length - 2) := by
  induction lines with
  | nil => exact absurd rfl hne
  | cons l lines ih =>
    obtain ⟨-, hl⟩ := h l mem_cons_self
    cases lines with
    | nil =>
      have : unlines [l] ++ crlf ++ s = l ++ (crlf2 ++ s) := by simp [unlines, crlf, crlf2]
      rw [this, crlf2, find_append_of_notMem hl, ← crlf2, find_self_append crlf2 s (by decide)]
      simp [unlines, crlf]
    | cons m lines =>
      have ih := ih (fun n hn => h n (mem_cons_of_mem l hn)) (cons_ne_nil _ _)
      obtain ⟨hm, hm'⟩ := h m (by simp)
      obtain ⟨c, m, rfl⟩ := exists_cons_of_ne_nil hm
      have hc : c ≠ 13 := fun hc => hm' (by simp [hc])
      have : unlines (l :: (c :: m) :: lines) ++ crlf ++ s =
          l ++ (13 :: 10 :: (unlines ((c :: m) :: lines) ++ crlf ++ s)) := by
        simp [unlines, crlf]
      rw [this, crlf2, find_append_of_notMem hl, find, if_neg, find_cons_ne (by decide),
        ← crlf2, ih]
      · simp [unlines, crlf]
        omega
      · simp [unlines, hc.symm]

/-! ### Readers

What is read is a part of `block`, or `block` and a part of what follows. -/

variable {rest : Bytes}

theorem cut_cases {s t block : Bytes} (h : s ++ t = block ++ rest) :
    (∃ r, s = block ++ r ∧ r ++ t = rest) ∨
    (s.length < block.length ∧ ∃ r, block = s ++ r ∧ t = r ++ rest) := by
  rcases append_eq_append_iff.mp h with ⟨r, hr, ht⟩ | ⟨r, hr, ht⟩
  · cases r with
    | nil => exact .inl ⟨[], by simpa using hr.symm, by simpa using ht⟩
    | cons b r => exact .inr ⟨by simp [hr], b :: r, hr, ht⟩
  · exact .inl ⟨r, hr, ht.symm⟩

variable {pieces : Pieces}

/-- A part of the header that is not all of it has no empty line, neither at its end nor at its
start. -/
theorem recvheaderLoop_block (h : ∀ l ∈ lines, Plain l) (hne : lines ≠ [])
    (hlimit : (unlines lines ++ crlf).length ≤ limit) {header : Bytes}
    (hflat : header ++ pieces.flatten = unlines lines ++ crlf ++ rest)
    (hlt : header.length < (unlines lines ++ crlf).length) :
    ∃ r ps, recvheaderLoop header pieces = .ok (some ⟨lines, r⟩, ps) ∧ r ++ ps.flatten = rest := by
  have hfind := find_unlines h hne []
  rw [append_nil] at hfind
  obtain ⟨l, lines', rfl⟩ := exists_cons_of_ne_nil hne
  obtain ⟨hl, hl'⟩ := h l mem_cons_self
  obtain ⟨c, l, rfl⟩ := exists_cons_of_ne_nil hl
  have hc : c ≠ 13 := fun hc => hl' (by simp [hc])
  obtain ⟨block', hblock'⟩ : ∃ block', unlines ((c :: l) :: lines') ++ crlf = c :: block' := by
    simp [unlines]
  have hlen2 : 2 ≤ (unlines ((c :: l) :: lines')).length := by
    simp [unlines, crlf]
    omega
  generalize hblock : unlines ((c :: l) :: lines') ++ crlf = block at *
  have hlength : (unlines ((c :: l) :: lines')).length + 2 = block.length := by
    rw [← hblock, length_append]
    rfl
  induction pieces generalizing header with
  | nil =>
    have hlen := congrArg List.length hflat
    simp only [flatten_nil, append_nil, length_append] at hlen
    omega
  | cons bytes pieces ih =>
    rw [flatten_cons, ← append_assoc] at hflat
    simp only [recvheaderLoop]
    rcases cut_cases hflat with ⟨r, hr, hrest⟩ | ⟨hlt', r, hr, hpieces⟩
    · have hfound : find crlf2 (header ++ bytes) =
          some ((unlines ((c :: l) :: lines')).length - 2) := by
        rw [hr]
        exact find_append hfind r
      have hinit : (header ++ bytes).length - (bytes.length + 3) ≤
          (unlines ((c :: l) :: lines')).length - 2 := by
        rw [length_append]
        omega
      rw [findFrom_of_some hfound hinit]
      refine ⟨r, pieces, ?_, hrest⟩
      have hlines : headerLines [] (header ++ bytes) = (c :: l) :: lines' := by
        rw [hr, ← hblock]
        exact headerLines_unlines h r
      have hdrop : (header ++ bytes).drop
          ((unlines ((c :: l) :: lines')).length - 2 + 4) = r := by
        rw [hr]
        exact drop_left' (by omega)
      simp only [hlines, hdrop]
    · have hnone : find crlf2 (header ++ bytes) = none := by
        refine find_eq_none_of_append (k := (unlines ((c :: l) :: lines')).length - 2)
          (hr ▸ hfind) ?_
        simp only [crlf2, length_cons, length_nil]
        omega
      have hstart : crlf.isPrefixOf (header ++ bytes) = false := by
        cases hcase : header ++ bytes with
        | nil => rfl
        | cons b t =>
          rw [hcase, hblock', cons_append, List.cons.injEq] at hr
          simp [crlf, List.isPrefixOf, ← hr.1, hc.symm]
      rw [findFrom_of_none hnone (by decide)]
      simp only [hstart, Bool.false_eq_true, if_false]
      rw [if_neg (by omega)]
      exact ih hflat hlt'

theorem recvheader_block (h : ∀ l ∈ lines, Plain l) (hne : lines ≠ [])
    (hlimit : (unlines lines ++ crlf).length ≤ limit)
    (hflat : pieces.flatten = unlines lines ++ crlf ++ rest) :
    ∃ r ps, recvheader [] pieces = .ok (some ⟨lines, r⟩, ps) ∧ r ++ ps.flatten = rest := by
  have hloop : ∃ r ps, recvheaderLoop [] pieces = .ok (some ⟨lines, r⟩, ps) ∧
      r ++ ps.flatten = rest :=
    recvheaderLoop_block h hne hlimit (by simpa using hflat) (by simp [crlf])
  simpa [recvheader, crlf, crlf2, find] using hloop

theorem chunksize_reads {n : ℕ} (hn : n < 2 ^ 63) {body : Bytes}
    (hflat : body ++ pieces.flatten = hexadecimal n ++ crlf ++ rest) :
    ∃ r ps, chunksize body pieces = .ok (some ((n : ℤ), r), ps) ∧ r ++ ps.flatten = rest := by
  have h13 : (13 : UInt8) ∉ hexadecimal n := notMem_digits (hexadecimal_digits n) (by decide)
  have hlen : (hexadecimal n).length ≤ 16 := by
    rw [hexadecimal, length_map]
    exact digits_length 16 (by decide) (by omega)
  have hfind : find crlf (hexadecimal n ++ crlf) = some (hexadecimal n).length := by
    rw [crlf, find_append_of_notMem h13, ← crlf]
    simp [find, crlf]
  have hdone (r : Bytes) : chunkLine (hexadecimal n ++ crlf ++ r) = some (some ((n : ℤ), r)) := by
    have hdrop : (hexadecimal n ++ crlf ++ r).drop ((hexadecimal n).length + 2) = r :=
      drop_left' (by simp [crlf])
    have htake : (hexadecimal n ++ crlf ++ r).take (hexadecimal n).length = hexadecimal n := by
      rw [append_assoc]
      exact take_left' rfl
    simp only [chunkLine, find_append hfind r, htake, hdrop, tonumberBase_hexadecimal hn,
      Option.map_some]
  have hmore {s r : Bytes} (hlt : s.length < (hexadecimal n ++ crlf).length)
      (hs : hexadecimal n ++ crlf = s ++ r) : chunkLine s = none := by
    have hnone : find crlf s = none := by
      refine find_eq_none_of_append (hs ▸ hfind) ?_
      simpa using hlt
    simp only [length_append, crlf, length_cons, length_nil] at hlt
    simp only [chunkLine, hnone]
    rw [if_neg (by omega)]
  induction pieces generalizing body with
  | nil =>
    rcases cut_cases hflat with ⟨r, rfl, hrest⟩ | ⟨hlt, r, hr, hnil⟩
    · exact ⟨r, [], by simp only [chunksize, hdone], hrest⟩
    · -- the stream does not end here
      obtain ⟨rfl, -⟩ : r = [] ∧ rest = [] := by simpa using hnil.symm
      rw [append_nil] at hr
      rw [hr] at hlt
      exact absurd hlt (lt_irrefl _)
  | cons bytes pieces ih =>
    rcases cut_cases hflat with ⟨r, rfl, hrest⟩ | ⟨hlt, r, hr, -⟩
    · exact ⟨r, bytes :: pieces, by simp only [chunksize, hdone], hrest⟩
    · simp only [chunksize, hmore hlt hr]
      exact ih (by rw [append_assoc, ← flatten_cons]; exact hflat)

theorem chunkData_reads {data body : Bytes} (hlt : data.length < 2 ^ 63 - 1)
    (hflat : body ++ pieces.flatten = data ++ rest) :
    ∃ r ps, chunkData data.length body pieces = .ok (data, r, ps) ∧ r ++ ps.flatten = rest := by
  rcases cut_cases hflat with ⟨r, rfl, hrest⟩ | ⟨hlt', r, rfl, hpieces⟩
  · have hwrap : wrap ((data.length : ℤ) + 1) = (data.length : ℤ) + 1 := by
      exact_mod_cast wrap_of_lt (by omega)
    refine ⟨r, pieces, ?_, hrest⟩
    unfold chunkData
    rw [if_pos (by simp), hwrap, sub_one, sub_succ, take_left' rfl, drop_left' rfl]
  · obtain ⟨ps, hps, hrest⟩ := read_flatten hpieces rfl
    refine ⟨[], ps, ?_, hrest⟩
    have hn : (((body ++ r).length : ℤ) - body.length).toNat = r.length := by
      rw [length_append]
      omega
    unfold chunkData
    rw [if_neg (by omega), hn, hps]

theorem readcrln_reads {body : Bytes} (hflat : body ++ pieces.flatten = crlf ++ rest) :
    ∃ r ps, readcrln body pieces = .ok (some r, ps) ∧ r ++ ps.flatten = rest := by
  rcases cut_cases hflat with ⟨r, rfl, hrest⟩ | ⟨hlt, r, hr, hpieces⟩
  · exact ⟨r, pieces, by simp [readcrln, crlf], hrest⟩
  · have hlen : r.length = 2 - body.length := by
      have := congrArg List.length hr
      simp only [crlf, length_cons, length_nil, length_append] at this
      omega
    obtain ⟨ps, hps, hrest⟩ := read_flatten hpieces hlen
    refine ⟨[], ps, ?_, hrest⟩
    simp only [crlf, length_cons, length_nil] at hlt
    unfold readcrln
    rw [if_neg (by omega), hps]
    simp [hr]

theorem find_of_short {pat s : Bytes} (h : s.length < pat.length) : find pat s = none := by
  by_contra hne
  obtain ⟨k, hk⟩ := Option.ne_none_iff_exists'.mp hne
  have := find_le hk
  omega

theorem crlf_isPrefixOf {s : Bytes} (h : s.length < crlf.length) : crlf.isPrefixOf s = false := by
  rw [Bool.eq_false_iff, ne_eq, isPrefixOf_iff_prefix]
  exact fun hp => absurd hp.length_le (Nat.not_le_of_lt h)

theorem recvheaderLoop_empty {header : Bytes} (hflat : header ++ pieces.flatten = crlf)
    (hlt : header.length < crlf.length) :
    ∃ ps, recvheaderLoop header pieces = .ok (some ⟨[], []⟩, ps) ∧ ps.flatten = [] := by
  induction pieces generalizing header with
  | nil =>
    rw [flatten_nil, append_nil] at hflat
    exact absurd hlt (by simp [hflat])
  | cons bytes pieces ih =>
    rw [flatten_cons, ← append_assoc] at hflat
    have hle : (header ++ bytes).length ≤ crlf.length := by
      have := congrArg List.length hflat
      rw [length_append] at this
      omega
    have hnone : find crlf2 (header ++ bytes) = none :=
      find_of_short (lt_of_le_of_lt hle (by decide))
    simp only [recvheaderLoop, findFrom_of_none hnone (by decide : crlf2 ≠ [])]
    rcases cut_cases (hflat.trans (append_nil crlf).symm) with
      ⟨r, hr, hrest⟩ | ⟨hlt', r, hr, -⟩
    · obtain ⟨rfl, hps⟩ := append_eq_nil_iff.mp hrest
      exact ⟨pieces, by simp [hr, crlf], hps⟩
    · simp only [crlf_isPrefixOf hlt', Bool.false_eq_true, if_false]
      rw [if_neg]
      · exact ih hflat hlt'
      · have : crlf.length ≤ limit := by decide
        omega

theorem recvheader_empty {body : Bytes} (hflat : body ++ pieces.flatten = crlf) :
    ∃ ps, recvheader body pieces = .ok (some ⟨[], []⟩, ps) ∧ ps.flatten = [] := by
  rcases cut_cases (hflat.trans (append_nil crlf).symm) with ⟨r, rfl, hrest⟩ | ⟨hlt, -⟩
  · obtain ⟨rfl, hps⟩ := append_eq_nil_iff.mp hrest
    exact ⟨pieces, by simp [recvheader, crlf], hps⟩
  · have hnone : find crlf2 body = none := find_of_short (lt_trans hlt (by decide))
    simp only [recvheader, crlf_isPrefixOf hlt, hnone, Bool.false_eq_true, if_false]
    exact recvheaderLoop_empty hflat hlt

/-! ### Chunked bodies -/

/-- The chunks as `recvchunkedbody` reads them: each has its line end after it. -/
def encodeChunks : List Bytes → Bytes
  | [] => hexadecimal 0 ++ crlf ++ crlf
  | s :: l => hexadecimal s.length ++ crlf ++ (s ++ (crlf ++ encodeChunks l))

theorem chunk_reads {s : Bytes} (hne : s ≠ []) (hlt : s.length < 2 ^ 63 - 1) (size : ℤ)
    {body : Bytes}
    (hflat : body ++ pieces.flatten = hexadecimal s.length ++ crlf ++ (s ++ (crlf ++ rest))) :
    ∃ r ps, chunk none size body pieces = .ok (.data s.length s r, ps) ∧ r ++ ps.flatten = rest := by
  obtain ⟨body₁, pieces₁, h₁, hflat₁⟩ := chunksize_reads (by omega) hflat
  obtain ⟨body₂, pieces₂, h₂, hflat₂⟩ := chunkData_reads hlt hflat₁
  obtain ⟨r, ps, h₃, hrest⟩ := readcrln_reads hflat₂
  have hzero : (s.length : ℤ) ≠ 0 := by simpa using hne
  refine ⟨r, ps, ?_, hrest⟩
  simp only [chunk, h₁, hzero, if_false, Option.any_none, Bool.false_eq_true, h₂, h₃]

theorem chunk_last (size : ℤ) {body : Bytes}
    (hflat : body ++ pieces.flatten = hexadecimal 0 ++ crlf ++ rest) :
    ∃ r ps, chunk none size body pieces = .ok (.last r, ps) ∧ r ++ ps.flatten = rest := by
  obtain ⟨r, ps, h, hrest⟩ := chunksize_reads (by decide) hflat
  exact ⟨r, ps, by simp [chunk, h], hrest⟩

theorem chunks_reads {l : List Bytes} (hl : ∀ s ∈ l, s ≠ [] ∧ s.length < 2 ^ 63 - 1)
    (result : Bytes) (size : ℤ) {body : Bytes} (hflat : body ++ pieces.flatten = encodeChunks l) :
    ∃ r ps, chunks none result size body pieces = .ok (some ⟨result ++ l.flatten, r⟩, ps) ∧
      r ++ ps.flatten = crlf := by
  induction l generalizing result size body pieces with
  | nil =>
    obtain ⟨r, ps, h, hrest⟩ := chunk_last size hflat
    exact ⟨r, ps, by rw [chunks, h, flatten_nil, append_nil], hrest⟩
  | cons s l ih =>
    obtain ⟨hne, hlt⟩ := hl s mem_cons_self
    obtain ⟨r, ps, h, hrest⟩ := chunk_reads hne hlt size hflat
    obtain ⟨r', ps', h', hrest'⟩ := ih (fun t ht => hl t (mem_cons_of_mem s ht))
      (result ++ s) (wrap (size + s.length)) hrest
    refine ⟨r', ps', ?_, hrest'⟩
    rw [chunks, h, flatten_cons, ← append_assoc]
    exact h'

theorem recvchunkedbody_reads {l : List Bytes} (hl : ∀ s ∈ l, s ≠ [] ∧ s.length < 2 ^ 63 - 1)
    (header : Header) {body : Bytes} (hflat : body ++ pieces.flatten = encodeChunks l) :
    ∃ ps, recvchunkedbody none header body pieces =
      .ok (some ⟨l.flatten, some header⟩, ps) ∧ ps.flatten = [] := by
  obtain ⟨r, ps, h, hrest⟩ := chunks_reads hl [] 0 hflat
  obtain ⟨ps', h', hps'⟩ := recvheader_empty hrest
  exact ⟨ps', by simp [recvchunkedbody, h, h', parseheader], hps'⟩

/-- What `writeall` writes for the chunks, with the line ends before them. -/
theorem write_chunks (l : List Bytes) :
    (l.flatMap fun s => [crlf ++ hexadecimal s.length ++ crlf, s]).flatten ++
      (crlf ++ hexadecimal 0 ++ crlf2) = crlf ++ encodeChunks l := by
  induction l with
  | nil => simp [encodeChunks, crlf, crlf2]
  | cons s l ih =>
    simp only [flatMap_cons, flatten_append, append_assoc] at ih ⊢
    simp only [flatten_cons, flatten_nil, append_nil, ih, encodeChunks,
      append_assoc]

/-! ### The header -/

/-- A byte of a token. -/
def isToken (b : UInt8) : Bool := isAlnum b || (ofString "!#$%&'*+-.^_`|~").contains b

/-- A field of a response header: the name is a token, and the value is one line that does not
start with a blank.  The two fields that tell how long the body is are written by `writeall`. -/
structure Field where
  name : Bytes
  value : Bytes
  token : name ≠ [] ∧ ∀ b ∈ name, isToken b = true
  line : 13 ∉ value ∧ 10 ∉ value
  start : ∀ b ∈ value.head?, isSpace b = false
  other : lower name ≠ ofString "content-length" ∧ lower name ≠ ofString "transfer-encoding"

/-- The fields of a response header; the names differ in more than their case. -/
structure Fields where
  fields : List Field
  nodup : (fields.map fun f => lower f.name).Nodup

/-- `name: value` is read as the two. -/
theorem headerField_fieldLine {name value : Bytes} (hname : 58 ∉ name)
    (hvalue : ∀ b ∈ value.head?, isSpace b = false) :
    headerField (fieldLine name value) = some (name, value) := by
  have hline : fieldLine name value = name ++ (58 :: 32 :: value) := by
    simp [fieldLine, show ofString ": " = [58, 32] by decide]
  have hfind : find [58] (fieldLine name value) = some name.length := by
    rw [hline, find_append_of_notMem hname]
    simp [find]
  have hdrop : value.dropWhile isSpace = value := by
    cases value with
    | nil => rfl
    | cons b value =>
      rw [dropWhile_cons_of_neg]
      simp [hvalue b (by simp)]
  rw [headerField, hfind, hline, Option.map_some, take_left' rfl,
    show name ++ 58 :: 32 :: value = (name ++ [58]) ++ 32 :: value by simp,
    drop_left' (by simp), dropWhile_cons_of_pos (by decide), hdrop]

/-- The header with the fields in it. -/
def collect (header : Header) (fields : List (Bytes × Bytes)) : Header :=
  fields.foldl (fun h f => update h (lower f.1) (some (.one f.2))) header

variable {fields : List (Bytes × Bytes)}

theorem collect_of_notMem {name : Bytes} (header : Header)
    (h : name ∉ fields.map fun f => lower f.1) : collect header fields name = header name := by
  induction fields generalizing header with
  | nil => rfl
  | cons f fields ih =>
    rw [map_cons, mem_cons, not_or] at h
    rw [collect, foldl_cons, ← collect, ih _ h.2, update_of_ne h.1]

theorem collect_of_mem {f : Bytes × Bytes} (header : Header)
    (hnodup : (fields.map fun f => lower f.1).Nodup) (h : f ∈ fields) :
    collect header fields (lower f.1) = some (.one f.2) := by
  induction fields generalizing header with
  | nil => cases h
  | cons g fields ih =>
    rw [map_cons, nodup_cons] at hnodup
    rw [collect, foldl_cons, ← collect]
    rcases mem_cons.mp h with rfl | h
    · rw [collect_of_notMem _ hnodup.1, update_self]
    · exact ih _ hnodup.2 h

theorem parseheader_fields
    (hplain : ∀ f ∈ fields, 58 ∉ f.1 ∧ f.1.head? ≠ some 9 ∧ f.1 ≠ [] ∧
      ∀ b ∈ f.2.head?, isSpace b = false) (hnodup : (fields.map fun f => lower f.1).Nodup)
    (name : Option Bytes) {header : Header} (hfree : ∀ f ∈ fields, header (lower f.1) = none) :
    parseheader name header (fields.map fun f => fieldLine f.1 f.2) =
      .ok (some (collect header fields)) := by
  induction fields generalizing name header with
  | nil => rfl
  | cons f fields ih =>
    obtain ⟨hcolon, htab, hne, hvalue⟩ := hplain f mem_cons_self
    rw [map_cons, nodup_cons] at hnodup
    have hhead : (fieldLine f.1 f.2).head? ≠ some 9 := by
      obtain ⟨b, n, hb⟩ := exists_cons_of_ne_nil hne
      simpa [fieldLine, hb] using htab
    have hadd : addField header (lower f.1) f.2 =
        update header (lower f.1) (some (.one f.2)) := by
      rw [addField, hfree f mem_cons_self]
    simp only [map_cons, parseheader, if_neg hhead, headerField_fieldLine hcolon hvalue, hadd]
    refine ih (fun g hg => hplain g (mem_cons_of_mem f hg)) hnodup.2 _ fun g hg => ?_
    rw [update_of_ne, hfree g (mem_cons_of_mem f hg)]
    intro heq
    exact hnodup.1 (mem_map.mpr ⟨g, hg, heq⟩)

/-! ### The status line -/

theorem decimal3_eq (n : ℕ) : decimal3 n =
    (replicate (3 - (decimal n).length) 0 ++ digits 10 n n).map digitByte := by
  simp [decimal3, decimal, show digitByte 0 = 48 by decide]

theorem decimal3_digits (n : ℕ) :
    ∀ d ∈ replicate (3 - (decimal n).length) 0 ++ digits 10 n n, d < 10 := by
  intro d hd
  rcases mem_append.mp hd with hd | hd
  · rw [eq_of_mem_replicate hd]
    decide
  · exact decimal_digits n d hd

theorem str2int_decimal3 {n : ℕ} (h : n < 2 ^ 63) : str2int (decimal3 n) = some (n : ℤ) := by
  have hvalue : value 10 (replicate (3 - (decimal n).length) 0 ++ digits 10 n n) = n := by
    have hzero (k : ℕ) : List.foldl (fun n d => n * 10 + d) 0 (replicate k 0) = 0 := by
      induction k with
      | zero => rfl
      | succ k ih => rw [replicate_succ, foldl_cons, zero_mul, ih]
    rw [value, foldl_append, hzero]
    exact value_digits 10 n n
  have hint := str2int_digits (decimal3_digits n) (by simp [digits_ne_nil]) false (by omega)
  rwa [← decimal3_eq, hvalue] at hint

theorem statusCodeAt_eq {d : Bytes} (hd : ∀ b ∈ d, isDigit b = true) (hne : d ≠ []) (msg : Bytes) :
    statusCodeAt (ofString "HTTP/1.1 " ++ d ++ ofString " " ++ msg) = some d := by
  have hline : ofString "HTTP/1.1 " ++ d ++ ofString " " ++ msg =
      ofString "HTTP/" ++ 49 :: 46 :: 49 :: 32 :: (d ++ 32 :: msg) := by
    simp [show ofString "HTTP/1.1 " = ofString "HTTP/" ++ [49, 46, 49, 32] by decide,
      show ofString " " = [32] by decide]
  have hspace : (d ++ 32 :: msg).dropWhile isSpace = d ++ 32 :: msg := by
    obtain ⟨b, d, rfl⟩ := exists_cons_of_ne_nil hne
    have hb : isSpace b = false := isSpace_of_isDigit (hd b mem_cons_self)
    rw [cons_append, dropWhile_cons_of_neg (by simp [hb])]
  have htake : (d ++ 32 :: msg).takeWhile isDigit = d := by
    rw [takeWhile_append_of_pos hd, takeWhile_cons_of_neg (by decide), append_nil]
  have hdrop : (d ++ 32 :: msg).dropWhile isDigit = 32 :: msg := by
    rw [dropWhile_append_of_pos hd, dropWhile_cons_of_neg (by decide)]
  rw [hline]
  simp only [statusCodeAt]
  rw [drop_left' (by decide), take_left' (by decide)]
  have hversion : (49 :: 46 :: 49 :: 32 :: (d ++ 32 :: msg)).dropWhile
      (fun b => isDigit b || b = 46) = 32 :: (d ++ 32 :: msg) := by
    simp [show isDigit 49 = true by decide, show isDigit 32 = false by decide]
  rw [hversion, dropWhile_cons_of_pos (by decide), hspace, htake, hdrop, if_pos]
  refine ⟨rfl, ?_, ?_, hne, ?_⟩
  · simp [show isDigit 49 = true by decide]
  · simp [show isSpace 32 = true by decide]
  · simp [show isSpace 32 = true by decide]

theorem statusCode_statusLine (n : ℕ) : statusCode (statusLine n) = some (decimal3 n) := by
  have hd : ∀ b ∈ decimal3 n, isDigit b = true := by
    rw [decimal3_eq]
    intro b hb
    obtain ⟨d, hd, rfl⟩ := mem_map.mp hb
    have h10 := decimal3_digits n d hd
    exact (digitByte_spec d (lt_trans h10 (by decide))).2.2.1 h10
  have hne : decimal3 n ≠ [] := by
    rw [decimal3_eq]
    simp [digits_ne_nil]
  have hat := statusCodeAt_eq hd hne (ofString ((httpStatusMsg.lookup n).getD ""))
  rw [← statusLine] at hat
  rw [statusCode, range_succ_eq_map, findSome?_cons, drop_zero, hat]

theorem notMem_httpStatusMsg (n : ℕ) : 13 ∉ ofString ((httpStatusMsg.lookup n).getD "") := by
  have hall : ∀ e ∈ httpStatusMsg, 13 ∉ ofString e.2 := by decide +kernel
  cases hn : httpStatusMsg.lookup n with
  | none => decide
  | some text =>
    obtain ⟨l₁, l₂, heq, -⟩ := lookup_eq_some_iff.mp hn
    exact hall (n, text) (by rw [heq]; simp)

theorem plain_statusLine (n : ℕ) : Plain (statusLine n) := by
  have h13 : (13 : UInt8) ∉ decimal3 n := by
    rw [decimal3_eq]
    exact notMem_digits (fun d hd => lt_trans (decimal3_digits n d hd) (by decide)) (by decide)
  refine ⟨by simp [statusLine, show ofString " " = [32] by decide], ?_⟩
  simp only [statusLine, mem_append, not_or]
  exact ⟨⟨⟨by decide, h13⟩, by decide⟩, notMem_httpStatusMsg n⟩

/-! ### Responses -/

/-- A string of Lua: its length is less than `MAX_SIZE`. -/
structure LuaString where
  bytes : Bytes
  length_lt : bytes.length < 2 ^ 63 - 1

/-- The body of a response: a string, or the strings that a function returns. -/
inductive Content where
  | text (s : LuaString)
  | chunks (l : List LuaString)

namespace Content

/-- The argument of `httpd.write_response`. -/
def body : Content → Body
  | text s => .text s.bytes
  | chunks l => .chunks (l.map (·.bytes))

/-- What the receiver is to get. -/
def bytes : Content → Bytes
  | text s => s.bytes
  | chunks l => (l.map (·.bytes)).flatten

/-- The field that `writeall` adds. -/
def framing : Content → Bytes × Bytes
  | text s => (ofString "content-length", decimal s.bytes.length)
  | chunks _ => (ofString "transfer-encoding", ofString "chunked")

/-- What follows the header. -/
def payload : Content → Bytes
  | text s => s.bytes
  | chunks l => encodeChunks ((l.map (·.bytes)).filter (· ≠ []))

end Content

/-- The entries of the header table. -/
def Fields.entries (h : Fields) : List (Bytes × Value) :=
  h.fields.map fun f => (f.name, .one f.value)

/-- All fields of a response. -/
def allFields (h : Fields) (c : Content) : List (Bytes × Bytes) :=
  (h.fields.map fun f => (f.name, f.value)) ++ [c.framing]

/-- The header of a response, up to its empty line. -/
def headerBlock (statuscode : ℕ) (h : Fields) (c : Content) : Bytes :=
  unlines (statusLine statuscode :: (allFields h c).map fun f => fieldLine f.1 f.2) ++ crlf

theorem writeall_eq (statuscode : ℕ) (h : Fields) (c : Content) :
    (writeall statuscode c.body h.entries).flatten =
      headerBlock statuscode h c ++ c.payload := by
  have hfields : ((h.entries.flatMap fun e => (fieldLines e.1 e.2).map (· ++ crlf))).flatten =
      unlines ((h.fields.map fun f => (f.name, f.value)).map fun f => fieldLine f.1 f.2) := by
    simp [Fields.entries, fieldLines, unlines, flatMap_map, flatten_eq_flatMap,
      flatMap_assoc, Function.comp_def]
  have hbody : (writeBody c.body).flatten =
      fieldLine c.framing.1 c.framing.2 ++ crlf ++ crlf ++ c.payload := by
    cases c with
    | text s => simp [writeBody, Content.body, Content.framing, Content.payload, crlf, crlf2]
    | chunks l =>
      have := write_chunks ((l.map (·.bytes)).filter (· ≠ []))
      simp only [writeBody, Content.body, Content.framing, Content.payload, flatten_cons,
        cons_append, flatten_append, flatten_nil, append_nil,
        append_assoc] at this ⊢
      rw [this]
  rw [writeall, cons_append, flatten_cons, flatten_append, hfields, hbody]
  simp [headerBlock, unlines, allFields]

theorem identityBody_reads {s body : Bytes} (hflat : body ++ pieces.flatten = s) :
    ∃ ps, identityBody (.int s.length) body pieces = .ok (s, ps) ∧ ps.flatten = [] := by
  have hle : (Number.int s.length).le body.length = decide (s.length ≤ body.length) := by
    simp [Number.le]
  rcases cut_cases (hflat.trans (append_nil s).symm) with ⟨r, rfl, hrest⟩ | ⟨hlt, r, rfl, hps⟩
  · obtain ⟨rfl, hnil⟩ := append_eq_nil_iff.mp hrest
    refine ⟨pieces, ?_, hnil⟩
    rw [append_nil] at hle ⊢
    simp [identityBody, hle, Number.toInteger, sub_one]
  · obtain ⟨ps, hread, hnil⟩ := read_flatten hps rfl
    refine ⟨ps, ?_, hnil⟩
    have hn : (((body ++ r).length : ℤ) - body.length).toNat = r.length := by
      rw [length_append]
      omega
    unfold identityBody
    rw [hle, if_neg (by rw [decide_eq_true_eq]; omega)]
    simp only [Number.toInteger, hn, hread]

section Fields

variable (h : Fields) (c : Content)

theorem Field.notMem (f : Field) {b : UInt8} (hb : isToken b = false) : b ∉ f.name := by
  intro hmem
  rw [f.token.2 b hmem] at hb
  cases hb

/-- The names of the two fields that `writeall` adds. -/
theorem framing_cases : c.framing.1 = ofString "content-length" ∨
    c.framing.1 = ofString "transfer-encoding" := by
  cases c with
  | text s => exact .inl rfl
  | chunks l => exact .inr rfl

theorem framing_name : lower c.framing.1 = c.framing.1 ∧ 58 ∉ c.framing.1 ∧ 13 ∉ c.framing.1 ∧
    c.framing.1.head? ≠ some 9 ∧ c.framing.1 ≠ [] := by
  rcases framing_cases c with hc | hc <;> rw [hc] <;> decide

theorem framing_value : 13 ∉ c.framing.2 ∧ ∀ b ∈ c.framing.2.head?, isSpace b = false := by
  cases c with
  | text s =>
    have h16 : ∀ d ∈ digits 10 s.bytes.length s.bytes.length, d < 16 := fun d hd =>
      lt_trans (decimal_digits _ d hd) (by decide)
    refine ⟨notMem_digits h16 (by decide), fun b hb => ?_⟩
    obtain ⟨d, hd, rfl⟩ := mem_map.mp (mem_of_head? hb)
    exact (digitByte_spec d (h16 d hd)).2.2.2.1
  | chunks l =>
    exact ⟨(by decide +kernel : 13 ∉ ofString "chunked"),
      (by decide +kernel : ∀ b ∈ (ofString "chunked").head?, isSpace b = false)⟩

theorem nodup_allFields : ((allFields h c).map fun f => lower f.1).Nodup := by
  simp only [allFields, map_append, map_map, map_cons, map_nil]
  refine List.Nodup.append h.nodup (nodup_singleton _) fun name hname hframing => ?_
  obtain ⟨f, -, rfl⟩ := mem_map.mp hname
  rw [mem_singleton, (framing_name c).1] at hframing
  rcases framing_cases c with hc | hc
  · exact f.other.1 (hframing.trans hc)
  · exact f.other.2 (hframing.trans hc)

theorem plain_allFields : ∀ f ∈ allFields h c, 58 ∉ f.1 ∧ f.1.head? ≠ some 9 ∧ f.1 ≠ [] ∧
    ∀ b ∈ f.2.head?, isSpace b = false := by
  intro f hf
  rcases mem_append.mp hf with hf | hf
  · obtain ⟨g, -, rfl⟩ := mem_map.mp hf
    refine ⟨g.notMem (by decide), fun htab => ?_, g.token.1, g.start⟩
    exact g.notMem (by decide) (mem_of_head? htab)
  · obtain ⟨-, hcolon, -, htab, hne⟩ := framing_name c
    rw [mem_singleton.mp hf]
    exact ⟨hcolon, htab, hne, (framing_value c).2⟩

theorem plain_lines (statuscode : ℕ) :
    ∀ l ∈ statusLine statuscode :: (allFields h c).map fun f => fieldLine f.1 f.2, Plain l := by
  have hline {name value : Bytes} (hname : 13 ∉ name) (hvalue : 13 ∉ value) :
      Plain (fieldLine name value) := by
    refine ⟨by simp [fieldLine, show ofString ": " = [58, 32] by decide], ?_⟩
    simp only [fieldLine, mem_append, not_or]
    exact ⟨⟨hname, by decide⟩, hvalue⟩
  intro l hl
  rcases mem_cons.mp hl with rfl | hl
  · exact plain_statusLine statuscode
  · obtain ⟨f, hf, rfl⟩ := mem_map.mp hl
    rcases mem_append.mp hf with hf | hf
    · obtain ⟨g, -, rfl⟩ := mem_map.mp hf
      exact hline (g.notMem (by decide)) g.line.1
    · rw [mem_singleton.mp hf]
      exact hline (framing_name c).2.2.1 (framing_value c).1

end Fields

/-- The header that is received. -/
def received (h : Fields) (c : Content) : Header := collect (fun _ => none) (allFields h c)

theorem responseBody_reads (str2d : Bytes → Option Number) (isWs : Bool) (code : Number)
    (h : Fields) (c : Content) {body : Bytes} (hflat : body ++ pieces.flatten = c.payload) :
    ∃ ps, responseBody str2d isWs code (received h c) body pieces =
      .ok (⟨code, c.bytes, some (received h c)⟩, ps) ∧ ps.flatten = [] := by
  have hframing : received h c c.framing.1 = some (.one c.framing.2) := by
    have := collect_of_mem (fun _ => none) (nodup_allFields h c)
      (mem_append_right _ (mem_singleton_self c.framing))
    rwa [(framing_name c).1] at this
  have hother {name : Bytes} (hname : name ≠ c.framing.1)
      (hfields : ∀ f : Field, lower f.name ≠ name) :
      received h c name = none := by
    refine collect_of_notMem _ fun hmem => ?_
    obtain ⟨f, hf, rfl⟩ := mem_map.mp hmem
    rcases mem_append.mp hf with hf | hf
    · obtain ⟨g, -, rfl⟩ := mem_map.mp hf
      exact hfields g rfl
    · rw [mem_singleton.mp hf, (framing_name c).1] at hname
      exact hname rfl
  cases c with
  | text s =>
    have hmode : transferEncoding (received h (.text s)) = .identity := by
      rw [transferEncoding, hother
        (by decide : ofString "transfer-encoding" ≠ ofString "content-length") fun f => f.other.2]
    have hlength : contentLength str2d (received h (.text s)) =
        some (.int s.bytes.length) := by
      have hs := s.length_lt
      rw [contentLength, show ofString "content-length" = (Content.text s).framing.1 from rfl,
        hframing]
      exact tonumber_decimal str2d (by omega)
    obtain ⟨ps, hps, hnil⟩ := identityBody_reads hflat
    refine ⟨ps, ?_, hnil⟩
    simp only [responseBody, hmode, hlength]
    rw [show (Content.text s).payload = s.bytes from rfl] at hps
    rw [hps]
    rfl
  | chunks l =>
    have hmode : transferEncoding (received h (.chunks l)) = .chunked := by
      rw [transferEncoding, show ofString "transfer-encoding" = (Content.chunks l).framing.1 from rfl,
        hframing]
      rfl
    have hl : ∀ s ∈ (l.map (·.bytes)).filter (· ≠ []), s ≠ [] ∧ s.length < 2 ^ 63 - 1 := by
      intro s hs
      obtain ⟨hmem, hne⟩ := mem_filter.mp hs
      obtain ⟨t, -, rfl⟩ := mem_map.mp hmem
      exact ⟨by simpa using hne, t.length_lt⟩
    obtain ⟨ps, hps, hnil⟩ := recvchunkedbody_reads hl
      (received h (.chunks l)) hflat
    refine ⟨ps, ?_, hnil⟩
    simp only [responseBody, hmode, hps, Content.bytes, flatten_filter_ne_nil]

/-- **A response is read back**: for every status code, header and body, what
`httpd.write_response` writes, cut in any way, is read by `internal.request` as the same code, a
header with all the fields, and the body. -/
theorem response_round_trip (str2d : Bytes → Option Number) (isWs : Bool) (statuscode : ℕ)
    (hcode : 100 ≤ statuscode ∧ statuscode ≤ 999) (h : Fields) (c : Content) (pieces : Pieces)
    (hcut : pieces.flatten = (writeall statuscode c.body h.entries).flatten)
    (hlimit : (headerBlock statuscode h c).length ≤ limit) :
    ∃ r header rest, request str2d isWs pieces = .ok (r, rest) ∧ rest.flatten = [] ∧
      r.code = .int statuscode ∧ r.body = c.bytes ∧ r.header = some header ∧
      ∀ f ∈ h.fields, header (lower f.name) = some (.one f.value) := by
  rw [writeall_eq] at hcut
  obtain ⟨body, ps, hheader, hflat⟩ :=
    recvheader_block (plain_lines h c statuscode) (cons_ne_nil _ _) hlimit hcut
  have hstatus : (statusCode (statusLine statuscode)).bind (tonumber str2d) =
      some (.int statuscode) := by
    rw [statusCode_statusLine, Option.bind_some, tonumber, str2int_decimal3 (by omega)]
    rfl
  have hfields : parseheader none (fun _ => none) ((allFields h c).map fun f => fieldLine f.1 f.2) =
      .ok (some (received h c)) :=
    parseheader_fields (plain_allFields h c) (nodup_allFields h c) none fun _ _ => rfl
  obtain ⟨rest, hbody, hnil⟩ := responseBody_reads str2d isWs (.int statuscode) h c hflat
  refine ⟨⟨.int statuscode, c.bytes, some (received h c)⟩, _, rest, ?_,
    hnil, rfl, rfl, rfl, fun f hf => ?_⟩
  · simp only [request, hheader, hstatus, hfields]
    exact hbody
  · exact collect_of_mem _ (nodup_allFields h c)
      (mem_append_left _ (mem_map.mpr ⟨f, hf, rfl⟩))

/-- A header with one field. -/
def sampleFields : Fields where
  fields := [⟨ofString "X-Id", ofString "a: b", by decide +kernel, by decide +kernel,
    by decide +kernel, by decide +kernel⟩]
  nodup := by decide +kernel

/-- A body of two chunks, with an empty string between them. -/
def sampleChunks : Content :=
  .chunks [⟨ofString "ab\r\n", by decide +kernel⟩, ⟨[], by decide +kernel⟩,
    ⟨ofString "c", by decide +kernel⟩]

/-- The response arrives byte by byte. -/
theorem response_round_trip_of_bytes : ∃ r header rest,
    request (fun _ => none) false
        ((writeall 200 sampleChunks.body sampleFields.entries).flatten.map fun b => [b]) =
      .ok (r, rest) ∧ r.code = .int 200 ∧ r.body = ofString "ab\r\nc" ∧ r.header = some header ∧
    header (ofString "x-id") = some (.one (ofString "a: b")) := by
  obtain ⟨r, header, rest, hr, -, hcode, hbody, hheader, hfields⟩ :=
    response_round_trip (fun _ => none) false 200 (by decide) sampleFields sampleChunks
      ((writeall 200 sampleChunks.body sampleFields.entries).flatten.map fun b => [b])
      (flatMap_singleton' _) (by decide +kernel)
  exact ⟨r, header, rest, hr, hcode, hbody, hheader, hfields _ mem_cons_self⟩

end Skynet.Http
