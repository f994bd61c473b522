import Skynet.ByteReader
import Skynet.LuaText

/-! # HTTP messages

The reading functions of `http.internal`, the server side `http.httpd` and the part of
`internal.request` that reads a response.  `readbytes()` returns the next piece of the stream and
`readbytes(n)` the next `n` bytes; both raise the socket error when the stream is closed.

Functions return their result, the pieces they have not read, and an error when they raise one.
The request that `internal.request` writes is left out. -/

namespace Skynet.Http

open List LuaText ByteReader

abbrev Pieces := List Bytes

inductive Fault where
  /-- `socket_error` -/
  | socketError
  /-- any other error -/
  | raised
  /-- an `int` of C code overflows -/
  | overflow
deriving DecidableEq, Repr

def crlf : Bytes := [13, 10]

/-- The end of a header. -/
def crlf2 : Bytes := [13, 10, 13, 10]

def limit : ℕ := 8192

/-- `readbytes(n)` -/
def read (n : ℕ) (pieces : Pieces) : Except Fault (Bytes × Pieces) :=
  match readExact n pieces with
  | some r => .ok r
  | none => .error .socketError

/-! ### Header lines -/

/-- The entry of a header: a table when the name occurs more than once. -/
inductive Value where
  | one (s : Bytes)
  | many (l : List Bytes)
deriving DecidableEq, Repr

abbrev Header := Bytes → Option Value

/-- `header:gmatch("(.-)\r\n")` up to the first empty line; `line` is read already. -/
def headerLines (line : Bytes) : Bytes → List Bytes
  | [] => []
  | [_] => []
  | a :: b :: s =>
    if a = 13 ∧ b = 10 then (if line = [] then [] else line :: headerLines [] s)
    else headerLines (line ++ [a]) (b :: s)

/-- What `recvheader` returns, with the lines it has put into its table. -/
structure Received where
  lines : List Bytes
  rest : Bytes
deriving DecidableEq, Repr

/-- The loop of `recvheader`. -/
def recvheaderLoop (header : Bytes) : Pieces → Except Fault (Option Received × Pieces)
  | [] => .error .socketError
  | bytes :: pieces =>
    let header := header ++ bytes
    match findFrom crlf2 header (header.length - (bytes.length + 3)) with
    | some e => .ok (some ⟨headerLines [] header, header.drop (e + 4)⟩, pieces)
    | none =>
      if crlf.isPrefixOf header then .ok (some ⟨[], header.drop 2⟩, pieces)
      else if limit < header.length then .ok (none, pieces)
      else recvheaderLoop header pieces

def recvheader (header : Bytes) (pieces : Pieces) : Except Fault (Option Received × Pieces) :=
  if crlf.isPrefixOf header then .ok (some ⟨[], header.drop 2⟩, pieces)
  else
    match find crlf2 header with
    | some e => .ok (some ⟨headerLines [] header, header.drop (e + 4)⟩, pieces)
    | none => recvheaderLoop header pieces

/-- `line:match "^(.-):%s*(.*)"` -/
def headerField (line : Bytes) : Option (Bytes × Bytes) :=
  (find [58] line).map fun k => (line.take k, (line.drop (k + 1)).dropWhile isSpace)

/-- A field is added to the header. -/
def addField (header : Header) (name value : Bytes) : Header :=
  Function.update header name <| some <|
    match header name with
    | none => .one value
    | some (.one v) => .many [v, value]
    | some (.many l) => .many (l ++ [value])

/-- `M.parseheader`; `name` is the field of the line before. -/
def parseheader (name : Option Bytes) (header : Header) :
    List Bytes → Except Fault (Option Header)
  | [] => .ok (some header)
  | line :: lines =>
    -- tab, append last line
    if line.head? = some 9 then
      match name with
      | none => .ok none
      | some n =>
        match header n with
        | some (.one v) =>
          parseheader name (Function.update header n (some (.one (v ++ line.drop 1)))) lines
        | _ => .error .raised
    else
      match headerField line with
      | none => .ok none
      | some (n, value) => parseheader (some (lower n)) (addField header (lower n) value) lines

/-! ### Chunked bodies -/

/-- A round of the loop of `chunksize`: what it returns, or `none` when it reads on. -/
def chunkLine (body : Bytes) : Option (Option (ℤ × Bytes)) :=
  match find crlf body with
  | some f => some ((tonumberBase 16 (body.take f)).map fun sz => (sz, body.drop (f + 2)))
  | none => if 128 < body.length then some none else none

/-- `chunksize`; `none` when there is no size. -/
def chunksize (body : Bytes) : Pieces → Except Fault (Option (ℤ × Bytes) × Pieces)
  | [] =>
    match chunkLine body with
    | some r => .ok (r, [])
    | none => .error .socketError
  | bytes :: pieces =>
    match chunkLine body with
    | some r => .ok (r, bytes :: pieces)
    | none => chunksize (body ++ bytes) pieces

def readcrln (body : Bytes) (pieces : Pieces) : Except Fault (Option Bytes × Pieces) :=
  if 2 ≤ body.length then
    .ok (if crlf.isPrefixOf body then some (body.drop 2) else none, pieces)
  else
    match read (2 - body.length) pieces with
    | .error e => .error e
    | .ok (bytes, pieces) => .ok (if body ++ bytes = crlf then some [] else none, pieces)

/-- The data of a chunk, and what is left of the body. -/
def chunkData (sz : ℤ) (body : Bytes) (pieces : Pieces) : Except Fault (Bytes × Bytes × Pieces) :=
  if sz ≤ body.length then .ok (sub body 1 sz, sub body (wrap (sz + 1)) (-1), pieces)
  else
    match read (sz - body.length).toNat pieces with
    | .error e => .error e
    | .ok (padding, pieces) => .ok (body ++ padding, [], pieces)

inductive Chunk where
  | invalid
  | last (body : Bytes)
  | data (sz : ℤ) (data body : Bytes)
deriving DecidableEq, Repr

/-- A round of the loop of `recvchunkedbody`; `size` is the size of the chunks before. -/
def chunk (bodylimit : Option ℕ) (size : ℤ) (body : Bytes) (pieces : Pieces) :
    Except Fault (Chunk × Pieces) :=
  match chunksize body pieces with
  | .error e => .error e
  | .ok (none, pieces) => .ok (.invalid, pieces)
  | .ok (some (sz, body), pieces) =>
    if sz = 0 then .ok (.last body, pieces)
    else if bodylimit.any fun l : ℕ => (l : ℤ) < wrap (size + sz) then .ok (.invalid, pieces)
    else
      match chunkData sz body pieces with
      | .error e => .error e
      | .ok (data, body, pieces) =>
        match readcrln body pieces with
        | .error e => .error e
        | .ok (none, pieces) => .ok (.invalid, pieces)
        | .ok (some body, pieces) => .ok (.data sz data body, pieces)

/-! A chunk takes bytes from the stream, so that the loop over the chunks comes to an end. -/

/-- The bytes that are not read. -/
def unread (body : Bytes) (pieces : Pieces) : ℕ := body.length + pieces.flatten.length

variable {pieces pieces' : Pieces}

theorem read_eq_ok {n : ℕ} {a : Bytes} (h : read n pieces = .ok (a, pieces')) :
    a.length = n ∧ a ++ pieces'.flatten = pieces.flatten := by
  unfold read at h
  split at h
  · rename_i r hr
    obtain rfl := Except.ok.inj h
    exact readExact_eq_some hr
  · cases h

theorem read_flatten {n : ℕ} {a b : Bytes} (h : pieces.flatten = a ++ b) (hn : a.length = n) :
    ∃ ps, read n pieces = .ok (a, ps) ∧ ps.flatten = b := by
  obtain ⟨ps, hps, hflat⟩ := readExact_of_flatten h hn
  exact ⟨ps, by simp [read, hps], hflat⟩

variable {body rest : Bytes}

variable {sz : ℤ} {data : Bytes}

theorem chunkLine_lt (h : chunkLine body = some (some (sz, rest))) : rest.length < body.length := by
  unfold chunkLine at h
  split at h
  · rename_i f hf
    have hle := find_le hf
    obtain ⟨n, -, hn⟩ := Option.map_eq_some_iff.mp (Option.some.inj h)
    obtain ⟨-, rfl⟩ := Prod.mk.inj hn
    simp only [crlf, length_cons, length_nil] at hle
    rw [length_drop]
    omega
  · split_ifs at h
    cases h

theorem chunksize_lt (h : chunksize body pieces = .ok (some (sz, rest), pieces')) :
    unread rest pieces' < unread body pieces := by
  induction pieces generalizing body with unfold chunksize at h
  | nil =>
    split at h
    · rename_i r hr
      cases h
      have := chunkLine_lt hr
      simp only [unread]
      omega
    · cases h
  | cons bytes pieces ih =>
    split at h
    · rename_i r hr
      cases h
      have := chunkLine_lt hr
      simp only [unread]
      omega
    · have := ih h
      simp only [unread, length_append, flatten_cons] at this ⊢
      omega

theorem chunkData_le (h : chunkData sz body pieces = .ok (data, rest, pieces')) :
    unread rest pieces' ≤ unread body pieces := by
  unfold chunkData at h
  split_ifs at h
  · obtain ⟨-, h⟩ := Prod.mk.inj (Except.ok.inj h)
    obtain ⟨rfl, rfl⟩ := Prod.mk.inj h
    exact Nat.add_le_add_right (sub_length_le _ _ _) _
  · split at h
    · cases h
    · rename_i padding ps hr
      obtain ⟨-, h⟩ := Prod.mk.inj (Except.ok.inj h)
      obtain ⟨rfl, rfl⟩ := Prod.mk.inj h
      have hlen := congrArg List.length (read_eq_ok hr).2
      simp only [length_append] at hlen
      simp only [unread, length_nil]
      omega

theorem readcrln_le (h : readcrln body pieces = .ok (some rest, pieces')) :
    unread rest pieces' ≤ unread body pieces := by
  unfold readcrln at h
  split_ifs at h
  · cases h
    simp only [unread, length_drop]
    omega
  · cases h
  · split at h
    · cases h
    · rename_i bytes ps hr
      split_ifs at h
      · cases h
        have hlen := congrArg List.length (read_eq_ok hr).2
        simp only [length_append] at hlen
        simp only [unread, length_nil]
        omega
      · cases h

theorem chunk_data {bodylimit : Option ℕ} {size : ℤ} {body' : Bytes}
    (h : chunk bodylimit size body pieces = .ok (.data sz data body', pieces')) :
    ∃ body₁ pieces₁ body₂ pieces₂, chunksize body pieces = .ok (some (sz, body₁), pieces₁) ∧
      (bodylimit.any fun l : ℕ => (l : ℤ) < wrap (size + sz)) = false ∧
      chunkData sz body₁ pieces₁ = .ok (data, body₂, pieces₂) ∧
      readcrln body₂ pieces₂ = .ok (some body', pieces') := by
  unfold chunk at h
  split at h
  · cases h
  · cases h
  · rename_i sz₁ body₁ pieces₁ h₁
    split_ifs at h with hz hl
    · cases h
    · cases h
    · split at h
      · cases h
      · rename_i data₂ body₂ pieces₂ h₂
        split at h
        · cases h
        · cases h
        · rename_i body₃ pieces₃ h₃
          obtain ⟨heq, rfl⟩ := Prod.mk.inj (Except.ok.inj h)
          cases heq
          exact ⟨body₁, pieces₁, body₂, pieces₂, h₁, by simpa using hl, h₂, h₃⟩

theorem chunk_lt {bodylimit : Option ℕ} {size : ℤ} {body' : Bytes}
    (h : chunk bodylimit size body pieces = .ok (.data sz data body', pieces')) :
    unread body' pieces' < unread body pieces := by
  obtain ⟨body₁, pieces₁, body₂, pieces₂, h₁, -, h₂, h₃⟩ := chunk_data h
  have hlt := chunksize_lt h₁
  have hle := chunkData_le h₂
  have hle' := readcrln_le h₃
  omega

/-- The chunks of a body and what follows the last one. -/
structure Chunks where
  result : Bytes
  rest : Bytes
deriving DecidableEq, Repr

/-- The loop of `recvchunkedbody`. -/
def chunks (bodylimit : Option ℕ) (result : Bytes) (size : ℤ) (body : Bytes) (pieces : Pieces) :
    Except Fault (Option Chunks × Pieces) :=
  match _h : chunk bodylimit size body pieces with
  | .error e => .error e
  | .ok (.invalid, pieces) => .ok (none, pieces)
  | .ok (.last body, pieces) => .ok (some ⟨result, body⟩, pieces)
  | .ok (.data sz data body, pieces) =>
    chunks bodylimit (result ++ data) (wrap (size + sz)) body pieces
termination_by unread body pieces
decreasing_by exact chunk_lt _h

/-- What `recvchunkedbody` returns. -/
structure ChunkedBody where
  result : Bytes
  header : Option Header

def recvchunkedbody (bodylimit : Option ℕ) (header : Header) (body : Bytes) (pieces : Pieces) :
    Except Fault (Option ChunkedBody × Pieces) :=
  match chunks bodylimit [] 0 body pieces with
  | .error e => .error e
  | .ok (none, pieces) => .ok (none, pieces)
  | .ok (some c, pieces) =>
    match recvheader c.rest pieces with
    | .error e => .error e
    | .ok (none, pieces) => .ok (none, pieces)
    | .ok (some r, pieces) =>
      match parseheader none header r.lines with
      | .error e => .error e
      | .ok header => .ok (some ⟨c.result, header⟩, pieces)

/-! ### The two sides -/

/-- The number in the `content-length`; a table is not a number. -/
def contentLength (str2d : Bytes → Option Number) (header : Header) : Option Number :=
  match header (ofString "content-length") with
  | some (.one s) => tonumber str2d s
  | _ => none

inductive Mode where
  | identity
  | chunked
  | unsupported
deriving DecidableEq, Repr

/-- The `transfer-encoding`. -/
def transferEncoding (header : Header) : Mode :=
  match header (ofString "transfer-encoding") with
  | none => .identity
  | some (.one s) =>
    if s = ofString "identity" then .identity
    else if s = ofString "chunked" then .chunked
    else .unsupported
  | some (.many _) => .unsupported

/-- A body of the given length: `body` cut off, or read to the end. -/
def identityBody (length : Number) (body : Bytes) (pieces : Pieces) :
    Except Fault (Bytes × Pieces) :=
  if length.le body.length then
    match length.toInteger with
    | none => .error .raised
    | some n => .ok (sub body 1 n, pieces)
  else
    match length.toInteger with
    | none => .error .raised
    | some n =>
      match read (n - body.length).toNat pieces with
      | .error e => .error e
      | .ok (padding, pieces) => .ok (body ++ padding, pieces)

/-- `after` of `request:match "^(%a+)%s+(.-)%s+HTTP/([%d%.]+)$"` when `url` has been read: blanks,
`HTTP/` and a version up to the end. -/
def httpVersion (after : Bytes) : Option Bytes :=
  let rest := after.dropWhile isSpace
  let version := rest.drop 5
  if after.takeWhile isSpace ≠ [] ∧ rest.take 5 = ofString "HTTP/" ∧ version ≠ [] ∧
      version.all (fun b => isDigit b || b = 46) then some version
  else none

/-- The shortest `url` after which `httpVersion` matches. -/
def urlAndVersion (s : Bytes) : Option (Bytes × Bytes) :=
  (List.range (s.length + 1)).findSome? fun k =>
    (httpVersion (s.drop k)).map fun version => (s.take k, version)

/-- `request:match "^(%a+)%s+(.-)%s+HTTP/([%d%.]+)$"`: method, url and version.  The blanks after
the method are as many as possible. -/
def requestLine (s : Bytes) : Option (Bytes × Bytes × Bytes) :=
  let method := s.takeWhile isAlpha
  let rest := s.dropWhile isAlpha
  if method = [] then none
  else
    ((List.range (rest.takeWhile isSpace).length).reverse.findSome? fun k =>
      urlAndVersion (rest.drop (k + 1))).map fun r => (method, r.1, r.2)

/-- The double 1.1. -/
def oneOne : ℚ := 2476979795053773 / 2251799813685248

/-- What `read_all` returns with the code 200. -/
structure Request where
  url : Bytes
  method : Bytes
  header : Option Header
  body : Bytes

/-- `read_all` after the header is parsed. -/
def readBody (str2d : Bytes → Option Number) (bodylimit : Option ℕ) (method url : Bytes)
    (header : Header) (body : Bytes) (pieces : Pieces) :
    Except Fault (ℕ × Option Request × Pieces) :=
  match transferEncoding header with
  | .unsupported => .ok (501, none, pieces)
  | .chunked =>
    match recvchunkedbody bodylimit header body pieces with
    | .error e => .error e
    | .ok (none, pieces) => .ok (413, none, pieces)
    | .ok (some c, pieces) => .ok (200, some ⟨url, method, c.header, c.result⟩, pieces)
  | .identity =>
    match contentLength str2d header with
    | none => .ok (200, some ⟨url, method, some header, body⟩, pieces)
    | some length =>
      if bodylimit.any fun l : ℕ => !length.le l then .ok (413, none, pieces)
      else
        match identityBody length body pieces with
        | .error e => .error e
        | .ok (body, pieces) => .ok (200, some ⟨url, method, some header, body⟩, pieces)

/-- `read_all`: the code, the request and what is left of the stream. -/
def readAll (str2d : Bytes → Option Number) (bodylimit : Option ℕ) (pieces : Pieces) :
    Except Fault (ℕ × Option Request × Pieces) :=
  match recvheader [] pieces with
  | .error e => .error e
  | .ok (none, pieces) => .ok (413, none, pieces)
  | .ok (some ⟨[], _⟩, _) => .error .raised
  | .ok (some ⟨request :: fields, body⟩, pieces) =>
    match requestLine request with
    | none => .error .raised
    | some (method, url, version) =>
      match tonumber str2d version with
      | none => .error .raised
      | some httpver =>
        if httpver.lt 1 || !httpver.le oneOne then .ok (505, none, pieces)
        else
          match parseheader none (fun _ => none) fields with
          | .error e => .error e
          | .ok none => .ok (400, none, pieces)
          | .ok (some header) => readBody str2d bodylimit method url header body pieces

/-- `httpd.read_request`: the code and the request; no code when an error is raised. -/
def readRequest (str2d : Bytes → Option Number) (bodylimit : Option ℕ) (pieces : Pieces) :
    Option (ℕ × Option Request) :=
  match readAll str2d bodylimit pieces with
  | .error _ => none
  | .ok (code, request, _) => some (code, request)

def httpStatusMsg : List (ℕ × String) :=
  [(100, "Continue"),
    (101, "Switching Protocols"),
    (200, "OK"),
    (201, "Created"),
    (202, "Accepted"),
    (203, "Non-Authoritative Information"),
    (204, "No Content"),
    (205, "Reset Content"),
    (206, "Partial Content"),
    (300, "Multiple Choices"),
    (301, "Moved Permanently"),
    (302, "Found"),
    (303, "See Other"),
    (304, "Not Modified"),
    (305, "Use Proxy"),
    (307, "Temporary Redirect"),
    (400, "Bad Request"),
    (401, "Unauthorized"),
    (402, "Payment Required"),
    (403, "Forbidden"),
    (404, "Not Found"),
    (405, "Method Not Allowed"),
    (406, "Not Acceptable"),
    (407, "Proxy Authentication Required"),
    (408, "Request Time-out"),
    (409, "Conflict"),
    (410, "Gone"),
    (411, "Length Required"),
    (412, "Precondition Failed"),
    (413, "Request Entity Too Large"),
    (414, "Request-URI Too Large"),
    (415, "Unsupported Media Type"),
    (416, "Requested range not satisfiable"),
    (417, "Expectation Failed"),
    (500, "Internal Server Error"),
    (501, "Not Implemented"),
    (502, "Bad Gateway"),
    (503, "Service Unavailable"),
    (504, "Gateway Time-out"),
    (505, "HTTP Version not supported")]

/-- The body that is given to `httpd.write_response`; `chunks` are the strings that a function
returns before `nil`. -/
inductive Body where
  | text (s : Bytes)
  | chunks (l : List Bytes)
  | absent
deriving DecidableEq, Repr

/-- `string.format("%03d", n)` -/
def decimal3 (n : ℕ) : Bytes := replicate (3 - (decimal n).length) 48 ++ decimal n

def statusLine (statuscode : ℕ) : Bytes :=
  ofString "HTTP/1.1 " ++ decimal3 statuscode ++ ofString " " ++
    ofString ((httpStatusMsg.lookup statuscode).getD "")

def fieldLine (name value : Bytes) : Bytes := name ++ ofString ": " ++ value

/-- The lines of an entry of the header. -/
def fieldLines (name : Bytes) : Value → List Bytes
  | .one v => [fieldLine name v]
  | .many l => l.map (fieldLine name)

/-- What `writeall` writes for the body. -/
def writeBody : Body → List Bytes
  | .text s => [fieldLine (ofString "content-length") (decimal s.length) ++ crlf2, s]
  | .chunks l =>
    (fieldLine (ofString "transfer-encoding") (ofString "chunked") ++ crlf) ::
      (l.filter (· ≠ [])).flatMap (fun s => [crlf ++ hexadecimal s.length ++ crlf, s]) ++
      [crlf ++ hexadecimal 0 ++ crlf2]
  | .absent => [crlf]

/-- `writeall`: what is written, call by call. -/
def writeall (statuscode : ℕ) (body : Body) (header : List (Bytes × Value)) : List Bytes :=
  (statusLine statuscode ++ crlf) ::
    (header.flatMap fun e => (fieldLines e.1 e.2).map (· ++ crlf)) ++ writeBody body

/-- `statusline:match "HTTP/[%d%.]+%s+([%d]+)%s+(.*)$"` at the start of `s`: the code. -/
def statusCodeAt (s : Bytes) : Option Bytes :=
  let rest := s.drop 5
  let rest₁ := rest.dropWhile fun b => isDigit b || b = 46
  let rest₂ := rest₁.dropWhile isSpace
  let rest₃ := rest₂.dropWhile isDigit
  if s.take 5 = ofString "HTTP/" ∧ rest.takeWhile (fun b => isDigit b || b = 46) ≠ [] ∧
      rest₁.takeWhile isSpace ≠ [] ∧ rest₂.takeWhile isDigit ≠ [] ∧ rest₃.takeWhile isSpace ≠ [] then
    some (rest₂.takeWhile isDigit)
  else none

/-- The code in a status line. -/
def statusCode (s : Bytes) : Option Bytes :=
  (List.range (s.length + 1)).findSome? fun k => statusCodeAt (s.drop k)

/-- A response that was read: the code, the body and `recvheader`. -/
structure Response where
  code : Number
  body : Bytes
  header : Option Header

/-- `M.request` after the response header is parsed. -/
def responseBody (str2d : Bytes → Option Number) (isWs : Bool) (code : Number) (header : Header)
    (body : Bytes) (pieces : Pieces) : Except Fault (Response × Pieces) :=
  match transferEncoding header with
  | .unsupported => .error .raised
  | .chunked =>
    match recvchunkedbody none header body pieces with
    | .error e => .error e
    | .ok (none, _) => .error .raised
    | .ok (some c, pieces) => .ok (⟨code, c.result, c.header⟩, pieces)
  | .identity =>
    match contentLength str2d header with
    | some length =>
      match identityBody length body pieces with
      | .error e => .error e
      | .ok (body, pieces) => .ok (⟨code, body, some header⟩, pieces)
    | none =>
      if code = .int 204 ∨ code = .int 304 ∨ code.lt 200 then
        .ok (⟨code, [], some header⟩, pieces)
      else if isWs ∧ code = .int 101 then .ok (⟨code, body, some header⟩, pieces)
      else .ok (⟨code, body ++ pieces.flatten, some header⟩, [])

/-- `M.request` from `recvheader` on. -/
def request (str2d : Bytes → Option Number) (isWs : Bool) (pieces : Pieces) :
    Except Fault (Response × Pieces) :=
  match recvheader [] pieces with
  | .error e => .error e
  | .ok (none, _) => .error .raised
  | .ok (some ⟨[], _⟩, _) => .error .raised
  | .ok (some ⟨statusline :: fields, body⟩, pieces) =>
    match (statusCode statusline).bind (tonumber str2d) with
    | none => .error .raised
    | some code =>
      match parseheader none (fun _ => none) fields with
      | .error e => .error e
      | .ok none => .error .raised
      | .ok (some header) => responseBody str2d isWs code header body pieces

end Skynet.Http
