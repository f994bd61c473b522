import Skynet.ByteOrder
import Skynet.Http
import Skynet.MachineInt

/-! # Web sockets

`http.websocket`: the handshake of a server, the frames that both sides send and read, the loop of
a server (`resolve_accept`) and the reading function of a client (`M.read`).

A server calls the methods of its handler and writes to the socket.  Its run is the list of these
events and how it ends.  The environment says, from what has happened so far, whether the last call
has raised an error and whether the web socket is closed (`ws_pool[id]` is `nil`), as a handler may
do.  `strtod` and the accept key that goes with a key (a hash) are parameters.  The opening
handshake of a client and TLS are left out. -/

namespace Skynet.WebSocket

open LuaText ByteReader ByteOrder Http MachineInt

def maxFrameSize : ℕ := 256 * 1024

/-! ### `skynet.crypt` -/

/-- A character of a base64 text: `none` is skipped. -/
inductive Digit where
  | pad
  | value (n : ℕ)
deriving DecidableEq, Repr

def b64index (c : UInt8) : Option Digit :=
  if c = 43 then some (.value 62)
  else if c = 47 then some (.value 63)
  else if 48 ≤ c ∧ c ≤ 57 then some (.value (c.toNat - 48 + 52))
  else if c = 61 then some .pad
  else if 65 ≤ c ∧ c ≤ 90 then some (.value (c.toNat - 65))
  else if 97 ≤ c ∧ c ≤ 122 then some (.value (c.toNat - 97 + 26))
  else none

/-- The bytes of four characters. -/
def b64quad : List Digit → Option Bytes
  | [.value a, .value b, .value c, .value d] =>
    some (toBE 3 (a * 2 ^ 18 + b * 2 ^ 12 + c * 2 ^ 6 + d))
  | [.value a, .value b, .value c, .pad] =>
    if c % 4 = 0 then some (toBE 2 (a * 2 ^ 10 + b * 2 ^ 4 + c / 4)) else none
  | [.value a, .value b, .pad, .pad] =>
    if b % 16 = 0 then some (toBE 1 (a * 2 ^ 2 + b / 16)) else none
  | _ => none

/-- The loop of `l_base64_decode`; `quad` are the characters of the four that are being read, and
`started` says whether the text may end. -/
def b64loop (quad : List Digit) (started : Bool) : Bytes → Option Bytes
  | [] => if started then none else some []
  | c :: text =>
    match b64index c with
    | none => b64loop quad true text
    | some d =>
      if quad.length = 3 then
        match b64quad (quad ++ [d]) with
        | none => none
        | some bytes => (b64loop [] false text).map (bytes ++ ·)
      else b64loop (quad ++ [d]) true text

def base64decode (text : Bytes) : Option Bytes := b64loop [] false text

/-- The bytes of `s` xored with those of `key`, again and again. -/
def xorBytes (key s : Bytes) : Bytes := s.zipIdx.map fun x => x.1 ^^^ key.getD (x.2 % key.length) 0

/-- `crypt.xor_str`; the loop index is an `int`. -/
def xorStr (s key : Bytes) : Except Fault Bytes :=
  if key = [] then .error .raised
  else if 2 ^ 31 ≤ s.length then .error .overflow
  else .ok (xorBytes key s)

/-! ### The handshake -/

structure Rejection where
  code : ℕ
  err : Option String
deriving DecidableEq, Repr

/-- The functions that are not modelled. -/
structure Lib where
  str2d : Bytes → Option Number
  /-- `crypt.base64encode(crypt.sha1(sw_key .. self.guid))` -/
  accept : Bytes → Bytes

/-- One check after another: the first rejection or error counts. -/
def andThen (a b : Except Fault (Option Rejection)) : Except Fault (Option Rejection) :=
  match a with
  | .ok none => b
  | r => r

/-- The field is there and is `token`, whatever the case; a table has no method `lower`. -/
def checkToken (header : Header) (field token : String) (code : ℕ) (err : String) :
    Except Fault (Option Rejection) :=
  match header (ofString field) with
  | none => .ok (some ⟨code, err⟩)
  | some (.one s) => .ok (if lower s = ofString token then none else some ⟨code, err⟩)
  | some (.many _) => .error .raised

def checkUpgrade (header : Header) : Except Fault (Option Rejection) :=
  checkToken header "upgrade" "websocket" 426 "Upgrade Required"

def checkHost (header : Header) : Except Fault (Option Rejection) :=
  .ok (if header (ofString "host") = none then some ⟨400, "host Required"⟩ else none)

def checkConnection (header : Header) : Except Fault (Option Rejection) :=
  checkToken header "connection" "upgrade" 400 "Connection must Upgrade"

def checkKey (header : Header) : Except Fault (Option Rejection) :=
  match header (ofString "sec-websocket-key") with
  | none => .ok (some ⟨400, "Sec-WebSocket-Key Required"⟩)
  | some (.one s) =>
    match base64decode s with
    | none => .error .raised
    | some raw =>
      .ok (if raw.length = 16 then none else some ⟨400, "Sec-WebSocket-Key invalid"⟩)
  | some (.many _) => .error .raised

def checkVersion (header : Header) : Except Fault (Option Rejection) :=
  .ok (if header (ofString "sec-websocket-version") = some (.one (ofString "13")) then none
    else some ⟨400, "Sec-WebSocket-Version must 13"⟩)

/-- The words that `string.gmatch(s, "[^%s,]+")` finds are among these. -/
def protocols (s : Bytes) : List Bytes := s.splitOnP fun b => isSpace b || b = 44

def checkProtocol (header : Header) : Except Fault (Option Rejection) :=
  match header (ofString "sec-websocket-protocol") with
  | none => .ok none
  | some (.one s) =>
    .ok (if (protocols s).contains (ofString "chat") then none
      else some ⟨400, "Sec-WebSocket-Protocol need include chat"⟩)
  | some (.many _) => .error .raised

/-- The checks of `read_handshake` on the header. -/
def checkHeader (header : Header) : Except Fault (Option Rejection) :=
  andThen (checkUpgrade header) <| andThen (checkHost header) <|
    andThen (checkConnection header) <| andThen (checkKey header) <|
      andThen (checkVersion header) (checkProtocol header)

/-- The response to a handshake. -/
def acceptResponse (lib : Lib) (header : Header) : Bytes :=
  let key :=
    match header (ofString "sec-websocket-key") with
    | some (.one s) => s
    | _ => []
  let subPro :=
    if header (ofString "sec-websocket-protocol") = none then []
    else ofString "Sec-WebSocket-Protocol: chat\r\n"
  ofString "HTTP/1.1 101 Switching Protocols\r\nUpgrade: websocket\r\nConnection: Upgrade\r\n" ++
    ofString "Sec-WebSocket-Accept: " ++ lib.accept key ++ crlf ++ subPro ++ crlf

/-- What `read_handshake` returns; `response` is written before it returns. -/
inductive Handshake where
  | rejected (r : Rejection)
  | accepted (response : Bytes) (header : Header) (url : Bytes)

/-- `read_handshake`; what was read after the header is dropped. -/
def readHandshake (lib : Lib) (pieces : Pieces) : Except Fault (Handshake × Pieces) :=
  match recvheader [] pieces with
  | .error e => .error e
  | .ok (none, pieces) => .ok (.rejected ⟨413, none⟩, pieces)
  | .ok (some ⟨[], _⟩, _) => .error .raised
  | .ok (some ⟨request :: fields, _⟩, pieces) =>
    match requestLine request with
    | none => .error .raised
    | some (method, url, version) =>
      if method ≠ ofString "GET" then .ok (.rejected ⟨400, "need GET method"⟩, pieces)
      else
        match tonumber lib.str2d version with
        | none => .error .raised
        | some httpver =>
          if httpver.lt oneOne then .ok (.rejected ⟨505, none⟩, pieces)
          else
            match parseheader none (fun _ => none) fields with
            | .error e => .error e
            | .ok none => .ok (.rejected ⟨400, none⟩, pieces)
            | .ok (some header) =>
              match checkHeader header with
              | .error e => .error e
              | .ok (some r) => .ok (.rejected r, pieces)
              | .ok none =>
                .ok (.accepted (acceptResponse lib header) header url, pieces)

/-! ### Frames -/

/-- The names in `op_code`. -/
inductive Op where
  | frame
  | text
  | binary
  | close
  | ping
  | pong
deriving DecidableEq, Repr

namespace Op

/-- `op_code[op]` -/
def code : Op → ℕ
  | frame => 0x00
  | text => 0x01
  | binary => 0x02
  | close => 0x08
  | ping => 0x09
  | pong => 0x0A

/-- `op_code[n]` -/
def ofCode : ℕ → Option Op
  | 0x00 => some frame
  | 0x01 => some text
  | 0x02 => some binary
  | 0x08 => some close
  | 0x09 => some ping
  | 0x0A => some pong
  | _ => none

end Op

/-- The start of a frame in `write_frame`. -/
def frameHead (op : Op) (len : ℕ) (masked : Bool) : Bytes :=
  let v1 := UInt8.ofNat (0x80 ||| op.code)
  let mask := if masked then 0x80 else 0x00
  if len < 126 then [v1, UInt8.ofNat (mask ||| len)]
  else if len < 0xffff then [v1, UInt8.ofNat (mask ||| 126)] ++ toBE 2 len
  else [v1, UInt8.ofNat (mask ||| 127)] ++ toBE 8 len

/-- `write_frame`: what is written, call by call. -/
def writeFrame (op : Op) (payload : Bytes) (maskingKey : Option UInt32) :
    Except Fault (List Bytes) :=
  let data (s : Bytes) : List Bytes := if payload.length > 0 then [s] else []
  match maskingKey with
  | none => .ok (frameHead op payload.length false :: data payload)
  | some key =>
    match xorStr payload (toBE 4 key.toNat) with
    | .error e => .error e
    | .ok s => .ok (frameHead op payload.length true :: toBE 4 key.toNat :: data s)

def readClose (payload : Bytes) : Option (ℕ × Bytes) :=
  if payload.length > 2 then some (ofBE (payload.take 2), payload.drop 2) else none

/-- The length of a payload: in the second byte of the frame, or in the bytes after it. -/
def payloadLen (len7 : ℕ) (pieces : Pieces) : Except Fault (ℤ × Pieces) :=
  if len7 = 126 then
    match read 2 pieces with
    | .error e => .error e
    | .ok (s, pieces) => .ok (ofBE s, pieces)
  else if len7 = 127 then
    match read 8 pieces with
    | .error e => .error e
    | .ok (s, pieces) => .ok (wrap (ofBE s), pieces)
  else .ok (len7, pieces)

/-- The masking key, if there is one. -/
def readKey (masked : Bool) (pieces : Pieces) : Except Fault (Option Bytes × Pieces) :=
  if masked then
    match read 4 pieces with
    | .error e => .error e
    | .ok (key, pieces) => .ok (some key, pieces)
  else .ok (none, pieces)

/-- `socket.read`: the C code takes the size as an `int`. -/
def readSized (len : ℤ) (pieces : Pieces) : Except Fault (Bytes × Pieces) :=
  let sz := toInt len
  if sz < 0 then .error .overflow
  else if sz = 0 then .error .socketError
  else read sz.toNat pieces

/-- The payload, without its mask. -/
def readPayload (len : ℤ) (key : Option Bytes) (pieces : Pieces) :
    Except Fault (Bytes × Pieces) :=
  match (if 0 < len then readSized len pieces else .ok ([], pieces)) with
  | .error e => .error e
  | .ok (payload, pieces) =>
    match key with
    | none => .ok (payload, pieces)
    | some key =>
      match xorStr payload key with
      | .error e => .error e
      | .ok payload => .ok (payload, pieces)

/-- What `read_frame` returns. -/
structure Read where
  fin : Bool
  op : Op
  payload : Bytes
deriving DecidableEq, Repr

/-- `read_frame` after its first two bytes. -/
def readRest (server : Bool) (v1 v2 : ℕ) (pieces : Pieces) : Except Fault (Read × Pieces) :=
  match payloadLen (v2 &&& 0x7f) pieces with
  | .error e => .error e
  | .ok (len, pieces) =>
    if server ∧ (maxFrameSize : ℤ) < len then .error .raised
    else
      match readKey (v2 &&& 0x80 ≠ 0) pieces with
      | .error e => .error e
      | .ok (key, pieces) =>
        match readPayload len key pieces with
        | .error e => .error e
        | .ok (payload, pieces) =>
          match Op.ofCode (v1 &&& 0x0f) with
          | none => .error .raised
          | some op => .ok (⟨v1 &&& 0x80 ≠ 0, op, payload⟩, pieces)

def readFrame (server : Bool) (pieces : Pieces) : Except Fault (Read × Pieces) :=
  match read 2 pieces with
  | .ok ([v1, v2], pieces) => readRest server v1.toNat v2.toNat pieces
  | .ok (_, _) => .error .raised
  | .error e => .error e

/-! A frame takes bytes from the stream, so that the loops over the frames come to an end. -/

variable {pieces pieces' : Pieces}

theorem read_le {n : ℕ} {a : Bytes} (h : read n pieces = .ok (a, pieces')) :
    pieces'.flatten.length + n = pieces.flatten.length := by
  obtain ⟨hlen, hflat⟩ := read_eq_ok h
  rw [← hflat, List.length_append, hlen]
  omega

theorem payloadLen_le {len7 : ℕ} {len : ℤ} (h : payloadLen len7 pieces = .ok (len, pieces')) :
    pieces'.flatten.length ≤ pieces.flatten.length := by
  unfold payloadLen at h
  split_ifs at h
  · split at h
    · cases h
    · rename_i s ps hr
      cases h
      have := read_le hr
      omega
  · split at h
    · cases h
    · rename_i s ps hr
      obtain ⟨-, rfl⟩ := Prod.mk.inj (Except.ok.inj h)
      have := read_le hr
      omega
  · cases h
    exact le_rfl

theorem readKey_le {masked : Bool} {key : Option Bytes}
    (h : readKey masked pieces = .ok (key, pieces')) :
    pieces'.flatten.length ≤ pieces.flatten.length := by
  unfold readKey at h
  split_ifs at h
  · split at h
    · cases h
    · rename_i s ps hr
      cases h
      have := read_le hr
      omega
  · cases h
    exact le_rfl

theorem readSized_le {len : ℤ} {a : Bytes} (h : readSized len pieces = .ok (a, pieces')) :
    pieces'.flatten.length ≤ pieces.flatten.length := by
  simp only [readSized] at h
  split_ifs at h
  have := read_le h
  omega

theorem readPayload_le {len : ℤ} {key : Option Bytes} {payload : Bytes}
    (h : readPayload len key pieces = .ok (payload, pieces')) :
    pieces'.flatten.length ≤ pieces.flatten.length := by
  unfold readPayload at h
  split at h
  · cases h
  · rename_i s ps hr
    have hle : ps.flatten.length ≤ pieces.flatten.length := by
      split_ifs at hr
      · exact readSized_le hr
      · cases hr
        exact le_rfl
    split at h
    · cases h
      exact hle
    · split at h
      · cases h
      · cases h
        exact hle

theorem readRest_le {server : Bool} {v1 v2 : ℕ} {r : Read}
    (h : readRest server v1 v2 pieces = .ok (r, pieces')) :
    pieces'.flatten.length ≤ pieces.flatten.length := by
  unfold readRest at h
  split at h
  · cases h
  · rename_i len ps₁ h₁
    split_ifs at h
    split at h
    · cases h
    · rename_i key ps₂ h₂
      split at h
      · cases h
      · rename_i payload ps₃ h₃
        split at h
        · cases h
        · cases h
          exact (readPayload_le h₃).trans ((readKey_le h₂).trans (payloadLen_le h₁))

theorem readFrame_lt {server : Bool} {r : Read} (h : readFrame server pieces = .ok (r, pieces')) :
    pieces'.flatten.length < pieces.flatten.length := by
  unfold readFrame at h
  split at h
  · rename_i v1 v2 ps hr
    have hlt := read_le hr
    have hle := readRest_le h
    omega
  · cases h
  · cases h

/-! ### The server -/

/-- The first argument of the method `handshake`. -/
inductive Handed where
  | header (h : Header)
  | err (e : Option String)

inductive Event where
  | connect
  | write (data : Bytes)
  | handshake (header : Handed) (url : Option Bytes)
  | message (data : Bytes)
  | ping
  | pong
  | close (reason : Option (ℕ × Bytes))
  | error

structure Env where
  /-- the last call raises an error -/
  raises : List Event → Option Fault
  /-- `_isws_closed(self.id)` -/
  closed : List Event → Bool

/-- What has happened, and the error that ends it. -/
structure Run where
  trace : List Event
  fault : Option Fault

/-- Calls one after another, up to one that raises an error. -/
def emit (env : Env) : List Event → List Event → Run
  | trace, [] => ⟨trace, none⟩
  | trace, e :: es =>
    match env.raises (trace ++ [e]) with
    | some f => ⟨trace ++ [e], some f⟩
    | none => emit env (trace ++ [e]) es

/-- The writes of `write_frame(self, op)`. -/
def frameEvents (op : Op) : List Event :=
  match writeFrame op [] none with
  | .ok l => l.map .write
  | .error _ => []

/-- The loop variables of `resolve_accept`. -/
structure Buffer where
  recvBuf : List Bytes
  recvCount : ℕ
deriving DecidableEq, Repr

inductive Round where
  | stop (r : Run)
  | again (trace : List Event) (buf : Buffer)

/-- The calls are made and the loop goes on with `buf`. -/
def Round.after (env : Env) (trace events : List Event) (buf : Buffer) : Round :=
  match emit env trace events with
  | ⟨trace, some f⟩ => .stop ⟨trace, some f⟩
  | ⟨trace, none⟩ => .again trace buf

/-- The body of the loop of `resolve_accept` after `read_frame`. -/
def round (env : Env) (trace : List Event) (buf : Buffer) (r : Read) : Round :=
  match r.op with
  | .close => .stop (emit env trace (frameEvents .close ++ [.close (readClose r.payload)]))
  | .ping => .after env trace (frameEvents .pong ++ [.ping]) buf
  | .pong => .after env trace [.pong] buf
  | .frame | .text | .binary =>
    if r.fin ∧ buf.recvBuf = [] then .after env trace [.message r.payload] buf
    else
      let recvBuf := buf.recvBuf ++ [r.payload]
      let recvCount := buf.recvCount + r.payload.length
      if maxFrameSize < recvCount then .stop ⟨trace, some .raised⟩
      else if r.fin then .after env trace [.message recvBuf.flatten] ⟨[], 0⟩
      else .again trace ⟨recvBuf, recvCount⟩

/-- The loop of `resolve_accept`. -/
def serve (env : Env) (trace : List Event) (buf : Buffer) (pieces : Pieces) : Run :=
  if env.closed trace then emit env trace [.close none]
  else
    match _h : readFrame true pieces with
    | .error e => ⟨trace, some e⟩
    | .ok (r, pieces) =>
      match round env trace buf r with
      | .stop run => run
      | .again trace buf => serve env trace buf pieces
termination_by pieces.flatten.length
decreasing_by exact readFrame_lt _h

/-- `resolve_accept` after the handshake. -/
def start (env : Env) (trace : List Event) (header : Handed) (url : Option Bytes)
    (pieces : Pieces) : Run :=
  match emit env trace [.handshake header url] with
  | ⟨trace, some f⟩ => ⟨trace, some f⟩
  | ⟨trace, none⟩ => serve env trace ⟨[], 0⟩ pieces

/-- What `httpd.write_response(self.write, code, err)` writes. -/
def rejectionEvents (r : Rejection) : List Event :=
  let body : Body :=
    match r.err with
    | some err => .text (ofString err)
    | none => .absent
  (writeall r.code body []).map .write

def resolveAccept (lib : Lib) (env : Env) (pieces : Pieces) : Run :=
  match emit env [] [.connect] with
  | ⟨trace, some f⟩ => ⟨trace, some f⟩
  | ⟨trace, none⟩ =>
    match readHandshake lib pieces with
    | .error e => ⟨trace, some e⟩
    | .ok (.rejected r, pieces) =>
      match emit env trace (rejectionEvents r) with
      | ⟨trace, some f⟩ => ⟨trace, some f⟩
      | ⟨trace, none⟩ => start env trace (.err r.err) none pieces
    | .ok (.accepted response header url, pieces) =>
      match emit env trace [.write response] with
      | ⟨trace, some f⟩ => ⟨trace, some f⟩
      | ⟨trace, none⟩ => start env trace (.header header) (some url) pieces

/-- `M.accept` from `resolve_accept` on. -/
def accept (lib : Lib) (env : Env) (pieces : Pieces) : Run :=
  let r := resolveAccept lib env pieces
  if r.fault = some .socketError then
    emit env r.trace [if env.closed r.trace then .close none else .error]
  else r

/-! ### The client -/

inductive Message where
  | data (payload : Bytes)
  | closed (payload : Bytes)
deriving DecidableEq, Repr

/-- The loop of `M.read`; `written` has been written. -/
def readMessage (recvBuf : Option (List Bytes)) (written : List Bytes) (pieces : Pieces) :
    Except Fault (Message × List Bytes × Pieces) :=
  match _h : readFrame false pieces with
  | .error e => .error e
  | .ok (r, pieces) =>
    match r.op with
    | .close => .ok (.closed r.payload, written, pieces)
    | .ping => readMessage recvBuf (written ++ [frameHead .pong 0 false]) pieces
    | .pong => readMessage recvBuf written pieces
    | .frame | .text | .binary =>
      if r.fin ∧ recvBuf = none then .ok (.data r.payload, written, pieces)
      else
        let recvBuf := recvBuf.getD [] ++ [r.payload]
        if r.fin then .ok (.data recvBuf.flatten, written, pieces)
        else readMessage (some recvBuf) written pieces
termination_by pieces.flatten.length
decreasing_by all_goals exact readFrame_lt _h

/-- `M.read`: the message, what has been written, and what is left of the stream. -/
def clientRead (pieces : Pieces) : Except Fault (Message × List Bytes × Pieces) :=
  readMessage none [] pieces

end Skynet.WebSocket
