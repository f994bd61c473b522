import Skynet.RedisRequest

/-! # The replies of a Redis server

A model of `read_response` of `redis.lua` and of the object that a socket channel hands to it.

`read_response` takes a line off the stream and, for a bulk string or an array, as much more as the
line says.  It calls `readline` of the object for that.  The object of `socket_channel.lua` offers
`read` and `read_line` only, so that every call ends with an error before a byte is read
(`readReplies_channel`) and no reply is returned (`replies_in_step`). -/

namespace Skynet.Redis

open List LuaText

/-! ### Replies -/

/-- The replies of the protocol.  Integers have 64 bits, and texts end with their line. -/
inductive Reply where
  | status (s : Bytes) (h : 13 ∉ s)
  | error (s : Bytes) (h : 13 ∉ s)
  | integer (n : ℤ) (h : -2 ^ 63 ≤ n ∧ n < 2 ^ 63)
  | bulk (s : Bytes) (h : s.length < 2 ^ 63)
  | nullBulk
  | nullArray
  | array (n : ℕ) (h : n < 2 ^ 63) (items : Fin n → Reply)

/-- What `read_response` returns next to the flag; a table has a nil where it has no item. -/
inductive Result where
  | nil
  | string (s : Bytes)
  | number (n : Number)
  | table (items : List Result)

def tableOf (rs : List (Bool × Result)) : Bool × Result := (rs.all (·.1), .table (rs.map (·.2)))

namespace Reply

def encode : Reply → Bytes
  | status s _ => 43 :: s ++ crlf
  | error s _ => 45 :: s ++ crlf
  | integer n _ => 58 :: signed n ++ crlf
  | bulk s _ => 36 :: decimal s.length ++ crlf ++ (s ++ crlf)
  | nullBulk => ofString "$-1" ++ crlf
  | nullArray => ofString "*-1" ++ crlf
  | array n _ items => 42 :: decimal n ++ crlf ++ (ofFn fun i => (items i).encode).flatten

/-- The value of a reply, and whether it holds no error. -/
def result : Reply → Bool × Result
  | status s _ | bulk s _ => (true, .string s)
  | error s _ => (false, .string s)
  | integer n _ => (true, .number (.int n))
  | nullBulk | nullArray => (true, .nil)
  | array _ _ items => tableOf (ofFn fun i => (items i).result)

end Reply

/-! ### The source -/

inductive Fault where
  /-- a method that is nil is called -/
  | nilMethod (name : String)
  | raised
  | socketError
  /-- the recursion goes on -/
  | deeper
  deriving DecidableEq

abbrev Reading (α : Type) := EStateM Fault Bytes α

/-- The methods of the object in `fd`. -/
structure Sock where
  read : Option (ℕ → Reading Bytes)
  readLine : Option (Bytes → Reading Bytes)
  readline : Option (Bytes → Reading Bytes)

def method {α : Type} (name : String) : Option α → Reading α
  | none => throw (.nilMethod name)
  | some f => pure f

/-- `socket.read` in its wrapper; the state is what the socket still delivers. -/
def read (n : ℕ) : Reading Bytes := fun s =>
  if s.length < n then .error .socketError s else .ok (s.take n) (s.drop n)

/-- `socket.read_line` in its wrapper -/
def readLine (sep : Bytes) : Reading Bytes := fun s =>
  match find sep s with
  | none => .error .socketError s
  | some k => .ok (s.take k) (s.drop (k + sep.length))

def channelSocket : Sock := ⟨some read, some readLine, none⟩

/-- The replies to the commands of a pipeline, and the items of an array. -/
def readReplies (response : Reading (Bool × Result)) : ℕ → Reading (List (Bool × Result))
  | 0 => pure []
  | n + 1 => do
    let r ← response
    let rs ← readReplies response n
    pure (r :: rs)

section

variable (str2d : Bytes → Option Number) (sock : Sock)

/-- The size or number in a line; nil for a negative one, an error for what is no integer. -/
def sized (data : Bytes) (k : ℕ → Reading (Bool × Result)) : Reading (Bool × Result) :=
  match tonumber str2d data with
  | none => throw .raised
  | some x =>
    if x.lt 0 then pure (true, .nil)
    else
      match x.toInteger with
      | none => throw .raised
      | some n => k n.toNat

def redcmd (response : Reading (Bool × Result)) : Bytes → Reading (Bool × Result)
  | 36 :: data => sized str2d data fun n => do
    let read ← method "read" sock.read
    let firstline ← read (n + 2)
    pure (true, .string (sub firstline 1 (-3)))
  | 43 :: data => pure (true, .string data)
  | 45 :: data => pure (false, .string data)
  | 58 :: data => pure (true, (tonumber str2d data).elim .nil .number)
  | 42 :: data => sized str2d data fun n => tableOf <$> readReplies response n
  | _ => throw .raised

def readResponse : ℕ → Reading (Bool × Result)
  | 0 => throw .deeper
  | fuel + 1 => do
    let readline ← method "readline" sock.readline
    let result ← readline crlf
    redcmd str2d sock (readResponse fuel) result

end

/-! ### Sequences of replies -/

variable (str2d : Bytes → Option Number)

/-- The object of the channel has no `readline`. -/
theorem readReplies_channel (fuel n : ℕ) (s : Bytes) :
    readReplies (readResponse str2d channelSocket (fuel + 1)) (n + 1) s =
      .error (.nilMethod "readline") s := rfl

/-- **Replies in step**: read from the object of the channel, the `k`-th call returns the value and
flag of the `k`-th reply and leaves what follows the replies exactly when there are no replies. -/
theorem replies_in_step (rs : List Reply) (fuel : ℕ) (rest : Bytes) :
    readReplies (readResponse str2d channelSocket (fuel + 1)) rs.length
        (rs.flatMap Reply.encode ++ rest) = .ok (rs.map Reply.result) rest ↔ rs = [] := by
  cases rs with
  | nil => simp [readReplies, Pure.pure, EStateM.pure]
  | cons r rs =>
    rw [length_cons, readReplies_channel]
    simp

theorem readline_missing :
    readResponse (fun _ => none) channelSocket 1 (Reply.status (ofString "OK") (by decide)).encode =
      .error (.nilMethod "readline") (ofString "+OK\r\n") := rfl

end Skynet.Redis
