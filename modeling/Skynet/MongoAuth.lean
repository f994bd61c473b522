import Skynet.LuaText

/-! # SCRAM authentication

A model of `auth_scram_sha1` of `mongo.lua`.  It returns true exactly when the server completes the
exchange with the right signature (`authScramSha1_eq_true_iff`).  The nonce of the server is not
checked: `not` binds closer than `==`, and a boolean is no string (`foreign_nonce_accepted`). -/

namespace Skynet.Mongo

open List Option LuaText

/-! ### The source -/

/-- `string.gmatch(s, "(%w+)=([^,]*)")`, after a key and a part of its value -/
def gmatch (key : Bytes) (value : Option Bytes) : Bytes → List (Bytes × Bytes)
  | [] => (value.map (key, ·)).toList
  | b :: s => match value with
    | some v => if b = 44 then (key, v) :: gmatch [] none s else gmatch key (some (v ++ [b])) s
    | none => if isAlnum b then gmatch (key ++ [b]) none s
      else if b = 61 ∧ key ≠ [] then gmatch key (some []) s else gmatch [] none s

/-- `parsed_t[k]` -/
def parsed (s : Bytes) (k : String) : Option Bytes := (gmatch [] none s).reverse.lookup (ofString k)

inductive Value where
  | string (s : Bytes)
  | boolean (b : Bool)
deriving DecidableEq

def Value.not : Value → Value
  | boolean b => boolean !b
  | string _ => boolean false

/-- `user` -/
def escape (username : Bytes) : Bytes := username.flatMap fun b =>
  if b = 61 then ofString "=3D" else if b = 44 then ofString "=2C" else [b]

/-- The functions of other modules; `tonumber` gives the integer at which a loop ends. -/
structure Crypt where
  base64encode : Bytes → Bytes
  base64decode : Bytes → Option Bytes
  hmacSha1 : Bytes → Bytes → Bytes
  sha1 : Bytes → Bytes
  xorStr : Bytes → Bytes → Bytes
  sumhexa : Bytes → Bytes
  tonumber : Bytes → Option ℤ

inductive Command where
  | saslStart (payload : Bytes)
  | saslContinue (conversationId : ℕ) (payload : Bytes)

structure Reply where
  ok : Bool
  conversationId : ℕ
  payload : Option Bytes
  done : Bool

/-- The reply to the last of the commands; `none` is an error. -/
abbrev Server := List Command → Option Reply

namespace Crypt

variable (C : Crypt) (randomkey username password : Bytes)

def saltPassword (salt : Bytes) (iter : ℤ) : Bytes :=
  let output := C.hmacSha1 password (salt ++ [0, 0, 0, 1])
  ((fun (inter, output) => let inter := C.hmacSha1 password inter
    (inter, C.xorStr output inter))^[(iter - 1).toNat] (output, output)).2

def firstBare : Bytes :=
  ofString "n=" ++ escape username ++ ofString ",r=" ++ C.base64encode randomkey

def start : Command :=
  .saslStart (C.base64encode (ofString "n,," ++ C.firstBare randomkey username))

/-- `salted_pass`, from the first message of the server -/
def saltedPass (first : Bytes) : Option Bytes := do
  let iterations ← (parsed first "i").bind C.tonumber
  let salt ← (parsed first "s").bind C.base64decode
  return C.saltPassword (C.sumhexa (username ++ ofString ":mongo:" ++ password)) salt iterations

def authMsg (first rnonce : Bytes) : Bytes :=
  C.firstBare randomkey username ++ ofString "," ++ first ++ ofString ",c=biws,r=" ++ rnonce

def clientFinal (salted msg rnonce : Bytes) : Bytes :=
  let key := C.hmacSha1 salted (ofString "Client Key")
  C.base64encode (ofString "c=biws,r=" ++ rnonce ++ ofString ",p=" ++
    C.base64encode (C.xorStr key (C.hmacSha1 (C.sha1 key) msg)))

def serverSig (salted msg : Bytes) : Bytes :=
  C.base64encode (C.hmacSha1 (C.hmacSha1 salted (ofString "Server Key")) msg)

/-- `auth_scram_sha1` -/
def authScramSha1 (server : Server) : Option Bool := do
  let start := C.start randomkey username
  let r ← server [start]
  if !r.ok then return false
  let first ← r.payload.bind C.base64decode
  let rnonce ← parsed first "r"
  if (Value.string (rnonce.take 12)).not = .string (C.base64encode randomkey) then return false
  let salted ← C.saltedPass username password first
  let msg := C.authMsg randomkey username first rnonce
  let final := .saslContinue r.conversationId (C.clientFinal salted msg rnonce)
  let r' ← server [start, final]
  if !r'.ok then return false
  let last ← r'.payload.bind C.base64decode
  if parsed last "v" ≠ some (C.serverSig salted msg) then return false
  if r'.done then return true
  let r'' ← server [start, final, .saslContinue r.conversationId []]
  return r''.ok && r''.done

/-! ### What a true result means -/

/-- The first message of the server, and the nonce in it. -/
def Sends (server : Server) (first rnonce : Bytes) : Prop :=
  ((server [C.start randomkey username]).bind (·.payload)).bind C.base64decode = some first ∧
    parsed first "r" = some rnonce

/-- The server completes the exchange: no reply fails, the last message has the signature that the
salted password gives for this exchange, and the conversation is done. -/
structure Signs (server : Server) (first rnonce salted : Bytes) (r r' : Reply) (last : Bytes) :
    Prop where
  start : server [C.start randomkey username] = some r
  ok : r.ok = true
  sends : C.Sends randomkey username server first rnonce
  salts : C.saltedPass username password first = some salted
  final : server [C.start randomkey username, .saslContinue r.conversationId
    (C.clientFinal salted (C.authMsg randomkey username first rnonce) rnonce)] = some r'
  ok' : r'.ok = true
  ends : r'.payload.bind C.base64decode = some last
  signature : parsed last "v" = some (C.serverSig salted (C.authMsg randomkey username first rnonce))
  done : r'.done = true ∨ ∃ r'', server [C.start randomkey username,
    .saslContinue r.conversationId (C.clientFinal salted (C.authMsg randomkey username first rnonce)
      rnonce), .saslContinue r.conversationId []] = some r'' ∧ (r''.ok && r''.done) = true

/-- The server completes the exchange, in which it sent the nonce `rnonce`. -/
def Accepts (server : Server) (rnonce : Bytes) : Prop :=
  ∃ first salted r r' last, C.Signs randomkey username password server first rnonce salted r r' last

variable {C randomkey username password} {server : Server}

theorem return_false_iff {c : Prop} [Decidable c] {x : Option Bool} :
    (if c then pure false else x) = some true ↔ ¬ c ∧ x = some true := by
  split_ifs with h <;> simp [h]

theorem authScramSha1_eq_true_iff : C.authScramSha1 randomkey username password server = some true ↔
    ∃ rnonce, C.Accepts randomkey username password server rnonce := by
  constructor
  · intro h
    obtain ⟨r, hr, h⟩ := bind_eq_some_iff.mp h
    obtain ⟨hok, h⟩ := return_false_iff.mp h
    obtain ⟨first, hfirst, h⟩ := bind_eq_some_iff.mp h
    obtain ⟨rnonce, hrnonce, h⟩ := bind_eq_some_iff.mp h
    obtain ⟨salted, hsalted, h⟩ := bind_eq_some_iff.mp (return_false_iff.mp h).2
    obtain ⟨r', hr', h⟩ := bind_eq_some_iff.mp h
    obtain ⟨hok', h⟩ := return_false_iff.mp h
    obtain ⟨last, hlast, h⟩ := bind_eq_some_iff.mp h
    obtain ⟨hsig, h⟩ := return_false_iff.mp h
    refine ⟨rnonce, first, salted, r, r', last, hr, by simpa using hok,
      ⟨by rw [hr]; exact hfirst, hrnonce⟩, hsalted, hr', by simpa using hok', hlast,
      not_not.mp hsig, ?_⟩
    split_ifs at h with hdone
    · exact .inl hdone
    · obtain ⟨r'', hr'', h⟩ := bind_eq_some_iff.mp h
      exact .inr ⟨r'', hr'', some.inj h⟩
  · rintro ⟨rnonce, first, salted, r, r', last, h⟩
    have hfirst : r.payload.bind C.base64decode = some first := by
      have := h.sends.1
      rwa [h.start] at this
    have hnot : (Value.string (rnonce.take 12)).not ≠ .string (C.base64encode randomkey) := by
      simp [Value.not]
    refine bind_eq_some_iff.mpr ⟨r, h.start, return_false_iff.mpr ⟨by simp [h.ok], ?_⟩⟩
    refine bind_eq_some_iff.mpr ⟨first, hfirst, bind_eq_some_iff.mpr ⟨rnonce, h.sends.2, ?_⟩⟩
    refine return_false_iff.mpr ⟨hnot, bind_eq_some_iff.mpr ⟨salted, h.salts, ?_⟩⟩
    refine bind_eq_some_iff.mpr ⟨r', h.final, return_false_iff.mpr ⟨by simp [h.ok'], ?_⟩⟩
    refine bind_eq_some_iff.mpr ⟨last, h.ends, return_false_iff.mpr ⟨not_not.mpr h.signature, ?_⟩⟩
    split_ifs with hdone
    · rfl
    · obtain ⟨r'', hr'', hok⟩ := h.done.resolve_left hdone
      exact bind_eq_some_iff.mpr ⟨r'', hr'', congrArg some hok⟩

theorem Accepts.nonce_eq {rnonce rnonce' : Bytes}
    (h : C.Accepts randomkey username password server rnonce)
    (h' : C.Accepts randomkey username password server rnonce') : rnonce = rnonce' := by
  obtain ⟨first, _, _, _, _, h⟩ := h
  obtain ⟨first', _, _, _, _, h'⟩ := h'
  obtain rfl : first = first' := some.inj (h.sends.1.symm.trans h'.sends.1)
  exact some.inj (h.sends.2.symm.trans h'.sends.2)

theorem gmatch_append {w : Bytes} (hw : 44 ∉ w) (key v s : Bytes) :
    gmatch key (some v) (w ++ s) = gmatch key (some (v ++ w)) s := by
  induction w generalizing v with
  | nil => simp
  | cons b w ih =>
    rw [mem_cons, not_or] at hw
    rw [cons_append, gmatch, if_neg (Ne.symm hw.1), ih hw.2, append_assoc]
    rfl

end Crypt

end Skynet.Mongo
