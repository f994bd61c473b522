import Skynet.LuaText

/-! # The requests of a Redis client

A model of `compose_message` and `compose_table` of `redis.lua`.  A request is an array of bulk
strings: `*` and the number of its items, and for each item `$`, its length and its bytes.

The number is the length of a Lua table and the items are what `ipairs` finds.  `#t` is any border
of `t`, and `ipairs` stops at the first nil.  The two agree when no item follows a nil; what is sent
is well formed exactly when they agree (`requests_well_formed`).  The caches of the source keep what
their functions return and are left out. -/

namespace Skynet.Redis

open List LuaText

/-! ### Values of Lua -/

inductive Value where
  | string (s : Bytes)
  | number (n : Number)
  | boolean (b : Bool)

/-- `tostring`, with the format `tostr` of numbers. -/
def Value.tostring (tostr : Number → Bytes) : Value → Bytes
  | string s => s
  | number n => tostr n
  | boolean b => ofString (toString b)

/-- The item `i + 1` of a list, or nil. -/
def item (items : List (Option Value)) (i : ℕ) : Option Value := items[i]?.join

/-- A table with the items `1`, `2`, … and the length `#t`, which is one of its borders.  For
`{ v, ... }` with a last value that is not nil it is the number of values. -/
structure LuaTable where
  items : List (Option Value)
  length : ℕ
  border : (length = 0 ∨ item items (length - 1) ≠ none) ∧ item items length = none

/-- What `ipairs` goes through. -/
def ipairs : List (Option Value) → List Value
  | some v :: items => v :: ipairs items
  | _ => []

/-! ### Requests -/

def crlf : Bytes := [13, 10]

/-- `header_cache[k]` -/
def header (k : ℕ) : Bytes := crlf ++ 36 :: decimal k ++ crlf

/-- `command_cache[cmd]` -/
def commandLine (cmd : Bytes) : Bytes := crlf ++ 36 :: decimal cmd.length ++ crlf ++ upper cmd

/-- `count_cache[k]` -/
def count (k : ℕ) : Bytes := 42 :: decimal k

/-- The lines of the items, each after the end of the line before. -/
def lines (items : List Bytes) : Bytes := items.flatMap fun s => header s.length ++ s

/-- The argument of `compose_message`: a table or another value, nil included. -/
inductive Msg where
  | table (t : LuaTable)
  | other (v : Option Value)

section

variable (tostr : Number → Bytes)

/-- The items of a table as `ipairs` and `tostring` give them. -/
def LuaTable.strings (t : LuaTable) : List Bytes := (ipairs t.items).map (Value.tostring tostr)

def composeMessage (cmd : Bytes) : Msg → Bytes
  | .table t => count (t.length + 1) ++ commandLine cmd ++ lines (t.strings tostr) ++ crlf
  | .other v =>
    let msg := v.elim (ofString "nil") (Value.tostring tostr)
    ofString "*2" ++ commandLine cmd ++ header msg.length ++ msg ++ crlf

def composeTable (t : LuaTable) : Bytes := count t.length ++ lines (t.strings tostr) ++ crlf

/-- What is sent: the message of a command, which passes `v` if that is a table and `{ v, ... }`
otherwise, or those of a pipeline. -/
inductive Request where
  | message (cmd : Bytes) (msg : Msg)
  | pipeline (ops : List LuaTable)

namespace Request

def bytes : Request → Bytes
  | message cmd msg => composeMessage tostr cmd msg
  | pipeline ops => ops.flatMap (composeTable tostr)

def tables : Request → List LuaTable
  | message _ (.table t) => [t]
  | message _ (.other _) => []
  | pipeline ops => ops

/-- The bulk strings of the messages. -/
def arrays : Request → List (List Bytes)
  | message cmd (.table t) => [upper cmd :: t.strings tostr]
  | message cmd (.other v) => [[upper cmd, v.elim (ofString "nil") (Value.tostring tostr)]]
  | pipeline ops => ops.map (LuaTable.strings tostr)

end Request

end

/-! ### The protocol -/

def bulk (s : Bytes) : Bytes := 36 :: decimal s.length ++ crlf ++ s ++ crlf

/-- An array of bulk strings, with their number. -/
def array (items : List Bytes) : Bytes := 42 :: decimal items.length ++ crlf ++ items.flatMap bulk

/-- `#t` is the number of the items that `ipairs` finds. -/
def LuaTable.Counted (t : LuaTable) : Prop := t.length = (ipairs t.items).length

theorem length_ipairs_le {items : List (Option Value)} {n : ℕ} (h : item items n = none) :
    (ipairs items).length ≤ n := by
  induction items generalizing n with
  | nil => simp [ipairs]
  | cons a items ih =>
    cases a with
    | none => simp [ipairs]
    | some v =>
      cases n with
      | zero => simp [item] at h
      | succ n => exact Nat.succ_le_succ (ih h)

theorem lines_eq (items : List Bytes) : lines items ++ crlf = crlf ++ items.flatMap bulk := by
  induction items with
  | nil => rfl
  | cons s items ih =>
    have hcons : lines (s :: items) = header s.length ++ s ++ lines items := flatMap_cons
    rw [hcons, append_assoc, ih]
    simp [header, bulk]

theorem decimal_cut {m n : ℕ} {s t : Bytes} (h : decimal m ++ 13 :: s = decimal n ++ 13 :: t) :
    m = n ∧ s = t := by
  have hdigits (k : ℕ) (r : Bytes) : (decimal k ++ 13 :: r).takeWhile isDigit = decimal k := by
    rw [takeWhile_append_of_pos, takeWhile_cons_of_neg (by decide), append_nil]
    intro b hb
    obtain ⟨d, hd, rfl⟩ := mem_map.mp hb
    have := decimal_digits k d hd
    exact (digitByte_spec d (by omega)).2.2.1 this
  have hvalue (k : ℕ) : value 10 ((decimal k).map digitValue) = k := by
    rw [decimal, map_digitValue fun d hd => (decimal_digits k d hd).trans (by decide), value_digits]
  have hsame := congrArg (takeWhile isDigit) h
  rw [hdigits, hdigits] at hsame
  obtain rfl : m = n := by rw [← hvalue m, hsame, hvalue]
  exact ⟨rfl, (cons.inj (append_cancel_left h)).2⟩

theorem bulk_cut {x y u v : Bytes} (h : bulk x ++ u = bulk y ++ v) : x = y ∧ u = v := by
  have h' : decimal x.length ++ 13 :: 10 :: (x ++ 13 :: 10 :: u) =
      decimal y.length ++ 13 :: 10 :: (y ++ 13 :: 10 :: v) := by
    simpa [bulk, crlf] using h
  obtain ⟨hlen, hrest⟩ := decimal_cut h'
  obtain ⟨rfl, hend⟩ := append_inj (cons.inj hrest).2 hlen
  exact ⟨rfl, (cons.inj (cons.inj hend).2).2⟩

/-- At least as many bulk strings as those of `b` start with them, and end there when something else
follows. -/
theorem bulks_cut {a b : List Bytes} {u v : Bytes} (h : a.flatMap bulk ++ u = b.flatMap bulk ++ v)
    (hle : b.length ≤ a.length) (hv : v.head? ≠ some 36) : a = b ∧ u = v := by
  induction b generalizing a with
  | nil =>
    cases a with
    | nil => exact ⟨rfl, h⟩
    | cons x a =>
      rw [flatMap_nil, nil_append] at h
      exact absurd (congrArg head? h.symm) hv
  | cons y b ih =>
    cases a with
    | nil => cases hle
    | cons x a =>
      rw [flatMap_cons, flatMap_cons, append_assoc, append_assoc] at h
      obtain ⟨rfl, hrest⟩ := bulk_cut h
      obtain ⟨rfl, hend⟩ := ih hrest (Nat.le_of_succ_le_succ hle)
      exact ⟨rfl, hend⟩

/-- A count that is not too small and bulk strings are an array, or no arrays are sent. -/
theorem array_cut {n : ℕ} {items : List Bytes} {v : Bytes} (hle : items.length ≤ n)
    (hv : v.head? ≠ some 36) {arrays : List (List Bytes)}
    (h : count n ++ crlf ++ (items.flatMap bulk ++ v) = arrays.flatMap array) :
    n = items.length ∧ ∃ rest : List (List Bytes), v = rest.flatMap array := by
  cases arrays with
  | nil => cases h
  | cons a rest =>
    have hcut : decimal n ++ 13 :: 10 :: (items.flatMap bulk ++ v) =
        decimal a.length ++ 13 :: 10 :: (a.flatMap bulk ++ rest.flatMap array) := by
      simpa [array, count, crlf] using h
    obtain ⟨rfl, hrest⟩ := decimal_cut hcut
    obtain ⟨rfl, hend⟩ := bulks_cut (cons.inj hrest).2.symm hle hv
    exact ⟨rfl, rest, hend.symm⟩

section

variable (tostr : Number → Bytes)

theorem composeTable_eq (t : LuaTable) : composeTable tostr t =
    count t.length ++ crlf ++ (t.strings tostr).flatMap bulk := by
  rw [composeTable, append_assoc, lines_eq, append_assoc]

theorem composeMessage_table (cmd : Bytes) (t : LuaTable) : composeMessage tostr cmd (.table t) =
    count (t.length + 1) ++ crlf ++ (upper cmd :: t.strings tostr).flatMap bulk := by
  rw [composeMessage, append_assoc, lines_eq]
  simp [commandLine, bulk, upper]

theorem length_strings_le (t : LuaTable) : (t.strings tostr).length ≤ t.length := by
  rw [LuaTable.strings, length_map]
  exact length_ipairs_le t.border.2

theorem counted_of_length {t : LuaTable} (h : t.length = (t.strings tostr).length) : t.Counted := by
  rwa [LuaTable.strings, length_map] at h

theorem head_composeTables (ops : List LuaTable) :
    (ops.flatMap (composeTable tostr)).head? ≠ some 36 := by
  cases ops <;> simp [composeTable, count]

/-- What is sent for a pipeline is well formed only if the counts are right. -/
theorem counted_of_pipeline {ops : List LuaTable} {arrays : List (List Bytes)}
    (h : ops.flatMap (composeTable tostr) = arrays.flatMap array) : ∀ t ∈ ops, t.Counted := by
  induction ops generalizing arrays with
  | nil => simp
  | cons t ops ih =>
    rw [flatMap_cons, composeTable_eq, append_assoc] at h
    obtain ⟨hlen, rest, hrest⟩ :=
      array_cut (length_strings_le tostr t) (head_composeTables tostr ops) h
    exact forall_mem_cons.mpr ⟨counted_of_length tostr hlen, ih hrest⟩

/-- **Requests.**  What is sent is a sequence of arrays of bulk strings exactly when the length of
every table is the number of its items.  Then the arrays are those of the commands and arguments,
with the number of their items and the length of each. -/
theorem requests_well_formed (r : Request) :
    ((∃ arrays : List (List Bytes), r.bytes tostr = arrays.flatMap array) ↔
      ∀ t ∈ r.tables, t.Counted) ∧
    ((∀ t ∈ r.tables, t.Counted) → r.bytes tostr = (r.arrays tostr).flatMap array) := by
  have hgood : (∀ t ∈ r.tables, t.Counted) → r.bytes tostr = (r.arrays tostr).flatMap array := by
    intro h
    have hlength {t : LuaTable} (ht : t.Counted) : t.length = (t.strings tostr).length := by
      rw [LuaTable.strings, length_map]
      exact ht
    cases r with
    | message cmd msg =>
      cases msg with
      | table t =>
        rw [Request.arrays, flatMap_singleton, Request.bytes, composeMessage_table,
          hlength (h t mem_cons_self)]
        rfl
      | other v =>
        have htwo : ofString "*2" = count 2 := by decide
        simp [Request.bytes, Request.arrays, composeMessage, htwo, commandLine, header, array, bulk,
          count, upper]
    | pipeline ops =>
      rw [Request.bytes, Request.arrays, flatMap_map]
      refine flatMap_congr fun t ht => ?_
      rw [composeTable_eq, hlength (h t ht)]
      rfl
  refine ⟨⟨?_, fun h => ⟨_, hgood h⟩⟩, hgood⟩
  rintro ⟨arrays, h⟩
  cases r with
  | message cmd msg =>
    cases msg with
    | table t =>
      rw [Request.bytes, composeMessage_table, ← append_nil (flatMap bulk _)] at h
      obtain ⟨hlen, -⟩ := array_cut (Nat.succ_le_succ (length_strings_le tostr t)) (by simp) h
      exact forall_mem_singleton.mpr (counted_of_length tostr (Nat.succ.inj hlen))
    | other v => simp [Request.tables]
  | pipeline ops => exact counted_of_pipeline tostr h

end

/-- `SET a nil b` announces four items, and two follow. -/
theorem nil_before_argument :
    let t : LuaTable := ⟨[some (.string [97]), none, some (.string [98])], 3, by simp [item]⟩
    ¬ ∃ arrays : List (List Bytes),
      (Request.message (ofString "set") (.table t)).bytes (fun _ => []) = arrays.flatMap array := by
  rintro t ⟨arrays, h⟩
  have hbytes : (Request.message (ofString "set") (.table t)).bytes (fun _ => []) =
      count 4 ++ crlf ++ ofString "$3\r\nSET\r\n$1\r\na\r\n" := by decide
  rw [hbytes] at h
  have hbulks : ofString "$3\r\nSET\r\n$1\r\na\r\n" =
      [ofString "SET", [97]].flatMap bulk ++ [] := by decide
  rw [hbulks] at h
  exact absurd (array_cut (by decide) (by simp) h).1 (by decide)

end Skynet.Redis
