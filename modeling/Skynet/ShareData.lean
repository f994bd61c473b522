import Skynet.MachineInt

/-! # Shared configuration tables

The model of `lua-sharedata.cpp`: `core.new` converts a Lua table into a C object that no Lua
state owns (`newconf`), and `core.index` reads the object with a key (`lindexconf`).

The tables of the Lua state are a heap, so that a table may be shared or hold itself; a conversion
calls itself for a table inside a table and is given up when the C stack is used up.  An `int` is
an integer of 32 bits: a Lua integer is cut to one where the code stores it in an `int`, in the
conversion and in the lookup.  The strings of an object lie on the stack of its own Lua state,
from index 2 on.

`malloc` leaves the fields of a node as they are, apart from the two that `convtable` sets: `junk`
is what they hold.  An allocation fails only when its size is negative.  The counters for slots and
strings are natural numbers. -/

namespace Skynet.ShareData

abbrev Bytes := List UInt8

/-! ### Lua values -/

/-- A Lua value, as a key or in a table; a real by its bits, a table by its place in the heap.
`other` is a function, a userdata or a thread. -/
inductive Value where
  | nil
  | boolean (b : Bool)
  | integer (n : Int64)
  | real (bits : UInt64)
  | string (s : Bytes)
  | table (r : ℕ)
  | other (r : ℕ)
deriving DecidableEq

/-- The value of a key in a list of entries. -/
def lookup (entries : List (Value × Value)) (k : Value) : Value :=
  match entries.find? fun e => e.1 = k with
  | none => .nil
  | some e => e.2

/-- A Lua table: its entries in the order of `lua_next`, and what `lua_rawlen` gives. -/
structure Table where
  rawlen : ℕ
  entries : List (Value × Value)
  nodup : (entries.map Prod.fst).Nodup
  present : ∀ e ∈ entries, e.2 ≠ .nil

/-- `t[k]`, for a key that is not a real -/
def Table.get (t : Table) (k : Value) : Value := lookup t.entries k

abbrev Heap := ℕ → Table

/-! ### The C object -/

inductive KeyType where
  | integer
  | string
deriving DecidableEq

/-- What a node keeps of a key: an integer or the index of a string, and the hash. -/
structure HashKey where
  key : ℤ
  keyhash : UInt32
  keytype : KeyType
deriving DecidableEq

/-- `struct node`; `value` is `v` with `valuetype`. -/
structure Node (V : Type) where
  value : V
  key : ℤ
  next : ℤ
  keyhash : UInt32
  keytype : KeyType
  nocolliding : Bool

/-- `struct table` -/
structure Tbl (V : Type) where
  array : List V
  hash : List (Node V)

/-- `union value` with its type -/
inductive Item where
  | nil
  | real (bits : UInt64)
  | string (i : ℕ)
  | boolean (b : Bool)
  | table (tbl : Tbl Item)
  | integer (n : Int64)

def Item.isNil : Item → Bool
  | .nil => true
  | _ => false

/-- An object: the strings on the stack of its Lua state, and the root. -/
structure Object where
  strings : List Bytes
  root : Tbl Item

inductive Error where
  /-- `Invalid key %f` -/
  | invalidKey (bits : UInt64)
  /-- `Invalid key type %s` -/
  | invalidKeyType (k : Value)
  /-- `Unsupport value type %s` -/
  | unsupportValueType (v : Value)
  /-- `memory error` -/
  | memory
  /-- no C stack for another `convtable`, or no Lua stack for the strings -/
  | stackOverflow
  /-- the error of `luaL_checklstring` for a key that is no string -/
  | badArgument (k : Value)
  /-- `assert(n)` in `fillcolliding` -/
  | assertion
  /-- an access outside of the nodes -/
  | undefined
  /-- the loop of `lookup_key` is not over -/
  | running
deriving DecidableEq

/-! ### The conversion -/

/-- A part of the conversion; the state is the strings of the string map, in the order of their
indices. -/
abbrev Conv (α : Type) := EStateM Error (List Bytes) α

/-- The loop of `calchash`; it makes no more rounds than the string has bytes. -/
def calchashLoop (str : Bytes) (step : ℕ) : ℕ → ℕ → UInt32 → UInt32
  | 0, _, h => h
  | n + 1, l1, h =>
    if l1 < step then h
    else calchashLoop str step n (l1 - step)
      (h ^^^ ((h <<< 5) + (h >>> 2) + (str.getD (l1 - 1) 0).toUInt32))

def calchash (str : Bytes) : UInt32 :=
  calchashLoop str (str.length / 2 ^ 5 + 1) str.length str.length (UInt32.ofNat str.length)

def stringindex (str : Bytes) : Conv ℕ := do
  let strings ← get
  if str ∈ strings then pure (strings.idxOf str + 2)
  else
    set (strings ++ [str])
    pure (strings.length + 2)

/-- `setvalue`, with `convtable` for a table -/
def setvalue (convtable : ℕ → Conv (Tbl Item)) : Value → Conv Item
  | .nil => pure .nil
  | .integer n => pure (.integer n)
  | .real bits => pure (.real bits)
  | .string s => do
      let i ← stringindex s
      pure (.string i)
  | .boolean b => pure (.boolean b)
  | .table r => do
      let tbl ← convtable r
      pure (.table tbl)
  | .other r => throw (.unsupportValueType (.other r))

/-- The keys of the hash part.  A table passes as a key here. -/
def countsize (sizearray : ℤ) : List (Value × Value) → ℤ → Conv ℤ
  | [], n => pure n
  | (.integer key, _) :: es, n =>
    if 0 < key.toInt ∧ key.toInt ≤ sizearray then countsize sizearray es n
    else countsize sizearray es (MachineInt.toInt (n + 1))
  | (.real bits, _) :: _, _ => throw (.invalidKey bits)
  | (.string _, _) :: es, n | (.table _, _) :: es, n =>
    countsize sizearray es (MachineInt.toInt (n + 1))
  | (k, _) :: _, _ => throw (.invalidKeyType k)

/-- What `lua_tolstring` gives for a key that is not a number: nothing for a table. -/
def Value.tolstring : Value → Bytes
  | .string s => s
  | _ => []

/-- `ishashkey`: the index in the array, or the key for the hash part.  A real never gets here. -/
def ishashkey (sizearray : ℤ) : Value → Conv (ℤ ⊕ HashKey)
  | .integer n =>
    if 0 < n.toInt32.toInt ∧ n.toInt32.toInt ≤ sizearray then pure (.inl n.toInt32.toInt)
    else pure (.inr ⟨n.toInt32.toInt, n.toInt32.toUInt32, .integer⟩)
  | k => do
      let i ← stringindex k.tolstring
      pure (.inr ⟨i, calchash k.tolstring, .string⟩)

def Tbl.setarray (tbl : Tbl Item) (key : ℤ) (item : Item) : Tbl Item :=
  { tbl with array := tbl.array.set (key - 1).toNat item }

/-- The slot of a key: `keyhash % tbl->sizehash` -/
def Tbl.slot (tbl : Tbl Item) (keyhash : UInt32) : ℕ := keyhash.toNat % tbl.hash.length

/-- A key whose main position is free is put there. -/
def fillnocolliding (convtable : ℕ → Conv (Tbl Item)) (sizearray : ℤ) :
    List (Value × Value) → Tbl Item → Conv (Tbl Item)
  | [], tbl => pure tbl
  | (k, v) :: es, tbl => do
      match ← ishashkey sizearray k with
      | .inl key =>
        let item ← setvalue convtable v
        fillnocolliding convtable sizearray es (tbl.setarray key item)
      | .inr hk =>
        match tbl.hash[tbl.slot hk.keyhash]? with
        | none => throw .undefined
        | some n =>
          if n.value.isNil then
            let item ← setvalue convtable v
            fillnocolliding convtable sizearray es { tbl with
              hash := tbl.hash.set (tbl.slot hk.keyhash)
                ⟨item, hk.key, -1, hk.keyhash, hk.keytype, true⟩ }
          else fillnocolliding convtable sizearray es tbl

/-- The first empty slot of a list of nodes, counted from `i`. -/
def freeSlot (i : ℕ) : List (Node Item) → Option ℕ
  | [] => none
  | n :: nodes => if n.value.isNil then some i else freeSlot (i + 1) nodes

/-- The node at `f` becomes the second one of the chain of the node at `m`. -/
def chainNode (hash : List (Node Item)) (m f : ℕ) (mainpos : Node Item) (hk : HashKey)
    (item : Item) : List (Node Item) :=
  let hash := hash.modify f fun n => { n with next := mainpos.next }
  let hash := hash.modify m fun n => { n with next := f, nocolliding := false }
  hash.modify f fun n => { n with
    key := hk.key, keytype := hk.keytype, keyhash := hk.keyhash, nocolliding := false
    value := item }

/-- A key that is not at its main position is put into the next empty slot. -/
def fillcolliding (convtable : ℕ → Conv (Tbl Item)) (sizearray : ℤ) :
    List (Value × Value) → ℕ → Tbl Item → Conv (Tbl Item)
  | [], _, tbl => pure tbl
  | (k, v) :: es, emptyslot, tbl => do
      match ← ishashkey sizearray k with
      | .inl _ => fillcolliding convtable sizearray es emptyslot tbl
      | .inr hk =>
        match tbl.hash[tbl.slot hk.keyhash]? with
        | none => throw .undefined
        | some mainpos =>
          if mainpos.keytype = hk.keytype ∧ mainpos.key = hk.key then
            fillcolliding convtable sizearray es emptyslot tbl
          else
            match freeSlot emptyslot (tbl.hash.drop emptyslot) with
            | none => throw .assertion
            | some f =>
              let item ← setvalue convtable v
              fillcolliding convtable sizearray es (f + 1) { tbl with
                hash := chainNode tbl.hash (tbl.slot hk.keyhash) f mainpos hk item }

/-- The loop of `convtable` for a table without a hash part, from index `i` on. -/
def fillarray (convtable : ℕ → Conv (Tbl Item)) (t : Table) : ℕ → ℕ → Tbl Item → Conv (Tbl Item)
  | 0, _, tbl => pure tbl
  | n + 1, i, tbl => do
      let item ← setvalue convtable (t.get (.integer (Int64.ofInt i)))
      fillarray convtable t n (i + 1) (tbl.setarray i item)

/-- `convtable`; the first argument is how many calls fit on the C stack. -/
def convtable (junk : ℕ → Node Item) (heap : Heap) : ℕ → ℕ → Conv (Tbl Item)
  | 0, _ => throw .stackOverflow
  | depth + 1, r => do
      let sizearray := MachineInt.toInt (heap r).rawlen
      if sizearray < 0 then throw .memory
      let array := List.replicate sizearray.toNat Item.nil
      let sizehash ← countsize sizearray (heap r).entries 0
      if sizehash < 0 then throw .memory
      if sizehash = 0 then
        fillarray (convtable junk heap depth) (heap r) sizearray.toNat 1 ⟨array, []⟩
      else
        let hash := (List.range sizehash.toNat).map fun i =>
          { junk i with value := .nil, nocolliding := false }
        let tbl ← fillnocolliding (convtable junk heap depth) sizearray (heap r).entries
          ⟨array, hash⟩
        fillcolliding (convtable junk heap depth) sizearray (heap r).entries 0 tbl

/-- `core.new`: `stack` is the room on the stack of the new Lua state, where `pconv` asks for
`string_index + 3` places. -/
def newconf (junk : ℕ → Node Item) (heap : Heap) (depth stack r : ℕ) : Except Error Object :=
  match convtable junk heap depth r [] with
  | .error e _ => .error e
  | .ok tbl strings =>
    if stack < strings.length + 4 then .error .stackOverflow else .ok ⟨strings, tbl⟩

/-! ### The lookup -/

/-- What `pushvalue` pushes; a table is a light userdata. -/
inductive Pushed where
  | nil
  | boolean (b : Bool)
  | integer (n : Int64)
  | real (bits : UInt64)
  | string (s : Bytes)
  | table (tbl : Tbl Item)

/-- `lua_tolstring(tbl->L, i, ..)` -/
def text (strings : List Bytes) (i : ℤ) : Bytes :=
  if i < 2 then [] else strings.getD (i - 2).toNat []

def pushvalue (strings : List Bytes) : Item → Pushed
  | .real bits => .real bits
  | .integer n => .integer n
  | .string i => .string (text strings i)
  | .boolean b => .boolean b
  | .table tbl => .table tbl
  | .nil => .nil

/-- The test of `lookup_key` for one node. -/
def isAt (strings : List Bytes) (n : Node Item) (hk : HashKey) (str : Bytes) : Bool :=
  if hk.keyhash = n.keyhash then
    match n.keytype, hk.keytype with
    | .integer, .integer => n.key = hk.key
    | .string, .string => text strings n.key = str
    | _, _ => false
  else false

/-- The loop of `lookup_key`, for at most as many rounds as the first number says. -/
def lookupLoop (strings : List Bytes) (hash : List (Node Item)) (hk : HashKey) (str : Bytes) :
    ℕ → ℕ → Except Error (Option (Node Item))
  | 0, _ => .error .running
  | rounds + 1, i =>
    match hash[i]? with
    | none => .error .undefined
    | some n =>
      if isAt strings n hk str then .ok (some n)
      else if n.next < 0 then .ok none
      else lookupLoop strings hash hk str rounds n.next.toNat

def lookupKey (strings : List Bytes) (tbl : Tbl Item) (hk : HashKey) (str : Bytes)
    (rounds : ℕ) : Except Error (Option (Node Item)) :=
  if tbl.hash.length = 0 then .ok none
  else
    match tbl.hash[tbl.slot hk.keyhash]? with
    | none => .error .undefined
    | some n =>
      if hk.keyhash ≠ n.keyhash ∧ n.nocolliding then .ok none
      else lookupLoop strings tbl.hash hk str rounds (tbl.slot hk.keyhash)

/-- The value of the node that was found, or nothing. -/
def pushNode (strings : List Bytes) : Except Error (Option (Node Item)) → Except Error Pushed
  | .error e => .error e
  | .ok none => .ok .nil
  | .ok (some n) => .ok (pushvalue strings n.value)

/-- `core.index` -/
def lindexconf (strings : List Bytes) (tbl : Tbl Item) (rounds : ℕ) :
    Value → Except Error Pushed
  | .integer n =>
    let key := n.toInt32.toInt
    if 0 < key ∧ key ≤ tbl.array.length then
      .ok (pushvalue strings (tbl.array.getD (key - 1).toNat .nil))
    else
      pushNode strings
        (lookupKey strings tbl ⟨key, n.toInt32.toUInt32, .integer⟩ [] rounds)
  | .real bits => .error (.invalidKey bits)
  | .string s => pushNode strings (lookupKey strings tbl ⟨0, calchash s, .string⟩ s rounds)
  | k => .error (.badArgument k)

/-- `core.index` returns `p`. -/
def Indexes (strings : List Bytes) (tbl : Tbl Item) (k : Value) (p : Pushed) : Prop :=
  ∃ n, ∀ rounds ≥ n, lindexconf strings tbl rounds k = .ok p

/-! ### What an object stands for -/

/-- A key that an `int` can hold, or a string. -/
def Value.Fits : Value → Prop
  | .integer n => -2 ^ 31 ≤ n.toInt ∧ n.toInt < 2 ^ 31
  | .string _ => True
  | _ => False

/-- The keys are integers that fit or strings, and the sizes fit an `int`. -/
structure Table.Fits (t : Table) : Prop where
  key : ∀ e ∈ t.entries, e.1.Fits
  rawlen : t.rawlen < 2 ^ 31
  size : t.entries.length < 2 ^ 31

/-- A table is in another, or in one that is in it. -/
def Heap.Within (heap : Heap) : ℕ → ℕ → Prop :=
  Relation.ReflTransGen fun r r' => ∃ k, (k, .table r') ∈ (heap r).entries

/-- What `core.index` pushed is the Lua value: the same one, or for a table an object that gives
for every key that fits what the table has for it. -/
inductive Represents (heap : Heap) (strings : List Bytes) : Value → Pushed → Prop
  | nil : Represents heap strings .nil .nil
  | boolean (b : Bool) : Represents heap strings (.boolean b) (.boolean b)
  | integer (n : Int64) : Represents heap strings (.integer n) (.integer n)
  | real (bits : UInt64) : Represents heap strings (.real bits) (.real bits)
  | string (s : Bytes) : Represents heap strings (.string s) (.string s)
  | table (r : ℕ) (tbl : Tbl Item) (value : Value → Pushed)
      (indexes : ∀ k, k.Fits → Indexes strings tbl k (value k))
      (represents : ∀ k, k.Fits → Represents heap strings ((heap r).get k) (value k)) :
      Represents heap strings (.table r) (.table tbl)

end Skynet.ShareData
