import Skynet.ByteOrder
import Skynet.Transition

/-! # The answers of a name server

`resolve` of `skynet.dns` parses a packet that came from the network.  A name in it is a run of
labels that ends with a zero byte or with a compression pointer, an offset in the packet where the
name goes on; `unpack_name` follows the pointers in a `while true` loop.

The parse is a machine that makes one step for one round of a loop, so that the number of steps
is what the packet costs.  A pointer may lead back to a name that ends with the same pointer: such
a packet is parsed for ever (`resolve_never_returns`).  The parse ends exactly if no name comes to
such an offset (`resolve_terminates`).

Positions count from 0.  Log messages are left out. -/

namespace Skynet.Dns

open ByteOrder Function Option

abbrev Bytes := List UInt8

def dnsHeaderLen : ℕ := 12

namespace QType

def a : ℕ := 1

def aaaa : ℕ := 28

end QType

/-! ### `string.unpack` -/

/-- The number in the `k` bytes at `p`; `none` when the data are too short. -/
def uint (k : ℕ) (c : Bytes) (p : ℕ) : Option ℕ :=
  if p + k ≤ c.length then some (ofBE ((c.drop p).take k)) else none

/-- The string at `p` after its length of `k` bytes, and the position after it. -/
def str (k : ℕ) (c : Bytes) (p : ℕ) : Option (Bytes × ℕ) := do
  let n ← uint k c p
  if p + k + n ≤ c.length then some ((c.drop (p + k)).take n, p + k + n) else none

/-- `n` numbers of `k` bytes each. -/
def uints (k n : ℕ) (c : Bytes) : Option (List ℕ) := (List.range n).mapM fun i => uint k c (i * k)

/-! ### The packet -/

structure Header where
  tid : ℕ
  flags : ℕ
  qdcount : ℕ
  ancount : ℕ
  nscount : ℕ
  arcount : ℕ
deriving DecidableEq, Repr

structure Question where
  name : Bytes
  atype : ℕ
  cls : ℕ
deriving DecidableEq, Repr

structure Answer where
  name : Bytes
  atype : ℕ
  cls : ℕ
  ttl : ℕ
  rdata : Bytes
deriving DecidableEq, Repr

/-- An address; the numbers between the dots, or between the colons. -/
inductive Address where
  | ipv4 (fields : List ℕ)
  | ipv6 (fields : List ℕ)
deriving DecidableEq, Repr

def unpackHeader (c : Bytes) : Option (Header × ℕ) :=
  match uints 2 6 c with
  | some [tid, flags, qdcount, ancount, nscount, arcount] =>
    some (⟨tid, flags, qdcount, ancount, nscount, arcount⟩, 12)
  | _ => none

def unpackRdata (qtype : ℕ) (c : Bytes) : Option Address :=
  if qtype = QType.a then (uints 1 4 c).map .ipv4
  else if qtype = QType.aaaa then (uints 2 8 c).map .ipv6
  else none

/-! ### Names -/

/-- The loop variables of `unpack_name`. -/
structure Walk where
  labels : List Bytes
  jumpPointer : Option ℕ
  left : ℕ
deriving DecidableEq, Repr

/-- `unpack_name` before its loop. -/
def Walk.init (left : ℕ) : Walk := ⟨[], none, left⟩

/-- The offset in the compression pointer at `p`; the tag there has its two high bits set. -/
def pointer (c : Bytes) (p : ℕ) : Option ℕ := (uint 2 c p).map (· &&& 0x3fff)

def isPointer (tag : ℕ) : Bool := tag &&& 0xc0 = 0xc0

/-- `table.concat(t, ".")` -/
def dotted (labels : List Bytes) : Bytes := (labels.intersperse [46]).flatten

inductive Progress where
  | more (w : Walk)
  | name (name : Bytes) (left : ℕ)
  | error
deriving DecidableEq, Repr

/-- A round of the loop of `unpack_name`. -/
def Walk.next (c : Bytes) (w : Walk) : Progress :=
  match uint 1 c w.left with
  | none => .error
  | some tag =>
    if isPointer tag then
      match pointer c w.left with
      | none => .error
      | some offset =>
        .more { w with jumpPointer := some (w.jumpPointer.getD (w.left + 2)), left := offset }
    else if tag = 0 then .name (dotted w.labels) (w.jumpPointer.getD (w.left + 1))
    else
      match str 1 c w.left with
      | none => .error
      | some (label, left) => .more { w with labels := w.labels ++ [label], left := left }

/-- `unpack_question` after the name. -/
def unpackQuestion (c : Bytes) (name : Bytes) (left : ℕ) : Option (Question × ℕ) := do
  let atype ← uint 2 c left
  let cls ← uint 2 c (left + 2)
  return (⟨name, atype, cls⟩, left + 4)

/-- `unpack_answer` after the name. -/
def unpackAnswer (c : Bytes) (name : Bytes) (left : ℕ) : Option (Answer × ℕ) := do
  let atype ← uint 2 c left
  let cls ← uint 2 c (left + 2)
  let ttl ← uint 4 c (left + 4)
  let (rdata, left) ← str 2 c (left + 8)
  return (⟨name, atype, cls, ttl, rdata⟩, left)

/-! ### The machine -/

/-- What the answers have given so far. -/
structure Found where
  ttl : Option ℕ
  ipv4 : List Address
  ipv6 : List Address
deriving DecidableEq, Repr

/-- The body of the loop of `resolve` after `unpack_answer`. -/
def Found.add (f : Found) (answer : Answer) : Option Found :=
  let ttl := some ((f.ttl.map fun t => min t answer.ttl).getD answer.ttl)
  if answer.atype = QType.a then
    (unpackRdata answer.atype answer.rdata).map fun ip =>
      { f with ttl := ttl, ipv4 := f.ipv4 ++ [ip] }
  else if answer.atype = QType.aaaa then
    (unpackRdata answer.atype answer.rdata).map fun ip =>
      { f with ttl := ttl, ipv6 := f.ipv6 ++ [ip] }
  else some f

inductive Outcome where
  /-- the packet is too short for a header -/
  | dropped
  | error
  | parsed (header : Header) (question : Question) (found : Found)
deriving DecidableEq, Repr

inductive State where
  | start
  | question (header : Header) (w : Walk)
  /-- before round `i` of the loop over the answers -/
  | answers (header : Header) (question : Question) (i left : ℕ) (found : Found)
  /-- in the name of answer `i`, which starts at `left` -/
  | answer (header : Header) (question : Question) (i left : ℕ) (found : Found) (w : Walk)
  | done (r : Outcome)
deriving DecidableEq, Repr

/-- `resolve` up to the first name. -/
def begin (c : Bytes) : State :=
  if c.length < dnsHeaderLen then .done .dropped
  else
    match unpackHeader c with
    | none => .done .error
    | some (header, left) =>
      -- "malformed packet"
      if header.qdcount = 1 then .question header (.init left) else .done .error

/-- `resolve` after the name of the question. -/
def asked (c : Bytes) (header : Header) (name : Bytes) (left : ℕ) : State :=
  match unpackQuestion c name left with
  | none => .done .error
  | some (question, left) => .answers header question 1 left ⟨none, [], []⟩

/-- The loop of `resolve` after the name of answer `i`. -/
def answered (c : Bytes) (header : Header) (question : Question) (i : ℕ) (found : Found)
    (name : Bytes) (left : ℕ) : State :=
  match unpackAnswer c name left with
  | none => .done .error
  | some (answer, left) =>
    match found.add answer with
    | none => .done .error
    | some found => .answers header question (i + 1) left found

def step (c : Bytes) : State → State
  | .start => begin c
  | .question header w =>
    match w.next c with
    | .more w => .question header w
    | .name name left => asked c header name left
    | .error => .done .error
  | .answers header question i left found =>
    if i ≤ header.ancount then .answer header question i left found (.init left)
    else .done (.parsed header question found)
  | .answer header question i left found w =>
    match w.next c with
    | .more w => .answer header question i left found w
    | .name name left => answered c header question i found name left
    | .error => .done .error
  | .done r => .done r

/-- The state after `n` steps of `resolve(c)`. -/
def run (c : Bytes) (n : ℕ) : State := (step c)^[n] .start

/-! ### After the parse -/

structure CacheEntry where
  answers : List Address
  ttl : ℕ
deriving DecidableEq, Repr

/-- An entry of `request_pool`. -/
structure Request where
  name : Bytes
  qtype : ℕ
  answers : Option (List Address)
deriving DecidableEq, Repr

structure Tables where
  /-- `CACHE`, by type and name -/
  cache : ℕ × Bytes → Option CacheEntry
  requestPool : ℕ → Option Request
  /-- the transactions whose coroutine was woken up -/
  woken : List ℕ

/-- The addresses of one type are put into the cache. -/
def Tables.remember (t : Tables) (now qtype : ℕ) (name : Bytes) (ips : List Address)
    (ttl : Option ℕ) : Tables :=
  if ips = [] then t
  else
    { t with
      cache := update t.cache (qtype, name) (some ⟨ips, now + ttl.getD 0 * 100⟩) }

/-- `resolve` after its loop. -/
def Tables.deliver (t : Tables) (now : ℕ) : Outcome → Tables
  | .dropped | .error => t
  | .parsed header question found =>
    let t := t.remember now QType.a question.name found.ipv4 found.ttl
    let t := t.remember now QType.aaaa question.name found.ipv6 found.ttl
    match t.requestPool header.tid with
    | none => t
    | some resp =>
      let answers :=
        match t.cache (resp.qtype, resp.name) with
        | none => resp.answers
        | some r => some r.answers
      { t with
        requestPool :=
          update t.requestPool header.tid (some { resp with answers := answers })
        woken := t.woken ++ [header.tid] }

/-- `resolve(c)`, if it returns within `n` steps. -/
def resolve (t : Tables) (now : ℕ) (c : Bytes) (n : ℕ) : Option Tables :=
  match run c n with
  | .done r => some (t.deliver now r)
  | _ => none

/-! ### Offsets that lead back to themselves -/

/-- Where a name that stands at `p` stands after a round. -/
def hop (c : Bytes) (p : ℕ) : Option ℕ :=
  match uint 1 c p with
  | none => none
  | some tag =>
    if isPointer tag then pointer c p
    else if tag = 0 then none
    else (str 1 c p).map Prod.snd

def Hop (c : Bytes) (p q : ℕ) : Prop := hop c p = some q

/-- A name at `p` comes to `p` again. -/
def Circular (c : Bytes) (p : ℕ) : Prop := Relation.TransGen (Hop c) p p

/-- The name that is read stands at an offset to which it comes again. -/
def State.Circular (c : Bytes) : State → Prop
  | .question _ w | .answer _ _ _ _ _ w => Dns.Circular c w.left
  | _ => False

open Classical in
/-- The number of rounds that is left to a name, at most: the offsets to which it comes. -/
noncomputable def Walk.measure (c : Bytes) (w : Walk) : ℕ :=
  ((Finset.range c.length).filter (Relation.ReflTransGen (Hop c) w.left)).card

section Names

variable {c : Bytes} {w : Walk}

theorem uint_eq_some {k p n : ℕ} (h : uint k c p = some n) : p + k ≤ c.length := by
  unfold uint at h
  split_ifs at h with hle
  exact hle

variable {left : ℕ}

theorem str_eq_some {k p : ℕ} {b : Bytes} (h : str k c p = some (b, left)) :
    p + k ≤ left ∧ left ≤ c.length := by
  obtain ⟨n, -, h⟩ := bind_eq_some_iff.mp h
  split_ifs at h with hle
  cases h
  exact ⟨by omega, hle⟩

theorem hop_lt {p q : ℕ} (h : Hop c p q) : p < c.length := by
  unfold Hop hop at h
  split at h
  · cases h
  · rename_i tag htag
    have := uint_eq_some htag
    omega

/-- A round of the loop moves the name to the next offset. -/
theorem Walk.next_more {w' : Walk} (h : w.next c = .more w') : Hop c w.left w'.left ∧
    (w'.jumpPointer = some (w.jumpPointer.getD (w.left + 2)) ∨
      w'.jumpPointer = w.jumpPointer ∧ w.left ≤ w'.left) := by
  unfold Walk.next at h
  unfold Hop hop
  split at h
  · cases h
  · rename_i tag htag
    split_ifs at h with hp hz
    · split at h
      · cases h
      · rename_i offset hoffset
        cases h
        exact ⟨by simp [hp, hoffset], .inl rfl⟩
    · split at h
      · cases h
      · rename_i label left hstr
        cases h
        have hle := (str_eq_some hstr).1
        exact ⟨by simp [hp, hz, hstr], .inr ⟨rfl, by show w.left ≤ left; omega⟩⟩

theorem Walk.next_of_hop {q : ℕ} (h : Hop c w.left q) : ∃ w', w.next c = .more w' ∧ w'.left = q := by
  unfold Hop hop at h
  unfold Walk.next
  split at h
  · cases h
  · split_ifs at h with hp hz
    · simp [hp, h]
    · obtain ⟨⟨label, left⟩, hstr, rfl⟩ := map_eq_some_iff.mp h
      simp [hp, hz, hstr]

theorem Walk.next_name {name : Bytes} (h : w.next c = .name name left) :
    left = w.jumpPointer.getD (w.left + 1) := by
  unfold Walk.next at h
  split at h
  · cases h
  · split_ifs at h
    · split at h <;> cases h
    · exact (Progress.name.inj h).2.symm
    · split at h <;> cases h

/-- Where the name stands that starts at `first`. -/
structure Walk.From (first : ℕ) (w : Walk) : Prop where
  left : w.jumpPointer = none → first ≤ w.left
  jump : ∀ j, w.jumpPointer = some j → first < j

theorem Walk.From.init (left : ℕ) : Walk.From left (.init left) := ⟨fun _ => le_rfl, nofun⟩

theorem Walk.From.lt (h : Walk.From left w) {k : ℕ} (hk : 0 < k) :
    left < w.jumpPointer.getD (w.left + k) := by
  cases hj : w.jumpPointer with
  | none =>
    have := h.left hj
    simp only [getD_none]
    omega
  | some j => exact h.jump j hj

theorem Walk.From.next (h : Walk.From left w) {w' : Walk} (hw : w.next c = .more w') :
    Walk.From left w' := by
  obtain ⟨-, hj | ⟨hj, hle⟩⟩ := Walk.next_more hw
  · refine ⟨fun hnone => ?_, fun j hj' => ?_⟩
    · rw [hj] at hnone
      cases hnone
    · rw [hj] at hj'
      cases hj'
      exact h.lt Nat.two_pos
  · exact ⟨fun hnone => (h.left (hj ▸ hnone)).trans hle, fun j hj' => h.jump j (hj ▸ hj')⟩

open Classical in
theorem Walk.measure_le (c : Bytes) (w : Walk) : w.measure c ≤ c.length :=
  (Finset.card_filter_le _ _).trans_eq (Finset.card_range _)

open Classical in
/-- A name that leaves an offset for good has one offset less to come to. -/
theorem Walk.measure_lt {w' : Walk} (hw : w.next c = .more w') (hnot : ¬ Circular c w.left) :
    w'.measure c < w.measure c := by
  have hhop := (Walk.next_more hw).1
  refine Finset.card_lt_card (Finset.ssubset_iff_of_subset ?_ |>.mpr ⟨w.left, ?_, ?_⟩)
  · exact Finset.monotone_filter_right _ fun q _ hq => .head hhop hq
  · exact Finset.mem_filter.mpr ⟨Finset.mem_range.mpr (hop_lt hhop), .refl⟩
  · exact fun hmem => hnot (.head' hhop (Finset.mem_filter.mp hmem).2)

end Names

/-! ### Whole packets -/

/-- The number of steps of an answer, at most. -/
def answerCost (c : Bytes) : ℕ := c.length + 3

noncomputable def State.measure (c : Bytes) : State → ℕ
  | .start => (c.length + 1) * answerCost c + answerCost c
  | .question _ w => (c.length + 1) * answerCost c + w.measure c + 1
  | .answers _ _ _ left _ => (c.length - left) * answerCost c + answerCost c - 1
  | .answer _ _ _ left _ w => (c.length - left) * answerCost c + w.measure c + 1
  | .done _ => 0

def State.Inside (c : Bytes) : State → Prop
  | .start | .done _ => True
  | .question _ w => ∃ left, Walk.From left w
  | .answers _ _ _ left _ => left ≤ c.length
  | .answer _ _ _ left _ w => left ≤ c.length ∧ Walk.From left w

section Packets

variable {c : Bytes}

variable {left : ℕ}

variable {name : Bytes} {h : Header}

theorem unpackQuestion_left {p : ℕ} {q : Question} (h : unpackQuestion c name p = some (q, left)) :
    left ≤ c.length := by
  obtain ⟨atype, -, h⟩ := bind_eq_some_iff.mp h
  obtain ⟨cls, hcls, h⟩ := bind_eq_some_iff.mp h
  cases h
  have := uint_eq_some hcls
  omega

theorem unpackAnswer_left {p : ℕ} {a : Answer} (h : unpackAnswer c name p = some (a, left)) :
    p < left ∧ left ≤ c.length := by
  obtain ⟨atype, -, h⟩ := bind_eq_some_iff.mp h
  obtain ⟨cls, -, h⟩ := bind_eq_some_iff.mp h
  obtain ⟨ttl, -, h⟩ := bind_eq_some_iff.mp h
  obtain ⟨⟨rdata, left'⟩, hstr, h⟩ := bind_eq_some_iff.mp h
  cases h
  obtain ⟨hle, hlen⟩ := str_eq_some hstr
  exact ⟨by omega, hlen⟩

theorem mul_lt_of_lt {left' k : ℕ} (hlt : left < left') (hle : left' ≤ c.length) :
    (c.length - left') * answerCost c + answerCost c ≤ (c.length - left) * answerCost c + k := by
  have hmul : (c.length - left' + 1) * answerCost c ≤ (c.length - left) * answerCost c :=
    Nat.mul_le_mul_right _ (by omega)
  rw [add_mul, one_mul] at hmul
  omega

theorem begin_inside (c : Bytes) :
    (begin c).Inside c ∧ (begin c).measure c < State.measure c .start := by
  have hpos : 0 < State.measure c .start := by
    simp only [State.measure, answerCost]
    omega
  unfold begin
  split_ifs with hlen
  · exact ⟨trivial, hpos⟩
  · split
    · exact ⟨trivial, hpos⟩
    · rename_i header left hheader
      split_ifs
      · have hle := Walk.measure_le c (.init left)
        refine ⟨⟨left, .init left⟩, ?_⟩
        simp only [State.measure, answerCost]
        omega
      · exact ⟨trivial, hpos⟩

theorem asked_inside {w : Walk} (name : Bytes) (left : ℕ) : (asked c h name left).Inside c ∧
      (asked c h name left).measure c < State.measure c (.question h w) := by
  unfold asked
  split
  · exact ⟨trivial, by simp only [State.measure]; omega⟩
  · rename_i q l hq
    refine ⟨unpackQuestion_left hq, ?_⟩
    have hmul : (c.length - l) * answerCost c ≤ c.length * answerCost c :=
      Nat.mul_le_mul_right _ (Nat.sub_le _ _)
    simp only [State.measure, add_mul, one_mul]
    omega

theorem answered_inside {q : Question} {i : ℕ} {found : Found} {w : Walk} {p : ℕ} (hp : left < p) :
    (answered c h q i found name p).Inside c ∧
      (answered c h q i found name p).measure c <
        State.measure c (.answer h q i left found w) := by
  have hpos : 0 < State.measure c (.answer h q i left found w) := Nat.succ_pos _
  unfold answered
  split
  · exact ⟨trivial, hpos⟩
  · rename_i a l ha
    obtain ⟨hlt, hle⟩ := unpackAnswer_left ha
    split
    · exact ⟨trivial, hpos⟩
    · refine ⟨hle, ?_⟩
      have hmul := mul_lt_of_lt (k := w.measure c + 1) (lt_trans hp hlt) hle
      simp only [State.measure]
      omega

theorem step_inside {s : State} (hs : s.Inside c) (hc : ¬ s.Circular c)
    (hnot : ∀ r, s ≠ .done r) : (step c s).Inside c ∧ (step c s).measure c < s.measure c := by
  cases s with
  | start => exact begin_inside c
  | question h w =>
    obtain ⟨left, hfrom⟩ := hs
    simp only [step]
    split
    · rename_i w' hw
      have hlt := Walk.measure_lt hw hc
      refine ⟨⟨left, hfrom.next hw⟩, ?_⟩
      simp only [State.measure]
      omega
    · exact asked_inside _ _
    · exact ⟨trivial, by simp only [State.measure]; omega⟩
  | answers h q i left found =>
    simp only [step]
    split_ifs
    · have hle := Walk.measure_le c (.init left)
      refine ⟨⟨hs, .init left⟩, ?_⟩
      have : answerCost c = c.length + 3 := rfl
      simp only [State.measure]
      omega
    · refine ⟨trivial, ?_⟩
      simp only [State.measure, answerCost]
      omega
  | answer h q i left found w =>
    obtain ⟨hleft, hfrom⟩ := hs
    simp only [step]
    split
    · rename_i w' hw
      have hlt := Walk.measure_lt hw hc
      refine ⟨⟨hleft, hfrom.next hw⟩, ?_⟩
      simp only [State.measure]
      omega
    · rename_i name p hname
      refine answered_inside ?_
      rw [Walk.next_name hname]
      exact hfrom.lt Nat.one_pos
    · exact ⟨trivial, Nat.succ_pos _⟩
  | done r => exact absurd rfl (hnot r)

end Packets

/-- The number of steps of a packet of `n` bytes, at most. -/
def stepBound (n : ℕ) : ℕ := (n + 2) * (n + 3)

theorem run_succ (c : Bytes) (n : ℕ) : run c (n + 1) = step c (run c n) :=
  iterate_succ_apply' _ _ _

theorem run_of_done {c : Bytes} {k : ℕ} {r : Outcome} (h : run c k = .done r) {n : ℕ} (hn : k ≤ n) :
    run c n = .done r := by
  obtain ⟨m, rfl⟩ := Nat.exists_eq_add_of_le' hn
  rw [run, iterate_add_apply, ← run, h]
  exact iterate_fixed rfl m

/-- A name at an offset to which it comes again goes on to such an offset. -/
theorem next_circular {c : Bytes} {w : Walk} (h : Circular c w.left) :
    ∃ w', w.next c = .more w' ∧ Circular c w'.left := by
  obtain ⟨q, hhop, hback⟩ := Relation.TransGen.head'_iff.mp h
  obtain ⟨w', hw', rfl⟩ := Walk.next_of_hop hhop
  exact ⟨w', hw', .tail' hback hhop⟩

theorem step_circular {c : Bytes} {s : State} (h : s.Circular c) : (step c s).Circular c := by
  cases s with
  | question header w =>
    obtain ⟨w', hw', hc⟩ := next_circular h
    simp only [step, hw']
    exact hc
  | answer header question i left found w =>
    obtain ⟨w', hw', hc⟩ := next_circular h
    simp only [step, hw']
    exact hc
  | start | answers | done => exact absurd h id

theorem run_circular {c : Bytes} {k : ℕ} (h : (run c k).Circular c) {n : ℕ} (hn : k ≤ n) :
    (run c n).Circular c := by
  induction n, hn using Nat.le_induction with
  | base => exact h
  | succ n _ ih =>
    rw [run_succ]
    exact step_circular ih

/-- **When the parse of a packet terminates**: `resolve` returns or raises an error after a number
of steps that depends on the length of the packet only, exactly if no name that it reads comes to
an offset twice. -/
theorem resolve_terminates (t : Tables) (now : ℕ) (c : Bytes) :
    (∃ n ≤ stepBound c.length, ∃ r, resolve t now c n = some (t.deliver now r)) ↔
      ∀ n, ¬ (run c n).Circular c := by
  constructor
  · rintro ⟨n, -, r, hr⟩ k hk
    have hc := run_circular hk (le_max_right n k)
    unfold resolve at hr
    split at hr
    · rename_i r' hdone
      rw [run_of_done hdone (le_max_left n k)] at hc
      exact hc
    · cases hr
  · intro h
    have hstep (s : State) (hs : s.Inside c ∧ ∃ n, s = run c n) (hnot : ¬ ∃ r, s = .done r) :
        ((step c s).Inside c ∧ ∃ n, step c s = run c n) ∧ (step c s).measure c < s.measure c := by
      obtain ⟨hin, n, rfl⟩ := hs
      obtain ⟨hin', hlt⟩ := step_inside hin (h n) fun r hr => hnot ⟨r, hr⟩
      exact ⟨⟨hin', n + 1, (run_succ c n).symm⟩, hlt⟩
    have hle : State.measure c .start ≤ stepBound c.length := by
      simp only [State.measure, stepBound, answerCost]
      rw [show c.length + 2 = c.length + 1 + 1 from rfl, add_mul (c.length + 1) 1, one_mul]
    obtain ⟨n, hn, r, hr⟩ :=
      Transition.exists_finished hstep (stepBound c.length) .start ⟨trivial, 0, rfl⟩ hle
    refine ⟨n, hn, r, ?_⟩
    simp only [resolve, run, hr]

/-- The header of a packet with one question and the given number of answers. -/
def headerBytes (ancount : UInt8) : Bytes := [0x12, 0x34, 0x81, 0x80, 0, 1, 0, ancount, 0, 0, 0, 0]

/-- The address of `a`; the name of the answer is a pointer to the one of the question. -/
def answerPacket : Bytes :=
  headerBytes 1 ++ [1, 97, 0, 0, 1, 0, 1] ++
    [0xc0, 12, 0, 1, 0, 1, 0, 0, 14, 16, 0, 4, 10, 0, 0, 7]

def noTables : Tables := ⟨fun _ => none, fun _ => none, []⟩

/-- The name of the question is a pointer to itself. -/
def loopPacket : Bytes := headerBytes 0 ++ [0xc0, 12]

theorem resolve_loopPacket (t : Tables) (now n : ℕ) : resolve t now loopPacket n = none := by
  have hfixed : step loopPacket (run loopPacket 2) = run loopPacket 2 := by decide +kernel
  have hrun : ∀ r, run loopPacket n ≠ .done r := by
    intro r hr
    have h2 : run loopPacket (2 + n) = .done r := run_of_done hr (Nat.le_add_left _ _)
    obtain ⟨header, w, hq⟩ : ∃ header w, run loopPacket 2 = .question header w := ⟨_, _, rfl⟩
    rw [run, add_comm, iterate_add_apply, ← run, iterate_fixed hfixed,
      hq] at h2
    cases h2
  unfold resolve
  split
  · rename_i r hr
    exact absurd hr (hrun r)
  · rfl

/-- A packet of 14 bytes keeps `resolve` in the loop of `unpack_name`. -/
theorem resolve_never_returns :
    loopPacket.length = 14 ∧ ∀ n, resolve noTables 0 loopPacket n = none :=
  ⟨rfl, resolve_loopPacket noTables 0⟩

end Skynet.Dns
