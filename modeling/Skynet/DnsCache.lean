import Skynet.Dns

/-! # The cache of the name server client

`remote_resolve` looks into `CACHE` and else sends a query: it takes a transaction id that is not
in `request_pool`, puts the query there and waits in `suspend`, until a packet with that id arrives
or the timeout wakes it.  `resolve` handles every packet of the UDP socket.  It writes the
addresses in a packet to `CACHE` under the name in the packet before it looks at the transaction
id, so that a packet nobody has asked for changes the cache (`cache_poisoned`).

`cache_integrity` is about the runs in which packets with addresses answer the query whose id they
carry.

A step is what a coroutine does between two yields; a coroutine that was woken goes on before the
next message.  `CACHE` is a weak table, so an entry may be collected at any time.  `arrivals` and
`results` record the history; no step reads them.  The socket and static hosts are left out. -/

namespace Skynet.Dns

open Function Transition QType Option

/-- A packet that was parsed, and the query with its id at that moment. -/
structure Arrival where
  header : Header
  question : Question
  found : Found
  outstanding : Option Request
deriving DecidableEq, Repr

/-- What `remote_resolve` returns; `none` when it raises an error. -/
structure Result where
  name : Bytes
  qtype : ℕ
  answers : Option (List Address)
deriving DecidableEq, Repr

structure Client where
  tables : Tables
  nextTid : ℕ
  now : ℕ
  /-- the transactions whose timeout is still to come -/
  timers : List ℕ
  /-- the coroutine that was woken: its transaction and its `req` -/
  resumed : Option (ℕ × Request)
  -- the history
  arrivals : List Arrival
  results : List Result

inductive Label where
  /-- `remote_resolve` -/
  | query (name : Bytes) (qtype : ℕ)
  /-- a packet whose parse takes `n` steps -/
  | packet (c : Bytes) (n : ℕ)
  /-- the `i`-th of the timeouts -/
  | timeout (i : ℕ)
  /-- the coroutine that was woken goes on -/
  | resume
  | tick (k : ℕ)
  /-- an entry of the cache is collected -/
  | collect (k : ℕ × Bytes)
deriving DecidableEq, Repr

def lookupCache (t : Tables) (now : ℕ) (name : Bytes) (qtype : ℕ) (ignorettl : Bool) :
    Option (List Address) :=
  (t.cache (qtype, name)).bind fun r =>
    if ignorettl ∨ now < r.ttl then some r.answers else none

/-- `gen_tid`; `none` when its assertion fails. -/
def genTid (pool : ℕ → Option Request) (nextTid : ℕ) : Option ℕ :=
  if (pool nextTid).isNone then some nextTid
  else ((List.range 65535).map (· + 1)).find? fun i => (pool i).isNone

namespace Client

def setPool (s : Client) (tid : ℕ) (req : Option Request) : Client :=
  { s with tables :=
    { s.tables with requestPool := update s.tables.requestPool tid req } }

def finish (s : Client) (r : Result) : Client := { s with results := s.results ++ [r] }

/-- `remote_resolve` up to its wait. -/
def query (s : Client) (name : Bytes) (qtype : ℕ) : Client :=
  match lookupCache s.tables s.now name qtype false with
  | some answers => s.finish ⟨name, qtype, some answers⟩
  | none =>
    match genTid s.tables.requestPool s.nextTid with
    | none => s.finish ⟨name, qtype, none⟩
    | some tid =>
      { s.setPool tid (some ⟨name, qtype, none⟩) with
        nextTid := if 65535 < tid + 1 then 1 else tid + 1
        timers := s.timers ++ [tid] }

/-- `resolve`, when the packet was parsed. -/
def deliver (s : Client) : Outcome → Client
  | .parsed header question found =>
    let tables := s.tables.deliver s.now (.parsed header question found)
    { s with
      tables := tables
      resumed := (tables.requestPool header.tid).map (header.tid, ·)
      arrivals :=
        s.arrivals ++ [⟨header, question, found, s.tables.requestPool header.tid⟩] }
  | .dropped | .error => s

/-- The forked function of `suspend` after its sleep. -/
def expire (s : Client) (tid : ℕ) : Client :=
  match s.tables.requestPool tid with
  | none => s
  | some req => { s.setPool tid none with resumed := some (tid, req) }

/-- `suspend` after its wait. -/
def resume (s : Client) (tid : ℕ) (req : Request) : Client :=
  let answers := req.answers.or (lookupCache s.tables s.now req.name req.qtype true)
  { (s.setPool tid none).finish ⟨req.name, req.qtype, answers⟩ with resumed := none }

def step (s : Client) : Label → Option Client
  | .query name qtype => if s.resumed.isNone then some (s.query name qtype) else none
  | .packet c n =>
    if s.resumed.isNone then
      match run c n with
      | .done r => some (s.deliver r)
      | _ => none
    else none
  | .timeout i =>
    if s.resumed.isNone then
      s.timers[i]?.map fun tid => { s.expire tid with timers := s.timers.eraseIdx i }
    else none
  | .resume => s.resumed.map fun x => s.resume x.1 x.2
  | .tick k => some { s with now := s.now + k }
  | .collect k =>
    some { s with
      tables := { s.tables with cache := update s.tables.cache k none } }

def init : Client := ⟨noTables, 1, 0, [], none, [], []⟩

end Client

def client : System Client Label := ⟨Client.init, Client.step⟩

/-! ### Packets that answer a query -/

/-- The addresses of a type. -/
def Found.addresses (found : Found) (qtype : ℕ) : List Address :=
  if qtype = a then found.ipv4 else if qtype = aaaa then found.ipv6 else []

/-- The packet had the id of a query for `name` and `qtype`, and gave `answers` for that name. -/
def Arrival.Answers (a : Arrival) (name : Bytes) (qtype : ℕ) (answers : List Address) : Prop :=
  (∃ req, a.outstanding = some req ∧ req.name = name ∧ req.qtype = qtype) ∧
    a.question.name = name ∧ a.found.addresses qtype = answers

/-- A packet is genuine: it has addresses only if its id is that of a query, and then it has the
name of the query and addresses of its type. -/
def Client.genuine (s : Client) : Outcome → Bool
  | .parsed header question found =>
    match s.tables.requestPool header.tid with
    | none => found.ipv4 = [] && found.ipv6 = []
    | some req =>
      question.name = req.name && (found.ipv4 = [] || req.qtype = a) &&
        (found.ipv6 = [] || req.qtype = aaaa)
  | .dropped | .error => true

def State.outcome : State → Option Outcome
  | .done r => some r
  | _ => none

def Label.Genuine (s : Client) : Label → Prop
  | .packet c n => (run c n).outcome.all s.genuine = true
  | _ => True

instance (s : Client) : DecidablePred (Label.Genuine s)
  | .packet c n => inferInstanceAs (Decidable ((run c n).outcome.all s.genuine = true))
  | .query _ _ | .timeout _ | .resume | .tick _ | .collect _ => inferInstanceAs (Decidable True)

/-! ### What a packet does to the tables -/

section Deliver

variable {t : Tables} {now : ℕ} {header : Header} {question : Question} {found : Found}

theorem remember_nil (t : Tables) (now qtype : ℕ) (name : Bytes) (ttl : Option ℕ) :
    t.remember now qtype name [] ttl = t := if_pos rfl

theorem remember_requestPool (t : Tables) (now qtype : ℕ) (name : Bytes) (ips : List Address)
    (ttl : Option ℕ) : (t.remember now qtype name ips ttl).requestPool = t.requestPool := by
  unfold Tables.remember
  split_ifs <;> rfl

/-- The only entry that may be new is the one for `qtype` and `name`. -/
theorem remember_cache (t : Tables) (now qtype : ℕ) (name : Bytes) (ips : List Address)
    (ttl : Option ℕ) :
    (∀ k, k ≠ (qtype, name) → (t.remember now qtype name ips ttl).cache k = t.cache k) ∧
    ∀ e, (t.remember now qtype name ips ttl).cache (qtype, name) = some e →
      t.cache (qtype, name) = some e ∨ ips = e.answers := by
  unfold Tables.remember
  split_ifs
  · exact ⟨fun _ _ => rfl, fun _ h => .inl h⟩
  · refine ⟨fun k hk => update_of_ne hk _ _, fun e he => ?_⟩
    rcases update_cases he with ⟨-, ⟨⟩⟩ | ⟨hne, -⟩
    · exact .inr rfl
    · exact absurd rfl hne

/-- The tables after the addresses were put into the cache. -/
def remembered (t : Tables) (now : ℕ) (question : Question) (found : Found) : Tables :=
  (t.remember now a question.name found.ipv4 found.ttl).remember now aaaa
    question.name found.ipv6 found.ttl

theorem remembered_requestPool : (remembered t now question found).requestPool = t.requestPool := by
  rw [remembered, remember_requestPool, remember_requestPool]

theorem remembered_spec (t : Tables) (now : ℕ) (question : Question) {qtype : ℕ}
    (h4 : found.ipv4 = [] ∨ qtype = a) (h6 : found.ipv6 = [] ∨ qtype = aaaa) :
    (∀ k, k ≠ (qtype, question.name) →
      (remembered t now question found).cache k = t.cache k) ∧
    ∀ e, (remembered t now question found).cache (qtype, question.name) = some e →
      t.cache (qtype, question.name) = some e ∨ found.addresses qtype = e.answers := by
  unfold remembered
  rcases h4 with h4 | rfl
  · rw [h4, remember_nil]
    rcases h6 with h6 | rfl
    · rw [h6, remember_nil]
      exact ⟨fun _ _ => rfl, fun _ h => .inl h⟩
    · exact remember_cache ..
  · rw [h6.resolve_right (by decide), remember_nil]
    exact remember_cache ..

theorem deliver_none (hnone : t.requestPool header.tid = none) :
    t.deliver now (.parsed header question found) = remembered t now question found := by
  have hpool : (remembered t now question found).requestPool header.tid = none := by
    rw [remembered_requestPool, hnone]
  simp only [remembered] at hpool
  simp only [Tables.deliver, remembered, hpool]

theorem deliver_some (now : ℕ) (question : Question) (found : Found) {req : Request}
    (hreq : t.requestPool header.tid = some req) :
    ∃ answers, (t.deliver now (.parsed header question found)).cache =
        (remembered t now question found).cache ∧
      (t.deliver now (.parsed header question found)).requestPool =
        update t.requestPool header.tid (some { req with answers := answers }) ∧
      ∀ l, answers = some l → req.answers = some l ∨
        ∃ e, (remembered t now question found).cache (req.qtype, req.name) = some e ∧
          e.answers = l := by
  have hpool : (remembered t now question found).requestPool = t.requestPool :=
    remembered_requestPool
  simp only [remembered] at hpool
  cases hentry : (remembered t now question found).cache (req.qtype, req.name) with
  | none =>
    refine ⟨req.answers, ?_, ?_, fun l hl => .inl hl⟩
    all_goals
      simp only [remembered] at hentry
      simp only [Tables.deliver, remembered, hpool, hreq, hentry]
  | some e =>
    refine ⟨some e.answers, ?_, ?_, fun l hl => .inr ⟨e, rfl, some.inj hl⟩⟩
    all_goals
      simp only [remembered] at hentry
      simp only [Tables.deliver, remembered, hpool, hreq, hentry]

end Deliver

/-! ### Runs -/

/-- The answers for a name and a type are those of a packet. -/
def Client.Known (s : Client) (name : Bytes) (qtype : ℕ) (answers : List Address) : Prop :=
  ∃ a ∈ s.arrivals, a.Answers name qtype answers

structure Sound (s : Client) : Prop where
  cache : ∀ qtype name e, s.tables.cache (qtype, name) = some e → s.Known name qtype e.answers
  pool : ∀ tid req l, s.tables.requestPool tid = some req → req.answers = some l →
    s.Known req.name req.qtype l
  resumed : ∀ tid req l, s.resumed = some (tid, req) → req.answers = some l →
    s.Known req.name req.qtype l
  results : ∀ r ∈ s.results, ∀ l, r.answers = some l → s.Known r.name r.qtype l

theorem sound_init : Sound Client.init := ⟨nofun, nofun, nofun, nofun⟩

section Steps

variable {s : Client}

theorem Sound.lookup (hs : Sound s) {name : Bytes} {qtype : ℕ} {b : Bool} {l : List Address}
    (h : lookupCache s.tables s.now name qtype b = some l) : s.Known name qtype l := by
  obtain ⟨e, he, hif⟩ := bind_eq_some_iff.mp h
  split_ifs at hif
  cases hif
  exact hs.cache qtype name e he

theorem Sound.finish (hs : Sound s) {r : Result}
    (hr : ∀ l, r.answers = some l → s.Known r.name r.qtype l) : Sound (s.finish r) := by
  refine ⟨hs.cache, hs.pool, hs.resumed, fun x hx l hl => ?_⟩
  rcases List.mem_append.mp hx with hx | hx
  · exact hs.results x hx l hl
  · rw [List.mem_singleton.mp hx] at hl ⊢
    exact hr l hl

/-- An entry of `request_pool` is replaced by one without answers. -/
theorem Sound.setPool (hs : Sound s) (tid : ℕ) {req : Option Request}
    (hreq : ∀ x, req = some x → x.answers = none) : Sound (s.setPool tid req) := by
  refine ⟨hs.cache, fun tid' x l hx hl => ?_, hs.resumed, hs.results⟩
  rcases update_cases hx with ⟨-, hx⟩ | ⟨-, hx⟩
  · rw [hreq x hx] at hl
    cases hl
  · exact hs.pool tid' x l hx hl

theorem sound_query (hs : Sound s) (name : Bytes) (qtype : ℕ) : Sound (s.query name qtype) := by
  unfold Client.query
  split
  · rename_i answers hlookup
    exact hs.finish fun l hl => some.inj hl ▸ hs.lookup hlookup
  · split
    · exact hs.finish nofun
    · rename_i tid htid
      have hpool : Sound (s.setPool tid (some ⟨name, qtype, none⟩)) :=
        hs.setPool tid fun x hx => by rw [← some.inj hx]
      exact { hpool with }

theorem sound_expire (hs : Sound s) (tid : ℕ) : Sound (s.expire tid) := by
  unfold Client.expire
  split
  · exact hs
  · rename_i req hreq
    have hpool : Sound (s.setPool tid none) := hs.setPool tid nofun
    refine ⟨hpool.cache, hpool.pool, fun tid' x l hx hl => ?_, hpool.results⟩
    cases hx
    exact hs.pool tid req l hreq hl

theorem sound_resume (hs : Sound s) {tid : ℕ} {req : Request}
    (h : s.resumed = some (tid, req)) : Sound (s.resume tid req) := by
  have hpool : Sound (s.setPool tid none) := hs.setPool tid nofun
  have hfinish := hpool.finish (r := ⟨req.name, req.qtype,
    req.answers.or (lookupCache s.tables s.now req.name req.qtype true)⟩) fun l hl => ?_
  · exact ⟨hfinish.cache, hfinish.pool, nofun, hfinish.results⟩
  · rcases or_eq_some_iff.mp hl with hl | ⟨-, hl⟩
    · exact hs.resumed tid req l h hl
    · exact hs.lookup hl

theorem deliver_genuine {t : Client} {header : Header} {question : Question} {found : Found}
    (ht : s.deliver (.parsed header question found) = t)
    (h : s.genuine (.parsed header question found) = true) :
    (s.tables.requestPool header.tid = none ∧ t.tables = s.tables ∧ t.resumed = none) ∨
    ∃ req answers, s.tables.requestPool header.tid = some req ∧ question.name = req.name ∧
      (∀ k, k ≠ (req.qtype, req.name) → t.tables.cache k = s.tables.cache k) ∧
      (∀ e, t.tables.cache (req.qtype, req.name) = some e →
        s.tables.cache (req.qtype, req.name) = some e ∨ found.addresses req.qtype = e.answers) ∧
      t.tables.requestPool =
        update s.tables.requestPool header.tid (some { req with answers := answers }) ∧
      t.resumed = some (header.tid, { req with answers := answers }) ∧
      ∀ l, answers = some l → req.answers = some l ∨
        ∃ e, t.tables.cache (req.qtype, req.name) = some e ∧ e.answers = l := by
  subst ht
  unfold Client.genuine at h
  cases hreq : s.tables.requestPool header.tid with
  | none =>
    simp only [hreq, Bool.and_eq_true, decide_eq_true_eq] at h
    have htables : s.tables.deliver s.now (.parsed header question found) = s.tables := by
      rw [deliver_none hreq, remembered, h.1, h.2, remember_nil, remember_nil]
    refine .inl ⟨rfl, htables, ?_⟩
    simp only [Client.deliver, htables, hreq, map_none]
  | some req =>
    simp only [hreq, Bool.and_eq_true, Bool.or_eq_true, decide_eq_true_eq] at h
    obtain ⟨⟨hname, h4⟩, h6⟩ := h
    obtain ⟨hother, hentry⟩ := remembered_spec s.tables s.now question h4 h6
    obtain ⟨answers, hcache, hpool, hanswers⟩ := deliver_some s.now question found hreq
    rw [hname, ← hcache] at hother hentry
    rw [← hcache] at hanswers
    refine .inr ⟨req, answers, rfl, hname, hother, hentry, hpool, ?_, hanswers⟩
    simp only [Client.deliver, hpool, update_self, map_some]

theorem Client.Known.deliver {name : Bytes} {qtype : ℕ} {l : List Address}
    (h : s.Known name qtype l) (r : Outcome) : (s.deliver r).Known name qtype l := by
  obtain ⟨a, ha, h⟩ := h
  refine ⟨a, ?_, h⟩
  cases r with
  | dropped | error => exact ha
  | parsed => exact List.mem_append_left _ ha

theorem sound_deliver (hs : Sound s) {r : Outcome} (h : s.genuine r = true) :
    Sound (s.deliver r) := by
  cases r with
  | dropped | error => exact hs
  | parsed header question found =>
    obtain ⟨t, ht⟩ : ∃ t, s.deliver (.parsed header question found) = t := ⟨_, rfl⟩
    have hknown {name : Bytes} {qtype : ℕ} {l : List Address} (h : s.Known name qtype l) :
        t.Known name qtype l := ht ▸ h.deliver _
    have hresults : t.results = s.results := by rw [← ht]; rfl
    rw [ht]
    rcases deliver_genuine ht h with ⟨hnone, htables, hresumed⟩ |
      ⟨req, answers, hreq, hname, hother, hentry, hpool, hresumed, hanswers⟩
    · refine ⟨?_, ?_, ?_, fun x hx l hl => hknown (hs.results x (hresults ▸ hx) l hl)⟩
      · rw [htables]
        exact fun qtype name e he => hknown (hs.cache qtype name e he)
      · rw [htables]
        exact fun tid x l hx hl => hknown (hs.pool tid x l hx hl)
      · rw [hresumed]
        exact nofun
    · -- the packet itself is the source of the new entry
      have hnew : t.Known req.name req.qtype (found.addresses req.qtype) := by
        rw [← ht]
        exact ⟨_, List.mem_append_right _ (List.mem_singleton.mpr rfl), ⟨req, hreq, rfl, rfl⟩,
          hname, rfl⟩
      have hcache (qtype : ℕ) (name : Bytes) (e : CacheEntry)
          (he : t.tables.cache (qtype, name) = some e) : t.Known name qtype e.answers := by
        by_cases hk : (qtype, name) = (req.qtype, req.name)
        · obtain ⟨rfl, rfl⟩ := Prod.mk.inj hk
          rcases hentry e he with hold | hfound
          · exact hknown (hs.cache _ _ e hold)
          · exact hfound ▸ hnew
        · exact hknown (hs.cache qtype name e ((hother _ hk).symm.trans he))
      have hreqknown (l : List Address) (hl : answers = some l) : t.Known req.name req.qtype l := by
        rcases hanswers l hl with hold | ⟨e, he, rfl⟩
        · exact hknown (hs.pool _ req l hreq hold)
        · exact hcache _ _ e he
      refine ⟨hcache, fun tid x l hx hl => ?_, fun tid x l hx hl => ?_,
        fun x hx l hl => hknown (hs.results x (hresults ▸ hx) l hl)⟩
      · rcases update_cases (hpool ▸ hx) with ⟨-, ⟨⟩⟩ | ⟨-, hx⟩
        · exact hreqknown l hl
        · exact hknown (hs.pool tid x l hx hl)
      · rw [hresumed] at hx
        cases hx
        exact hreqknown l hl

end Steps

variable {s t : Client}

theorem Label.Genuine.outcome {c : Bytes} {n : ℕ} {r : Outcome} (h : (Label.packet c n).Genuine s)
    (hr : run c n = .done r) : s.genuine r = true := by
  simp only [Label.Genuine, hr, State.outcome, all_some] at h
  exact h

theorem step_packet {c : Bytes} {n : ℕ} (h : s.step (.packet c n) = some t) :
    s.resumed = none ∧ ∃ r, run c n = .done r ∧ t = s.deliver r := by
  simp only [Client.step] at h
  split_ifs at h with hready
  split at h
  · rename_i r hr
    exact ⟨isNone_iff_eq_none.mp hready, r, hr, (some.inj h).symm⟩
  · cases h

theorem Sound.step {a : Label} (hs : Sound s) (ha : a.Genuine s) (h : s.step a = some t) :
    Sound t := by
  cases a with
  | query name qtype =>
    simp only [Client.step] at h
    split_ifs at h
    cases h
    exact sound_query hs name qtype
  | packet c n =>
    obtain ⟨-, r, hr, rfl⟩ := step_packet h
    exact sound_deliver hs (ha.outcome hr)
  | timeout i =>
    simp only [Client.step] at h
    split_ifs at h
    obtain ⟨tid, -, rfl⟩ := map_eq_some_iff.mp h
    have hexpire := sound_expire hs tid
    exact { hexpire with }
  | resume =>
    obtain ⟨⟨tid, req⟩, hresumed, rfl⟩ := map_eq_some_iff.mp h
    exact sound_resume hs hresumed
  | tick k =>
    cases h
    exact { hs with }
  | collect k =>
    cases h
    refine ⟨fun qtype name e he => ?_, hs.pool, hs.resumed, hs.results⟩
    rcases update_cases he with ⟨-, ⟨⟩⟩ | ⟨-, he⟩
    exact hs.cache qtype name e he

theorem query_cache (s : Client) (name : Bytes) (qtype : ℕ) :
    (s.query name qtype).tables.cache = s.tables.cache := by
  unfold Client.query
  split
  · rfl
  · split <;> rfl

theorem expire_cache (s : Client) (tid : ℕ) : (s.expire tid).tables.cache = s.tables.cache := by
  unfold Client.expire
  split <;> rfl

theorem cache_of_step {a : Label} (ha : ∀ c n, a ≠ .packet c n) (h : s.step a = some t)
    {k : ℕ × Bytes} {e : CacheEntry} (he : t.tables.cache k = some e) :
    s.tables.cache k = some e := by
  cases a with
  | query name qtype =>
    simp only [Client.step] at h
    split_ifs at h
    cases h
    rwa [query_cache] at he
  | packet c n => exact absurd rfl (ha c n)
  | timeout i =>
    simp only [Client.step] at h
    split_ifs at h
    obtain ⟨tid, -, rfl⟩ := map_eq_some_iff.mp h
    exact (congrFun (expire_cache s tid) k).symm.trans he
  | resume =>
    obtain ⟨⟨tid, req⟩, -, rfl⟩ := map_eq_some_iff.mp h
    exact he
  | tick n =>
    cases h
    exact he
  | collect k' =>
    cases h
    rcases update_cases he with ⟨-, ⟨⟩⟩ | ⟨-, he⟩
    exact he

/-- **Cache integrity**: when packets with addresses answer the query whose id they carry, every
entry of the cache and every answer that a query gets comes from a packet that had the id of a
query for that name and type.  A packet changes only the entry and the query it is for, or nothing;
other steps write no entry. -/
theorem cache_integrity {s : Client} (h : client.ReachableVia (fun s a => a.Genuine s) s) :
    (∀ qtype name e, s.tables.cache (qtype, name) = some e →
      ∃ a ∈ s.arrivals, a.Answers name qtype e.answers) ∧
    (∀ r ∈ s.results, ∀ l, r.answers = some l → ∃ a ∈ s.arrivals, a.Answers r.name r.qtype l) ∧
    (∀ c n t, (Label.packet c n).Genuine s → s.step (.packet c n) = some t →
      (∃ header question found req, run c n = .done (.parsed header question found) ∧
        s.tables.requestPool header.tid = some req ∧ question.name = req.name ∧
        (∀ k, k ≠ (req.qtype, req.name) → t.tables.cache k = s.tables.cache k) ∧
        ∀ tid, tid ≠ header.tid → t.tables.requestPool tid = s.tables.requestPool tid) ∨
      t.tables = s.tables ∧ t.resumed = none) ∧
    ∀ a t, (∀ c n, a ≠ Label.packet c n) → s.step a = some t →
      ∀ k e, t.tables.cache k = some e → s.tables.cache k = some e := by
  have hsound : Sound s := h.invariant sound_init fun _ _ _ hs ha hstep => hs.step ha hstep
  refine ⟨hsound.cache, hsound.results, fun c n t hgenuine ht => ?_, fun a t ha ht k e he => ?_⟩
  · obtain ⟨hresumed, r, hr, rfl⟩ := step_packet ht
    cases r with
    | dropped | error => exact .inr ⟨rfl, hresumed⟩
    | parsed header question found =>
      rcases deliver_genuine rfl (hgenuine.outcome hr) with ⟨-, htables, hnone⟩ |
        ⟨req, answers, hreq, hname, hother, -, hpool, -, -⟩
      · exact .inr ⟨htables, hnone⟩
      · refine .inl ⟨header, question, found, req, hr, hreq, hname, hother, fun tid ht => ?_⟩
        rw [hpool, update_of_ne ht]
  · exact cache_of_step ha ht he

/-- The answer to a query for the address of `a`; its id is that of the first query. -/
def firstAnswer : Bytes := [0, 1] ++ answerPacket.drop 2

/-- A query, its answer, and a second query that is answered from the cache. -/
theorem cache_integrity_of_answer : ∃ s, client.ReachableVia (fun s a => a.Genuine s) s ∧
    (∀ r ∈ s.results, ∀ l, r.answers = some l →
      ∃ a ∈ s.arrivals, a.Answers r.name r.qtype l) ∧
    s.results = [⟨[97], a, some [.ipv4 [10, 0, 0, 7]]⟩,
      ⟨[97], a, some [.ipv4 [10, 0, 0, 7]]⟩] := by
  obtain ⟨s, hs, hresults⟩ := client.exists_reachable (fun s a => a.Genuine s)
    [.query [97] a, .packet firstAnswer 8, .resume, .query [97] a]
    (fun s => s.results = [⟨[97], a, some [.ipv4 [10, 0, 0, 7]]⟩,
      ⟨[97], a, some [.ipv4 [10, 0, 0, 7]]⟩]) (by decide +kernel)
  exact ⟨s, hs, (cache_integrity hs).2.1, hresults⟩

/-- Only the address of `b` was asked for, which opens the socket, and a packet with the id of no
query puts an address for `a` into the cache; the next query gets it. -/
theorem cache_poisoned : ∃ s, client.exec client.init [.query [98] a, .packet answerPacket 8] = some s ∧
    s.arrivals.map (fun x => (x.header.tid, x.outstanding)) = [(0x1234, none)] ∧
    s.tables.cache (a, [97]) = some ⟨[.ipv4 [10, 0, 0, 7]], 360000⟩ ∧
    (s.query [97] a).results = [⟨[97], a, some [.ipv4 [10, 0, 0, 7]]⟩] :=
  client.exists_exec [.query [98] a, .packet answerPacket 8]
    (fun s => s.arrivals.map (fun x => (x.header.tid, x.outstanding)) = [(0x1234, none)] ∧
      s.tables.cache (a, [97]) = some ⟨[.ipv4 [10, 0, 0, 7]], 360000⟩ ∧
      (s.query [97] a).results = [⟨[97], a, some [.ipv4 [10, 0, 0, 7]]⟩])
    (by decide +kernel)

end Skynet.Dns
