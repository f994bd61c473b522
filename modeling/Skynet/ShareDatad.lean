import Skynet.Transition

/-! # The service of the shared tables

The model of `sharedatad.lua`: the objects by name (`pool`), the objects that are not deleted
(`objmap`), their reference counts and the responses that wait for a new version (`watch`).

A command that raises an error keeps what it did before, so the commands are computations whose
errors carry the state.  What the text of a configuration does is an argument of the command, as is
the address that `core.new` returns; that it accepts a table is up to `Host.accepts`.

`CMD.update` takes the old object out of the pool before it makes the new one, and nothing puts it
back when that fails (`failed_update_of_some`).  The other objects stay (`failed_update_keeps`). -/

namespace Skynet.ShareDatad

open Function

/-- The Lua tables and the converter. -/
structure Host (V : Type) where
  empty : V
  accepts : V → Bool

/-- What loading and running a text does; it may return a table. -/
inductive Chunk (V : Type) where
  | noload
  | raises
  | returns (env : V) (ret : Option V)

/-- The second argument of `CMD.new` and `CMD.update`, by its type. -/
inductive Arg (V : Type) where
  | table (v : V)
  | text (c : Chunk V)
  | nil
  | other

inductive Error where
  /-- `Unknown data type` -/
  | unknownType
  /-- `load` or `loadfile` gives no function -/
  | load
  /-- the function raises an error -/
  | chunk
  /-- `core.new` raises an error -/
  | convert
  /-- an assertion about `pool[name]` or `objmap[v.obj]` -/
  | assertion
deriving DecidableEq

/-- The entry of a name; the responses in `watch` by their number. -/
structure Entry (V : Type) where
  value : V
  obj : ℕ
  watch : List ℕ

/-- `pool_count[name]` -/
structure Count where
  n : ℕ
  threshold : ℕ
deriving DecidableEq

/-- The value of an object in `objmap`: its entry, or `true` when it waits for the collector. -/
inductive Owner where
  | entry
  | collect
deriving DecidableEq

structure Service (V : Type) where
  pool : String → Option (Entry V)
  poolCount : String → Option Count
  objmap : ℕ → Option Owner
  ref : ℕ → BitVec 32
  dirty : ℕ → Bool
  collectTick : ℕ
  /-- the responses that were sent, with the object or `nil` -/
  responses : List (ℕ × Option ℕ)

variable {V : Type}

abbrev Cmd (V α : Type) := EStateM Error (Service V) α

/-! ### The functions of the host -/

/-- `core.new`: the reference count starts with what the memory holds. -/
def hostNew (host : Host V) (value : V) (cobj : ℕ) (junk : BitVec 32) : Cmd V Unit :=
  if host.accepts value then
    modify fun s => { s with
      ref := update s.ref cobj junk, dirty := update s.dirty cobj false }
  else throw .convert

def incref (cobj : ℕ) : Cmd V Unit :=
  modify fun s => { s with ref := update s.ref cobj (s.ref cobj + 1) }

def decref (cobj : ℕ) : Cmd V Unit :=
  modify fun s => { s with ref := update s.ref cobj (s.ref cobj - 1) }

def markdirty (cobj : ℕ) : Cmd V Unit :=
  modify fun s => { s with dirty := update s.dirty cobj true }

/-- `response(true, obj)` -/
def respond (id : ℕ) (obj : Option ℕ) : Cmd V Unit :=
  modify fun s => { s with responses := s.responses ++ [(id, obj)] }

/-! ### The commands -/

def newobj (host : Host V) (name : String) (tbl : V) (cobj : ℕ) (junk : BitVec 32) : Cmd V Unit := do
  if ((← get).pool name).isSome then throw .assertion
  hostNew host tbl cobj junk
  incref cobj
  modify fun s => { s with
    objmap := update s.objmap cobj (some .entry)
    pool := update s.pool name (some ⟨tbl, cobj, []⟩)
    poolCount := update s.poolCount name (some ⟨0, 16⟩) }

/-- The table that `CMD.new` makes an object of. -/
def Arg.value (host : Host V) : Arg V → Except Error V
  | .table v => .ok v
  | .text .noload => .error .load
  | .text .raises => .error .chunk
  | .text (.returns env ret) => .ok (ret.getD env)
  | .nil => .ok host.empty
  | .other => .error .unknownType

def new (host : Host V) (name : String) (t : Arg V) (cobj : ℕ) (junk : BitVec 32) : Cmd V Unit :=
  match t.value host with
  | .ok value => newobj host name value cobj junk
  | .error e => throw e

/-- All responses are sent with the same object. -/
def respondAll (obj : Option ℕ) : List ℕ → Cmd V Unit
  | [] => pure ()
  | id :: ids => do
      respond id obj
      respondAll obj ids

def delete (name : String) : Cmd V Unit := do
  let s ← get
  match s.pool name with
  | none => throw .assertion
  | some v =>
    set { s with
      pool := update s.pool name none
      poolCount := update s.poolCount name none }
    if s.objmap v.obj = none then throw .assertion
    modify fun s => { s with objmap := update s.objmap v.obj (some .collect) }
    decref v.obj
    respondAll none v.watch

def query (name : String) : Cmd V ℕ := do
  match (← get).pool name with
  | none => throw .assertion
  | some v =>
    incref v.obj
    pure v.obj

def confirm (cobj : ℕ) : Cmd V Unit := do
  if (← get).objmap cobj ≠ none then decref cobj

/-- The loop of `CMD.update`: each response gets the new object with a reference. -/
def notify (cobj : ℕ) : List ℕ → Cmd V Unit
  | [] => pure ()
  | id :: ids => do
      incref cobj
      respond id (some cobj)
      notify cobj ids

/-- What `CMD.update` does with the old entry before it calls `CMD.new`. -/
def dismantle (name : String) (v : Entry V) : Cmd V Unit := do
  modify fun s => { s with objmap := update s.objmap v.obj (some .collect) }
  decref v.obj
  modify fun s => { s with
    pool := update s.pool name none
    poolCount := update s.poolCount name none }

def collect1min : Cmd V Unit := modify fun s => { s with collectTick := min s.collectTick 1 }

def update (host : Host V) (name : String) (t : Arg V) (cobj : ℕ) (junk : BitVec 32) : Cmd V Unit := do
  match (← get).pool name with
  | none =>
    new host name t cobj junk
    collect1min
  | some v =>
    dismantle name v
    new host name t cobj junk
    markdirty v.obj
    notify cobj v.watch
    collect1min

/-- `CMD.monitor`; `alive` is the answer of a response to `TEST`. -/
def monitor (name : String) (obj id : ℕ) (alive : ℕ → Bool) : Cmd V (Option ℕ) := do
  let s ← get
  match s.pool name, s.poolCount name with
  | some v, some c =>
    if obj ≠ v.obj then
      incref v.obj
      pure (some v.obj)
    else
      let checked := c.threshold < c.n + 1
      let watch := if checked then v.watch.filter alive else v.watch
      let n := c.n + 1 - (v.watch.length - watch.length)
      set { s with
        poolCount := Function.update s.poolCount name
          (some ⟨n, if checked then n * 2 else c.threshold⟩)
        pool := Function.update s.pool name (some { v with watch := watch ++ [id] }) }
      pure none
  | _, _ => throw .assertion

/-- A round of `collectobj`. -/
def collectobj : Cmd V Unit := modify fun s =>
  if s.collectTick = 0 then
    { s with
      collectTick := 10
      objmap := fun obj =>
        if s.objmap obj = some .collect ∧ (s.ref obj).toInt ≤ 0 then none else s.objmap obj }
  else { s with collectTick := s.collectTick - 1 }

/-! ### Runs -/

/-- A message to the service, a round of the collector, or a client that boxes an object or
releases it. -/
inductive Label (V : Type) where
  | new (name : String) (t : Arg V) (cobj : ℕ) (junk : BitVec 32)
  | delete (name : String)
  | query (name : String)
  | confirm (cobj : ℕ)
  | update (name : String) (t : Arg V) (cobj : ℕ) (junk : BitVec 32)
  | monitor (name : String) (obj id : ℕ) (alive : ℕ → Bool)
  | collect
  | box (cobj : ℕ)
  | release (cobj : ℕ)

/-- The state after a command, whether it returns or raises an error. -/
def after {α : Type} (c : Cmd V α) (s : Service V) : Service V :=
  match c s with
  | .ok _ t | .error _ t => t

/-- A new object has an address that no object has. -/
def step (host : Host V) (s : Service V) : Label V → Option (Service V)
  | .new name t cobj junk =>
    if s.objmap cobj = none then some (after (new host name t cobj junk) s) else none
  | .delete name => some (after (delete name) s)
  | .query name => some (after (query name) s)
  | .confirm cobj => some (after (confirm cobj) s)
  | .update name t cobj junk =>
    if s.objmap cobj = none then some (after (update host name t cobj junk) s) else none
  | .monitor name obj id alive => some (after (monitor name obj id alive) s)
  | .collect => some (after collectobj s)
  | .box cobj => some (after (incref cobj) s)
  | .release cobj => some (after (decref cobj) s)

def system (host : Host V) : Transition.System (Service V) (Label V) where
  init := ⟨fun _ => none, fun _ => none, fun _ => none, fun _ => 0, fun _ => false, 10, []⟩
  step := step host

/-! ### What the commands do -/

/-- The state with a new object. -/
def Service.added (s : Service V) (name : String) (value : V) (cobj : ℕ) (junk : BitVec 32) : Service V :=
  { s with
    pool := Function.update s.pool name (some ⟨value, cobj, []⟩)
    poolCount := Function.update s.poolCount name (some ⟨0, 16⟩)
    objmap := Function.update s.objmap cobj (some .entry)
    ref := Function.update s.ref cobj (junk + 1)
    dirty := Function.update s.dirty cobj false }

/-- The state without the entry of a name; its object waits for the collector. -/
def Service.dismantled (s : Service V) (name : String) (v : Entry V) : Service V :=
  { s with
    pool := Function.update s.pool name none
    poolCount := Function.update s.poolCount name none
    objmap := Function.update s.objmap v.obj (some .collect)
    ref := Function.update s.ref v.obj (s.ref v.obj - 1) }

/-- The state after the monitors of the old entry were told of the new object. -/
def Service.notified (s : Service V) (v : Entry V) (cobj : ℕ) : Service V :=
  { s with
    ref := Function.update s.ref cobj (s.ref cobj + v.watch.length)
    dirty := Function.update s.dirty v.obj true
    collectTick := min s.collectTick 1
    responses := s.responses ++ v.watch.map fun id => (id, some cobj) }

variable {host : Host V} {s s' : Service V} {name : String} {t : Arg V} {cobj : ℕ} {junk : BitVec 32}

theorem get_bind {α : Type} (f : Service V → Cmd V α) (s : Service V) :
    (get >>= f : Cmd V α) s = f s s := rfl

theorem after_modify (f : Service V → Service V) (s : Service V) :
    after (modify f : Cmd V Unit) s = f s := rfl

/-- `CMD.new` changes nothing when it fails. -/
theorem new_cases (host : Host V) (name : String) (t : Arg V) (cobj : ℕ) (junk : BitVec 32) (s : Service V) :
    (∃ e, new host name t cobj junk s = .error e s) ∨
      s.pool name = none ∧ ∃ value, new host name t cobj junk s =
        .ok () (s.added name value cobj junk) := by
  rw [new]
  cases t.value host with
  | error e => exact .inl ⟨e, rfl⟩
  | ok value =>
    cases hpool : s.pool name with
    | some v =>
      refine .inl ⟨.assertion, ?_⟩
      simp only [newobj, get_bind, hpool]
      rfl
    | none =>
      by_cases haccepts : host.accepts value = true
      · refine .inr ⟨rfl, value, ?_⟩
        have hrun : newobj host name value cobj junk s = .ok () { s.added name value cobj junk with
            ref := Function.update (Function.update s.ref cobj junk) cobj
              (Function.update s.ref cobj junk cobj + 1) } := by
          simp only [newobj, hostNew, get_bind, hpool, haccepts]
          rfl
        refine hrun.trans ?_
        rw [update_self, update_idem]
        rfl
      · refine .inl ⟨.convert, ?_⟩
        simp only [newobj, hostNew, get_bind, hpool, haccepts]
        rfl

theorem notify_eq (cobj : ℕ) (watch : List ℕ) (s : Service V) :
    notify cobj watch s = .ok () { s with
      ref := Function.update s.ref cobj (s.ref cobj + watch.length)
      responses := s.responses ++ watch.map fun id => (id, some cobj) } := by
  induction watch generalizing s with
  | nil => simp [notify, Pure.pure, EStateM.pure]
  | cons id watch ih =>
    have hstep : notify cobj (id :: watch) s = notify cobj watch { s with
        ref := Function.update s.ref cobj (s.ref cobj + 1)
        responses := s.responses ++ [(id, some cobj)] } := rfl
    rw [hstep, ih]
    simp only [update_self, update_idem, List.length_cons, List.map_cons,
      List.append_assoc, List.singleton_append]
    rw [Nat.cast_succ, add_right_comm, add_assoc]

theorem update_of_none (host : Host V) (t : Arg V) (cobj : ℕ) (junk : BitVec 32)
    (hpool : s.pool name = none) : (∃ e, update host name t cobj junk s = .error e s) ∨
      ∃ value, update host name t cobj junk s =
        .ok () { s.added name value cobj junk with collectTick := min s.collectTick 1 } := by
  simp only [update, get_bind, hpool]
  simp only [Bind.bind, EStateM.bind]
  rcases new_cases host name t cobj junk s with ⟨e, he⟩ | ⟨-, value, hvalue⟩
  · exact .inl ⟨e, by rw [he]⟩
  · refine .inr ⟨value, ?_⟩
    rw [hvalue]
    rfl

variable {v : Entry V}

/-- `CMD.update` of a name that has an object: the old entry is gone in both cases. -/
theorem update_of_some (host : Host V) (t : Arg V) (cobj : ℕ) (junk : BitVec 32)
    (hpool : s.pool name = some v) :
    (∃ e, update host name t cobj junk s = .error e (s.dismantled name v)) ∨
      ∃ value, update host name t cobj junk s =
        .ok () (((s.dismantled name v).added name value cobj junk).notified v cobj) := by
  have hrun : update host name t cobj junk s =
      (do
        new host name t cobj junk
        markdirty v.obj
        notify cobj v.watch
        collect1min : Cmd V Unit) (s.dismantled name v) := by
    simp only [update, get_bind, hpool]
    rfl
  rw [hrun]
  simp only [Bind.bind, EStateM.bind]
  rcases new_cases host name t cobj junk (s.dismantled name v) with ⟨e, he⟩ | ⟨-, value, hvalue⟩
  · exact .inl ⟨e, by rw [he]⟩
  · refine .inr ⟨value, ?_⟩
    rw [hvalue]
    simp only [markdirty, modify, modifyGet, MonadStateOf.modifyGet, EStateM.modifyGet, notify_eq,
      collect1min]
    rfl

theorem query_of_some (hpool : s.pool name = some v) : query name s = .ok v.obj { s with
      ref := Function.update s.ref v.obj (s.ref v.obj + 1) } := by
  simp only [query, get_bind, hpool]
  rfl

theorem query_of_none (hpool : s.pool name = none) : query name s = .error .assertion s := by
  simp only [query, get_bind, hpool]
  rfl

theorem respondAll_eq (obj : Option ℕ) (watch : List ℕ) (s : Service V) :
    ∃ sent, respondAll obj watch s = .ok () { s with responses := sent } := by
  induction watch generalizing s with
  | nil => exact ⟨s.responses, rfl⟩
  | cons id watch ih =>
    obtain ⟨sent, h⟩ := ih { s with responses := s.responses ++ [(id, obj)] }
    exact ⟨sent, h⟩

theorem monitor_cases (s : Service V) (name : String) (obj id : ℕ) (alive : ℕ → Bool) :
    (∃ e, monitor name obj id alive s = .error e s) ∨ ∃ v, s.pool name = some v ∧
      (monitor name obj id alive s = .ok (some v.obj) { s with
          ref := Function.update s.ref v.obj (s.ref v.obj + 1) } ∨
        ∃ watch counts, monitor name obj id alive s = .ok none { s with
          poolCount := counts
          pool := Function.update s.pool name (some { v with watch := watch }) }) := by
  simp only [monitor, get_bind]
  cases hpool : s.pool name with
  | none => exact .inl ⟨_, rfl⟩
  | some v =>
    cases hcount : s.poolCount name with
    | none => exact .inl ⟨_, rfl⟩
    | some c =>
      refine .inr ⟨v, rfl, ?_⟩
      dsimp only
      by_cases hobj : obj ≠ v.obj
      · exact .inl (by rw [if_pos hobj]; rfl)
      · exact .inr ⟨_, _, by rw [if_neg hobj]; rfl⟩

/-! ### The objects of the pool -/

/-- An object in the pool is known as the object of an entry, of one name only. -/
structure Sound (s : Service V) : Prop where
  owned : ∀ {n v}, s.pool n = some v → s.objmap v.obj = some .entry
  inj : ∀ {m n v w}, s.pool m = some v → s.pool n = some w → v.obj = w.obj → m = n

namespace Sound

theorem congr (h : Sound s) (hpool : s'.pool = s.pool) (hmap : s'.objmap = s.objmap) :
    Sound s' := by
  refine ⟨?_, ?_⟩
  · rw [hpool, hmap]
    exact h.owned
  · rw [hpool]
    exact h.inj

theorem added (h : Sound s) (hfresh : s.objmap cobj = none) (name : String) (value : V) (junk : BitVec 32) :
    Sound (s.added name value cobj junk) := by
  have hold : ∀ {n w}, s.pool n = some w → w.obj ≠ cobj := by
    rintro n w hw rfl
    rw [h.owned hw] at hfresh
    cases hfresh
  have hcase : ∀ {n w}, (s.added name value cobj junk).pool n = some w →
      n = name ∧ w.obj = cobj ∨ n ≠ name ∧ s.pool n = some w := by
    intro n w hw
    rcases Transition.update_cases hw with ⟨hn, ⟨⟩⟩ | hw
    · exact .inl ⟨hn, rfl⟩
    · exact .inr hw
  refine ⟨fun {n w} hw => ?_, fun {m n v w} hv hw heq => ?_⟩
  · simp only [Service.added]
    rcases hcase hw with ⟨-, hobj⟩ | ⟨-, hw⟩
    · rw [hobj, update_self]
    · rw [update_of_ne (hold hw)]
      exact h.owned hw
  · rcases hcase hv with ⟨rfl, hvobj⟩ | ⟨-, hv'⟩
    · rcases hcase hw with ⟨rfl, -⟩ | ⟨-, hw'⟩
      · rfl
      · exact absurd (heq.symm.trans hvobj) (hold hw')
    · rcases hcase hw with ⟨rfl, hwobj⟩ | ⟨-, hw'⟩
      · exact absurd (heq.trans hwobj) (hold hv')
      · exact h.inj hv' hw' heq

theorem dismantled {v : Entry V} (h : Sound s) (hv : s.pool name = some v) :
    Sound (s.dismantled name v) := by
  have hcase : ∀ {n w}, (s.dismantled name v).pool n = some w → n ≠ name ∧ s.pool n = some w := by
    intro n w hw
    exact (Transition.update_cases hw).resolve_left nofun
  refine ⟨fun {n w} hw => ?_, fun {m n v w} hv hw heq => ?_⟩
  · obtain ⟨hn, hw⟩ := hcase hw
    have hobj : w.obj ≠ v.obj := fun heq => hn (h.inj hw hv heq)
    simp only [Service.dismantled, update_of_ne hobj]
    exact h.owned hw
  · exact h.inj (hcase hv).2 (hcase hw).2 heq

theorem setWatch {v : Entry V} (h : Sound s) (hv : s.pool name = some v) (watch : List ℕ)
    (hpool : s'.pool = Function.update s.pool name (some { v with watch := watch }))
    (hmap : s'.objmap = s.objmap) : Sound s' := by
  have hcase : ∀ {n w}, s'.pool n = some w → ∃ w', s.pool n = some w' ∧ w'.obj = w.obj := by
    intro n w hw
    rcases Transition.update_cases (hpool ▸ hw) with ⟨rfl, ⟨⟩⟩ | ⟨-, hw⟩
    · exact ⟨v, hv, rfl⟩
    · exact ⟨w, hw, rfl⟩
  refine ⟨fun {n w} hw => ?_, fun {m n v w} hv hw heq => ?_⟩
  · obtain ⟨w', hw', hobj⟩ := hcase hw
    rw [hmap, ← hobj]
    exact h.owned hw'
  · obtain ⟨v', hv', hvobj⟩ := hcase hv
    obtain ⟨w', hw', hwobj⟩ := hcase hw
    exact h.inj hv' hw' (hvobj.trans (heq.trans hwobj.symm))

theorem new (h : Sound s) (hfresh : s.objmap cobj = none) :
    Sound (after (new host name t cobj junk) s) := by
  rw [after]
  rcases new_cases host name t cobj junk s with ⟨e, he⟩ | ⟨-, value, hvalue⟩
  · rw [he]
    exact h
  · rw [hvalue]
    exact h.added hfresh name value junk

/-- `CMD.delete` of a name that has an object does not fail. -/
theorem delete_cases (h : Sound s) (name : String) :
    s.pool name = none ∧ after (ShareDatad.delete name) s = s ∨ ∃ v sent, s.pool name = some v ∧
      after (ShareDatad.delete name) s = { s.dismantled name v with responses := sent } := by
  cases hpool : s.pool name with
  | none =>
    refine .inl ⟨rfl, ?_⟩
    simp only [after, ShareDatad.delete, get_bind, hpool]
    rfl
  | some v =>
    obtain ⟨sent, hsent⟩ := respondAll_eq none v.watch (s.dismantled name v)
    have hrun : ShareDatad.delete name s = respondAll none v.watch (s.dismantled name v) := by
      have howned := h.owned hpool
      simp only [ShareDatad.delete, get_bind, hpool, howned]
      rfl
    exact .inr ⟨v, sent, rfl, by rw [after, hrun, hsent]⟩

theorem delete (h : Sound s) : Sound (after (delete name) s) := by
  obtain ⟨-, he⟩ | ⟨v, sent, hv, he⟩ := delete_cases h name
  · rwa [he]
  · rw [he]
    exact (h.dismantled hv).congr rfl rfl

theorem update (h : Sound s) (hfresh : s.objmap cobj = none) :
    Sound (after (update host name t cobj junk) s) := by
  rw [after]
  cases hpool : s.pool name with
  | none =>
    rcases update_of_none host t cobj junk hpool with ⟨e, he⟩ | ⟨value, hvalue⟩
    · rw [he]
      exact h
    · rw [hvalue]
      exact (h.added hfresh name value junk).congr rfl rfl
  | some v =>
    have hne : cobj ≠ v.obj := by
      rintro rfl
      rw [h.owned hpool] at hfresh
      cases hfresh
    have hfresh' : (s.dismantled name v).objmap cobj = none := by
      simp only [Service.dismantled, update_of_ne hne]
      exact hfresh
    rcases update_of_some host t cobj junk hpool with ⟨e, he⟩ | ⟨value, hvalue⟩
    · rw [he]
      exact h.dismantled hpool
    · rw [hvalue]
      exact ((h.dismantled hpool).added hfresh' name value junk).congr rfl rfl

theorem monitor (h : Sound s) (name : String) (obj id : ℕ) (alive : ℕ → Bool) :
    Sound (after (monitor name obj id alive) s) := by
  obtain ⟨e, he⟩ | ⟨v, hv, he | ⟨watch, counts, he⟩⟩ := monitor_cases s name obj id alive <;>
    rw [after, he]
  · exact h
  · exact h.congr rfl rfl
  · exact h.setWatch hv _ rfl rfl

theorem collectobj (h : Sound s) : Sound (after collectobj s) := by
  rw [ShareDatad.collectobj, after_modify]
  split_ifs
  · refine ⟨fun {n v} hv => ?_, h.inj⟩
    have howned := h.owned hv
    simp only [howned]
    rfl
  · exact h.congr rfl rfl

theorem step {a : Label V} (hs : Sound s) (hstep : step host s a = some s') : Sound s' := by
  cases a with
  | new name t cobj junk =>
    simp only [ShareDatad.step] at hstep
    split_ifs at hstep with hfresh
    cases hstep
    exact hs.new hfresh
  | update name t cobj junk =>
    simp only [ShareDatad.step] at hstep
    split_ifs at hstep with hfresh
    cases hstep
    exact hs.update hfresh
  | delete name =>
    cases hstep
    exact hs.delete
  | query name =>
    cases hstep
    cases hpool : s.pool name with
    | none =>
      rw [after, query_of_none hpool]
      exact hs
    | some v =>
      rw [after, query_of_some hpool]
      exact hs.congr rfl rfl
  | confirm cobj =>
    cases hstep
    simp only [after, confirm, get_bind]
    split_ifs
    · exact hs.congr rfl rfl
    · exact hs
  | monitor name obj id alive =>
    cases hstep
    exact hs.monitor name obj id alive
  | collect =>
    cases hstep
    exact hs.collectobj
  | box cobj | release cobj =>
    cases hstep
    exact hs.congr rfl rfl

end Sound

theorem sound (h : (system host).Reachable s) : Sound s :=
  h.invariant ⟨nofun, nofun⟩ fun _ _ _ hs _ hstep => hs.step hstep

/-! ### Updates that fail -/

/-- What a failed update must leave of a name. -/
structure Kept (host : Host V) (s s' : Service V) (n : String) : Prop where
  /-- `query` answers as before -/
  query : ∀ {v}, s.pool n = some v → ∃ u, query n s' = .ok v.obj u
  absent : s.pool n = none → ∃ e u, ShareDatad.query n s' = .error e u
  ref : ∀ {v}, s.pool n = some v → s'.ref v.obj = s.ref v.obj
  watch : ∀ {v}, s.pool n = some v → ∃ v', s'.pool n = some v' ∧ v'.watch = v.watch
  /-- an update that succeeds later sends the new object to the monitors -/
  notifies : ∀ {v}, s.pool n = some v → ∀ {t cobj junk u},
    update host n t cobj junk s' = .ok () u → ∀ id ∈ v.watch, (id, some cobj) ∈ u.responses

theorem Kept.of_pool {n : String} (hpool : s'.pool n = s.pool n)
    (href : ∀ {v}, s.pool n = some v → s'.ref v.obj = s.ref v.obj) : Kept host s s' n where
  query hv := ⟨_, query_of_some (hpool.trans hv)⟩
  absent hn := ⟨_, _, query_of_none (hpool.trans hn)⟩
  ref := href
  watch hv := ⟨_, hpool.trans hv, rfl⟩
  notifies {v} hv t cobj junk u hu id hid := by
    rcases update_of_some host t cobj junk
      (hpool.trans hv) with ⟨e, he⟩ | ⟨value, hvalue⟩
    · rw [he] at hu
      cases hu
    · rw [hvalue] at hu
      cases hu
      exact List.mem_append_right _ (List.mem_map.mpr ⟨id, hid, rfl⟩)

theorem failed_update_of_some {e : Error} (hpool : s.pool name = some v)
    (hfail : update host name t cobj junk s = .error e s') : s' = s.dismantled name v := by
  rcases update_of_some host t cobj junk hpool with ⟨e', he⟩ | ⟨value, hvalue⟩
  · rw [he] at hfail
    cases hfail
    rfl
  · rw [hvalue] at hfail
    cases hfail

theorem failed_update_of_none {e : Error} (hpool : s.pool name = none)
    (hfail : update host name t cobj junk s = .error e s') : s' = s := by
  rcases update_of_none host t cobj junk hpool with ⟨e', he⟩ | ⟨value, hvalue⟩
  · rw [he] at hfail
    cases hfail
    rfl
  · rw [hvalue] at hfail
    cases hfail

/-- **Failed updates**: an update that raises an error keeps its name exactly when the name had no
object.  It keeps every other name. -/
theorem failed_update_keeps (hreach : (system host).Reachable s) {e : Error}
    (hfail : update host name t cobj junk s = .error e s') :
    (Kept host s s' name ↔ s.pool name = none) ∧ ∀ n, n ≠ name → Kept host s s' n := by
  cases hpool : s.pool name with
  | none =>
    obtain rfl := failed_update_of_none hpool hfail
    have hkept (n : String) : Kept host s' s' n := .of_pool rfl fun _ => rfl
    exact ⟨⟨fun _ => rfl, fun _ => hkept name⟩, fun n _ => hkept n⟩
  | some v =>
    obtain rfl := failed_update_of_some hpool hfail
    refine ⟨⟨fun hkept => ?_, by simp⟩, fun n hne => .of_pool ?_ fun {w} hw => ?_⟩
    · obtain ⟨w, hw, -⟩ := hkept.watch hpool
      simp [Service.dismantled] at hw
    · simp only [Service.dismantled, update_of_ne hne]
    · have hobj : w.obj ≠ v.obj := fun heq => hne ((sound hreach).inj hw hpool heq)
      simp only [Service.dismantled, update_of_ne hobj]

/-- Tables that are accepted or not. -/
def boolHost : Host Bool := ⟨true, id⟩

/-- An object for `a` with a monitor, and one for `b`. -/
def watched : Service Bool :=
  ((system boolHost).exec (system boolHost).init
    [.new "a" .nil 1 0, .new "b" .nil 2 0, .monitor "a" 1 7 fun _ => true]).getD
    (system boolHost).init

theorem watched_reachable : (system boolHost).Reachable watched :=
  ((Transition.System.ReachableVia.init.next (.new "a" .nil 1 0) trivial rfl).next
    (.new "b" .nil 2 0) trivial rfl).next (.monitor "a" 1 7 fun _ => true) trivial rfl

theorem failed_update_keeps_absent : Kept boolHost watched
    (after (update boolHost "c" (.text .noload) 3 0) watched) "c" :=
  (failed_update_keeps watched_reachable
    (rfl : update boolHost "c" (.text .noload) 3 0 watched = .error .load _)).1.mpr rfl

/-- The text does not load: `a` has no object, its reference is given up and the monitor 7 hears
nothing of the next update. -/
theorem failed_update_of_watched :
    (watched.pool "a").map Entry.obj = some 1 ∧ (watched.pool "a").map Entry.watch = some [7] ∧
    ∃ u, update boolHost "a" (.text .noload) 3 0 watched = .error .load u ∧
      query "a" u = .error .assertion u ∧ watched.ref 1 = 1 ∧ u.ref 1 = 0 ∧
      ∃ w, update boolHost "a" .nil 3 0 u = .ok () w ∧ w.responses = [] :=
  ⟨rfl, rfl, _, rfl, rfl, rfl, rfl, _, rfl, rfl⟩

end Skynet.ShareDatad
