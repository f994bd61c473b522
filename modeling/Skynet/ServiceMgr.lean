import Skynet.Transition
import Skynet.LuaText

/-! # Unique services

A model of `service/service_mgr.lua`, the service that launches every unique service once.  The
slot `service[name]` is `nil` at first, a table while requests wait or a launch function runs, and
then for good the handle of the service or the text of the error that the launch ended with.

A request is a coroutine.  It runs without interruption until it yields: in `skynet.wait`, or
inside the launch function.  After each coroutine that yields or ends, `suspend` takes one token
from `wakeup_queue` and resumes the coroutine that sleeps on it; when the queue is empty, or its
first token is no longer slept on, the service is done with the message and idle.  Requests are
numbered as they arrive, and a number stands for the coroutine of its request.

* `Cmd.key` is the name a command is about, `waitFor`, `request` and `afterWait` are `wait_for` in
  three pieces: up to the launch or the wait, after the launch function, and after the wait. -/

namespace Skynet.ServiceMgr

open List Function Transition LuaText

/-! ### Commands -/

/-- A command with its name and sub-name; the further arguments go to the launch function. -/
inductive Cmd
  | launch (serviceName : Bytes) (subname : Option Bytes)
  | query (serviceName : Bytes) (subname : Option Bytes)
  | glaunch (name : Bytes) (subname : Option Bytes)
  | gquery (name : Bytes) (subname : Option Bytes)
  deriving DecidableEq, Repr

/-- `read_name`: the name without a leading `@`. -/
def readName (serviceName : Bytes) : Bytes :=
  match serviceName with
  | 64 :: rest => rest
  | _ => serviceName

/-- The name `"snaxd"`. -/
def snaxd : Bytes := [115, 110, 97, 120, 100]

/-- The key of the table `service`; `none` if the concatenation with a missing sub-name raises an
error. -/
def slotName (serviceName : Bytes) (subname : Option Bytes) : Option Bytes :=
  if readName serviceName = snaxd then subname.map fun sub => serviceName ++ 46 :: sub
  else some serviceName

def Cmd.key : Cmd → Option Bytes
  | launch n sub | query n sub => slotName n sub
  | glaunch n sub | gquery n sub => slotName (64 :: n) sub

/-- The command passes a launch function to `wait_for`. -/
def Cmd.launches : Cmd → Bool
  | launch _ _ | glaunch _ _ => true
  | query _ _ | gquery _ _ => false

/-! ### Slots, requests and the service -/

/-- A value of `service[name]`.  A table holds the request that runs the launch function and the
requests that wait, in the order in which they came. -/
inductive Slot
  | absent
  | table (launch : Option ℕ) (waiting : List ℕ)
  | handle (h : ℕ)
  | error (msg : Bytes)
  deriving DecidableEq, Repr

/-- What a request is answered with; an error carries the line of the `error` call that raised
it. -/
inductive Answer
  | handle (h : ℕ)
  | error (line : ℕ) (msg : Bytes)
  | assertion
  deriving DecidableEq, Repr

/-- Where the coroutine of a request is. -/
inductive Request
  | unborn
  /-- the command had no name -/
  | invalid
  /-- inside the launch function -/
  | launching (name : Bytes)
  /-- inside `skynet.wait` -/
  | waiting (name : Bytes)
  | answered (name : Bytes) (a : Answer)
  deriving DecidableEq, Repr

/-- The name a request is about. -/
def Request.name : Request → Option Bytes
  | unborn | invalid => none
  | launching n | waiting n | answered n _ => some n

/-- What the service is doing: waiting for a message, in the launch function of a request, or in
`suspend`, about to call `dispatch_wakeup`. -/
inductive Control
  | idle
  | run (i : ℕ)
  | suspend
  deriving DecidableEq, Repr

structure State where
  service : Bytes → Slot
  requests : ℕ → Request
  /-- the number of the next request -/
  next : ℕ
  wakeupQueue : List ℕ
  control : Control

namespace State

variable (s : State)

def setSlot (name : Bytes) (v : Slot) : State :=
  { s with service := update s.service name v }

def setRequest (i : ℕ) (r : Request) : State :=
  { s with requests := update s.requests i r }

/-- The coroutine of request `i` ends with an answer. -/
def answer (i : ℕ) (name : Bytes) (a : Answer) : State :=
  { s.setRequest i (.answered name a) with control := .suspend }

/-- The coroutine sleeps, so that `sleep_session_map` has an entry for it. -/
def asleep (i : ℕ) : Bool :=
  match s.requests i with
  | .waiting _ => true
  | _ => false

def wakeup (i : ℕ) : State :=
  if s.asleep i then { s with wakeupQueue := s.wakeupQueue ++ [i] } else s

/-- The end of `request`, after the launch function of request `i`. -/
def request (i : ℕ) (name : Bytes) (r : Except Bytes ℕ) : State :=
  match s.service name with
  | .table _ waiting =>
    let v := match r with
      | .ok handle => Slot.handle handle
      | .error msg => .error msg
    let t := waiting.foldl wakeup (s.setSlot name v)
    t.answer i name (match r with
      | .ok handle => .handle handle
      | .error msg => .error 34 msg)
  | _ => s.answer i name .assertion

/-- Request `i` finds a table in its slot, or has just put an empty one there. -/
def join (i : ℕ) (name : Bytes) (func : Bool) (launch : Option ℕ) (waiting : List ℕ) : State :=
  if launch = none ∧ func then
    { (s.setSlot name (.table (some i) waiting)).setRequest i (.launching name) with
      control := .run i }
  else
    { (s.setSlot name (.table launch (waiting ++ [i]))).setRequest i (.waiting name) with
      control := .suspend }

/-- `wait_for` until it returns, waits or calls the launch function. -/
def waitFor (i : ℕ) (name : Bytes) (func : Bool) : State :=
  match s.service name with
  | .handle h => s.answer i name (.handle h)
  | .error msg => s.answer i name (.error 49 msg)
  | .absent => s.join i name func none []
  | .table launch waiting => s.join i name func launch waiting

/-- The rest of `wait_for` after its `skynet.wait`. -/
def afterWait (i : ℕ) (name : Bytes) : State :=
  s.answer i name (match s.service name with
    | .error msg => .error 73 msg
    | .handle h => .handle h
    | _ => .assertion)

/-- A command arrives and its coroutine is started. -/
def accept (cmd : Cmd) : State :=
  let t := { s with next := s.next + 1 }
  match cmd.key with
  | some name => t.waitFor s.next name cmd.launches
  | none => { t.setRequest s.next .invalid with control := .suspend }

def dispatchWakeup : State :=
  match s.wakeupQueue with
  | [] => { s with control := .idle }
  | i :: rest =>
    match s.requests i with
    | .waiting name => { s with wakeupQueue := rest }.afterWait i name
    | _ => { s with wakeupQueue := rest, control := .idle }

end State

inductive Label
  | cmd (c : Cmd)
  /-- the launch function yields -/
  | yield
  /-- a message for the launch function of request `i`, which goes on -/
  | resume (i : ℕ)
  /-- the launch function returns a handle or raises an error -/
  | result (r : Except Bytes ℕ)
  /-- the service takes the next token of `wakeup_queue` -/
  | next

def step (s : State) : Label → Option State
  | .cmd c => if s.control = .idle then some (s.accept c) else none
  | .yield =>
    match s.control with
    | .run _ => some { s with control := .suspend }
    | _ => none
  | .resume i =>
    match s.control, s.requests i with
    | .idle, .launching _ => some { s with control := .run i }
    | _, _ => none
  | .result r =>
    match s.control with
    | .run i =>
      match s.requests i with
      | .launching name => some (s.request i name r)
      | _ => none
    | _ => none
  | .next => if s.control = .suspend then some s.dispatchWakeup else none

def system : System State Label where
  init :=
    { service := fun _ => .absent, requests := fun _ => .unborn, next := 0
      wakeupQueue := [], control := .idle }
  step := step

/-! ### What a step can do -/

/-- The slot is settled for good. -/
def Slot.final : Slot → Prop
  | .handle _ | .error _ => True
  | _ => False

/-- The answer is the one the slot stands for. -/
def Slot.gives : Slot → Answer → Prop
  | .handle h, a => a = .handle h
  | .error msg, a => ∃ line, a = .error line msg
  | _, _ => False

theorem Slot.gives_final {v : Slot} {a : Answer} (h : v.gives a) : v.final := by
  cases v <;> simp_all [Slot.gives, Slot.final]

/-- The slot a launch ends with. -/
def Slot.ofResult : Except Bytes ℕ → Slot
  | .ok h => .handle h
  | .error msg => .error msg

theorem Slot.final_ofResult (r : Except Bytes ℕ) : (Slot.ofResult r).final := by
  cases r <;> trivial

/-- A step of the service, in the cases that the invariants need. -/
inductive Step (s : State) : Label → State → Prop
  | invalid {c : Cmd} (hc : s.control = .idle) :
      Step s (.cmd c) { s with
        next := s.next + 1
        requests := update s.requests s.next .invalid
        control := .suspend }
  | settled {c : Cmd} {name : Bytes} {a : Answer} (hc : s.control = .idle)
      (ha : (s.service name).gives a) :
      Step s (.cmd c) { s with
        next := s.next + 1
        requests := update s.requests s.next (.answered name a)
        control := .suspend }
  | launches {c : Cmd} {name : Bytes} {waiting : List ℕ} (hc : s.control = .idle)
      (hslot : (s.service name = .absent ∧ waiting = []) ∨ s.service name = .table none waiting) :
      Step s (.cmd c) { s with
        next := s.next + 1
        service := update s.service name (.table (some s.next) waiting)
        requests := update s.requests s.next (.launching name)
        control := .run s.next }
  | waits {c : Cmd} {name : Bytes} {launch : Option ℕ} {waiting : List ℕ}
      (hc : s.control = .idle)
      (hslot : (s.service name = .absent ∧ launch = none ∧ waiting = []) ∨
        s.service name = .table launch waiting) :
      Step s (.cmd c) { s with
        next := s.next + 1
        service := update s.service name (.table launch (waiting ++ [s.next]))
        requests := update s.requests s.next (.waiting name)
        control := .suspend }
  | yield {i : ℕ} (hc : s.control = .run i) : Step s .yield { s with control := .suspend }
  | resume {i : ℕ} {name : Bytes} (hc : s.control = .idle) (hi : s.requests i = .launching name) :
      Step s (.resume i) { s with control := .run i }
  | result {i : ℕ} {name : Bytes} {r : Except Bytes ℕ} (hc : s.control = .run i)
      (hi : s.requests i = .launching name) : Step s (.result r) (s.request i name r)
  | done (hc : s.control = .suspend) (hq : s.wakeupQueue = []) :
      Step s .next { s with control := .idle }
  | stale {i : ℕ} {rest : List ℕ} (hc : s.control = .suspend) (hq : s.wakeupQueue = i :: rest)
      (hi : ∀ name, s.requests i ≠ .waiting name) :
      Step s .next { s with wakeupQueue := rest, control := .idle }
  | wakes {i : ℕ} {rest : List ℕ} {name : Bytes} (hc : s.control = .suspend)
      (hq : s.wakeupQueue = i :: rest) (hi : s.requests i = .waiting name) :
      Step s .next ({ s with wakeupQueue := rest }.afterWait i name)

theorem Step.of_join {s : State} {c : Cmd} {name : Bytes} {func : Bool} {launch : Option ℕ}
    {waiting : List ℕ} (hc : s.control = .idle)
    (hslot : (s.service name = .absent ∧ launch = none ∧ waiting = []) ∨
      s.service name = .table launch waiting) :
    Step s (.cmd c) ({ s with next := s.next + 1 }.join s.next name func launch waiting) := by
  unfold State.join
  split_ifs with hfunc
  · obtain ⟨rfl, -⟩ := hfunc
    refine .launches hc ?_
    rcases hslot with ⟨h, -, hw⟩ | h
    · exact .inl ⟨h, hw⟩
    · exact .inr h
  · exact .waits hc hslot

theorem Step.of_accept {s : State} (c : Cmd) (hc : s.control = .idle) :
    Step s (.cmd c) (s.accept c) := by
  unfold State.accept
  cases c.key with
  | none => exact .invalid hc
  | some name =>
    simp only [State.waitFor]
    cases hslot : s.service name with
    | absent => exact .of_join hc (.inl ⟨hslot, rfl, rfl⟩)
    | table launch waiting => exact .of_join hc (.inr hslot)
    | handle h => exact .settled hc (by rw [hslot]; exact rfl)
    | error msg => exact .settled hc (by rw [hslot]; exact ⟨49, rfl⟩)

theorem Step.of_step {s t : State} {a : Label} (h : step s a = some t) : Step s a t := by
  cases a with simp only [step] at h
  | cmd c =>
    split_ifs at h with hc
    cases h
    exact .of_accept c hc
  | yield =>
    split at h
    · next i hc => cases h; exact .yield hc
    · cases h
  | resume i =>
    split at h
    · next name hc hi => cases h; exact .resume hc hi
    · cases h
  | result r =>
    split at h
    · next i hc =>
        split at h
        · next name hi => cases h; exact .result hc hi
        · cases h
    · cases h
  | next =>
    split_ifs at h with hc
    cases h
    unfold State.dispatchWakeup
    split
    · next hq => exact .done hc hq
    · next i rest hq =>
        split
        · next name hi => exact .wakes hc hq hi
        · next hi => exact .stale hc hq hi

/-! ### The invariant -/

/-- The slots agree with the requests. -/
structure Inv (s : State) : Prop where
  fresh : ∀ i, s.next ≤ i → s.requests i = .unborn
  absent : ∀ i name, s.service name = .absent → (s.requests i).name ≠ some name
  launching : ∀ i name, s.requests i = .launching name →
    ∃ w, s.service name = .table (some i) w
  launcher : ∀ i name w, s.service name = .table (some i) w → s.requests i = .launching name
  waiters : ∀ name l w, s.service name = .table l w →
    w.Nodup ∧ ∀ i ∈ w, s.requests i = .waiting name
  waiting : ∀ i name, s.requests i = .waiting name →
    (∃ l w, s.service name = .table l w ∧ i ∈ w) ∨ (s.service name).final ∧ i ∈ s.wakeupQueue
  answered : ∀ i name a, s.requests i = .answered name a → (s.service name).gives a
  queue : ∀ i ∈ s.wakeupQueue, ∃ name, s.requests i = .waiting name ∧ (s.service name).final
  nodup : s.wakeupQueue.Nodup
  drained : s.control ≠ .suspend → s.wakeupQueue = []

namespace Inv

variable {s : State}

theorem init : Inv system.init where
  fresh := fun _ _ => rfl
  absent := fun _ _ _ => nofun
  launching := fun _ _ => nofun
  launcher := fun _ _ _ => nofun
  waiters := fun _ _ _ => nofun
  waiting := fun _ _ => nofun
  answered := fun _ _ _ => nofun
  queue := fun _ => nofun
  nodup := .nil
  drained := fun _ => rfl

theorem setControl (h : Inv s) {c : Control} (hq : c ≠ .suspend → s.wakeupQueue = []) :
    Inv { s with control := c } :=
  ⟨h.fresh, h.absent, h.launching, h.launcher, h.waiters, h.waiting, h.answered, h.queue, h.nodup,
    hq⟩

theorem settled (h : Inv s) {r : Request}
    (hr : r = .invalid ∨ ∃ name a, r = .answered name a ∧ (s.service name).gives a) : Inv { s with
      next := s.next + 1
      requests := update s.requests s.next r
      control := .suspend } := by
  have hnext := h.fresh s.next le_rfl
  have hname : ∀ name, r.name = some name → (s.service name).final := by
    rcases hr with rfl | ⟨name', a, rfl, ha⟩
    · exact fun _ => nofun
    · rintro name ⟨⟩
      exact Slot.gives_final ha
  constructor <;> simp only [update_apply]
  case absent => grind [h.absent, Slot.final]
  case fresh => grind [h.fresh]
  case launching => grind [h.launching]
  case launcher => grind [h.launcher]
  case waiters => grind [h.waiters]
  case waiting => grind [h.waiting]
  case answered => grind [h.answered]
  case queue => grind [h.queue]
  case nodup => exact h.nodup
  case drained => grind

variable {name : Bytes}

variable {w : List ℕ}

/-- A new request that goes into the table of its slot, as the launcher or as the last of those
who wait. -/
theorem joins (h : Inv s) {l l' : Option ℕ} {w' : List ℕ} {r : Request} {c : Control}
    (hslot : (s.service name = .absent ∧ l = none ∧ w = []) ∨ s.service name = .table l w)
    (hr : (r = .launching name ∧ l = none ∧ l' = some s.next ∧ w' = w) ∨
      (r = .waiting name ∧ l' = l ∧ w' = w ++ [s.next])) (hq : s.wakeupQueue = []) : Inv { s with
      next := s.next + 1
      service := update s.service name (.table l' w')
      requests := update s.requests s.next r
      control := c } := by
  have hnext := h.fresh s.next le_rfl
  -- what the slot held before the request came
  have hw : w.Nodup ∧ ∀ i ∈ w, s.requests i = .waiting name := by
    rcases hslot with ⟨-, -, rfl⟩ | hslot
    · exact ⟨.nil, nofun⟩
    · exact h.waiters name l w hslot
  have hothers : ∀ i, s.requests i = .waiting name → i ∈ w := by
    intro i hi
    rcases hslot with ⟨hslot, -⟩ | hslot
    · exact absurd (by rw [hi]; rfl) (h.absent i name hslot)
    · have := h.waiting i name hi
      grind [Slot.final]
  have hunanswered : ∀ i a, s.requests i ≠ .answered name a := by
    intro i a hi
    have hgives := h.answered i name a hi
    rcases hslot with ⟨hslot, -⟩ | hslot <;> rw [hslot] at hgives <;> exact hgives
  constructor <;> simp only [update_apply]
  case fresh => grind [h.fresh]
  case absent => grind [h.absent, Request.name]
  case launching =>
    intro i n hi
    by_cases hn : n = name
    · refine ⟨w', ?_⟩
      grind [h.launching]
    · grind [h.launching]
  case launcher => grind [h.launcher]
  case waiters => grind [h.waiters]
  case waiting => grind [h.waiting]
  case answered => grind [h.answered]
  case queue => grind
  case nodup => exact h.nodup
  case drained => exact fun _ => hq

theorem foldl_wakeup (hw : ∀ i ∈ w, s.asleep i = true) :
    w.foldl State.wakeup s = { s with wakeupQueue := s.wakeupQueue ++ w } := by
  induction w generalizing s with
  | nil => simp
  | cons i w ih =>
    have hi : s.wakeup i = { s with wakeupQueue := s.wakeupQueue ++ [i] } := by
      rw [State.wakeup, if_pos (hw i (by simp))]
    have hrest : ∀ j ∈ w, State.asleep { s with wakeupQueue := s.wakeupQueue ++ [i] } j = true :=
      fun j hj => hw j (by simp [hj])
    rw [foldl_cons, hi, ih hrest]
    simp

/-- The answer of the request that ran the launch function. -/
def launcherAnswer : Except Bytes ℕ → Answer
  | .ok h => .handle h
  | .error msg => .error 34 msg

theorem gives_launcherAnswer (r : Except Bytes ℕ) : (Slot.ofResult r).gives (launcherAnswer r) := by
  cases r with
  | ok h => exact rfl
  | error msg => exact ⟨34, rfl⟩

variable {i : ℕ}

theorem request_eq (h : Inv s) (r : Except Bytes ℕ) (hslot : s.service name = .table (some i) w) :
    s.request i name r = { s with
      service := update s.service name (Slot.ofResult r)
      requests := update s.requests i (.answered name (launcherAnswer r))
      wakeupQueue := s.wakeupQueue ++ w
      control := .suspend } := by
  have hw : ∀ v, ∀ j ∈ w, (s.setSlot name v).asleep j = true := by
    intro v j hj
    simp only [State.asleep, State.setSlot, (h.waiters name _ w hslot).2 j hj]
  cases r <;> simp only [State.request, hslot, foldl_wakeup (hw _)] <;> rfl

theorem result (h : Inv s) (r : Except Bytes ℕ) (hc : s.control = .run i)
    (hi : s.requests i = .launching name) : Inv (s.request i name r) := by
  obtain ⟨w, hslot⟩ := h.launching i name hi
  have hq : s.wakeupQueue = [] := h.drained (by rw [hc]; nofun)
  obtain ⟨hnodup, hw⟩ := h.waiters name _ w hslot
  have hfinal := Slot.final_ofResult r
  have hgives := gives_launcherAnswer r
  have hne : ∀ l w, Slot.ofResult r ≠ .table l w := by cases r <;> exact fun _ _ => nofun
  have hna : Slot.ofResult r ≠ .absent := by cases r <;> nofun
  have hunanswered : ∀ j a, s.requests j ≠ .answered name a := by
    intro j a hj
    have hgives := h.answered j name a hj
    rwa [hslot] at hgives
  have hothers : ∀ j, s.requests j = .waiting name → j ∈ w := by
    intro j hj
    have := h.waiting j name hj
    grind [Slot.final]
  rw [h.request_eq r hslot, hq, nil_append]
  constructor <;> simp only [update_apply]
  case fresh => grind [h.fresh]
  case absent => grind [h.absent, Request.name]
  case launching => grind [h.launching]
  case launcher => grind [h.launcher]
  case waiters => grind [h.waiters]
  case waiting =>
      intro j n hj
      split_ifs at hj with hji
      by_cases hn : n = name
      · subst hn
        rw [if_pos rfl]
        exact .inr ⟨hfinal, hothers j hj⟩
      · rw [if_neg hn]
        rcases h.waiting j n hj with htable | ⟨-, hmem⟩
        · exact .inl htable
        · rw [hq] at hmem
          exact (not_mem_nil hmem).elim
  case answered => grind [h.answered]
  case queue => grind
  case nodup => exact hnodup
  case drained => grind

theorem wakes (h : Inv s) {rest : List ℕ} (hq : s.wakeupQueue = i :: rest)
    (hi : s.requests i = .waiting name) :
    Inv ({ s with wakeupQueue := rest }.afterWait i name) := by
  have hfinal : (s.service name).final := by
    obtain ⟨name', hi', hfinal⟩ := h.queue i (by rw [hq]; simp)
    rw [hi] at hi'
    cases hi'
    exact hfinal
  obtain ⟨a, ha, heq⟩ : ∃ a, (s.service name).gives a ∧
      { s with wakeupQueue := rest }.afterWait i name = { s with
        wakeupQueue := rest
        requests := update s.requests i (.answered name a)
        control := .suspend } := by
    cases hslot : s.service name with
    | handle v =>
      refine ⟨.handle v, rfl, ?_⟩
      simp only [State.afterWait, hslot]
      rfl
    | error msg =>
      refine ⟨.error 73 msg, ⟨73, rfl⟩, ?_⟩
      simp only [State.afterWait, hslot]
      rfl
    | absent | table => rw [hslot] at hfinal; exact hfinal.elim
  have hnodup := h.nodup
  rw [hq, nodup_cons] at hnodup
  rw [heq]
  constructor <;> simp only [update_apply]
  case fresh => grind [h.fresh]
  case absent => grind [h.absent, Request.name, Slot.final]
  case launching => grind [h.launching]
  case launcher => grind [h.launcher]
  case waiters => grind [h.waiters, Slot.final]
  case waiting => grind [h.waiting]
  case answered => grind [h.answered]
  case queue => grind [h.queue]
  case nodup => exact hnodup.2
  case drained => grind

theorem step (h : Inv s) {a : Label} {t : State} (hstep : Step s a t) : Inv t := by
  cases hstep with
  | invalid hc => exact h.settled (.inl rfl)
  | settled hc ha => exact h.settled (.inr ⟨_, _, rfl, ha⟩)
  | launches hc hslot =>
    refine h.joins ?_ (.inl ⟨rfl, rfl, rfl, rfl⟩) (h.drained (by rw [hc]; nofun))
    rcases hslot with ⟨hslot, hw⟩ | hslot
    · exact .inl ⟨hslot, rfl, hw⟩
    · exact .inr hslot
  | waits hc hslot =>
    exact h.joins hslot (.inr ⟨rfl, rfl, rfl⟩) (h.drained (by rw [hc]; nofun))
  | yield hc => exact h.setControl (by simp)
  | resume hc hi => exact h.setControl fun _ => h.drained (by rw [hc]; nofun)
  | result hc hi => exact h.result _ hc hi
  | done hc hq => exact h.setControl fun _ => hq
  | @stale i rest hc hq hi =>
    -- every token of the queue is slept on
    obtain ⟨name, hname, -⟩ := h.queue i (by rw [hq]; simp)
    exact absurd hname (hi name)
  | wakes hc hq hi => exact h.wakes hq hi

theorem of_reachable (h : system.Reachable s) : Inv s :=
  h.invariant init fun _ _ _ hs _ hstep => hs.step (.of_step hstep)

theorem final_eq (h : Inv s) {a : Label} {t : State} (hstep : Step s a t)
    (hfinal : (s.service name).final) : t.service name = s.service name := by
  have hkeep : ∀ {name' : Bytes} (v : Slot), ¬ (s.service name').final →
      update s.service name' v name = s.service name := by
    intro name' v hnot
    refine update_of_ne ?_ v s.service
    rintro rfl
    exact hnot hfinal
  cases hstep with
  | launches hc hslot | waits hc hslot =>
    refine hkeep _ fun hf => ?_
    rcases hslot with ⟨hslot, -⟩ | hslot <;> rw [hslot] at hf <;> exact hf
  | @result i name' r hc hi =>
    obtain ⟨w, hslot⟩ := h.launching i name' hi
    rw [h.request_eq r hslot]
    refine hkeep _ fun hf => ?_
    rwa [hslot] at hf
  | invalid | settled | yield | resume | done | stale | wakes => rfl

theorem name_eq (h : Inv s) {a : Label} {t : State} (hstep : Step s a t)
    (hi : (s.requests i).name = some name) : (t.requests i).name = some name := by
  have hnew : ∀ r, (update s.requests s.next r i).name = some name := by
    intro r
    rwa [update_of_ne]
    rintro rfl
    rw [h.fresh _ le_rfl] at hi
    cases hi
  have hanswer : ∀ {j : ℕ} {name' : Bytes} (a : Answer), (s.requests j).name = some name' →
      (update s.requests j (.answered name' a) i).name = some name := by
    intro j name' a hj
    by_cases hij : i = j
    · rw [hij, update_self]
      rw [hij, hj] at hi
      exact hi
    · rwa [update_of_ne hij]
  cases hstep with
  | invalid | settled | launches | waits => exact hnew _
  | yield | resume | done | stale => exact hi
  | @result j name' r hc hj =>
    obtain ⟨w, hslot⟩ := h.launching j name' hj
    rw [h.request_eq r hslot]
    exact hanswer _ (by rw [hj]; rfl)
  | wakes hc hq hj => exact hanswer _ (by rw [hj]; rfl)

theorem exec_final {as : List Label} {t : State} (h : Inv s) (hfinal : (s.service name).final)
    (has : system.exec s as = some t) : Inv t ∧ t.service name = s.service name ∧
      ∀ i, (s.requests i).name = some name → (t.requests i).name = some name := by
  refine System.exec_invariant (I := fun t => Inv t ∧
    t.service name = s.service name ∧
      ∀ i, (s.requests i).name = some name → (t.requests i).name = some name)
    ?_ as s t ⟨h, rfl, fun _ => id⟩ has
  rintro u a v ⟨hu, hslot, hname⟩ hstep
  have hstep' : Step u a v := .of_step hstep
  refine ⟨hu.step hstep', ?_, fun i hi => hu.name_eq hstep' (hname i hi)⟩
  rw [hu.final_eq hstep' (by rwa [hslot]), hslot]

theorem idle_answered (h : Inv s) (hfinal : (s.service name).final) (hidle : s.control = .idle)
    (hi : (s.requests i).name = some name) :
    ∃ a, s.requests i = .answered name a := by
  have hnot : ∀ l w, s.service name ≠ .table l w := by
    intro l w hslot
    rwa [hslot] at hfinal
  cases hr : s.requests i with rw [hr] at hi
  | unborn | invalid => cases hi
  | answered name' a =>
    cases hi
    exact ⟨a, rfl⟩
  | launching name' =>
    cases hi
    obtain ⟨w, hslot⟩ := h.launching i name hr
    exact absurd hslot (hnot _ w)
  | waiting name' =>
    cases hi
    rcases h.waiting i name hr with ⟨l, w, hslot, -⟩ | ⟨-, hmem⟩
    · exact absurd hslot (hnot l w)
    · rw [h.drained (by rw [hidle]; nofun)] at hmem
      exact (not_mem_nil hmem).elim

/-- `suspend` resumes all those in `wakeup_queue`, and then the service is idle. -/
theorem exists_idle (h : Inv s) (hc : s.control = .suspend) :
    ∃ t, system.exec s (replicate (s.wakeupQueue.length + 1) .next) = some t ∧
      t.control = .idle := by
  generalize hn : s.wakeupQueue.length = n
  induction n generalizing s with
  | zero =>
    have hq : s.wakeupQueue = [] := length_eq_zero_iff.mp hn
    refine ⟨{ s with control := .idle }, ?_, rfl⟩
    simp [System.exec, system, ServiceMgr.step, hc, State.dispatchWakeup, hq]
  | succ n ih =>
    obtain ⟨i, rest, hq⟩ : ∃ i rest, s.wakeupQueue = i :: rest :=
      exists_cons_of_ne_nil (ne_nil_of_length_eq_add_one hn)
    obtain ⟨name, hi, -⟩ := h.queue i (by rw [hq]; simp)
    obtain ⟨t, ht, hidle⟩ := ih (h.wakes hq hi) rfl (by
      rw [hq, length_cons] at hn
      exact Nat.succ.inj hn)
    refine ⟨t, ?_, hidle⟩
    rw [replicate_succ, System.exec]
    have hstep : system.step s .next = some ({ s with wakeupQueue := rest }.afterWait i name) := by
      simp only [system, ServiceMgr.step, if_pos hc, State.dispatchWakeup, hq, hi]
    rw [hstep]
    exact ht

end Inv

/-- **Unique services.**  At most one launch function runs for a name at a time.  When one ends,
with a handle or with an error, the service is idle again after finitely many steps of its own;
from then on no launch function runs for the name, every request for it, waiting at the time or
later, is answered with that handle or that error, and none is left unanswered when the service is
idle. -/
theorem unique_service {s : State} (h : system.Reachable s) :
    (∀ i j name, s.requests i = .launching name → s.requests j = .launching name → i = j) ∧
    ∀ i name r t, s.control = .run i → s.requests i = .launching name →
      system.step s (.result r) = some t →
      (∃ n u, system.exec t (replicate n .next) = some u ∧ u.control = .idle) ∧
      ∀ as u, system.exec t as = some u →
        (∀ j, u.requests j ≠ .launching name) ∧
        (∀ j, (s.requests j).name = some name → (u.requests j).name = some name) ∧
        (∀ j a, u.requests j = .answered name a → (Slot.ofResult r).gives a) ∧
        (u.control = .idle → ∀ j, (u.requests j).name = some name →
          ∃ a, u.requests j = .answered name a) := by
  have hs := Inv.of_reachable h
  refine ⟨fun i j name hi hj => ?_, fun i name r t hc hi hstep => ?_⟩
  · obtain ⟨w, hslot⟩ := hs.launching i name hi
    obtain ⟨w', hslot'⟩ := hs.launching j name hj
    rw [hslot] at hslot'
    cases hslot'
    rfl
  · obtain ⟨w, hslot⟩ := hs.launching i name hi
    have hst : Step s (.result r) t := .of_step hstep
    have ht : Inv t := hs.step hst
    obtain rfl : s.request i name r = t := by
      simp only [system, step, hc, hi, Option.some.injEq] at hstep
      exact hstep
    have hservice : (s.request i name r).service name = Slot.ofResult r := by
      rw [hs.request_eq r hslot]
      exact update_self ..
    have hfinal : ((s.request i name r).service name).final := by
      rw [hservice]
      exact Slot.final_ofResult r
    constructor
    · have hsuspend : (s.request i name r).control = .suspend := by rw [hs.request_eq r hslot]
      obtain ⟨u, hu, hidle⟩ := ht.exists_idle hsuspend
      exact ⟨_, u, hu, hidle⟩
    · intro as u has
      obtain ⟨hu, huslot, hname⟩ := ht.exec_final hfinal has
      rw [hservice] at huslot
      have hufinal : (u.service name).final := by
        rw [huslot]
        exact Slot.final_ofResult r
      refine ⟨fun j hj => ?_, fun j hj => hname j (hs.name_eq hst hj), fun j a hj => ?_,
        fun hidle j hj => hu.idle_answered hufinal hidle hj⟩
      · obtain ⟨w', hslot'⟩ := hu.launching j name hj
        rwa [hslot'] at hufinal
      · rw [← huslot]
        exact hu.answered j name a hj

/-- A query that comes before the launch, one that comes during it, and a launch that fails: both
queries are answered with its error. -/
theorem unique_service_of_queries : ∃ s, system.Reachable s ∧
      (s.control = .run 1 ∧ s.requests 0 = .waiting [97] ∧ s.requests 1 = .launching [97] ∧
        s.requests 2 = .waiting [97]) ∧
      ∀ t, system.step s (.result (.error [98])) = some t → ∀ as u, system.exec t as = some u →
        u.control = .idle → ∀ j, (u.requests j).name = some [97] →
          ∃ a, u.requests j = .answered [97] a ∧ ∃ line, a = .error line [98] := by
  obtain ⟨s, hs, hc, h0, h1, h2⟩ := System.exists_reachable system (fun _ _ => True)
    [.cmd (.query [97] none), .next, .cmd (.launch [97] none), .yield, .next,
      .cmd (.query [97] none), .next, .resume 1]
    (fun s : State => s.control = .run 1 ∧ s.requests 0 = .waiting [97] ∧
      s.requests 1 = .launching [97] ∧ s.requests 2 = .waiting [97]) (by decide +kernel)
  refine ⟨s, hs, ⟨hc, h0, h1, h2⟩, fun t hstep as u has hidle j hj => ?_⟩
  obtain ⟨-, -, hgives, hanswered⟩ :=
    ((unique_service hs).2 1 [97] (.error [98]) t hc h1 hstep).2 as u has
  obtain ⟨a, ha⟩ := hanswered hidle j hj
  exact ⟨a, ha, hgives j a ha⟩

end Skynet.ServiceMgr
