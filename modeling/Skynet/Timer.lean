import Skynet.Transition

/-! # The timer wheel of `skynet-src/timer`

The hierarchical timer wheel: 256 near lists for the timers of the current block of 256
ticks and four levels of 64 lists for the later ones.

* `addNode`, `moveList`, `timerShift` follow `timer.cpp` and `timer_manager.cpp`; all times
  are `uint32_t` and wrap.
* A `link_list` (sentinel head and tail pointer) is the list of its nodes; `link` appends
  at the tail and `linkClear` takes the whole list.
* `timer_update` runs under the timer's mutex, which `timer_execute` releases around
  `dispatch_list`.  A step of `wheel` is what happens while the mutex is held, or the
  delivery of one node while it is not; `timeout` calls of other threads need the mutex and
  so land between two steps, also in the middle of a `timer_execute`.

The fields `ticks`, `added`, `dispatched` and `immediate` of `State` record the history and
are read by no step. -/

namespace Skynet.TimerWheel

open Transition

/-! ### Data -/

def TIME_NEAR_SHIFT : UInt32 := 8
def TIME_NEAR : UInt32 := 1 <<< TIME_NEAR_SHIFT
def TIME_LEVEL_SHIFT : UInt32 := 6
def TIME_LEVEL : UInt32 := 1 <<< TIME_LEVEL_SHIFT
def TIME_NEAR_MASK : UInt32 := TIME_NEAR - 1
def TIME_LEVEL_MASK : UInt32 := TIME_LEVEL - 1

/-- The payload of a timer: the service that set it and the session it answers. -/
structure TimerEvent where
  svcHandle : UInt32
  session : Int32
deriving DecidableEq, Repr

/-- A `timer_node` with the event stored behind it. -/
structure TimerNode where
  expire : UInt32
  event : TimerEvent
deriving DecidableEq, Repr

/-- The lists of a timer: `near[i]` and `t[i][j]`. -/
inductive Loc where
  | near (i : Fin 256)
  | level (i : Fin 4) (j : Fin 64)
deriving DecidableEq, Repr

structure Timer where
  slot : Loc → List TimerNode
  time : UInt32

/-! ### Lists -/

theorem and_near_mask_lt (x : UInt32) : (x &&& TIME_NEAR_MASK).toNat < 256 := by
  rw [UInt32.toNat_and]
  exact Nat.lt_of_le_of_lt Nat.and_le_right (by decide)

theorem and_level_mask_lt (x : UInt32) : (x &&& TIME_LEVEL_MASK).toNat < 64 := by
  rw [UInt32.toNat_and]
  exact Nat.lt_of_le_of_lt Nat.and_le_right (by decide)

/-- Index into `near`. -/
def nearIdx (x : UInt32) : Fin 256 := ⟨(x &&& TIME_NEAR_MASK).toNat, and_near_mask_lt x⟩

/-- Index into a level. -/
def levelIdx (x : UInt32) : Fin 64 := ⟨(x &&& TIME_LEVEL_MASK).toNat, and_level_mask_lt x⟩

namespace Timer

/-- Empty the list at `l`; the nodes it held are `T.slot l`. -/
def linkClear (T : Timer) (l : Loc) : Timer := { T with slot := Function.update T.slot l [] }

/-- Append `node` to the list at `l`. -/
def link (T : Timer) (l : Loc) (node : TimerNode) : Timer :=
  { T with slot := Function.update T.slot l (T.slot l ++ [node]) }

end Timer

/-- All lists empty. -/
def createTimer : Timer := ⟨fun _ => [], 0⟩

/-! ### Placement -/

/-- The `for` loop of `add_node` with `rest` rounds to go: the level `i` it stops at. -/
def addLevel (time current : UInt32) : ℕ → UInt32 → ℕ
  | 0, _ => 3
  | rest + 1, mask =>
    if time ||| (mask - 1) = current ||| (mask - 1) then 3 - (rest + 1)
    else addLevel time current rest (mask <<< TIME_LEVEL_SHIFT)

theorem addLevel_lt (time current : UInt32) : ∀ (rest : ℕ) (mask : UInt32),
    addLevel time current rest mask < 4
  | 0, _ => by simp [addLevel]
  | rest + 1, mask => by
      rw [addLevel]
      split_ifs
      · omega
      · exact addLevel_lt time current rest _

/-- The level of a timer that is not in the current block of `near`. -/
def levelOf (time current : UInt32) : Fin 4 :=
  ⟨addLevel time current 3 (TIME_NEAR <<< TIME_LEVEL_SHIFT), addLevel_lt _ _ _ _⟩

/-- The list `add_node` links a node to. -/
def place (time current : UInt32) : Loc :=
  if time ||| TIME_NEAR_MASK = current ||| TIME_NEAR_MASK then
    .near (nearIdx time)
  else
    let i := levelOf time current
    .level i (levelIdx (time >>> (TIME_NEAR_SHIFT + UInt32.ofNat i * TIME_LEVEL_SHIFT)))

namespace Timer

def addNode (T : Timer) (node : TimerNode) : Timer := T.link (place node.expire T.time) node

/-- Take the list at `t[level][idx]` and add its nodes again. -/
def moveList (T : Timer) (level : Fin 4) (idx : Fin 64) : Timer :=
  (T.slot (.level level idx)).foldl addNode (T.linkClear (.level level idx))

end Timer

/-! ### Ticks -/

/-- The `while` loop of `timer_shift`: `some (some (i, idx))` when it ends by calling
`move_list` for `t[i][idx]`, `some none` when its condition fails. -/
def shiftLoop (ct : UInt32) : ℕ → UInt32 → UInt32 → ℕ → Option (Option (ℕ × UInt32))
  | 0, _, _, _ => none
  | fuel + 1, mask, time, i =>
    if ct &&& (mask - 1) = 0 then
      let idx := time &&& TIME_LEVEL_MASK
      if idx ≠ 0 then some (some (i, idx))
      else shiftLoop ct fuel (mask <<< TIME_LEVEL_SHIFT) (time >>> TIME_LEVEL_SHIFT) (i + 1)
    else some none

/-- `timer_shift`; `none` would be an access outside `t[4][64]` or a loop that goes on once
its mask has left the 32 bits. -/
def timerShift (T : Timer) : Option Timer :=
  let ct := T.time + 1
  let T := { T with time := ct }
  if ct = 0 then some (T.moveList 3 0)
  else
    match shiftLoop ct 5 TIME_NEAR (ct >>> TIME_NEAR_SHIFT) 0 with
    | none => none
    | some none => some T
    | some (some (i, idx)) =>
      if h : i < 4 then some (T.moveList ⟨i, h⟩ (levelIdx idx)) else none

/-- The digit of `x` that selects the list of level `i`. -/
def digit (x : UInt32) (i : Fin 4) : Fin 64 :=
  levelIdx (x >>> (TIME_NEAR_SHIFT + UInt32.ofNat i * TIME_LEVEL_SHIFT))

/-- The list that `timer_shift` moves when the time becomes `ct`. -/
def shiftTarget (ct : UInt32) : Option (Fin 4 × Fin 64) :=
  if ct.toNat % 2 ^ 8 ≠ 0 then none
  else if digit ct 0 ≠ 0 then some (0, digit ct 0)
  else if digit ct 1 ≠ 0 then some (1, digit ct 1)
  else if digit ct 2 ≠ 0 then some (2, digit ct 2)
  else some (3, digit ct 3)

/-! ### The running timer -/

/-- Where the timer thread is: outside `timer_update`, or in the `dispatch_list` of its first
or second `timer_execute` for `near[idx]` with the nodes still to deliver. -/
inductive Phase where
  | idle
  | first (idx : Fin 256) (current : List TimerNode)
  | second (idx : Fin 256) (current : List TimerNode)
deriving DecidableEq, Repr

/-- The nodes taken off the wheel and not delivered yet. -/
def Phase.current : Phase → List TimerNode
  | .idle => []
  | .first _ current => current
  | .second _ current => current

/-- One accepted `timer_add`: the number of ticks so far, the delay and the node. -/
structure Added where
  tick : ℕ
  delay : ℕ
  node : TimerNode
deriving DecidableEq, Repr

structure State where
  T : Timer
  phase : Phase
  ticks : ℕ
  added : List Added
  dispatched : List (ℕ × TimerNode)
  immediate : List TimerEvent

inductive Action where
  | timeout (svcHandle : UInt32) (time : Int32) (session : Int32)
  | update
  | dispatch
  | relock
deriving DecidableEq, Repr

def State.init : State := ⟨createTimer, .idle, 0, [], [], []⟩

namespace State

/-- `timer_manager::timeout`: a delay of at most 0 is answered at once, any other one is
added to the wheel. -/
def timeout (s : State) (svcHandle : UInt32) (time session : Int32) : State :=
  if time ≤ 0 then { s with immediate := s.immediate ++ [⟨svcHandle, session⟩] }
  else
    let node : TimerNode := ⟨time.toUInt32 + s.T.time, ⟨svcHandle, session⟩⟩
    { s with
      T := s.T.addNode node
      added := s.added ++ [⟨s.ticks, time.toUInt32.toNat, node⟩] }

/-- Loop head of the second `timer_execute`, with the mutex held. -/
def executeSecond (s : State) (idx : Fin 256) : State :=
  match s.T.slot (.near idx) with
  | [] => { s with phase := .idle }
  | current => { s with T := s.T.linkClear (.near idx), phase := .second idx current }

/-- `timer_shift`, then the second `timer_execute`. -/
def shift (s : State) : Option State :=
  (timerShift s.T).map fun T =>
    executeSecond { s with T := T, ticks := s.ticks + 1 } (nearIdx T.time)

/-- Loop head of the first `timer_execute`, with the mutex held. -/
def executeFirst (s : State) (idx : Fin 256) : Option State :=
  match s.T.slot (.near idx) with
  | [] => s.shift
  | current => some { s with T := s.T.linkClear (.near idx), phase := .first idx current }

/-- `dispatch_list` pushes the response of one node to its service. -/
def deliver (s : State) (phase : Phase) (node : TimerNode) : State :=
  { s with phase := phase, dispatched := s.dispatched ++ [(s.ticks, node)] }

def step (s : State) : Action → Option State
  | .timeout svcHandle time session => some (s.timeout svcHandle time session)
  | .update =>
    match s.phase with
    | .idle => s.executeFirst (nearIdx s.T.time)
    | _ => none
  | .dispatch =>
    match s.phase with
    | .first idx (node :: rest) => some (s.deliver (.first idx rest) node)
    | .second idx (node :: rest) => some (s.deliver (.second idx rest) node)
    | _ => none
  | .relock =>
    match s.phase with
    | .first idx [] => s.executeFirst idx
    | .second idx [] => some (s.executeSecond idx)
    | _ => none

end State

/-- The timer thread and any number of threads calling `timeout`. -/
def wheel : System State Action := ⟨State.init, State.step⟩

end Skynet.TimerWheel
