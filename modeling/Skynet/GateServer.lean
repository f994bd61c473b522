import Skynet.Transition

/-! # Connections of the gate server

A model of `lualib/snax/gateserver.lua`.  The gate keeps, for every socket it accepted, an entry of
the table `connection`: `true` while the client is served, `false` after `closeclient`, `nil` when
the connection is over.  Socket events arrive one by one and each runs a function of `MSG`, which
calls back into the handler of the service.

A handler runs in the coroutine of its event and may suspend there.  Only `MSG.close` and
`MSG.error` have work left when the handler returns: they still have to clear the entry, so they
are split in two steps here, the event and the handler's return (`closing` holds the sockets in
between).  A handler that raises an error is one that never returns.

* `dispatchMsg`, `msgOpen`, `msgClose`, `msgError`, `closeclient`, `openclient` are the functions
  of the source; `effects` records the calls they make, of the handler and of the socket library. -/

namespace Skynet.GateServer

open List Function Transition

/-- A call made by the gate: of a function of the handler, or of the socket library. -/
inductive Effect
  | connect (fd : ℕ) (address : String)
  | message (fd : ℕ) (msg : List UInt8)
  | disconnect (fd : ℕ)
  | error (fd : ℕ) (msg : String)
  | warning (fd : ℕ) (size : ℕ)
  | socketStart (fd : ℕ)
  | socketClose (fd : ℕ)
  | socketNodelay (fd : ℕ)
  deriving DecidableEq, Repr

/-- Which of the optional functions the handler has. -/
structure Handler where
  disconnect : Bool
  error : Bool
  warning : Bool

/-- The part of the argument of `CMD.open` that the gate keeps. -/
structure Conf where
  maxClient : Option ℤ
  nodelay : Bool

/-- The variables of the gate, with the calls it has made so far. -/
structure State where
  listenSocketId : Option ℕ
  maxClient : Option ℤ
  clientNumber : ℤ
  nodelay : Bool
  connection : ℕ → Option Bool
  /-- sockets whose `disconnect` or `error` handler has not returned -/
  closing : List ℕ
  effects : List Effect

def State.emit (s : State) (e : Effect) : State := { s with effects := s.effects ++ [e] }

def State.setEntry (s : State) (fd : ℕ) (v : Option Bool) : State :=
  { s with connection := update s.connection fd v }

/-! ### The functions of the source -/

def openclient (s : State) (fd : ℕ) : State :=
  if s.connection fd = some true then s.emit (.socketStart fd) else s

def closeclient (s : State) (fd : ℕ) : State :=
  if s.connection fd = some true then (s.setEntry fd (some false)).emit (.socketClose fd) else s

/-- `CMD.open`, with the id the listening socket gets. -/
def cmdOpen (s : State) (conf : Conf) (id : ℕ) : State :=
  if s.listenSocketId = none then
    State.emit { s with
      maxClient := some (conf.maxClient.getD 1024)
      nodelay := conf.nodelay
      listenSocketId := some id } (.socketStart id)
  else s

def cmdClose (s : State) : State :=
  match s.listenSocketId with
  | some id => s.emit (.socketClose id)
  | none => s

/-- `dispatch_msg`, which `MSG.data` calls for its packet and `dispatch_queue` for each packet it
takes from the queue. -/
def dispatchMsg (s : State) (fd : ℕ) (msg : List UInt8) : State :=
  if s.connection fd = some true then s.emit (.message fd msg) else s

/-- The socket option of a new client. -/
def setNodelay (s : State) (fd : ℕ) : State :=
  if s.nodelay then s.emit (.socketNodelay fd) else s

/-- A client that is let in. -/
def accept (s : State) (fd : ℕ) (address : String) : State :=
  State.emit { (setNodelay s fd).setEntry fd (some true) with clientNumber := s.clientNumber + 1 }
    (.connect fd address)

/-- `MSG.open`.  Before `CMD.open` the comparison with `max_client` raises an error. -/
def msgOpen (s : State) (fd : ℕ) (address : String) : State :=
  match s.maxClient with
  | none => s
  | some m => if s.clientNumber ≥ m then s.emit (.socketClose fd) else accept s fd address

def closeFd (s : State) (fd : ℕ) : State :=
  if s.connection fd ≠ none then
    { s.setEntry fd none with clientNumber := s.clientNumber - 1 }
  else s

/-- The call of an optional handler, after which the entry of the socket is cleared: at once if
there is no handler, and otherwise when the handler returns. -/
def finish (s : State) (present : Bool) (fd : ℕ) (e : Effect) : State :=
  if present then State.emit { s with closing := fd :: s.closing } e else closeFd s fd

def msgClose (h : Handler) (s : State) (fd : ℕ) : State :=
  if s.listenSocketId = some fd then { s with listenSocketId := none }
  else finish s h.disconnect fd (.disconnect fd)

def msgError (h : Handler) (s : State) (fd : ℕ) (msg : String) : State :=
  if s.listenSocketId = some fd then s.emit (.socketClose fd)
  else finish s h.error fd (.error fd msg)

def msgWarning (h : Handler) (s : State) (fd size : ℕ) : State :=
  if h.warning then s.emit (.warning fd size) else s

/-- What happens to the gate: events of its sockets, calls of the handler, commands. -/
inductive Label
  | «open» (fd : ℕ) (address : String)
  | data (fd : ℕ) (msg : List UInt8)
  | close (fd : ℕ)
  | error (fd : ℕ) (msg : String)
  | warning (fd : ℕ) (size : ℕ)
  /-- the `disconnect` or `error` handler of a socket returns -/
  | handled (fd : ℕ)
  | openclient (fd : ℕ)
  | closeclient (fd : ℕ)
  | cmdOpen (conf : Conf) (id : ℕ)
  | cmdClose

def step (h : Handler) (s : State) : Label → Option State
  | .open fd address => some (msgOpen s fd address)
  | .data fd msg => some (dispatchMsg s fd msg)
  | .close fd => some (msgClose h s fd)
  | .error fd msg => some (msgError h s fd msg)
  | .warning fd size => some (msgWarning h s fd size)
  | .handled fd =>
    if fd ∈ s.closing then some (closeFd { s with closing := s.closing.erase fd } fd) else none
  | .openclient fd => some (GateServer.openclient s fd)
  | .closeclient fd => some (GateServer.closeclient s fd)
  | .cmdOpen conf id => some (GateServer.cmdOpen s conf id)
  | .cmdClose => some (GateServer.cmdClose s)

def system (h : Handler) : System State Label where
  init :=
    { listenSocketId := none, maxClient := none, clientNumber := 0, nodelay := false
      connection := fun _ => none, closing := [], effects := [] }
  step := step h

/-! ### The window of a connection -/

/-- The call ends the window of the socket. -/
def Effect.Ends (fd : ℕ) : Effect → Prop
  | .disconnect fd' => fd' = fd
  | .error fd' _ => fd' = fd
  | _ => False

/-- The call may be made for the socket only inside its window. -/
def Effect.Needs (fd : ℕ) : Effect → Prop
  | .message fd' _ => fd' = fd
  | .disconnect fd' => fd' = fd
  | .error fd' _ => fd' = fd
  | _ => False

instance (fd : ℕ) : DecidablePred (Effect.Ends fd) := fun e => by
  cases e <;> simp only [Effect.Ends] <;> infer_instance

instance (fd : ℕ) : DecidablePred (Effect.Needs fd) := fun e => by
  cases e <;> simp only [Effect.Needs] <;> infer_instance

/-- `handler.connect` was called for the socket, and neither `handler.disconnect` nor
`handler.error` since. -/
def InWindow (calls : List Effect) (fd : ℕ) : Prop :=
  ∃ before address after, calls = before ++ .connect fd address :: after ∧
    ∀ e ∈ after, ¬ e.Ends fd

/-- Every call that needs a window was made inside one. -/
def Paired (calls : List Effect) : Prop :=
  ∀ before e after, calls = before ++ e :: after → ∀ fd, e.Needs fd → InWindow before fd

variable {fd : ℕ} {e : Effect} {s : State}

theorem InWindow.append {calls : List Effect} (h : InWindow calls fd) (he : ¬ e.Ends fd) :
    InWindow (calls ++ [e]) fd := by
  obtain ⟨before, address, after, rfl, hafter⟩ := h
  refine ⟨before, address, after ++ [e], by simp, fun x hx => ?_⟩
  rcases mem_append.mp hx with hx | hx
  · exact hafter x hx
  · rwa [mem_singleton.mp hx]

theorem inWindow_connect (calls : List Effect) (fd : ℕ) (address : String) :
    InWindow (calls ++ [.connect fd address]) fd :=
  ⟨calls, address, [], rfl, fun _ h => (not_mem_nil h).elim⟩

theorem Paired.append {calls : List Effect} (h : Paired calls)
    (he : ∀ fd, e.Needs fd → InWindow calls fd) : Paired (calls ++ [e]) := by
  intro before x after heq fd hx
  rcases eq_nil_or_concat after with rfl | ⟨after', y, rfl⟩
  · -- the call asked about is the new one
    obtain ⟨rfl, hex⟩ := append_inj' heq rfl
    obtain rfl : e = x := singleton_inj.mp hex
    exact he fd hx
  · have hsplit : calls ++ [e] = (before ++ x :: after') ++ [y] := by simpa using heq
    exact h before x after' (append_inj' hsplit rfl).1 fd hx

/-! ### The invariant -/

/-- What the gate relies on.  A client comes under an id without an entry.  A close or an error
event comes for a socket with an entry, and neither comes, nor a packet, while the handler of an
earlier one still runs.  A new `max_client` is not below the number of clients. -/
def Orderly (s : State) : Label → Prop
  | .open fd _ => s.connection fd = none
  | .data fd _ => fd ∉ s.closing
  | .close fd => s.listenSocketId ≠ some fd → s.connection fd ≠ none ∧ fd ∉ s.closing
  | .error fd _ => s.listenSocketId ≠ some fd → s.connection fd ≠ none ∧ fd ∉ s.closing
  | .cmdOpen conf _ => s.listenSocketId = none → s.clientNumber ≤ conf.maxClient.getD 1024
  | _ => True

instance (s : State) (a : Label) : Decidable (Orderly s a) := by
  cases a <;> simp only [Orderly] <;> infer_instance

/-- The sockets with an entry. -/
def entries (s : State) : Set ℕ := {fd | s.connection fd ≠ none}

/-- `client_number` counts the entries and stays within `max_client`. -/
structure Counted (s : State) : Prop where
  finite : (entries s).Finite
  number : s.clientNumber = (entries s).ncard
  bound : ∀ m, s.maxClient = some m → s.clientNumber ≤ m

/-- An entry whose handler is not running is inside its window. -/
def Served (s : State) : Prop :=
  ∀ fd, s.connection fd ≠ none → fd ∉ s.closing → InWindow s.effects fd

structure Inv (s : State) : Prop where
  paired : Paired s.effects
  served : Served s
  counted : Counted s

theorem entries_setEntry_some (s : State) (fd : ℕ) (v : Bool) :
    entries (s.setEntry fd (some v)) = insert fd (entries s) := by
  ext fd'
  by_cases h : fd' = fd <;> simp [entries, State.setEntry, update_apply, h]

theorem entries_setEntry_none (s : State) (fd : ℕ) :
    entries (s.setEntry fd none) = entries s \ {fd} := by
  ext fd'
  by_cases h : fd' = fd <;> simp [entries, State.setEntry, update_apply, h]

theorem Effect.needs_of_ends (h : e.Ends fd) : e.Needs fd := by
  cases e <;> first | exact h | cases h

variable (h : Inv s)

include h

theorem Inv.ite {c : Prop} [Decidable c] {t : State} (ht : c → Inv t) :
    Inv (if c then t else s) := by
  split
  · exact ht ‹_›
  · exact h

theorem Inv.emit (hends : ∀ fd, ¬ e.Ends fd) (hneeds : ∀ fd, e.Needs fd → InWindow s.effects fd) :
    Inv (s.emit e) where
  paired := h.paired.append hneeds
  served := fun fd hfd hclosing => (h.served fd hfd hclosing).append (hends fd)
  counted := { h.counted with }

theorem Inv.emit_other (hneeds : ∀ fd, ¬ e.Needs fd) : Inv (s.emit e) :=
  h.emit (fun fd he => hneeds fd (Effect.needs_of_ends he)) fun fd he => (hneeds fd he).elim

theorem Inv.closeclient (fd : ℕ) : Inv (closeclient s fd) := by
  refine h.ite fun hfd => Inv.emit_other ?_ fun _ => id
  have hmem : fd ∈ entries s := by simp [entries, hfd]
  have hentries : entries (s.setEntry fd (some false)) = entries s := by
    rw [entries_setEntry_some, Set.insert_eq_of_mem hmem]
  refine ⟨h.paired, fun fd' hfd' hclosing => ?_, ?_, ?_, h.counted.bound⟩
  · have hin : fd' ∈ entries (s.setEntry fd (some false)) := hfd'
    rw [hentries] at hin
    exact h.served fd' hin hclosing
  · rw [hentries]; exact h.counted.finite
  · rw [hentries]; exact h.counted.number

theorem Inv.cmdOpen {conf : Conf} {id : ℕ}
    (hok : s.listenSocketId = none → s.clientNumber ≤ conf.maxClient.getD 1024) :
    Inv (cmdOpen s conf id) := by
  refine h.ite fun hlisten => Inv.emit_other ?_ fun _ => False.elim
  refine ⟨h.paired, h.served, h.counted.finite, h.counted.number, fun m hm => ?_⟩
  cases hm
  exact hok hlisten

theorem Inv.cmdClose : Inv (cmdClose s) := by
  unfold GateServer.cmdClose
  split
  · exact h.emit_other fun _ => id
  · exact h

theorem Inv.dispatchMsg {msg : List UInt8} (hok : fd ∉ s.closing) : Inv (dispatchMsg s fd msg) := by
  refine h.ite fun hfd => h.emit (fun _ => id) fun fd' hneeds => ?_
  obtain rfl : fd = fd' := hneeds
  exact h.served fd (by simp [hfd]) hok

theorem Inv.setNodelay (fd : ℕ) : Inv (setNodelay s fd) := h.ite fun _ => h.emit_other fun _ => id

omit h

@[simp] theorem setNodelay_connection (s : State) (fd : ℕ) :
    (setNodelay s fd).connection = s.connection := by unfold setNodelay; split <;> rfl

@[simp] theorem setNodelay_maxClient (s : State) (fd : ℕ) :
    (setNodelay s fd).maxClient = s.maxClient := by unfold setNodelay; split <;> rfl

@[simp] theorem setNodelay_clientNumber (s : State) (fd : ℕ) :
    (setNodelay s fd).clientNumber = s.clientNumber := by unfold setNodelay; split <;> rfl

theorem Counted.accept (h : Counted s) (hfd : s.connection fd = none)
    (hroom : ∀ m, s.maxClient = some m → s.clientNumber < m) :
    Counted { s.setEntry fd (some true) with clientNumber := s.clientNumber + 1 } := by
  have hentries : entries { s.setEntry fd (some true) with clientNumber := s.clientNumber + 1 }
      = insert fd (entries s) := entries_setEntry_some s fd true
  have hnot : fd ∉ entries s := by simp [entries, hfd]
  refine ⟨?_, ?_, fun m hm => hroom m hm⟩
  · rw [hentries]
    exact h.finite.insert fd
  · rw [hentries, Set.ncard_insert_of_notMem hnot h.finite, Nat.cast_add, Nat.cast_one, ← h.number]

theorem Inv.accept (h : Inv s) {address : String} (hfd : s.connection fd = none)
    (hroom : ∀ m, s.maxClient = some m → s.clientNumber < m) : Inv (accept s fd address) := by
  have hn := h.setNodelay fd
  refine ⟨hn.paired.append fun _ => False.elim, ?_, ?_⟩
  · intro fd' hfd' hclosing
    by_cases heq : fd' = fd
    · rw [heq]
      exact inWindow_connect _ fd address
    · have hentry : (GateServer.setNodelay s fd).connection fd' ≠ none := by
        simpa [GateServer.accept, State.emit, State.setEntry, update_apply, heq]
          using hfd'
      exact (hn.served fd' hentry hclosing).append id
  · have hnone : (GateServer.setNodelay s fd).connection fd = none := by simpa using hfd
    have hc := hn.counted.accept hnone (by simpa using hroom)
    rw [setNodelay_clientNumber] at hc
    exact ⟨hc.finite, hc.number, hc.bound⟩

theorem Inv.msgOpen (h : Inv s) {address : String} (hok : s.connection fd = none) :
    Inv (msgOpen s fd address) := by
  unfold GateServer.msgOpen
  split
  · exact h
  · next m hm =>
      split
      · exact h.emit_other fun _ => id
      · next hroom =>
          refine h.accept hok fun m' hm' => ?_
          rw [hm, Option.some.injEq] at hm'
          omega

theorem Counted.closeFd (h : Counted s) (fd : ℕ) : Counted (closeFd s fd) := by
  unfold GateServer.closeFd
  split
  · next hfd =>
      have hentries : entries { s.setEntry fd none with clientNumber := s.clientNumber - 1 }
          = entries s \ {fd} := entries_setEntry_none s fd
      have hcard := Set.ncard_sdiff_singleton_add_one (show fd ∈ entries s from hfd) h.finite
      have hnumber := h.number
      refine ⟨?_, ?_, fun m hm => ?_⟩
      · rw [hentries]
        exact h.finite.subset Set.sdiff_subset
      · rw [hentries]
        show s.clientNumber - 1 = _
        omega
      · have hle := h.bound m hm
        show s.clientNumber - 1 ≤ m
        omega
  · exact h

theorem closeFd_connection (s : State) (fd : ℕ) :
    (closeFd s fd).connection = update s.connection fd none := by
  unfold closeFd
  split
  · rfl
  · next h =>
      rw [not_not] at h
      exact (update_eq_self_iff.mpr h.symm).symm

theorem closeFd_effects (s : State) (fd : ℕ) : (closeFd s fd).effects = s.effects := by
  unfold closeFd; split <;> rfl

theorem closeFd_closing (s : State) (fd : ℕ) : (closeFd s fd).closing = s.closing := by
  unfold closeFd; split <;> rfl

/-- Clearing an entry; the socket may leave `closing` at the same time. -/
theorem Inv.closeFd (h : Inv s) (fd : ℕ) {closing : List ℕ}
    (hclosing : ∀ fd', fd' ≠ fd → fd' ∉ closing → fd' ∉ s.closing) :
    Inv (closeFd { s with closing := closing } fd) where
  paired := by
    rw [closeFd_effects]
    exact h.paired
  served := by
    intro fd' hfd' hc
    rw [closeFd_connection] at hfd'
    rw [closeFd_closing] at hc
    rw [closeFd_effects]
    by_cases heq : fd' = fd
    · exact (hfd' (by rw [heq, update_self])).elim
    · rw [update_of_ne heq] at hfd'
      exact h.served fd' hfd' (hclosing fd' heq hc)
  counted := by
    have hc : Counted { s with closing := closing } := { h.counted with }
    exact hc.closeFd fd

theorem Inv.finish (h : Inv s) {present : Bool} (hneeds : ∀ fd', e.Needs fd' → fd' = fd) (hok : s.connection fd ≠ none ∧ fd ∉ s.closing) :
    Inv (finish s present fd e) := by
  unfold GateServer.finish
  split
  · refine ⟨h.paired.append fun fd' he => ?_, fun fd' hfd' hc => ?_, ?_⟩
    · rw [hneeds fd' he]
      exact h.served fd hok.1 hok.2
    · have hne : fd' ≠ fd ∧ fd' ∉ s.closing := by simpa [State.emit] using hc
      exact (h.served fd' hfd' hne.2).append fun he => hne.1 (hneeds fd' (Effect.needs_of_ends he))
    · exact { h.counted with }
  · exact h.closeFd fd fun _ _ => id

variable {hd : Handler}

theorem Inv.msgClose (h : Inv s)
    (hok : s.listenSocketId ≠ some fd → s.connection fd ≠ none ∧ fd ∉ s.closing) :
    Inv (msgClose hd s fd) := by
  unfold GateServer.msgClose
  split
  · exact ⟨h.paired, h.served, { h.counted with }⟩
  · next hne => exact h.finish (fun _ => Eq.symm) (hok hne)

theorem Inv.msgError (h : Inv s) {msg : String}
    (hok : s.listenSocketId ≠ some fd → s.connection fd ≠ none ∧ fd ∉ s.closing) :
    Inv (msgError hd s fd msg) := by
  unfold GateServer.msgError
  split
  · exact h.emit_other fun _ => id
  · next hne => exact h.finish (fun _ => Eq.symm) (hok hne)

theorem Inv.step {t : State} {a : Label} (h : Inv s) (hok : Orderly s a)
    (hstep : step hd s a = some t) : Inv t := by
  cases a with
  | «open» fd address => cases hstep; exact h.msgOpen hok
  | data fd msg => cases hstep; exact h.dispatchMsg hok
  | close fd => cases hstep; exact h.msgClose hok
  | error fd msg => cases hstep; exact h.msgError hok
  | warning fd size | openclient fd => cases hstep; exact h.ite fun _ => h.emit_other fun _ => id
  | handled fd =>
    simp only [GateServer.step] at hstep
    split_ifs at hstep with hmem
    cases hstep
    refine h.closeFd fd fun fd' hne hnot hin => hnot ?_
    exact (mem_erase_of_ne hne).mpr hin
  | closeclient fd => cases hstep; exact h.closeclient fd
  | cmdOpen conf id => cases hstep; exact h.cmdOpen hok
  | cmdClose => cases hstep; exact h.cmdClose

theorem inv_init (hd : Handler) : Inv (system hd).init where
  paired := fun before e after heq => by
    have : ([] : List Effect) = before ++ e :: after := heq
    simp at this
  served := fun fd hfd => (hfd rfl).elim
  counted := by
    have hempty : entries (system hd).init = ∅ := by
      ext fd
      simp [entries, system]
    refine ⟨by rw [hempty]; exact Set.finite_empty, ?_, fun m hm => by cases hm⟩
    rw [hempty, Set.ncard_empty]
    rfl

/-- **Pairing of the connection handlers**: in every orderly run, with any handlers and any
`closeclient` calls, `handler.disconnect`, `handler.error` and `handler.message` are called for a
socket only after a call of `handler.connect` for it that no `disconnect` or `error` call has
followed, and `client_number` is the number of entries and at most `max_client`. -/
theorem connections_paired {hd : Handler} {s : State} (h : (system hd).ReachableVia Orderly s) :
    (∀ before e after, s.effects = before ++ e :: after → ∀ fd, e.Needs fd →
      InWindow before fd) ∧
    (entries s).Finite ∧ s.clientNumber = (entries s).ncard ∧
    ∀ m, s.maxClient = some m → s.clientNumber ≤ m := by
  have hinv : Inv s := h.invariant (inv_init hd) fun s a t hs hok hstep => hs.step hok hstep
  exact ⟨hinv.paired, hinv.counted.finite, hinv.counted.number, hinv.counted.bound⟩

/-- A client that sends a packet, is closed by the service and then by its socket, and a second
one that is refused because the gate takes one client only. -/
theorem connections_paired_of_closeclient :
    ∃ s, (system ⟨true, true, true⟩).ReachableVia Orderly s ∧
      s.effects = [.socketStart 1, .connect 7 "a", .message 7 [1], .socketClose 8,
        .socketClose 7, .disconnect 7] ∧
      (∀ before e after, s.effects = before ++ e :: after → ∀ fd, e.Needs fd →
        InWindow before fd) ∧ s.clientNumber = (entries s).ncard := by
  obtain ⟨s, hs, heffects⟩ := System.exists_reachable (system ⟨true, true, true⟩) Orderly
    [.cmdOpen ⟨some 1, false⟩ 1, .open 7 "a", .data 7 [1], .open 8 "b", .closeclient 7,
      .data 7 [2], .close 7, .handled 7]
    (fun s : State => s.effects = [.socketStart 1, .connect 7 "a", .message 7 [1], .socketClose 8,
        .socketClose 7, .disconnect 7]) (by decide +kernel)
  have hp := connections_paired hs
  exact ⟨s, hs, heffects, hp.1, hp.2.2.1⟩

/-- The gate refuses a client when it is full and closes its socket, but the close event of that
socket reaches the handler all the same: `handler.disconnect` is called for a client of which
`handler.connect` has never heard. -/
theorem disconnect_of_refused : ∃ s, (system ⟨true, true, true⟩).Reachable s ∧
      s.effects = [.socketStart 1, .connect 7 "a", .socketClose 8, .disconnect 8] ∧
      ¬ Paired s.effects := by
  obtain ⟨s, hs, heffects⟩ := System.exists_reachable (system ⟨true, true, true⟩)
    (fun _ _ => True) [.cmdOpen ⟨some 1, false⟩ 1, .open 7 "a", .open 8 "b", .close 8]
    (fun s : State => s.effects =
      [.socketStart 1, .connect 7 "a", .socketClose 8, .disconnect 8]) (by decide +kernel)
  refine ⟨s, hs, heffects, fun hpaired => ?_⟩
  rw [heffects] at hpaired
  obtain ⟨before, address, after, heq, -⟩ :=
    hpaired [.socketStart 1, .connect 7 "a", .socketClose 8] (.disconnect 8) [] rfl 8 rfl
  have hmem : Effect.connect 8 address ∈
      [.socketStart 1, .connect 7 "a", .socketClose 8] := by
    rw [heq]
    simp
  simp at hmem

end Skynet.GateServer
