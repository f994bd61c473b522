import Skynet.CtrlCmd

/-! # Commands keep their meaning on the pipe

Each package is read back as it was filled: the reader takes exactly its bytes off the pipe
(`handleCtrlCmd_bytes`), and the fields of the handler's request are the values of the call
(`package_means`).  So the commands handled are those of the calls, in the order of their writes; the one
exception is `exit`, whose package is sent empty. -/

namespace Skynet.CtrlCmd

open List ByteMemory Transition Memory Call

/-! ### Fields -/

theorem ofNat_mod_toNat {w k : ℕ} (v : BitVec w) (h : 2 ^ w = 256 ^ k) :
    BitVec.ofNat w (v.toNat % 256 ^ k) = v := by
  rw [Nat.mod_eq_of_lt (h ▸ v.isLt), BitVec.ofNat_toNat, BitVec.setWidth_eq]

variable (m : Memory) (socketId : Int32)

@[simp] theorem getInt_setInt_same (off : ℕ) (v : Int32) : getInt (setInt m off v) off = v := by
  rw [getInt, setInt, field_setField_same, ofNat_mod_toNat v rfl]

@[simp] theorem getPtr_setPtr_same (off : ℕ) (v : Int64) : getPtr (setPtr m off v) off = v := by
  rw [getPtr, setPtr, field_setField_same, ofNat_mod_toNat v rfl]

variable {off off' : ℕ} {s : State} {pending : List Command} {command : Command}

theorem getInt_setInt (v : Int32) (h : off + 4 ≤ off' ∨ off' + 4 ≤ off) :
    getInt (setInt m off' v) off = getInt m off := by
  rw [getInt, setInt, field_setField_of_disjoint 4 m h, getInt]

theorem getInt_setPtr (v : Int64) (h : off + 4 ≤ off' ∨ off' + 8 ≤ off) :
    getInt (setPtr m off' v) off = getInt m off := by
  rw [getInt, setPtr, field_setField_of_disjoint 4 m h, getInt]

theorem getPtr_setInt (v : Int32) (h : off + 8 ≤ off' ∨ off' + 4 ≤ off) :
    getPtr (setInt m off' v) off = getPtr m off := by
  rw [getPtr, setInt, field_setField_of_disjoint 8 m h, getPtr]

theorem getPtr_setPtr (v : Int64) (h : off + 8 ≤ off' ∨ off' + 8 ≤ off) :
    getPtr (setPtr m off' v) off = getPtr m off := by
  rw [getPtr, setPtr, field_setField_of_disjoint 8 m h, getPtr]

theorem getInt_store (bs : List UInt8) (h : off + 4 ≤ off') :
    getInt (m.store off' bs) off = getInt m off := by
  rw [getInt, field_store_of_disjoint 4 m bs (.inl h), getInt]

theorem getPtr_store (bs : List UInt8) (h : off + 8 ≤ off') :
    getPtr (m.store off' bs) off = getPtr m off := by
  rw [getPtr, field_store_of_disjoint 8 m bs (.inl h), getPtr]

/-! ### Reading a package back -/

/-- The reader's buffer when a package has been read to it. -/
def Package.received (cmd : Package) : Memory := Memory.zero.store 0 (cmd.u.load 0 cmd.len.toNat)

theorem length_bytes (cmd : Package) : cmd.bytes.length = 2 + cmd.len.toNat := by
  rw [Package.bytes, length_cons, length_cons, length_load]
  omega

/-- **Synchronisation**: the reader takes one package off the pipe, whatever follows it. -/
theorem handleCtrlCmd_bytes (cmd : Package) (rest : List UInt8) :
    handleCtrlCmd (cmd.bytes ++ rest) = some (dispatch cmd.type cmd.received, rest) := by
  have hheader : pipeRead (cmd.bytes ++ rest) 2 =
      some ([cmd.type, cmd.len], cmd.u.load 0 cmd.len.toNat ++ rest) := by
    rw [pipeRead, if_neg (by rw [length_append, length_bytes]; omega)]
    rfl
  have hlen : (cmd.u.load 0 cmd.len.toNat).length = cmd.len.toNat := length_load ..
  have hdata : pipeRead (cmd.u.load 0 cmd.len.toNat ++ rest) cmd.len.toNat =
      some (cmd.u.load 0 cmd.len.toNat, rest) := by
    rw [pipeRead, if_neg (by rw [length_append]; omega), take_left' hlen,
      drop_left' hlen]
  rw [handleCtrlCmd, hheader]
  simp only [Option.bind_eq_bind, Option.bind_some, getD_cons_succ, getD_cons_zero, hdata]
  rfl

section

variable (cmd : Package) (c : Char) {len off n : ℕ}

theorem len_header (hlen : len < 256) : (cmd.header c len).len.toNat = len :=
  UInt8.toNat_ofNat_of_lt' hlen

theorem load_header (h : off + n ≤ len ∧ len < 256) :
    (cmd.header c len).received.load off n = cmd.u.load off n := by
  rw [Package.received, len_header cmd c h.2]
  exact load_copy _ _ h.1

theorem getInt_header (h : off + 4 ≤ len ∧ len < 256) :
    getInt (cmd.header c len).received off = getInt cmd.u off := by
  rw [getInt, field, load_header cmd c h]
  rfl

theorem getPtr_header (h : off + 8 ≤ len ∧ len < 256) :
    getPtr (cmd.header c len).received off = getPtr cmd.u off := by
  rw [getPtr, field, load_header cmd c h]
  rfl

end

/-- The request structs of two `int`s. -/
theorem getInt_ints (c : Char) (a b : Int32) :
    getInt ((({} : Package).ints a b).header c 8).received 0 = a ∧
      getInt ((({} : Package).ints a b).header c 8).received 4 = b := by
  constructor <;>
    simp (disch := omega) only [Package.ints, getInt_header, getInt_setInt_same, getInt_setInt]

/-- The request structs that begin with three `int`s. -/
theorem getInt_ints₃ (cmd : Package) (x y z : Int32) :
    getInt (cmd.ints₃ x y z).u 0 = x ∧ getInt (cmd.ints₃ x y z).u 4 = y ∧
      getInt (cmd.ints₃ x y z).u 8 = z := by
  refine ⟨?_, ?_, ?_⟩ <;>
    simp (disch := omega) only [Package.ints₃, getInt_setInt_same, getInt_setInt]

/-- `cmd_request_send`, with the size that was stored before. -/
theorem get_send (dataSize dataPtr : Int64) :
    getInt ((withSize dataSize).send socketId dataPtr).u 0 = socketId ∧
      getPtr ((withSize dataSize).send socketId dataPtr).u 8 = dataSize ∧
      getPtr ((withSize dataSize).send socketId dataPtr).u 16 = dataPtr := by
  refine ⟨?_, ?_, ?_⟩ <;>
    simp (disch := omega) only [Package.send, withSize, getInt_setInt_same, getInt_setPtr,
      getPtr_setPtr_same, getPtr_setPtr, getPtr_setInt]

/-- An address that the struct ends with is read back: its first byte gives its length. -/
theorem getAddress_header (c : Char) {len : ℕ} {address : List UInt8}
    (hsize : address.length = if address.headD 0 = socketTypeUdp then 1 + 2 + 4 else 1 + 2 + 16)
    (h : off + address.length ≤ len ∧ len < 256) :
    getAddress ((({ u := m.store off address } : Package).header c len).received) off =
      address := by
  have hload : (({ u := m.store off address } : Package).header c len).received.load off
      address.length = address := by
    rw [load_header _ c h]
    exact load_store_same ..
  generalize (({ u := m.store off address } : Package).header c len).received = buf at hload
  have hpos : 0 < address.length := by rw [hsize]; split_ifs <;> omega
  have hfirst : address.headD 0 = buf off := by
    obtain ⟨n, hn⟩ := Nat.exists_eq_add_of_le hpos
    rw [← hload, hn, load_add]
    rfl
  rw [getAddress, ← hfirst, ← hsize, hload]

/-! ### Strings -/

theorem cstr_append_zero {s : List UInt8} (rest : List UInt8) :
    cstr (cstr s ++ 0 :: rest) = cstr s := by
  have hall : ∀ b ∈ cstr s, decide (b ≠ 0) = true := fun b hb =>
    mem_takeWhile_imp (p := fun b => decide (b ≠ 0)) hb
  rw [cstr, takeWhile_append_of_pos hall, takeWhile_cons_of_neg (by decide),
    append_nil]

theorem host_header (s : List UInt8) (h : (cstr s).length < 240) :
    cstr ((({ u := (m.store 12 (cstr s)).store (12 + (cstr s).length) [0] } : Package).header 'O'
      ((cstr s).length + 16)).received.load 12 (256 - 12)) = cstr s := by
  obtain ⟨k, hk⟩ := Nat.exists_eq_add_of_le (by omega : (cstr s).length + 1 ≤ 256 - 12)
  have hhost : ((m.store 12 (cstr s)).store (12 + (cstr s).length) [0]).load 12
      ((cstr s).length + 1) = cstr s ++ [0] := by
    rw [load_add, load_store_of_disjoint _ _ (.inl le_rfl),
      load_store_same]
    exact congrArg (cstr s ++ ·) (load_store_same _ _ [0])
  rw [hk, load_add, load_header _ 'O' (by omega), hhost, append_assoc,
    singleton_append, cstr_append_zero]

/-! ### Calls -/

/-- `cmd` is handled as `command`. -/
def Package.Means (cmd : Package) (command : Command) : Prop :=
  dispatch cmd.type cmd.received = command

/-- Requests of two `int`s. -/
theorem means_ints {c : Char} {f : Int32 → Int32 → Command}
    (hc : ∀ buf, dispatch (letter c) buf = f (getInt buf 0) (getInt buf 4)) (a b : Int32) :
    ((({} : Package).ints a b).header c 8).Means (f a b) := by
  obtain ⟨ha, hb⟩ := getInt_ints c a b
  refine (hc _).trans ?_
  rw [ha, hb]

/-- Requests of three `int`s, padded or not. -/
theorem means_ints₃ {c : Char} {len : ℕ} {f : Int32 → Int32 → Int32 → Command}
    (hc : ∀ buf, dispatch (letter c) buf = f (getInt buf 0) (getInt buf 4) (getInt buf 8))
    (hlen : 12 ≤ len ∧ len < 256) (x y z : Int32) :
    ((({} : Package).ints₃ x y z).header c len).Means (f x y z) := by
  obtain ⟨hx, hy, hz⟩ := getInt_ints₃ {} x y z
  refine (hc _).trans ?_
  rw [getInt_header _ c (by omega), getInt_header _ c (by omega), getInt_header _ c (by omega), hx,
    hy, hz]

theorem means_connect (svcHandle socketId : Int32) {host : List UInt8} (port : BitVec 16)
    (h : (cstr host).length < 240) :
    ∃ cmd, prepareConnect {} svcHandle socketId host port = some cmd ∧
      cmd.Means (.connectSocket socketId (port.setWidth 32) svcHandle (cstr host)) := by
  obtain ⟨hx, hy, hz⟩ := getInt_ints₃ {} socketId (port.setWidth 32) svcHandle
  refine ⟨_, if_neg (by omega), ?_⟩
  change Command.connectSocket _ _ _ _ = _
  rw [getInt_header _ 'O' (by omega), getInt_header _ 'O' (by omega), getInt_header _ 'O' (by omega)]
  simp (disch := omega) only [getInt_store]
  rw [hx, hy, hz]
  exact congrArg _ (host_header _ host h)

theorem means_send (dataSize dataPtr : Int64) :
    (prepareSend (withSize dataSize) socketId dataPtr true).Means
        (.sendSocket socketId dataSize dataPtr .high) ∧
      (prepareSend (withSize dataSize) socketId dataPtr false).Means
        (.sendSocket socketId dataSize dataPtr .low) := by
  obtain ⟨hid, hsize, hptr⟩ := get_send socketId dataSize dataPtr
  constructor
  all_goals
    change Command.sendSocket _ _ _ _ = _
    rw [prepareSend, getInt_header _ _ (by omega), getPtr_header _ _ (by omega),
      getPtr_header _ _ (by omega), hid, hsize, hptr]

theorem means_triggerWrite : (prepareTriggerWrite {} socketId).Means (.triggerWrite socketId) := by
  change Command.triggerWrite _ = _
  simp (disch := omega) only [prepareTriggerWrite, getInt_header, getInt_setPtr, getInt_setInt_same]

theorem means_udpSocket (svcHandle socketId socketFd family : Int32) :
    (prepareUdpSocket {} svcHandle socketId socketFd family).Means
      (.udpSocket socketId socketFd family svcHandle) := by
  obtain ⟨hx, hy, hz⟩ := getInt_ints₃ {} socketId socketFd family
  change Command.udpSocket _ _ _ _ = _
  simp (disch := omega) only [prepareUdpSocket, getInt_header, getInt_setInt, getInt_setInt_same, hx,
    hy, hz]

theorem length_toUdpAddress (e : Endpoint) :
    e.toUdpAddress.length = if e.toUdpAddress.headD 0 = socketTypeUdp then 1 + 2 + 4 else 1 + 2 + 16 := by
  cases e with
  | v4 port addr => rw [Endpoint.toUdpAddress, headD_cons, if_pos rfl]; simp
  | v6 port addr => rw [Endpoint.toUdpAddress, headD_cons, if_neg (by decide)]; simp

theorem means_setUdp (e : Endpoint) :
    (prepareSetUdp {} socketId e).Means (.setUdpAddress socketId e.toUdpAddress) := by
  have hsize := length_toUdpAddress e
  have hle : e.toUdpAddress.length ≤ 19 := by rw [hsize]; split_ifs <;> omega
  change Command.setUdpAddress _ _ = _
  rw [prepareSetUdp, getInt_header _ 'C' (by omega), getInt_store _ _ (by omega), getInt_setInt_same]
  exact congrArg _ (getAddress_header _ 'C' hsize (by omega))

theorem means_sendUdp (dataSize dataPtr : Int64) {address : List UInt8}
    (hsize : address.length = if address.headD 0 = socketTypeUdp then 1 + 2 + 4 else 1 + 2 + 16) :
    (prepareSendUdp (withSize dataSize) socketId dataPtr address).Means
      (.sendUdp socketId dataSize dataPtr address) := by
  obtain ⟨hid, hsz, hptr⟩ := get_send socketId dataSize dataPtr
  have hle : address.length ≤ 19 := by rw [hsize]; split_ifs <;> omega
  change Command.sendUdp _ _ _ _ = _
  rw [prepareSendUdp, getInt_header _ 'A' (by omega), getPtr_header _ 'A' (by omega),
    getPtr_header _ 'A' (by omega), getInt_store _ _ (by omega), getPtr_store _ _ (by omega),
    getPtr_store _ _ (by omega), hid, hsz, hptr]
  exact congrArg _ (getAddress_header _ 'A' hsize (by omega))

theorem length_of_addrSize {addr : Memory} {n : ℕ} (h : addrSize (addr 0) = some n) :
    (addr.load 0 n).length =
      if (addr.load 0 n).headD 0 = socketTypeUdp then 1 + 2 + 4 else 1 + 2 + 16 := by
  unfold addrSize at h
  rw [length_load]
  split_ifs at h with hv4 hv6
  · cases h
    exact (if_pos hv4).symm
  · cases h
    exact (if_neg hv4).symm

/-- **Meaning**: a call writes a package exactly when it is meant for the socket thread, and the
package means what the call is for. -/
theorem package_means {c : Call} (hexit : c ≠ .exit) : (c.package = none ∧ c.meant = none) ∨
      ∃ cmd command, c.package = some cmd ∧ c.meant = some command ∧ cmd.Means command := by
  cases c with
  | listen svcHandle listenFd socketId =>
    cases listenFd with
    | none => exact .inl ⟨rfl, by cases socketId <;> rfl⟩
    | some fd =>
      cases socketId with
      | none => exact .inl ⟨rfl, rfl⟩
      | some id => exact .inr ⟨_, _, rfl, rfl, means_ints₃ (fun _ => rfl) (by decide) ..⟩
  | connect svcHandle remoteIp remotePort socketId =>
    cases socketId with
    | none => exact .inl ⟨rfl, rfl⟩
    | some id =>
      by_cases hlen : (cstr remoteIp).length < 240
      · obtain ⟨cmd, hcmd, hmeans⟩ := means_connect svcHandle id remotePort hlen
        exact .inr ⟨cmd, _, hcmd, if_pos hlen, hmeans⟩
      · exact .inl ⟨if_pos (by omega), if_neg hlen⟩
  | start svcHandle socketId | pause svcHandle socketId =>
    exact .inr ⟨_, _, rfl, rfl, means_ints (fun _ => rfl) ..⟩
  | exit => exact absurd rfl hexit
  | close svcHandle socketId | shutdown svcHandle socketId | nodelay socketId =>
    exact .inr ⟨_, _, rfl, rfl, means_ints₃ (fun _ => rfl) (by decide) ..⟩
  | send socketId dataSize dataPtr route =>
    cases route with
    | done => exact .inl ⟨rfl, rfl⟩
    | direct => exact .inr ⟨_, _, rfl, rfl, means_triggerWrite socketId⟩
    | queued => exact .inr ⟨_, _, rfl, rfl, (means_send socketId dataSize dataPtr).1⟩
  | sendLowPriority socketId dataSize dataPtr invalid =>
    cases invalid with
    | true => exact .inl ⟨rfl, rfl⟩
    | false => exact .inr ⟨_, _, rfl, rfl, (means_send socketId dataSize dataPtr).2⟩
  | bindOsFd svcHandle osFd socketId =>
    cases socketId with
    | none => exact .inl ⟨rfl, rfl⟩
    | some id => exact .inr ⟨_, _, rfl, rfl, means_ints₃ (fun _ => rfl) (by decide) ..⟩
  | udpSocket svcHandle bound socketId =>
    cases bound with
    | none => exact .inl ⟨rfl, by cases socketId <;> rfl⟩
    | some bound =>
      cases socketId with
      | none => exact .inl ⟨rfl, rfl⟩
      | some id => exact .inr ⟨_, _, rfl, rfl, means_udpSocket ..⟩
  | udpSend socketId addr dataSize dataPtr done =>
    cases hn : addrSize (addr 0) with
    | none =>
      refine .inl ⟨?_, ?_⟩
      · simp only [package, hn]; rfl
      · cases done
        · simp only [meant, hn]; rfl
        · rfl
    | some n =>
      cases done with
      | true => exact .inl ⟨by simp only [package, hn]; rfl, rfl⟩
      | false =>
        refine .inr ⟨_, _, ?_, ?_, means_sendUdp socketId dataSize dataPtr (length_of_addrSize hn)⟩
        · simp only [package, hn]; rfl
        · simp only [meant, hn]; rfl
  | udpConnect socketId endpoint =>
    cases endpoint with
    | none => exact .inl ⟨rfl, rfl⟩
    | some e => exact .inr ⟨_, _, rfl, rfl, means_setUdp socketId e⟩

/-! ### Runs -/

/-- The pipe holds packages for `pending`, one behind the other. -/
inductive Queued : List UInt8 → List Command → Prop
  | nil : Queued [] []
  | cons {cmd : Package} {command : Command} {pipe : List UInt8} {pending : List Command}
      (hcmd : cmd.Means command) (hpipe : Queued pipe pending) :
      Queued (cmd.bytes ++ pipe) (command :: pending)

variable {pipe : List UInt8}

theorem Queued.snoc (h : Queued pipe pending) {cmd : Package} (hcmd : cmd.Means command) :
    Queued (pipe ++ cmd.bytes) (pending ++ [command]) := by
  induction h with
  | nil =>
    have hlast := Queued.nil.cons hcmd
    rwa [append_nil] at hlast
  | cons hfirst _ ih =>
    rw [append_assoc]
    exact ih.cons hfirst

theorem Queued.eq_nil (h : Queued pipe []) : pipe = [] := by
  cases h
  rfl

theorem Queued.eq_append (h : Queued pipe (command :: pending)) :
    ∃ cmd rest, pipe = Package.bytes cmd ++ rest ∧ cmd.Means command ∧ Queued rest pending := by
  cases h with
  | cons hcmd hpipe => exact ⟨_, _, rfl, hcmd, hpipe⟩

/-- What the calls so far are meant for is handled or waits in the pipe. -/
def State.InStep (s : State) : Prop :=
  s.failed = false ∧ ∃ pending, s.calls.filterMap meant = s.handled ++ pending ∧
    Queued s.pipe pending

/-- The step condition: `exit` is not called. -/
def NoExit (_ : State) : Action → Prop
  | .call .exit => False
  | _ => True

instance (s : State) (a : Action) : Decidable (NoExit s a) :=
  match a with
  | .call .exit => isFalse nofun
  | .call (.listen ..) | .call (.connect ..) | .call (.start ..) | .call (.pause ..)
  | .call (.close ..) | .call (.shutdown ..) | .call (.send ..) | .call (.sendLowPriority ..)
  | .call (.bindOsFd ..) | .call (.nodelay ..) | .call (.udpSocket ..) | .call (.udpSend ..)
  | .call (.udpConnect ..) | .handle => isTrue trivial

theorem State.InStep.call {t : State} (h : s.InStep) {c : Call} (hexit : c ≠ .exit)
    (ht : s.step (.call c) = some t) : t.InStep := by
  obtain ⟨hfailed, pending, hcalls, hpipe⟩ := h
  obtain ⟨hnone, hmeant⟩ | ⟨cmd, command, hcmd, hmeant, hmeans⟩ := package_means hexit
  · simp only [State.step, hnone, Option.some.injEq] at ht
    subst ht
    refine ⟨hfailed, pending, ?_, hpipe⟩
    rw [filterMap_append, filterMap_cons_none hmeant, filterMap_nil, append_nil,
      hcalls]
  · simp only [State.step, hcmd, Option.some.injEq] at ht
    subst ht
    refine ⟨hfailed, pending ++ [command], ?_, hpipe.snoc hmeans⟩
    rw [filterMap_append, filterMap_cons_some hmeant, filterMap_nil, hcalls,
      append_assoc]

theorem State.handle_queued (hfailed : s.failed = false) (h : Queued s.pipe (command :: pending)) :
    ∃ rest, s.step .handle = some { s with pipe := rest, handled := s.handled ++ [command] } ∧
      Queued rest pending := by
  obtain ⟨cmd, rest, hpipe, hcmd, hrest⟩ := h.eq_append
  refine ⟨rest, ?_, hrest⟩
  have hne : ¬(s.pipe = [] ∨ s.failed = true) := by
    rw [hpipe, hfailed]
    simp [Package.bytes]
  rw [State.step, if_neg hne, hpipe, handleCtrlCmd_bytes, hcmd]

theorem State.InStep.handle {t : State} (h : s.InStep) (ht : s.step .handle = some t) :
    t.InStep := by
  obtain ⟨hfailed, pending, hcalls, hqueued⟩ := h
  cases pending with
  | nil =>
    have hnone : s.step .handle = none := if_pos (.inl hqueued.eq_nil)
    exact absurd (hnone.symm.trans ht) nofun
  | cons command pending =>
    obtain ⟨rest, hstep, hrest⟩ := State.handle_queued hfailed hqueued
    obtain rfl := Option.some.inj (hstep.symm.trans ht)
    refine ⟨hfailed, pending, ?_, hrest⟩
    rw [hcalls, append_assoc]
    rfl

theorem inStep (h : server.ReachableVia NoExit s) : s.InStep := by
  refine h.invariant ⟨rfl, [], rfl, .nil⟩ ?_
  intro s a t hs hok ht
  cases a with
  | call c =>
    refine hs.call ?_ ht
    rintro rfl
    exact hok
  | handle => exact hs.handle ht

theorem State.InStep.drain (h : s.InStep) :
    ∃ n t, server.exec s (replicate n .handle) = some t ∧ t.pipe = [] ∧ t.failed = false ∧
      t.calls = s.calls ∧ t.handled = s.calls.filterMap meant := by
  obtain ⟨hfailed, pending, hcalls, hqueued⟩ := h
  induction pending generalizing s with
  | nil =>
    refine ⟨0, s, rfl, hqueued.eq_nil, hfailed, rfl, ?_⟩
    rw [hcalls, append_nil]
  | cons command pending ih =>
    obtain ⟨rest, hstep, hrest⟩ := State.handle_queued hfailed hqueued
    have hcalls' : s.calls.filterMap meant = (s.handled ++ [command]) ++ pending := by
      rw [hcalls, append_assoc]
      rfl
    obtain ⟨n, t, ht, hdone⟩ := ih (s := { s with pipe := rest, handled := s.handled ++ [command] })
      hfailed hcalls' hrest
    refine ⟨n + 1, t, ?_, hdone⟩
    rw [replicate_succ, System.exec]
    exact (congrArg (Option.bind · _) hstep).trans ht

theorem meant_ne_unknown {c : Call} (h : c.meant = some command) (type : UInt8) :
    command ≠ .unknown type := by
  rintro rfl
  unfold meant at h
  split at h <;> first | cases h | skip
  · split_ifs at h; cases h
  · obtain ⟨n, -, hn⟩ := Option.map_eq_some_iff.mp h
    cases hn

/-- **Commands.**  Whatever operations the threads call, `exit` apart: no read of the pipe falls
short, the commands handled so far are those the calls are meant for, in the order of their
writes, none of them unknown, and handling what is left in the pipe completes them. -/
theorem commands_dispatched {s : State} (h : server.ReachableVia NoExit s) :
    s.failed = false ∧ s.handled <+: s.calls.filterMap meant ∧
      (∀ type, Command.unknown type ∉ s.handled) ∧
      ∃ n t, server.exec s (replicate n .handle) = some t ∧ t.pipe = [] ∧ t.failed = false ∧
        t.calls = s.calls ∧ t.handled = s.calls.filterMap meant := by
  obtain ⟨hfailed, pending, hcalls, hqueued⟩ := inStep h
  refine ⟨hfailed, ⟨pending, hcalls.symm⟩, fun type hmem => ?_, (inStep h).drain⟩
  have hmeant : Command.unknown type ∈ s.calls.filterMap meant := by
    rw [hcalls]
    exact mem_append_left _ hmem
  obtain ⟨c, -, hc⟩ := mem_filterMap.mp hmeant
  exact meant_ne_unknown hc type rfl

/-- Two threads: one connects, the other pauses a socket; the first command is handled. -/
theorem commands_dispatched_of_two :
    ∃ s, server.ReachableVia NoExit s ∧ s.handled = [.connectSocket 5 80 7 [97, 46, 98]] ∧
      s.handled <+: s.calls.filterMap meant := by
  obtain ⟨s, hs, hhandled⟩ := server.exists_reachable NoExit
    [.call (.connect 7 [97, 46, 98] 80 (some 5)), .call (.pause 7 6), .handle]
    (fun s => s.handled = [.connectSocket 5 80 7 [97, 46, 98]]) (by decide +kernel)
  exact ⟨s, hs, hhandled, (commands_dispatched hs).2.1⟩

/-- `exit` sends its package as it was created, with a type of zero: the socket thread finds no
handler for it. -/
theorem exit_not_dispatched :
    ∃ s, server.Reachable s ∧ s.calls = [.exit] ∧ s.handled = [.unknown 0] ∧ s.pipe = [] :=
  ⟨⟨[], [.exit], [.unknown 0], false⟩,
    (System.ReachableVia.init.next (.call .exit) trivial rfl).next .handle trivial rfl, rfl, rfl, rfl⟩

end Skynet.CtrlCmd
