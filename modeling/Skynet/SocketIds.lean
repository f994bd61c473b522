import Skynet.SocketSteps

/-! # Socket ids, opening commands and the slot they are for

While a slot is allocated and not opened, exactly one thread or command is on its way to open
it, with the id of the slot (`Tracked`).  Ids are returned to services after the opening
command has been sent, so every other command for an id comes later in the pipe: no handler
but the opening one ever runs for the id of a slot that is merely allocated. -/

namespace Skynet.Socket

open List ThreadPool

namespace Pc

/-- The worker is about to send the opening command. -/
def opens : Pc → ℕ
  | .opening _ _ => 1
  | _ => 0

/-- What a worker knows about ids. -/
def Tracks (s : State) : Pc → Prop
  | .idle => True
  | .opening _ id => id = s.sock.socketId ∧ s.known < id
  | .checkId p | .checkStatus p | .canDirectSend _ _ p | .tryLock p | .write p | .unlock _ p
  | .incType _ p | .inc _ p | .push _ p => p.id ≤ s.known

end Pc

def Cmd.opens (c : Cmd) : ℕ := if c.isOpen then 1 else 0

/-- Ids and opening commands. -/
structure Tracked (s : State) : Prop where
  known : s.known ≤ s.sock.socketId
  pcs : ∀ (j : ℕ) p, s.acts[j]? = some p → p.Tracks s
  cmds : ∀ c ∈ s.pipe, c.id ≤ s.known
  fifo : s.pipe.Pairwise fun c c' => c'.isOpen = true → c.id < c'.id
  opening : ∀ c ∈ s.pipe, c.isOpen = true → c.id = s.sock.socketId
  token : total Pc.opens s.acts + total Cmd.opens s.pipe =
    if s.sock.status = .alloced then 1 else 0
  untyped : s.sock.status = .alloced → s.sock.type = .unknown

/-- At most the first command is gone, and it is not an opening one. -/
def Reads (pipe rest : List Cmd) : Prop := pipe = rest ∨ ∃ c, pipe = c :: rest ∧ c.isOpen = false

variable {pipe rest : List Cmd}

theorem Skips.reads (h : Skips pipe rest) : Reads pipe rest := by
  cases h with
  | same => exact .inl rfl
  | pop ho _ => exact .inr ⟨_, rfl, ho⟩

theorem Reads.mem (h : Reads pipe rest) {c : Cmd} (hc : c ∈ rest) : c ∈ pipe := by
  rcases h with rfl | ⟨d, rfl, _⟩
  · exact hc
  · exact mem_cons_of_mem _ hc

theorem Reads.pairwise (h : Reads pipe rest) {R : Cmd → Cmd → Prop} (hp : pipe.Pairwise R) :
    rest.Pairwise R := by
  rcases h with rfl | ⟨d, rfl, _⟩
  · exact hp
  · exact (pairwise_cons.1 hp).2

theorem Reads.opens (h : Reads pipe rest) : total Cmd.opens pipe = total Cmd.opens rest := by
  rcases h with rfl | ⟨d, rfl, hd⟩
  · rfl
  · rw [total_cons, Cmd.opens, hd]
    simp

namespace Tracked

variable {s t : State} {i : ℕ} {p p' : Pc} {a : Action}

theorem init : Tracked State.init where
  known := le_rfl
  pcs j p h := by simp [State.init] at h
  cmds c h := by simp [State.init] at h
  fifo := List.Pairwise.nil
  opening c h := by simp [State.init] at h
  token := rfl
  untyped _ := rfl

theorem crash (h : Tracked s) (f : Fault) : Tracked (s.crash f) :=
  ⟨h.known, fun j p hp => by cases p <;> exact h.pcs j _ hp, h.cmds, h.fifo, h.opening, h.token,
    h.untyped⟩

theorem tracks_congr (hp : p.Tracks s) (hid : t.sock.socketId = s.sock.socketId)
    (hk : t.known = s.known) : p.Tracks t := by
  cases p with
  | idle => trivial
  | _ => simpa only [Pc.Tracks, hid, hk] using hp

theorem quiet (h : Tracked s) (hacts : t.acts = s.acts) (hid : t.sock.socketId = s.sock.socketId)
    (hk : t.known = s.known) (hpipe : Reads s.pipe t.pipe)
    (hst : t.sock.status = .alloced ↔ s.sock.status = .alloced)
    (htype : t.sock.type = s.sock.type) : Tracked t where
  known := by rw [hk, hid]; exact h.known
  pcs j p hp := tracks_congr (h.pcs j p (hacts ▸ hp)) hid hk
  cmds c hc := by rw [hk]; exact h.cmds c (hpipe.mem hc)
  fifo := hpipe.pairwise h.fifo
  opening c hc ho := by rw [hid]; exact h.opening c (hpipe.mem hc) ho
  token := by
    rw [hacts, ← hpipe.opens, h.token]
    simp only [hst]
  untyped ha := by rw [htype]; exact h.untyped (hst.1 ha)

variable {rest : List Cmd}

variable {c : Cmd} {k : OpenKind}

theorem head_ne (h : Tracked s) (hp : s.pipe = c :: rest) (hc : c.isOpen = false)
    (ha : s.sock.status = .alloced) : c.id ≠ s.sock.socketId := by
  have htoken := h.token
  rw [if_pos ha, hp, total_cons, Cmd.opens, hc] at htoken
  have hle := h.cmds c (by rw [hp]; exact mem_cons_self)
  by_cases hacts : 0 < total Pc.opens s.acts
  · obtain ⟨j, p, hj, hpos⟩ := exists_of_total_pos hacts
    have hk := h.pcs j p hj
    cases p with
    | opening k id =>
      obtain ⟨rfl, hlt⟩ := hk
      omega
    | _ => exact absurd hpos (lt_irrefl 0)
  · have hpos : 0 < total Cmd.opens rest := by
      simp only [Bool.false_eq_true, if_false] at htoken
      omega
    obtain ⟨j, d, hj, hd⟩ := exists_of_total_pos hpos
    have hopen : d.isOpen = true := by
      by_contra hno
      simp [Cmd.opens, hno] at hd
    have hmem : d ∈ rest := mem_of_getElem? hj
    have hfifo := h.fifo
    rw [hp] at hfifo
    have hlt := (pairwise_cons.1 hfifo).1 d hmem hopen
    have hdid := h.opening d (by rw [hp]; exact mem_cons_of_mem _ hmem) hopen
    omega

theorem head_open (h : Tracked s) {id : ℕ} (hp : s.pipe = .opening k id :: rest) :
    s.sock.status = .alloced ∧ id = s.sock.socketId ∧
      total Pc.opens s.acts = 0 ∧ total Cmd.opens rest = 0 := by
  have htoken := h.token
  rw [hp, total_cons] at htoken
  simp only [Cmd.opens, Cmd.isOpen, if_true] at htoken
  have hid := h.opening (.opening k id) (by rw [hp]; exact mem_cons_self) rfl
  split_ifs at htoken with ha
  · exact ⟨ha, hid, by omega, by omega⟩
  · omega

theorem head_live (h : Tracked s) (hp : s.pipe = c :: rest) (hc : c.isOpen = false)
    (hv : s.sock.isInvalid c.id = false) : s.sock.status.live = true := by
  obtain ⟨hid, hne⟩ := SocketObject.isInvalid_eq_false hv
  have ha : s.sock.status ≠ .alloced := fun ha => h.head_ne hp hc ha hid.symm
  cases hs : s.sock.status <;> simp_all [Status.live]

theorem no_opening (h : Tracked s) (hs : s.sock.status ≠ .alloced) :
    (∀ c ∈ s.pipe, c.isOpen = false) ∧ ∀ (j : ℕ) p, s.acts[j]? = some p → p.opens = 0 := by
  have htoken := h.token
  rw [if_neg hs] at htoken
  refine ⟨fun c hc => ?_, fun j p hp => ?_⟩
  · obtain ⟨j, hj⟩ := getElem?_of_mem hc
    have hle := le_total Cmd.opens hj
    cases ho : c.isOpen with
    | false => rfl
    | true =>
      rw [Cmd.opens, ho, if_pos rfl] at hle
      omega
  · have := le_total Pc.opens hp
    omega

theorem tracks_mono (hp : p.Tracks s) (ho : p.opens = 0) (hk : s.known ≤ t.known) : p.Tracks t := by
  cases p with
  | idle => trivial
  | opening => exact absurd ho nofun
  | _ => exact le_trans hp hk

theorem renewed (h : Tracked s) (hs : s.sock.status = .invalid) (hacts : t.acts = s.acts)
    (hid : t.sock.socketId = s.sock.socketId + 1) (hpipe : t.pipe = s.pipe)
    (hk : t.known = s.known ∨ t.known = s.sock.socketId + 1) (hst : t.sock.status ≠ .alloced) :
    Tracked t := by
  have hne : s.sock.status ≠ .alloced := by rw [hs]; exact nofun
  obtain ⟨hcmds, hpcs⟩ := h.no_opening hne
  have hmono : s.known ≤ t.known := by
    have := h.known
    omega
  refine ⟨?_, fun j p hp => ?_, fun c hc => ?_, hpipe ▸ h.fifo, fun c hc ho => ?_, ?_,
    fun ha => absurd ha hst⟩
  · have := h.known
    omega
  · rw [hacts] at hp
    exact tracks_mono (h.pcs j p hp) (hpcs j p hp) hmono
  · exact (h.cmds c (hpipe ▸ hc)).trans hmono
  · rw [hcmds c (hpipe ▸ hc)] at ho
    cases ho
  · rw [hacts, hpipe, h.token, if_neg hne, if_neg hst]

theorem openHandled (h : Tracked s) {id : ℕ} (hp : s.pipe = .opening k id :: rest)
    (hacts : t.acts = s.acts) (hid : t.sock.socketId = s.sock.socketId) (hk : t.known = s.known)
    (hpipe : t.pipe = rest) (hst : t.sock.status ≠ .alloced) : Tracked t := by
  obtain ⟨_, _, hpcs, hrest⟩ := h.head_open hp
  have hmem : ∀ c ∈ t.pipe, c ∈ s.pipe := fun c hc => by
    rw [hp]
    exact mem_cons_of_mem _ (hpipe ▸ hc)
  have hfifo := h.fifo
  rw [hp] at hfifo
  refine ⟨by rw [hk, hid]; exact h.known, fun j p hj => tracks_congr (h.pcs j p (hacts ▸ hj)) hid hk,
    fun c hc => by rw [hk]; exact h.cmds c (hmem c hc), hpipe ▸ (pairwise_cons.1 hfifo).2,
    fun c hc ho => by rw [hid]; exact h.opening c (hmem c hc) ho, ?_, fun ha => absurd ha hst⟩
  rw [hacts, hpipe, hpcs, hrest, if_neg hst]

theorem alloced_iff_of_live {x y : SocketObject} (hx : x.status.live = true)
    (hy : y.status.live = true) : x.status = .alloced ↔ y.status = .alloced := by
  constructor
  · intro h
    rw [h] at hx
    cases hx
  · intro h
    rw [h] at hy
    cases hy

variable (h : Tracked s)

include h

/-- **Ids** are tracked through every step of the socket thread. -/
theorem polls (ht : Polls s a t) (hf : t.fault = none)
    (hempty : s.sock.status = .alloced → s.sock.isWriteBufferEmpty = true)
    (hclosing : ∀ id k, s.poll = .closing id k → s.sock.status.live = true) : Tracked t := by
  cases ht with
  | crash hf' => exact absurd hf hf'
  | flags hp => exact h.quiet rfl rfl rfl hp.reads Iff.rfl rfl
  | entered hp _ st hst =>
    refine h.quiet rfl rfl rfl hp.reads (alloced_iff_of_live ?_ ?_) rfl
    · rcases hst with ⟨_, rfl⟩ | ⟨_, rfl⟩ | ⟨_, rfl⟩ <;> rfl
    · rcases hst with ⟨hs, _⟩ | ⟨hs, _⟩ | ⟨hs, _⟩ <;> rw [hs] <;> rfl
  | opened hp _ _ _ st hst =>
    refine h.openHandled hp rfl (h.head_open hp).2.1 rfl rfl fun hs => ?_
    have hlive := hst.1
    rw [show st = .alloced from hs] at hlive
    cases hlive
  | openFailed hp => exact h.openHandled hp rfl rfl rfl rfl nofun
  | openUndone hp => exact h.openHandled hp rfl (h.head_open hp).2.1 rfl rfl nofun
  | closing _ hp => exact h.quiet rfl rfl rfl (.inr ⟨_, hp, rfl⟩) Iff.rfl rfl
  | appended hp => exact h.quiet rfl (by simp) rfl (.inr ⟨_, hp, rfl⟩) (by simp) (by simp)
  | closes hp k st wr hl hst =>
    refine h.quiet rfl rfl rfl hp.reads (alloced_iff_of_live ?_ hl) rfl
    rcases hst with rfl | ⟨_, rfl⟩
    · exact hl
    · rfl
  | closingRead _ hp _ hv =>
    exact h.quiet rfl rfl rfl (.inr ⟨_, hp, rfl⟩)
      (alloced_iff_of_live rfl (h.head_live hp rfl hv)) rfl
  | closedRead _ htype hv =>
    refine h.quiet rfl rfl rfl (.inl rfl) ⟨nofun, fun ha => ?_⟩ rfl
    rw [h.untyped ha] at htype
    cases htype
  | closedWrite _ _ _ he =>
    refine h.quiet rfl rfl rfl (.inl rfl) ⟨nofun, fun ha => ?_⟩ rfl
    rw [hempty ha] at he
    cases he
  | flushes | toLow | spins | ends | wroteHigh | partHigh | wroteLow | partLow | decremented
  | skipped => exact h.quiet rfl rfl rfl (.inl rfl) Iff.rfl rfl
  | closed hp =>
    refine h.quiet (by simp) (by simp) (by simp) (.inl (by simp)) ?_ (by simp)
    rw [State.resume_sock]
    refine ⟨nofun, fun ha => ?_⟩
    have hlive := hclosing _ _ hp
    rw [ha] at hlive
    cases hlive
  | accepts hi hv o =>
    cases o with
    | addFailed | enableFailed => exact h.renewed hv rfl rfl rfl (.inl rfl) nofun
    | _ => exact h.renewed hv rfl rfl rfl (.inr rfl) nofun

theorem works_quiet (hp : s.acts[i]? = some p) (hacts : t.acts = s.acts.set i p')
    (hid : t.sock.socketId = s.sock.socketId) (hk : t.known = s.known) (hpipe : t.pipe = s.pipe)
    (hst : t.sock.status = s.sock.status) (htype : t.sock.type = s.sock.type)
    (ho : p'.opens = p.opens) (hp' : p'.Tracks s) : Tracked t := by
  refine ⟨by rw [hk, hid]; exact h.known, ?_, by rw [hpipe, hk]; exact h.cmds, hpipe ▸ h.fifo,
    by rw [hpipe, hid]; exact h.opening, ?_, by rw [hst, htype]; exact h.untyped⟩
  · rw [hacts]
    exact forall_set_index h.pcs (fun j r _ _ hr => tracks_congr hr hid hk) (tracks_congr hp' hid hk)
  · have hset := total_set Pc.opens p' hp
    rw [hacts, hpipe, hst, ← h.token]
    omega

theorem push (hc : c.isOpen = false) (hid : c.id ≤ s.known)
    (hpcs : ∀ (j : ℕ) p, t.acts[j]? = some p → p.Tracks s)
    (hopens : total Pc.opens t.acts = total Pc.opens s.acts) (hsock : t.sock = s.sock)
    (hk : t.known = s.known) (hpipe : t.pipe = s.pipe ++ [c]) : Tracked t := by
  have hmem : ∀ d ∈ t.pipe, d ∈ s.pipe ∨ d = c := fun d hd => by
    rw [hpipe] at hd
    simpa using hd
  refine ⟨by rw [hk, hsock]; exact h.known,
    fun j p hp => tracks_congr (hpcs j p hp) (congrArg SocketObject.socketId hsock) hk,
    fun d hd => ?_, ?_, fun d hd hopen => ?_, ?_, by rw [hsock]; exact h.untyped⟩
  · rw [hk]
    rcases hmem d hd with hd | rfl
    · exact h.cmds d hd
    · exact hid
  · rw [hpipe, pairwise_append]
    refine ⟨h.fifo, pairwise_singleton _ _, fun d _ e he => ?_⟩
    rw [mem_singleton.1 he, hc]
    exact nofun
  · rw [hsock]
    rcases hmem d hd with hd | rfl
    · exact h.opening d hd hopen
    · rw [hc] at hopen
      cases hopen
  · have hnew : Cmd.opens c = 0 := by rw [Cmd.opens, hc]; rfl
    rw [hopens, hpipe, hsock, ← h.token, total_append, total_cons, total_nil]
    omega

theorem pushed (hp : s.acts[i]? = some p) (ho : p.opens = 0) (hc : c.isOpen = false)
    (hid : c.id ≤ s.known) (hacts : t.acts = s.acts.set i .idle) (hsock : t.sock = s.sock)
    (hk : t.known = s.known) (hpipe : t.pipe = s.pipe ++ [c]) : Tracked t := by
  refine h.push hc hid ?_ ?_ hsock hk hpipe
  · rw [hacts]
    exact forall_set_index h.pcs (fun _ _ _ _ => id) trivial
  · have hset := total_set Pc.opens .idle hp
    have hidle : Pc.opens .idle = 0 := rfl
    rw [hacts]
    omega

theorem opened {id : ℕ} (hp : s.acts[i]? = some (.opening k id)) : Tracked (s.sendOpen i k id) := by
  obtain ⟨hid, hlt⟩ := h.pcs i _ hp
  have hset := total_set Pc.opens .idle hp
  have htoken := h.token
  have h1 : Pc.opens (.opening k id) = 1 := rfl
  have h0 : Pc.opens .idle = 0 := rfl
  have ha : s.sock.status = .alloced := by
    by_contra hne
    rw [if_neg hne] at htoken
    omega
  rw [if_pos ha] at htoken
  have hnone : ∀ c ∈ s.pipe, c.isOpen = false := fun c hc => by
    obtain ⟨j, hj⟩ := getElem?_of_mem hc
    have hcle := le_total Cmd.opens hj
    cases hopen : c.isOpen with
    | false => rfl
    | true =>
      rw [Cmd.opens, hopen, if_pos rfl] at hcle
      omega
  have hother : ∀ (j : ℕ) r, j ≠ i → s.acts[j]? = some r → r.opens = 0 := fun j r hj hr => by
    have := two_le_total Pc.opens hj hr hp
    omega
  refine ⟨hid.le, ?_, fun c hc => ?_, ?_, fun c hc hopen => ?_, ?_, fun _ => h.untyped ha⟩
  · exact forall_set_index h.pcs (fun j r hj hr hk => tracks_mono hk (hother j r hj hr) hlt.le) trivial
  · rcases mem_append.1 hc with hc | hc
    · exact (h.cmds c hc).trans hlt.le
    · rw [mem_singleton.1 hc]
      exact le_rfl
  · refine pairwise_append.2 ⟨h.fifo, pairwise_singleton _ _, fun c hc d hd _ => ?_⟩
    rw [mem_singleton.1 hd]
    exact (h.cmds c hc).trans_lt hlt
  · rcases mem_append.1 hc with hc | hc
    · rw [hnone c hc] at hopen
      cases hopen
    · rw [mem_singleton.1 hc]
      exact hid
  · have hnew : Cmd.opens (.opening k id) = 1 := rfl
    rw [show (s.sendOpen i k id).sock.status = .alloced from ha, if_pos rfl]
    simp only [State.sendOpen, State.goto, total_append, total_cons, total_nil]
    omega

/-- **Ids** are tracked through every step of a worker. -/
theorem works {r : WriteResult} (hp : s.acts[i]? = some p) (ht : Works s i r p t) : Tracked t := by
  have hk := h.pcs i p hp
  cases ht with
  | moves hm =>
    refine h.works_quiet hp rfl rfl rfl rfl rfl rfl ?_ ?_
    · cases hm <;> rfl
    · cases hm with
      | outdated | invalid => trivial
      | _ => exact hk
  | opened k id => exact h.opened hp
  | returned => exact h.works_quiet hp rfl rfl rfl rfl rfl rfl rfl trivial
  | locked | wrote | wrotePart | unlocked | counted =>
    exact h.works_quiet hp rfl rfl rfl rfl rfl rfl rfl hk
  | triggers p => exact h.pushed hp rfl (c := .triggerWrite p.id) rfl hk rfl rfl rfl rfl
  | pushed p => exact h.pushed hp rfl (c := .send p) rfl hk rfl rfl rfl rfl

/-- `alloc_socket` -/
theorem alloc (hp : s.acts[i]? = some .idle) (hs : s.sock.status = .invalid) (k : OpenKind) :
    Tracked ({ s with sock := s.sock.alloc, wire := [] }.goto i
      (.opening k (s.sock.socketId + 1))) := by
  have hne : s.sock.status ≠ .alloced := by rw [hs]; exact nofun
  obtain ⟨hcmds, hpcs⟩ := h.no_opening hne
  have hknown := h.known
  refine ⟨hknown.trans (Nat.le_succ _), ?_, h.cmds, h.fifo, fun c hc ho => ?_, ?_, fun _ => rfl⟩
  · exact forall_set_index h.pcs (fun j r _ hr hk => tracks_mono hk (hpcs j r hr) le_rfl)
      ⟨rfl, Nat.lt_succ_of_le hknown⟩
  · rw [hcmds c hc] at ho
    cases ho
  · have hset := total_set Pc.opens (.opening k (s.sock.socketId + 1)) hp
    have h1 : Pc.opens (.opening k (s.sock.socketId + 1)) = 1 := rfl
    have h0 : Pc.opens .idle = 0 := rfl
    have htoken := h.token
    rw [if_neg hne] at htoken
    simp only [State.goto, SocketObject.alloc, if_true]
    omega

/-- **Ids** are tracked through every step. -/
theorem acts (ht : Acts s a t) (hf : t.fault = none)
    (hempty : s.sock.status = .alloced → s.sock.isWriteBufferEmpty = true)
    (hclosing : ∀ id k, s.poll = .closing id k → s.sock.status.live = true) : Tracked t := by
  cases ht with
  | thread =>
    exact ⟨h.known, forall_append_index h.pcs trivial, h.cmds, h.fifo, h.opening,
      by rw [total_append]; exact h.token, h.untyped⟩
  | send hp hid => exact h.works_quiet hp rfl rfl rfl rfl rfl rfl rfl hid
  | @alloc i k hp hs => exact h.alloc hp hs k
  | run hp hw => exact h.works hp hw
  | @control c hc hid =>
    have hopen : c.isOpen = false := by cases c <;> first | rfl | cases hc
    exact h.push hopen hid h.pcs rfl rfl rfl rfl
  | poll hp => exact h.polls hp hf hempty hclosing

omit h

end Tracked

end Skynet.Socket
