import Skynet.SocketChannel

/-! # The answers of a channel in order mode

Every requester that was pushed is answered once, by its own response function or with
`socket_error` (`pushed_requesters_answered`).

This needs some care of those who use the channel.  `dispatch_by_order` looks at `__sock` only
between two responses and leaves its loop without a look at the queue: when the socket is closed
while a response is being read that then arrives after all, the requesters behind it stay in the
queue, and the dispatch coroutine of the next connection answers them from the wrong stream
(`requester_answered_by_next_connection`). -/

namespace Skynet.SocketChannel

open List Function Transition Line Dispatcher

variable {σ δ : Type}

/-! ### Who waits for an answer -/

/-- The entry the dispatch coroutine has taken from the queue. -/
def Dispatcher.hand : Option (Dispatcher σ δ) → List (Entry σ δ)
  | some (.reading e _) | some (.failing e _) => [e]
  | _ => []

section hand

variable (e : Entry σ δ)

@[simp] theorem hand_none : hand (none : Option (Dispatcher σ δ)) = [] := rfl

@[simp] theorem hand_forked : hand (some .forked : Option (Dispatcher σ δ)) = [] := rfl

@[simp] theorem hand_waiting (woken : Bool) :
    hand (some (.waiting woken) : Option (Dispatcher σ δ)) = [] := rfl

@[simp] theorem hand_reading (c : ℕ) : hand (some (.reading e c)) = [e] := rfl

@[simp] theorem hand_failing (m : Option String) : hand (some (.failing e m)) = [e] := rfl

end hand

/-- The answer is a response to a requester of connection `c`. -/
def responseOn (c : ℕ) : Entry σ δ × Answer δ → Option (Entry σ δ × Bool × Data δ)
  | (e, .response ok d) => if e.conn = c then some (e, ok, d) else none
  | (_, .socketError _) => none

namespace Line

variable (s : Line σ δ)

def queued : List (Entry σ δ) := s.queue.filterMap id

/-- The entries without an answer, in the order of their pushes. -/
def pending : List (Entry σ δ) := Dispatcher.hand s.dispatch ++ s.queued

def pushesOn (c : ℕ) : List (Entry σ δ) := s.pushes.filter (·.conn = c)

/-- The responses given to requesters of connection `c`. -/
def responses (c : ℕ) : List (Entry σ δ × Bool × Data δ) :=
  s.wakes.filterMap (responseOn c)

end Line

/-- Response functions are applied to `x` one after the other, with these results. -/
inductive Serves : σ → List (Func σ δ × Bool × Data δ) → σ → Prop
  | nil (x : σ) : Serves x [] x
  | snoc {x y z : σ} {l : List (Func σ δ × Bool × Data δ)} {f : Func σ δ} {n : ℕ} {ok : Bool}
      {d : Data δ} (h : Serves x l y) (hf : f.getResponse n y = some ((ok, d), z)) :
      Serves x (l ++ [(f, ok, d)]) z

/-- The wait of a requester, and whether it was woken. -/
def Pc.ticket : Pc σ δ → Option (Bool × ℕ)
  | waiting n => some (false, n)
  | woken n => some (true, n)
  | _ => none

theorem Pc.waiting_of_ticket {pc : Pc σ δ} {n : ℕ} (h : pc.ticket = some (false, n)) :
    pc = .waiting n := by
  cases pc <;> cases h
  rfl

theorem Pc.woken_of_ticket {pc : Pc σ δ} {n : ℕ} (h : pc.ticket = some (true, n)) :
    pc = .woken n := by
  cases pc <;> cases h
  rfl

theorem Pc.wake_wake (pc : Pc σ δ) : pc.wake.wake = pc.wake := by
  cases pc <;> rfl

/-! ### The invariant -/

/-- Every requester of a line waits for its answer or has got it. -/
structure Booked (s : Line σ δ) : Prop where
  pending : ∀ e ∈ s.pending, e.conn + 1 = s.nconns ∧
    (s.pcs e.thread).ticket = some (false, e.serial)
  perm : (s.wakes.map (·.1) ++ s.pending).Perm s.pushes
  serials : s.pushes.map (·.serial) = List.range s.pushes.length
  conns : ∀ e ∈ s.pushes, e.conn < s.nconns
  woken : ∀ w ∈ s.wakes, (w.1.serial, w.2) ∈ s.resumed ∨
    (s.pcs w.1.thread).ticket = some (true, w.1.serial) ∧ s.results w.1.thread = some w.2
  stored : ∀ i a, s.results i = some a →
    ∃ w ∈ s.wakes, (s.pcs i).ticket = some (true, w.1.serial) ∧ w.1.thread = i ∧ w.2 = a
  resumed : ∀ r ∈ s.resumed, ∃ w ∈ s.wakes, w.1.serial = r.1 ∧ w.2 = r.2
  once : (s.resumed.map (·.1)).Nodup
  unresumed : ∀ i b n, (s.pcs i).ticket = some (b, n) → n ∉ s.resumed.map (·.1) ∧
    ∃ e ∈ s.pushes, e.thread = i ∧ e.serial = n

/-- The requesters of a line are accounted for, and its responses are those of their functions. -/
structure Sound (stream : ℕ → σ) (s : Line σ δ) : Prop extends Booked s where
  idle : s.dispatch = none → s.queue = [] ∧ s.sock = none
  waiting : s.dispatch = some (.waiting false) → s.queue = []
  alive : s.dispatch ≠ some .dead
  signal : none ∈ s.queue → s.sock = none
  current : ∀ c, s.sock = some c → c + 1 = s.nconns
  reading : ∀ e c, s.dispatch = some (.reading e c) → c + 1 = s.nconns
  failing : ∀ e m, s.dispatch = some (.failing e m) → s.sock = none
  served : ∀ c, Serves (stream c) ((s.responses c).map fun r => (r.1.func, r.2)) (s.streams c)
  order : ∀ c, (s.responses c).map (·.1) ++ (hand s.dispatch).filter (·.conn = c) <+:
    s.pushesOn c
  up : ∀ c, s.sock = some c → s.pushesOn c = (s.responses c).map (·.1) ++ s.pending

/-- Between `s` and `t` the entries of `given`, which were pending, have got their answers. -/
structure Answered (s t : Line σ δ) (given : List (Entry σ δ × Answer δ)) : Prop where
  pending : (given.map (·.1) ++ t.pending).Perm s.pending
  wakes : t.wakes = s.wakes ++ given
  woke : ∀ w ∈ given, t.pcs w.1.thread = (s.pcs w.1.thread).wake ∧
    t.results w.1.thread = some w.2
  others : ∀ i, (∀ w ∈ given, w.1.thread ≠ i) → t.pcs i = s.pcs i ∧ t.results i = s.results i
  pushes : t.pushes = s.pushes
  resumed : t.resumed = s.resumed
  nconns : t.nconns = s.nconns

namespace Booked

variable {s t : Line σ δ}

theorem nodup (h : Booked s) : ((s.wakes.map (·.1) ++ s.pending).map (·.serial)).Nodup := by
  rw [(h.perm.map _).nodup_iff, h.serials]
  exact nodup_range

theorem ticket_wake {pc : Pc σ δ} {n : ℕ} (h : pc.ticket = some (false, n)) :
    pc.wake.ticket = some (true, n) := by
  rw [Pc.waiting_of_ticket h]
  rfl

theorem answered (h : Booked s) {given : List (Entry σ δ × Answer δ)} (ha : Answered s t given) :
    Booked t := by
  have hticket {w : Entry σ δ × Answer δ} (hw : w ∈ given) :
      (s.pcs w.1.thread).ticket = some (false, w.1.serial) :=
    (h.pending _ (ha.pending.mem_iff.mp (mem_append_left _ (mem_map_of_mem hw)))).2
  have hnew {w : Entry σ δ × Answer δ} (hw : w ∈ given) :
      (t.pcs w.1.thread).ticket = some (true, w.1.serial) := by
    rw [(ha.woke w hw).1]
    exact ticket_wake (hticket hw)
  have hsub {w : Entry σ δ × Answer δ} (hw : w ∈ s.wakes) : w ∈ t.wakes :=
    ha.wakes ▸ mem_append_left _ hw
  refine ⟨fun e he => ?_, ?_, by rw [ha.pushes]; exact h.serials,
    by rw [ha.pushes, ha.nconns]; exact h.conns, fun w hw => ?_, fun i a hi => ?_, fun r hr => ?_,
    by rw [ha.resumed]; exact h.once, fun i b n hi => ?_⟩
  · obtain ⟨hconn, ht⟩ := h.pending e (ha.pending.mem_iff.mp (mem_append_right _ he))
    refine ⟨by rw [ha.nconns]; exact hconn, ?_⟩
    rw [(ha.others e.thread fun w hw hth => ?_).1]
    · exact ht
    -- a coroutine with one ticket is not pending twice
    have hnodup := ((ha.pending.map (·.serial)).nodup_iff.mpr
      (nodup_append.mp (by simpa using h.nodup)).2.1)
    rw [map_append, nodup_append] at hnodup
    rw [← hth, hticket hw] at ht
    exact hnodup.2.2 _ (mem_map_of_mem (mem_map_of_mem hw)) _ (mem_map_of_mem he)
      (Prod.mk.inj (Option.some.inj ht)).2
  · rw [ha.wakes, ha.pushes, map_append, append_assoc]
    exact (ha.pending.append_left _).trans h.perm
  · rw [ha.wakes] at hw
    rw [ha.resumed]
    rcases mem_append.mp hw with hw | hw
    · rcases h.woken w hw with hr | ⟨ht, hr⟩
      · exact .inl hr
      · have hold := ha.others w.1.thread fun w' hw' hth => by
          rw [← hth, hticket hw'] at ht
          cases ht
        rw [hold.1, hold.2]
        exact .inr ⟨ht, hr⟩
    · exact .inr ⟨hnew hw, (ha.woke w hw).2⟩
  · by_cases hmem : ∃ w ∈ given, w.1.thread = i
    · obtain ⟨w, hw, rfl⟩ := hmem
      rw [(ha.woke w hw).2, Option.some.injEq] at hi
      exact ⟨w, ha.wakes ▸ mem_append_right _ hw, hnew hw, rfl, hi⟩
    · have hold := ha.others i fun w hw hth => hmem ⟨w, hw, hth⟩
      rw [hold.2] at hi
      obtain ⟨w, hw, ht, hwi⟩ := h.stored i a hi
      exact ⟨w, hsub hw, by rw [hold.1]; exact ht, hwi⟩
  · rw [ha.resumed] at hr
    obtain ⟨w, hw, hwr⟩ := h.resumed r hr
    exact ⟨w, hsub hw, hwr⟩
  · rw [ha.resumed, ha.pushes]
    by_cases hmem : ∃ w ∈ given, w.1.thread = i
    · obtain ⟨w, hw, rfl⟩ := hmem
      rw [hnew hw] at hi
      cases hi
      exact h.unresumed _ _ _ (hticket hw)
    · rw [(ha.others i fun w hw hth => hmem ⟨w, hw, hth⟩).1] at hi
      exact h.unresumed i b n hi

end Booked

namespace Sound

variable {stream : ℕ → σ} {s t : Line σ δ} {i : ℕ}

theorem init (hasAuth : Bool) : Sound stream (State.init hasAuth stream : State σ δ).toLine := by
  refine ⟨?_, ?_, ?_, ?_, ?_, ?_, ?_, ?_, ?_, ?_, ?_⟩
  · constructor <;> simp [State.init, pending, queued, Pc.ticket]
  all_goals simp [State.init, pending, queued, responses, pushesOn, Serves.nil]

theorem of_pcs (h : Sound stream s) {pcs : ℕ → Pc σ δ}
    (hp : ∀ i, (pcs i).ticket = (s.pcs i).ticket) : Sound stream { s with pcs := pcs } :=
  { h with
    pending := fun e he => by
      exact ⟨(h.pending e he).1, (hp _).trans (h.pending e he).2⟩
    woken := fun w hw => by
      rcases h.woken w hw with hr | ⟨ht, hr⟩
      · exact .inl hr
      · exact .inr ⟨(hp _).trans ht, hr⟩
    stored := fun i a hi => by
      obtain ⟨w, hw, ht, hwi⟩ := h.stored i a hi
      exact ⟨w, hw, (hp i).trans ht, hwi⟩
    unresumed := fun i b n hi => h.unresumed i b n ((hp i).symm.trans hi) }

theorem setPc (h : Sound stream s) {pc : Pc σ δ} (hi : (s.pcs i).ticket = none)
    (hpc : pc.ticket = none) : Sound stream (s.setPc i pc) := by
  refine h.of_pcs fun j => ?_
  by_cases hj : j = i
  · subst hj
    rw [update_self, hpc, hi]
  · rw [update_of_ne hj]

theorem closeSocket (h : Sound stream s) : Sound stream s.closeSocket :=
  { h with
    idle := fun hd => ⟨(h.idle hd).1, rfl⟩
    signal := fun _ => rfl
    current := nofun
    failing := fun _ _ _ => rfl
    up := nofun }

/-! #### Pushes -/

theorem dispatch_push (s : Line σ δ) (item : Option (Entry σ δ)) :
    (s.pushResponse item).dispatch = s.dispatch ∨
      s.dispatch = some (.waiting false) ∧ (s.pushResponse item).dispatch = some (.waiting true) := by
  unfold pushResponse
  split
  · exact .inr ⟨‹_›, rfl⟩
  · exact .inl rfl

theorem dispatch_push_ne (s : Line σ δ) (item : Option (Entry σ δ)) :
    (s.pushResponse item).dispatch ≠ some (.waiting false) := by
  unfold pushResponse
  split
  · nofun
  · assumption

theorem hand_push (s : Line σ δ) (item : Option (Entry σ δ)) :
    hand (s.pushResponse item).dispatch = hand s.dispatch := by
  rcases dispatch_push s item with h | ⟨h, h'⟩
  · rw [h]
  · rw [h, h']
    rfl

theorem dispatch_of_push (item : Option (Entry σ δ)) {d : Dispatcher σ δ} (hd : d ≠ .waiting true)
    (h : (s.pushResponse item).dispatch = some d) : s.dispatch = some d := by
  rcases dispatch_push s item with h' | ⟨-, h'⟩
  · rw [← h', h]
  · rw [h', Option.some.injEq] at h
    exact absurd h.symm hd

theorem dispatch_push_none (item : Option (Entry σ δ))
    (h : (s.pushResponse item).dispatch = none) : s.dispatch = none := by
  rcases dispatch_push s item with h' | ⟨-, h'⟩
  · rw [← h', h]
  · rw [h'] at h
    cases h

theorem pending_push (s : Line σ δ) (item : Option (Entry σ δ)) :
    (s.pushResponse item).pending = s.pending ++ item.toList := by
  rw [pending, hand_push, pending, append_assoc]
  congr 1
  cases item <;> simp [queued, pushResponse]

/-- The queue and the dispatch coroutine change; the same requesters are pending. -/
theorem moved (h : Sound stream s) {d : Option (Dispatcher σ δ)} {q : List (Option (Entry σ δ))}
    (hpending : hand d ++ q.filterMap id = s.pending)
    (hidle : d = none → q = [] ∧ s.sock = none) (hwaiting : d = some (.waiting false) → q = [])
    (halive : d ≠ some .dead) (hsignal : none ∈ q → s.sock = none)
    (hreading : ∀ e c, d = some (.reading e c) → c + 1 = s.nconns)
    (hfailing : ∀ e m, d = some (.failing e m) → s.sock = none)
    (horder : ∀ c, (s.responses c).map (·.1) ++ (hand d).filter (·.conn = c) <+: s.pushesOn c) :
    Sound stream { s with queue := q, dispatch := d } := by
  have heq : ({ s with queue := q, dispatch := d } : Line σ δ).pending = s.pending := hpending
  exact
    { h with
      idle := hidle
      waiting := hwaiting
      alive := halive
      signal := hsignal
      reading := hreading
      failing := hfailing
      pending := by rw [heq]; exact h.pending
      perm := by rw [heq]; exact h.perm
      order := horder
      up := fun c hc => by rw [heq]; exact h.up c hc }

theorem pushSignal (h : Sound stream s) (hs : s.sock = none) (hd : s.dispatch ≠ none) :
    Sound stream (s.pushResponse none) :=
  h.moved ((pending_push s none).trans (append_nil _)) (fun hn => absurd (dispatch_push_none none hn) hd)
    (fun hw => absurd hw (dispatch_push_ne s none))
    (fun ha => h.alive (dispatch_of_push none nofun ha)) (fun _ => hs)
    (fun e c hr => h.reading e c (dispatch_of_push none nofun hr)) (fun _ _ _ => hs)
    fun c => by have := h.order c; rwa [← hand_push s none] at this

theorem termDispatchThread (h : Sound stream s) (hs : s.sock = none) :
    Sound stream s.termDispatchThread := by
  unfold Line.termDispatchThread
  split
  · exact h.pushSignal hs (Option.isSome_iff_ne_none.mp ‹_›)
  · exact h

variable {e : Entry σ δ}

theorem serial_lt (h : Sound stream s) (he : e ∈ s.pushes) : e.serial < s.pushes.length := by
  rw [← mem_range, ← h.serials]
  exact mem_map_of_mem he

theorem mem_pushes (h : Sound stream s) {w : Entry σ δ × Answer δ} (hw : w ∈ s.wakes) :
    w.1 ∈ s.pushes :=
  h.perm.mem_iff.mp (mem_append_left _ (mem_map_of_mem hw))

theorem ne_of_ticket {j : ℕ} {x : Bool × ℕ} (hi : (s.pcs i).ticket = none)
    (hj : (s.pcs j).ticket = some x) : j ≠ i := by
  rintro rfl
  rw [hi] at hj
  cases hj

theorem waitForResponse (h : Sound stream s) {c : ℕ} (hs : s.sock = some c) (f : Func σ δ)
    (hi : (s.pcs i).ticket = none) : Sound stream (s.waitForResponse i f c) := by
  let e : Entry σ δ := ⟨i, f, c, s.pushes.length⟩
  have hpending : (s.waitForResponse i f c).pending = s.pending ++ [e] := pending_push s (some e)
  have hup {P : Prop} (hn : s.sock = none) : P := by
    rw [hs] at hn
    cases hn
  have hpcs {j : ℕ} {x : Bool × ℕ} (hj : (s.pcs j).ticket = some x) :
      ((s.waitForResponse i f c).pcs j).ticket = some x := by
    change (update s.pcs i _ j).ticket = _
    rwa [update_of_ne (ne_of_ticket hi hj)]
  have hnew : ((s.waitForResponse i f c).pcs i).ticket = some (false, s.pushes.length) := by
    change (update s.pcs i _ i).ticket = _
    rw [update_self]
    rfl
  have hcases {j n : ℕ} {b : Bool} (hj : ((s.waitForResponse i f c).pcs j).ticket = some (b, n)) :
      (j = i ∧ b = false ∧ n = s.pushes.length) ∨ (s.pcs j).ticket = some (b, n) := by
    by_cases hji : j = i
    · subst hji
      rw [hnew] at hj
      cases hj
      exact .inl ⟨rfl, rfl, rfl⟩
    · change (update s.pcs i _ j).ticket = _ at hj
      rw [update_of_ne hji] at hj
      exact .inr hj
  have hon (c' : ℕ) : (s.waitForResponse i f c).pushesOn c' =
      s.pushesOn c' ++ if c = c' then [e] else [] := by
    simp only [Line.pushesOn, Line.waitForResponse, filter_append]
    by_cases hc : c = c' <;> simp [hc, e]
  refine
    { h with
      pending := fun e' he' => ?_
      perm := ?_
      serials := ?_
      conns := fun e' he' => ?_
      woken := fun w hw => ?_
      stored := fun j a hj => ?_
      unresumed := fun j b n hj => ?_
      idle := fun hn => hup (h.idle (dispatch_push_none (some e) hn)).2
      waiting := fun hw => absurd hw (dispatch_push_ne s (some e))
      alive := fun ha => h.alive (dispatch_of_push (some e) nofun ha)
      signal := fun hq => hup (h.signal ?_)
      reading := fun e' c hr => h.reading e' c (dispatch_of_push (some e) nofun hr)
      failing := fun e' m hf => hup (h.failing e' m (dispatch_of_push (some e) nofun hf))
      order := fun c' => ?_
      up := fun c' hc' => ?_ }
  · rw [hpending] at he'
    rcases mem_append.mp he' with he' | he'
    · exact ⟨(h.pending e' he').1, hpcs (h.pending e' he').2⟩
    · rw [mem_singleton.mp he']
      exact ⟨h.current c hs, hnew⟩
  · rw [hpending, ← append_assoc]
    exact h.perm.append_right [e]
  · simp [Line.waitForResponse, h.serials, range_succ]
  · rcases mem_append.mp he' with he' | he'
    · exact h.conns e' he'
    · rw [mem_singleton.mp he']
      exact Nat.lt_of_succ_le (Nat.le_of_eq (h.current c hs))
  · rcases h.woken w hw with hr | ⟨ht, hr⟩
    · exact .inl hr
    · exact .inr ⟨hpcs ht, hr⟩
  · obtain ⟨w, hw, ht, hwj⟩ := h.stored j a hj
    exact ⟨w, hw, hpcs ht, hwj⟩
  · rcases hcases hj with ⟨rfl, -, rfl⟩ | hj
    · refine ⟨fun hmem => ?_, e, mem_append_right _ (mem_singleton_self e), rfl, rfl⟩
      obtain ⟨r, hr, hrn⟩ := mem_map.mp hmem
      obtain ⟨w, hw, hws, -⟩ := h.resumed r hr
      have := h.serial_lt (h.mem_pushes hw)
      omega
    · obtain ⟨hn, e', he', hown⟩ := h.unresumed j b n hj
      exact ⟨hn, e', mem_append_left _ he', hown⟩
  · simpa [Line.waitForResponse, Line.pushResponse] using hq
  · rw [hon]
    change _ ++ List.filter _ (hand (s.pushResponse (some e)).dispatch) <+: _
    rw [hand_push]
    exact (h.order c').trans (prefix_append _ _)
  · obtain rfl : c = c' := Option.some.inj (hs.symm.trans hc')
    rw [hon, hpending, if_pos rfl, h.up c hs, append_assoc]
    rfl

/-! #### Answers -/

/-- The coroutines of the entries in `l`. -/
def threads (l : List (Option (Entry σ δ))) : List ℕ := (l.filterMap id).map (·.thread)

/-- What `giveAll` does. -/
theorem giveAll_eq (m : Option String) (l : List (Option (Entry σ δ))) (s : Line σ δ) :
    giveAll m l s =
      { s with
        results := fun i => if i ∈ threads l then some (.socketError m) else s.results i
        pcs := fun i => if i ∈ threads l then (s.pcs i).wake else s.pcs i
        wakes := s.wakes ++ (l.filterMap id).map (·, .socketError m) } := by
  induction l generalizing s with
  | nil => simp [giveAll, threads]
  | cons item l ih =>
    cases item with rw [giveAll, ih]
    | none => rfl
    | some e =>
      have hmem (i : ℕ) : i ∈ threads (some e :: l) ↔ i = e.thread ∨ i ∈ threads l := by
        simp [threads]
      simp only [give, mk.injEq, true_and, and_true]
      refine ⟨?_, ?_, by simp⟩
      · funext i
        by_cases hi : i = e.thread <;> by_cases hl : i ∈ threads l <;> simp [hmem, hi, hl]
      · funext i
        by_cases hi : i = e.thread
        · subst hi
          by_cases hl : e.thread ∈ threads l <;> simp [hmem, hl, Pc.wake_wake]
        · by_cases hl : i ∈ threads l <;> simp [hmem, hi, hl]

theorem responses_append_errors (s : Line σ δ) (m : Option String) (l : List (Entry σ δ)) (c : ℕ) :
    (s.wakes ++ l.map (·, Answer.socketError m)).filterMap (responseOn c) = s.responses c := by
  rw [filterMap_append, filterMap_map]
  have hnil : l.filterMap (responseOn c ∘ (·, Answer.socketError m)) = [] := by
    simp [Function.comp_def, responseOn]
  rw [hnil, append_nil]
  rfl

variable (h : Sound stream s)

include h

variable {d : Option (Dispatcher σ δ)}

/-- Pending requesters get `socket_error`: all of them and the dispatch coroutine ends, or those
that are queued. -/
theorem giveErrors (hs : s.sock = none) (m : Option String) {l : List (Option (Entry σ δ))}
    (hd : d = none ∨ d = s.dispatch) (hl : (l.filterMap id ++ hand d).Perm s.pending) :
    Sound stream (giveAll m l { s with queue := [], dispatch := d }) := by
  have hthread {i : ℕ} : i ∈ threads l ↔ ∃ e ∈ l.filterMap id, e.thread = i := mem_map
  obtain ⟨t, ht⟩ : ∃ t, giveAll m l { s with queue := [], dispatch := d } = t := ⟨_, rfl⟩
  rw [ht]
  rw [giveAll_eq] at ht
  have hpending : t.pending = hand d := by simp [← ht, pending, queued]
  have hwakes : t.wakes = s.wakes ++ (l.filterMap id).map (·, .socketError m) := by rw [← ht]
  have hresponses (c : ℕ) : t.responses c = s.responses c := by
    rw [responses, hwakes, responses_append_errors]
  have ha : Answered s t ((l.filterMap id).map (·, .socketError m)) := by
    refine ⟨?_, hwakes, fun w hw => ?_, fun i hi => ?_, by rw [← ht], by rw [← ht], by rw [← ht]⟩
    · rw [hpending]
      simpa [Function.comp_def] using hl
    · obtain ⟨e, he, rfl⟩ := mem_map.mp hw
      simp [← ht, hthread.mpr ⟨e, he, rfl⟩]
    · have hil : i ∉ threads l := fun hmem => by
        obtain ⟨e, he, hei⟩ := hthread.mp hmem
        exact hi _ (mem_map_of_mem he) hei
      simp [← ht, hil]
  constructor
  case toBooked => exact h.answered ha
  case idle => exact fun _ => by simp [← ht, hs]
  case waiting => exact fun _ => by simp [← ht]
  case alive =>
    rcases hd with rfl | rfl
    · simp [← ht]
    · simpa [← ht] using h.alive
  case signal => simp [← ht]
  case current => simp [← ht, hs]
  case reading =>
    intro e c hr
    rcases hd with rfl | rfl
    · simp [← ht] at hr
    · simpa [← ht] using h.reading e c (by simpa [← ht] using hr)
  case failing => simp [← ht, hs]
  case served =>
    intro c
    rw [hresponses]
    simpa [← ht] using h.served c
  case order =>
    intro c
    have hpushes : t.pushesOn c = s.pushesOn c := by rw [pushesOn, ha.pushes, pushesOn]
    have hdispatch : t.dispatch = d := by simp [← ht]
    rw [hresponses, hpushes, hdispatch]
    rcases hd with rfl | rfl
    · exact (append_nil _).symm ▸ (prefix_append _ _).trans (h.order c)
    · exact h.order c
  case up => simp [← ht, hs]

theorem wakeupAll (hs : s.sock = none) (m : Option String) : Sound stream (s.wakeupAll m) :=
  h.giveErrors hs m (.inr rfl) perm_append_comm

theorem fail (hs : s.sock = none) (he : Dispatcher.hand s.dispatch = [e]) (m : Option String) :
    Sound stream (s.fail e m) := by
  have heq : s.fail e m =
      Line.giveAll m (some e :: s.queue) { s with queue := [], dispatch := none } := by
    simp only [Line.fail, Line.loop, Line.exit, Line.wakeupAll, Line.give, Line.giveAll, giveAll_eq,
      hs]
    rfl
  rw [heq]
  refine h.giveErrors hs m (.inl rfl) ?_
  rw [Line.pending, he]
  exact List.Perm.of_eq (append_nil _)

theorem take (hd : Dispatcher.hand s.dispatch = []) {c : ℕ} (hs : s.sock = some c)
    {rest : List (Option (Entry σ δ))} (hq : s.queue = some e :: rest) :
    Sound stream { s with queue := rest, dispatch := some (.reading e c) } := by
  have hs' : s.pending = e :: rest.filterMap id := by simp [pending, hd, queued, hq]
  have hconn : e.conn = c := by
    have := (h.pending e (by simp [hs'])).1
    have := h.current c hs
    omega
  refine h.moved hs'.symm nofun nofun nofun (fun hmem => h.signal (hq ▸ mem_cons_of_mem _ hmem))
    (fun e' c' hr => ?_) nofun fun c' => ?_
  · cases hr
    exact h.current c hs
  · change (s.responses c').map (·.1) ++ [e].filter (·.conn = c') <+: s.pushesOn c'
    by_cases hc : e.conn = c'
    · obtain rfl : c = c' := hconn.symm.trans hc
      refine ⟨rest.filterMap id, ?_⟩
      rw [h.up c hs, hs']
      simp [hc]
    · simpa [hc, hd] using h.order c'

theorem popResponse (hd : Dispatcher.hand s.dispatch = []) : Sound stream s.popResponse := by
  unfold Line.popResponse
  split
  case h_1 hq =>
    exact h.moved (by simp [pending, hd, queued]) nofun (fun _ => hq) nofun h.signal nofun nofun
      fun c => by simpa [hd] using h.order c
  case h_2 rest hq =>
    have heq : ({ s with queue := rest }.wakeupAll (some "channel_closed")).exit =
        Line.giveAll (some "channel_closed") rest { s with queue := [], dispatch := none } := by
      simp only [Line.exit, Line.wakeupAll, giveAll_eq]
    rw [heq]
    refine h.giveErrors (h.signal (by simp [hq])) _ (.inl rfl) ?_
    simp [Line.pending, hd, Line.queued, hq]
  case h_3 e rest hq =>
    split
    case h_1 hs =>
      have heq : (({ s with queue := rest }.give e (.socketError none)).wakeupAll none).exit =
          Line.giveAll none (some e :: rest) { s with queue := [], dispatch := none } := by
        simp only [Line.exit, Line.wakeupAll, Line.give, Line.giveAll, giveAll_eq]
      rw [heq]
      refine h.giveErrors hs _ (.inl rfl) ?_
      simp [Line.pending, hd, Line.queued, hq]
    case h_2 c hs => exact h.take hd hs hq

theorem loop (hd : Dispatcher.hand s.dispatch = []) (hq : s.sock ≠ none ∨ s.queue = []) :
    Sound stream s.loop := by
  unfold Line.loop
  split
  · exact h.popResponse hd
  case isFalse hs =>
    have hs' : s.sock = none := by simpa using hs
    have hq' : s.queue = [] := hq.resolve_left (not_not_intro hs')
    exact h.moved (by simp [pending, hd, queued]) (fun _ => ⟨hq', hs'⟩) nofun nofun h.signal nofun
      nofun fun c => by simpa [hd] using h.order c

omit h

theorem loop_setDispatch (s : Line σ δ) (d : Option (Dispatcher σ δ)) :
    { s with dispatch := d }.loop = s.loop := by
  simp only [Line.loop, Line.popResponse, Line.exit, Line.wakeupAll, Line.give, giveAll_eq]

variable (h : Sound stream s)

include h

theorem answer {c n : ℕ} (hd : s.dispatch = some (.reading e c)) {ok : Bool} {d : Data δ} {rest : σ}
    (hf : e.func.getResponse n (s.streams c) = some ((ok, d), rest)) : Sound stream
      { s.give e (.response ok d) with
        streams := update s.streams c rest
        dispatch := some (.waiting true) } := by
  have hs : s.pending = e :: s.queued := by simp [pending, hd]
  have hc : e.conn = c := by
    have := (h.pending e (by simp [hs])).1
    have := h.reading e c hd
    omega
  obtain ⟨t, ht⟩ : ∃ t, ({ s.give e (.response ok d) with
        streams := update s.streams c rest
        dispatch := some (.waiting true) } : Line σ δ) = t := ⟨_, rfl⟩
  rw [ht]
  have hpending : t.pending = s.queued := by simp [← ht, pending, queued, give]
  have hwakes : t.wakes = s.wakes ++ [(e, .response ok d)] := by simp [← ht, give]
  have ha : Answered s t [(e, .response ok d)] := by
    refine ⟨by rw [hpending, hs]; exact .rfl, hwakes, fun w hw => ?_, fun i hi => ?_,
      by simp [← ht, give], by simp [← ht, give], by simp [← ht, give]⟩
    · rw [mem_singleton.mp hw]
      simp [← ht, give]
    · have hie : i ≠ e.thread := (hi _ (mem_singleton_self _)).symm
      simp [← ht, give, hie]
  have hon (c' : ℕ) : t.pushesOn c' = s.pushesOn c' := by
    rw [pushesOn, ha.pushes, pushesOn]
  have hresponses (c' : ℕ) :
      t.responses c' = s.responses c' ++ if c = c' then [(e, ok, d)] else [] := by
    rw [responses, hwakes, filterMap_append]
    by_cases hcc : c = c' <;> simp [responses, responseOn, hc, hcc]
  constructor
  case toBooked => exact h.answered ha
  case idle => simp [← ht]
  case waiting => simp [← ht]
  case alive => simp [← ht]
  case signal => simpa [← ht, give] using h.signal
  case current => simpa [← ht, give] using h.current
  case reading => simp [← ht]
  case failing => simp [← ht]
  case served =>
    intro c'
    rw [hresponses]
    have hstreams : t.streams = update s.streams c rest := by simp [← ht]
    rw [hstreams]
    by_cases hcc : c = c'
    · subst hcc
      rw [update_self, if_pos rfl, map_append]
      exact (h.served c).snoc hf
    · rw [update_of_ne (Ne.symm hcc), if_neg hcc, append_nil]
      exact h.served c'
  case order =>
    intro c'
    have := h.order c'
    rw [hd, hand_reading] at this
    rw [hon, hresponses]
    by_cases hcc : c = c' <;> simpa [← ht, hc, hcc] using this
  case up =>
    intro c' hc'
    replace hc' : s.sock = some c' := by simpa [← ht, give] using hc'
    obtain rfl : c = c' := by
      have := h.current c' hc'
      have := h.reading e c hd
      omega
    have := h.up c hc'
    rw [hs] at this
    rw [hon, hresponses, hpending, this]
    simp

theorem respond {c n : ℕ} (hd : s.dispatch = some (.reading e c)) {ok : Bool} {d : Data δ}
    {rest : σ} (hf : e.func.getResponse n (s.streams c) = some ((ok, d), rest))
    (hq : s.sock ≠ none ∨ s.queue = []) : Sound stream (s.respond e c ok d rest) := by
  have hnone : s.results e.thread = none := by
    cases hr : s.results e.thread with
    | none => rfl
    | some a =>
      obtain ⟨w, -, ht, -⟩ := h.stored e.thread a hr
      rw [(h.pending e (by simp [Line.pending, hd])).2] at ht
      cases ht
  have hdata : s.responseData e.thread ok d = d := by simp [Line.responseData, hnone]
  rw [Line.respond, hdata, ← loop_setDispatch _ (some (.waiting true))]
  exact (h.answer hd hf).loop rfl hq

theorem establish (hd : s.dispatch = none) : Sound stream s.establish := by
  obtain ⟨hq, hs⟩ := h.idle hd
  have hpending : s.pending = [] := by simp [Line.pending, hd, Line.queued, hq]
  have hpending' : s.establish.pending = [] := by
    simp [Line.establish, Line.pending, Line.queued, hq]
  refine
    { h with
      idle := nofun
      waiting := nofun
      alive := nofun
      signal := fun hmem => by simp [Line.establish, hq] at hmem
      current := fun c hc => by cases hc; rfl
      reading := nofun
      failing := nofun
      pending := by simp [hpending']
      perm := by rw [hpending', ← hpending]; exact h.perm
      conns := fun e he => Nat.lt_succ_of_lt (h.conns e he)
      order := fun c => ?_
      up := fun c hc => ?_ }
  · have := h.order c
    rw [hd] at this
    exact this
  cases hc
  have hnone (e : Entry σ δ) (he : e ∈ s.pushes) : e.conn ≠ s.nconns :=
    Nat.ne_of_lt (h.conns e he)
  have h1 : s.pushesOn s.nconns = [] := by simpa [Line.pushesOn] using hnone
  have h2 : s.responses s.nconns = [] := by
    have := h.order s.nconns
    rw [h1] at this
    exact map_eq_nil_iff.mp (append_eq_nil_iff.mp (prefix_nil.mp this)).1
  change s.pushesOn s.nconns = (s.responses s.nconns).map (·.1) ++ s.establish.pending
  rw [h1, h2, hpending']
  rfl

theorem resume {n : ℕ} (hi : s.pcs i = .woken n) : Sound stream (s.resume i n) := by
  have hticket : (s.pcs i).ticket = some (true, n) := by rw [hi]; rfl
  obtain ⟨hfresh, e, he, hei, hen⟩ := h.unresumed i true n hticket
  have hold {j : ℕ} (hj : j ≠ i) :
      (s.resume i n).pcs j = s.pcs j ∧ (s.resume i n).results j = s.results j := by
    simp [Line.resume, Line.setPc, hj]
  have hnone : ((s.resume i n).pcs i).ticket = none ∧ (s.resume i n).results i = none := by
    simp [Line.resume, Line.setPc, Pc.ticket]
  -- the serial of a push determines its coroutine
  have hserial {j : ℕ} {b : Bool} (hj : (s.pcs j).ticket = some (b, n)) : j = i := by
    obtain ⟨-, e', he', hej, hen'⟩ := h.unresumed j b n hj
    have hnodup : (s.pushes.map (·.serial)).Nodup := by
      rw [h.serials]
      exact nodup_range
    rw [← hej, ← hei, inj_on_of_nodup_map hnodup he' he (hen'.trans hen.symm)]
  have hresumed (r : ℕ × Answer δ) : r ∈ (s.resume i n).resumed ↔
      r ∈ s.resumed ∨ r.1 = n ∧ s.results i = some r.2 := by
    cases ha : s.results i with
    | none => simp [Line.resume, Line.setPc, ha]
    | some a =>
      simp [Line.resume, Line.setPc, ha, Prod.ext_iff, eq_comm]
  refine
    { h with
      pending := fun e' he' => ?_
      woken := fun w hw => ?_
      stored := fun j a hj => ?_
      resumed := fun r hr => ?_
      once := ?_
      unresumed := fun j b m hj => ?_ }
  · obtain ⟨hc, ht⟩ := h.pending e' he'
    have hj : e'.thread ≠ i := by
      intro hj
      rw [hj, hticket] at ht
      cases ht
    exact ⟨hc, by rw [(hold hj).1]; exact ht⟩
  · rw [hresumed]
    rcases h.woken w hw with hr | ⟨ht, hr⟩
    · exact .inl (.inl hr)
    · by_cases hj : w.1.thread = i
      · rw [hj, hticket] at ht
        rw [hj] at hr
        cases ht
        exact .inl (.inr ⟨rfl, hr⟩)
      · exact .inr ⟨by rw [(hold hj).1]; exact ht, by rw [(hold hj).2]; exact hr⟩
  · by_cases hji : j = i
    · subst hji
      rw [hnone.2] at hj
      cases hj
    · rw [(hold hji).2] at hj
      obtain ⟨w, hw, ht, hwj⟩ := h.stored j a hj
      exact ⟨w, hw, by rw [(hold hji).1]; exact ht, hwj⟩
  · rcases (hresumed r).mp hr with hr | ⟨hn, hr⟩
    · exact h.resumed r hr
    · obtain ⟨w, hw, ht, -, hwr⟩ := h.stored i r.2 hr
      rw [hticket] at ht
      cases ht
      exact ⟨w, hw, hn.symm, hwr⟩
  · cases ha : s.results i with
    | none => simpa [Line.resume, Line.setPc, ha] using h.once
    | some a =>
      have : (s.resume i n).resumed = s.resumed ++ [(n, a)] := by
        simp [Line.resume, Line.setPc, ha]
      rw [this, map_append, nodup_append]
      refine ⟨h.once, nodup_singleton _, ?_⟩
      rintro x hx y hy rfl
      obtain rfl : x = n := mem_singleton.mp hy
      exact hfresh hx
  · by_cases hji : j = i
    · subst hji
      rw [hnone.1] at hj
      cases hj
    · rw [(hold hji).1] at hj
      obtain ⟨hm, hown⟩ := h.unresumed j b m hj
      refine ⟨fun hmem => ?_, hown⟩
      obtain ⟨r, hr, rfl⟩ := mem_map.mp hmem
      rcases (hresumed r).mp hr with hr | ⟨hn, -⟩
      · exact hm (mem_map_of_mem hr)
      · rw [hn] at hj
        exact hji (hserial hj)

/-! #### Coroutines that do not wait for an answer -/

theorem not_mem_threads (hi : (s.pcs i).ticket = none) : i ∉ threads s.queue := by
  intro hmem
  obtain ⟨e, he, rfl⟩ := mem_map.mp hmem
  rw [(h.pending e (mem_append_right _ he)).2] at hi
  cases hi

theorem ne_hand (hi : (s.pcs i).ticket = none) (he : Dispatcher.hand s.dispatch = [e]) :
    i ≠ e.thread := by
  rintro rfl
  rw [(h.pending e (by simp [pending, he])).2] at hi
  cases hi

omit h

theorem wakeupAll_pcs (m : Option String) (hi : i ∉ threads s.queue) :
    (s.wakeupAll m).pcs i = s.pcs i := by
  rw [Line.wakeupAll, giveAll_eq]
  exact if_neg hi

theorem popResponse_pcs (hi : i ∉ threads s.queue) : s.popResponse.pcs i = s.pcs i := by
  unfold Line.popResponse
  split
  case h_1 => rfl
  case h_2 rest hq =>
    rw [hq] at hi
    exact wakeupAll_pcs _ hi
  case h_3 e rest hq =>
    have hmem : i ≠ e.thread ∧ i ∉ threads rest := by simpa [hq, threads, eq_comm] using hi
    split
    · refine (wakeupAll_pcs _ hmem.2).trans ?_
      exact update_of_ne hmem.1 _ _
    · rfl

theorem loop_pcs (hi : i ∉ threads s.queue) : s.loop.pcs i = s.pcs i := by
  unfold Line.loop
  split
  · exact popResponse_pcs hi
  · rfl

theorem respond_pcs (he : i ≠ e.thread) (hi : i ∉ threads s.queue) (c : ℕ) (ok : Bool) (d : Data δ)
    (rest : σ) : (s.respond e c ok d rest).pcs i = s.pcs i :=
  (loop_pcs (s := give { s with streams := update s.streams c rest } e
    (.response ok (s.responseData e.thread ok d))) hi).trans (update_of_ne he _ _)

theorem fail_pcs (he : i ≠ e.thread) (hi : i ∉ threads s.queue) (m : Option String) :
    (s.fail e m).pcs i = s.pcs i := by
  have hq : ((s.give e (.socketError m)).wakeupAll m).queue = [] := by
    rw [Line.wakeupAll, giveAll_eq]
  refine (loop_pcs (by rw [hq]; exact not_mem_nil)).trans ?_
  exact (wakeupAll_pcs (s := s.give e _) m hi).trans (update_of_ne he _ _)

end Sound

/-! ### What one step preserves -/

/-- The invariant, with the coroutines of `__connecting` in `block_connect`. -/
structure Steady (stream : ℕ → σ) (s : State σ δ) : Prop where
  sound : Sound stream s.toLine
  parked : ∀ threads, s.connecting = some threads → ∀ i ∈ threads,
    ∃ op, s.pcs i = .connectWait op

/-- Coroutine `i` runs in a function of the channel. -/
structure Running (stream : ℕ → σ) (s : State σ δ) (i : ℕ) : Prop extends Steady stream s where
  ticket : (s.pcs i).ticket = none
  here : ∀ op, s.pcs i ≠ .connectWait op

namespace Running

variable {stream : ℕ → σ} {s : State σ δ} {i : ℕ} {op : Op σ δ} {sent : Bool}

variable (h : Running stream s i)

include h


/-- A coroutine of `__connecting` is another one. -/
theorem parked_ne {threads : List ℕ} (hc : s.connecting = some threads) {j : ℕ} (hj : j ∈ threads) :
    j ≠ i ∧ ∃ op, s.pcs j = .connectWait op := by
  obtain ⟨op, hop⟩ := h.parked threads hc j hj
  refine ⟨?_, op, hop⟩
  rintro rfl
  exact h.here op hop

theorem setPc {pc : Pc σ δ} (hpc : pc.ticket = none) : Steady stream (s.setPc i pc) where
  sound := h.sound.setPc h.ticket hpc
  parked threads hc j hj := by
    obtain ⟨hji, op, hop⟩ := h.parked_ne hc hj
    exact ⟨op, (update_of_ne hji _ _).trans hop⟩

theorem closeSocket : Running stream s.closeSocket i :=
  { h with sound := h.sound.closeSocket }

theorem checkConnection : Running stream (s.checkConnection i).1 i ∧
      (s.checkConnection i).1.connecting = s.connecting ∧
      (s.checkConnection i).1.dispatch = s.dispatch := by
  unfold State.checkConnection
  split
  · split_ifs
    · exact ⟨h.closeSocket, rfl, rfl⟩
    all_goals exact ⟨h, rfl, rfl⟩
  · exact ⟨h, rfl, rfl⟩

/-- `wakeup_all` of the coroutine, which then raises an error. -/
theorem wakeupAll (hs : s.sock = none) :
    Steady stream { s with toLine := (s.toLine.wakeupAll none).setPc i .outside } := by
  have hpcs {j : ℕ} (hj : (s.pcs j).ticket = none) : (s.toLine.wakeupAll none).pcs j = s.pcs j :=
    Sound.wakeupAll_pcs none (h.sound.not_mem_threads hj)
  refine ⟨(h.sound.wakeupAll hs none).setPc ?_ rfl, fun threads hc j hj => ?_⟩
  · rw [hpcs h.ticket]
    exact h.ticket
  · obtain ⟨hji, op, hop⟩ := h.parked_ne hc hj
    refine ⟨op, (update_of_ne hji _ _).trans ((hpcs ?_).trans hop)⟩
    rw [hop]
    rfl

theorem sockErr : Steady stream (s.sockErr i) := by
  unfold State.sockErr
  split_ifs
  · exact h.closeSocket.setPc rfl
  · exact h.closeSocket.wakeupAll rfl

theorem waitForResponse {c : ℕ} (hs : s.sock = some c) (f : Func σ δ) :
    Steady stream { s with toLine := s.toLine.waitForResponse i f c } where
  sound := h.sound.waitForResponse hs f h.ticket
  parked threads hc j hj := by
    obtain ⟨hji, op, hop⟩ := h.parked_ne hc hj
    exact ⟨op, (update_of_ne hji _ _).trans hop⟩

theorem proceed (r : Bool) : Steady stream (s.proceed i op r sent) := by
  unfold State.proceed
  split
  case h_1 hs =>
    split_ifs
    · exact h.waitForResponse hs _
    · exact h.sockErr
  case h_2 =>
    split_ifs
    · exact h.setPc rfl
    · exact h.sockErr
  case h_3 hs => exact h.waitForResponse hs _
  case h_4 => exact h.setPc rfl

theorem recheck : Steady stream (s.recheck i op sent) := by
  have ht := h.checkConnection.1
  unfold State.recheck
  generalize s.checkConnection i = x at ht
  obtain ⟨t, r⟩ := x
  cases r with
  | some r => exact ht.proceed r
  | none => exact ht.setPc rfl

theorem finishConnect : Steady stream (s.finishConnect i op sent) := by
  have hparked {j : ℕ} (hj : j ∈ s.connecting.getD []) :
      j ≠ i ∧ ∃ op, s.pcs j = .connectWait op := by
    cases hc : s.connecting with
    | none => simp [hc] at hj
    | some threads => exact h.parked_ne hc (by simpa [hc] using hj)
  have hi : i ∉ s.connecting.getD [] := fun hi => (hparked hi).1 rfl
  refine Running.recheck ⟨⟨h.sound.of_pcs fun j => ?_, nofun⟩, ?_, ?_⟩
  · split_ifs with hj
    · obtain ⟨-, op, hop⟩ := hparked hj
      rw [hop]
      rfl
    · rfl
  · simpa [hi] using h.ticket
  · simpa [hi] using h.here

theorem tryConnect : Steady stream (s.tryConnect i op sent) := by
  unfold State.tryConnect
  split_ifs
  · exact h.finishConnect
  · exact h.setPc rfl

theorem connectFailed : Steady stream (s.connectFailed i op sent) := by
  unfold State.connectFailed
  split_ifs
  · exact h.finishConnect
  · exact h.setPc rfl

theorem connectOnce : Steady stream (s.connectOnce i op sent) := by
  unfold State.connectOnce
  split_ifs
  · exact h.connectFailed
  · exact h.setPc rfl

theorem establish (hd : s.dispatch = none) (connected : Bool) :
    Steady stream (s.establish i op connected sent) := by
  have ht : Running stream { s with
      toLine := s.toLine.establish
      connected := update s.connected s.nconns connected
      onClose := update s.onClose s.nconns false } i :=
    ⟨⟨h.sound.establish hd, h.parked⟩, h.ticket, h.here⟩
  unfold State.establish
  split_ifs
  · exact ⟨(ht.setPc rfl).sound, (ht.setPc rfl).parked⟩
  · exact ht.finishConnect

theorem termDispatchThread (hs : s.sock = none) :
    Running stream { s with toLine := s.toLine.termDispatchThread } i := by
  have hpcs : s.toLine.termDispatchThread.pcs = s.pcs := by
    unfold Line.termDispatchThread
    split <;> rfl
  refine ⟨⟨h.sound.termDispatchThread hs, ?_⟩, ?_, ?_⟩
  · simpa only [hpcs] using h.parked
  · simpa only [hpcs] using h.ticket
  · simpa only [hpcs] using h.here

theorem opened : Steady stream (s.opened i op sent) := by
  unfold State.opened
  split_ifs with hassert hd
  · exact h.setPc rfl
  · have hs : s.sock = none := by
      cases hs : s.sock <;> simp_all
    exact (h.termDispatchThread hs).setPc rfl
  · exact h.establish (by simpa using hd) true

theorem authFailed (more : Bool) : Steady stream (s.authFailed i op more sent) := by
  have ht : Running stream { s with auth := none } i := ⟨⟨h.sound, h.parked⟩, h.ticket, h.here⟩
  unfold State.authFailed
  split_ifs
  · exact ht.setPc rfl
  · exact ht.connectFailed

theorem authDone (ok more : Bool) : Steady stream (s.authDone i op ok more sent) := by
  have ht : Running stream { s with auth := none } i := ⟨⟨h.sound, h.parked⟩, h.ticket, h.here⟩
  unfold State.authDone
  split_ifs
  · exact ht.finishConnect
  · exact ht.connectOnce
  · exact h.closeSocket.setPc rfl
  · exact h.closeSocket.authFailed more

/-- The coroutine goes to the end of `__connecting`. -/
theorem connectWait {threads : List ℕ} (hc : s.connecting = some threads) :
    Steady stream (State.setPc { s with connecting := some (threads ++ [i]) } i
      (.connectWait op)) := by
  refine ⟨(h.setPc rfl).sound, fun l hl j hj => ?_⟩
  cases hl
  by_cases hji : j = i
  · subst hji
    exact ⟨op, update_self _ _ _⟩
  · have hj' : j ∈ threads := by simpa [hji] using hj
    obtain ⟨op', hop⟩ := h.parked threads hc j hj'
    exact ⟨op', (update_of_ne hji _ _).trans hop⟩

theorem call : Steady stream (s.call i op sent) := by
  unfold State.call
  extract_lets s'
  have hs' : Running stream s' i := by
    simp only [s']
    split
    · exact ⟨⟨h.sound, h.parked⟩, h.ticket, h.here⟩
    · exact h
  have ht := hs'.checkConnection.1
  generalize s'.checkConnection i = x at ht
  obtain ⟨t, r⟩ := x
  cases r with
  | some r => exact ht.proceed r
  | none =>
    simp only
    split
    case h_1 threads hc => exact ht.connectWait hc
    case h_2 => exact Running.tryConnect ⟨⟨ht.sound, by rintro _ ⟨⟩; nofun⟩, ht.ticket, ht.here⟩

omit h

end Running

namespace State

variable (s : State σ δ)

/-- The socket is closed and the dispatch coroutine has not started. -/
def stranded : Bool :=
  match s.dispatch, s.sock with
  | some .forked, none => true
  | _, _ => false

/-- No response arrives while requesters are queued after the socket was closed, and `wakeup_all`
of `sock_err` does not come after the next connection. -/
def timely : Label σ δ → Bool
  | .respond _ => s.sock.isSome || s.queue.isEmpty
  | .sockErrClosed _ => s.sock.isNone
  | _ => true

/-- The step is timely and does not close the socket before the dispatch coroutine has started. -/
def careful (a : Label σ δ) : Bool := s.timely a && (s.step a).all fun t => !t.stranded

end State

namespace Steady

variable {stream : ℕ → σ} {s t : State σ δ} {i : ℕ}

theorem run (h : Steady stream s) {pc : Pc σ δ} (hpc : s.pcs i = pc)
    (hhere : ∀ op, pc ≠ .connectWait op) (hi : pc.ticket = none) : Running stream s i :=
  ⟨h, by rw [hpc, hi], by rwa [hpc]⟩

theorem of_line (h : Steady stream s) {l : Line σ δ} (hl : Sound stream l)
    (hpcs : ∀ i, (s.pcs i).ticket = none → l.pcs i = s.pcs i) (ht : t.toLine = l)
    (hc : t.connecting = s.connecting) : Steady stream t where
  sound := ht ▸ hl
  parked threads hthreads i hi := by
    obtain ⟨op, hop⟩ := h.parked threads (hc ▸ hthreads) i hi
    refine ⟨op, ?_⟩
    rw [ht, hpcs i (by rw [hop]; rfl), hop]

theorem init (hasAuth : Bool) : Steady stream (State.init hasAuth stream : State σ δ) :=
  ⟨Sound.init hasAuth, nofun⟩

variable (h : Steady stream s)

include h

theorem close : Steady stream s.close := by
  unfold State.close
  split_ifs
  · exact h
  · have heq : s.toLine.termDispatchThread.closeSocket =
        s.toLine.closeSocket.termDispatchThread := by
      unfold termDispatchThread
      split_ifs <;> first | rfl | contradiction
    have hpcs : s.toLine.closeSocket.termDispatchThread.pcs = s.pcs := by
      unfold termDispatchThread
      split_ifs <;> rfl
    exact h.of_line (h.sound.closeSocket.termDispatchThread rfl) (fun i _ => congrFun hpcs i) heq rfl

theorem closeSocket : Steady stream s.closeSocket :=
  h.of_line h.sound.closeSocket (fun _ _ => rfl) rfl rfl

theorem peerClosed (c : ℕ) (clean : Bool) : Steady stream (s.peerClosed c clean) := by
  unfold State.peerClosed
  split
  · split_ifs
    · exact h.of_line h.sound.closeSocket (fun _ _ => rfl) rfl rfl
    · exact ⟨h.sound, h.parked⟩
  · exact ⟨h.sound, h.parked⟩

theorem start (hd : s.dispatch = some .forked) (hs : s.sock ≠ none) : Steady stream s.start := by
  unfold State.start
  split
  · exact absurd ‹_› hs
  · exact h.of_line (h.sound.loop (by rw [hd]; rfl) (.inl hs))
      (fun i hi => Sound.loop_pcs (h.sound.not_mem_threads hi)) rfl rfl

theorem readFailed {e : Entry σ δ} {c : ℕ} (hd : s.dispatch = some (.reading e c))
    (m : Option String) : Steady stream (s.readFailed e m) := by
  have hhand : hand s.dispatch = [e] := by rw [hd]; rfl
  unfold State.readFailed
  split_ifs
  · refine h.of_line (h.sound.closeSocket.moved (d := some (.failing e m)) ?_ nofun nofun nofun
      (fun _ => rfl) nofun (fun _ _ _ => rfl) ?_) (fun _ _ => rfl) rfl rfl
    · exact congrArg (· ++ _) hhand.symm
    · intro c
      have := h.sound.order c
      rwa [hhand] at this
  · exact h.of_line (h.sound.closeSocket.fail rfl hhand m)
      (fun i hi => Sound.fail_pcs (s := s.toLine.closeSocket) (h.sound.ne_hand hi hhand)
        (h.sound.not_mem_threads hi) m) rfl rfl

theorem step {a : Label σ δ} (hstart : s.stranded = false) (hok : s.careful a = true)
    (ht : s.step a = some t) : Steady stream t := by
  have hcare : s.timely a = true := (Bool.and_eq_true _ _ ▸ hok).1
  cases a with simp only [State.step] at ht
  | call i op sent =>
    split at ht <;> cases ht
    next hpc => exact (h.run hpc nofun rfl).call
  | goOn i sent =>
    split at ht <;> cases ht
    next hpc => exact (h.run hpc nofun rfl).recheck
  | opened i sent =>
    split at ht <;> cases ht
    next hpc => exact (h.run hpc nofun rfl).opened
  | openFailed i more sent =>
    split at ht
    case h_1 hpc =>
      split_ifs at ht
      · cases ht
        exact h
      · cases ht
        exact (h.run hpc nofun rfl).connectFailed
    case h_2 => cases ht
  | newClosed i =>
    split at ht <;> cases ht
    next hpc => exact (h.run hpc nofun rfl).setPc rfl
  | drained i sent =>
    split at ht <;> cases ht
    next hpc hd => exact (h.run hpc nofun rfl).establish hd _
  | retry i sent =>
    split at ht <;> cases ht
    next hpc => exact (h.run hpc nofun rfl).tryConnect
  | authDone i ok more sent =>
    split at ht
    case h_1 hpc hauth =>
      split_ifs at ht
      cases ht
      exact (h.run hpc nofun rfl).authDone ok more
    case h_2 => cases ht
  | authClosed i more sent =>
    split at ht <;> cases ht
    next hpc => exact (h.run hpc nofun rfl).authFailed more
  | sockErrClosed i =>
    split at ht <;> cases ht
    next hpc => exact (h.run hpc nofun rfl).wakeupAll (by simpa [State.timely] using hcare)
  | resume i =>
    split at ht <;> cases ht
    next n hpc =>
      refine h.of_line (h.sound.resume hpc) (fun j hj => ?_) rfl rfl
      refine update_of_ne ?_ _ _
      rintro rfl
      rw [hpc] at hj
      cases hj
  | close =>
    cases ht
    exact h.close
  | changehost =>
    cases ht
    unfold State.changehost
    split_ifs
    · exact h
    · exact h.closeSocket
  | peerClosed c clean =>
    cases ht
    exact h.peerClosed c clean
  | start =>
    split at ht <;> cases ht
    next hd =>
      refine h.start hd fun hs => ?_
      simp [State.stranded, hd, hs] at hstart
  | wake =>
    split at ht <;> cases ht
    next hd =>
      exact h.of_line (h.sound.popResponse (by rw [hd]; rfl))
        (fun i hi => Sound.popResponse_pcs (h.sound.not_mem_threads hi)) rfl rfl
  | respond n =>
    split at ht
    case h_1 e c hd =>
      split at ht
      case h_1 hf =>
        cases ht
        have hq : s.sock ≠ none ∨ s.queue = [] := by
          simpa [State.timely, Option.isSome_iff_ne_none, List.isEmpty_iff] using hcare
        exact h.of_line (h.sound.respond hd hf hq)
          (fun i hi => Sound.respond_pcs (h.sound.ne_hand hi (by rw [hd]; rfl))
            (h.sound.not_mem_threads hi) _ _ _ _) rfl rfl
      case h_2 => cases ht
    case h_2 => cases ht
  | readFailed m =>
    split at ht <;> cases ht
    next e c hd => exact h.readFailed hd m
  | readClosed =>
    split at ht <;> cases ht
    next e m hd =>
      have hhand : hand s.dispatch = [e] := by rw [hd]; rfl
      exact h.of_line (h.sound.fail (h.sound.failing e m hd) hhand m)
        (fun i hi => Sound.fail_pcs (h.sound.ne_hand hi hhand) (h.sound.not_mem_threads hi) m)
        rfl rfl

omit h

theorem of_reachable {hasAuth : Bool}
    (h : (channel δ hasAuth stream).ReachableVia (fun s a => s.careful a = true) s) :
    Steady stream s ∧ s.stranded = false := by
  refine h.invariant (I := fun s => Steady stream s ∧ s.stranded = false) ⟨init hasAuth, rfl⟩
    fun s a t hs hok ht => ⟨hs.1.step hs.2 hok ht, ?_⟩
  have := (Bool.and_eq_true _ _ ▸ hok).2
  replace ht : s.step a = some t := ht
  simpa [ht] using this

end Steady

/-! ### Whole runs -/

/-- The requester of `e` waits, and the dispatch coroutine of its connection is at work. -/
def Line.Awaited (s : Line σ δ) (e : Entry σ δ) : Prop :=
  s.pcs e.thread = .waiting e.serial ∧ e.conn + 1 = s.nconns ∧
    s.dispatch ≠ none ∧ s.dispatch ≠ some (.waiting false) ∧ s.dispatch ≠ some .dead

namespace Sound

variable {stream : ℕ → σ} {s : Line σ δ}

theorem awaited (h : Sound stream s) {e : Entry σ δ} (he : e ∈ s.pending) : s.Awaited e := by
  obtain ⟨hconn, hticket⟩ := h.pending e he
  refine ⟨Pc.waiting_of_ticket hticket, hconn, fun hd => ?_, fun hd => ?_, h.alive⟩
  · simp [pending, hd, queued, (h.idle hd).1] at he
  · simp [pending, hd, queued, h.waiting hd] at he

theorem wakes_nodup (h : Sound stream s) : (s.wakes.map (·.1.serial)).Nodup := by
  have := h.nodup
  rw [map_append, nodup_append, map_map] at this
  exact this.1

theorem response_of_up (h : Sound stream s) {c : ℕ} (hs : s.sock = some c)
    {w : Entry σ δ × Answer δ} (hw : w ∈ s.wakes) (hc : w.1.conn = c) :
    ∃ ok d, w.2 = .response ok d := by
  have hmem : w.1 ∈ (s.responses c).map (·.1) ++ s.pending := by
    rw [← h.up c hs]
    exact mem_filter.mpr ⟨h.mem_pushes hw, by simpa using hc⟩
  rcases mem_append.mp hmem with hr | hp
  · obtain ⟨⟨e, ok, d⟩, hr, he⟩ := mem_map.mp hr
    obtain ⟨⟨e', a⟩, hw', hon⟩ := mem_filterMap.mp hr
    cases a with
    | socketError m => cases hon
    | response ok' d' =>
      simp only [responseOn] at hon
      split_ifs at hon
      cases hon
      have := inj_on_of_nodup_map h.wakes_nodup hw hw' (congrArg Entry.serial he.symm)
      exact ⟨ok, d, by rw [this]⟩
  · have := h.nodup
    rw [map_append, nodup_append] at this
    exact absurd rfl (this.2.2 _ (mem_map_of_mem (mem_map_of_mem hw)) _
      (mem_map_of_mem hp))

end Sound

/-- **Order mode**: in a careful run no requester is answered twice and each that was answered has
gone on with its answer or is about to; a requester that was pushed and is not answered waits for a
dispatch coroutine at work on its connection.  On every connection the responses go to the first
requesters, in the order of their pushes, and are those of their functions applied to the stream
one after the other; while the connection is up nobody gets an error. -/
theorem pushed_requesters_answered {hasAuth : Bool} {stream : ℕ → σ} {s : State σ δ}
    (h : (channel δ hasAuth stream).ReachableVia (fun s a => s.careful a = true) s) :
    (s.wakes.map (·.1.serial)).Nodup ∧ (s.resumed.map (·.1)).Nodup ∧
    (∀ w ∈ s.wakes, (w.1.serial, w.2) ∈ s.resumed ∨
      s.pcs w.1.thread = .woken w.1.serial ∧ s.results w.1.thread = some w.2) ∧
    (∀ r ∈ s.resumed, ∃ w ∈ s.wakes, w.1.serial = r.1 ∧ w.2 = r.2) ∧
    (∀ e ∈ s.pushes, (∃ a, (e, a) ∈ s.wakes) ∨ s.Awaited e) ∧
    (∀ c, (s.responses c).map (·.1) <+: s.pushesOn c ∧
      Serves (stream c) ((s.responses c).map fun r => (r.1.func, r.2)) (s.streams c)) ∧
    ∀ c, s.sock = some c → ∀ w ∈ s.wakes, w.1.conn = c → ∃ ok d, w.2 = .response ok d := by
  have hs := (Steady.of_reachable h).1.sound
  refine ⟨hs.wakes_nodup, hs.once, fun w hw => ?_, hs.resumed, fun e he => ?_,
    fun c => ⟨(prefix_append _ _).trans (hs.order c), hs.served c⟩,
    fun c hc w hw => hs.response_of_up hc hw⟩
  · rcases hs.woken w hw with hr | ⟨ht, hr⟩
    · exact .inl hr
    · exact .inr ⟨Pc.woken_of_ticket ht, hr⟩
  · rcases mem_append.mp (hs.perm.mem_iff.mpr he) with hw | hp
    · obtain ⟨⟨e, a⟩, hmem, rfl⟩ := mem_map.mp hw
      exact .inl ⟨a, hmem⟩
    · exact .inr (hs.awaited hp)

/-- A response function that reads one item. -/
def readItem : Func (List ℕ) ℕ
  | [] => none
  | d :: rest => some ((true, d, false), rest)

/-- Connection `c` sends `10 * c + 10`, `10 * c + 11`, … -/
def items (c : ℕ) : List ℕ := [10 * c + 10, 10 * c + 11, 10 * c + 12]

/-- Coroutine 1 connects and coroutines 1 and 2 are pushed; the response of coroutine 1 is read. -/
def requestsRun : List (Label (List ℕ) ℕ) :=
  [.call 1 (.request (some readItem)) true, .opened 1 true, .start,
    .call 2 (.response readItem) true]

/-- Coroutine 1 gets its response; the peer closes and coroutine 2 gets an error. -/
theorem pushed_requesters_answered_of_two : ∃ s : State (List ℕ) ℕ,
    (channel ℕ false items).ReachableVia (fun s a => s.careful a = true) s ∧
    s.wakes.map (fun w => (w.1.serial, w.2)) =
      [(0, .response true (.one 10)), (1, .socketError none)] ∧
    (s.resumed.map (·.1)).Nodup := by
  obtain ⟨s, hs, hw⟩ := (channel ℕ false items).exists_reachable (fun s a => s.careful a = true)
    (requestsRun ++ [.respond 0, .peerClosed 0 true, .readFailed none, .resume 1, .resume 2])
    (fun s => s.wakes.map (fun w => (w.1.serial, w.2)) =
      [(0, .response true (.one 10)), (1, .socketError none)]) (by decide +kernel)
  exact ⟨s, hs, hw, (pushed_requesters_answered hs).2.1⟩

/-- `channel:changehost` is called while the response of coroutine 1 is on its way.  The dispatch
coroutine ends after it, coroutine 2 stays in the queue, and its response function gets the first
item of connection 1, which belongs to coroutine 3. -/
theorem requester_answered_by_next_connection : ∃ s : State (List ℕ) ℕ,
    (channel ℕ false items).exec (State.init false items)
      (requestsRun ++ [.changehost, .respond 0, .call 3 (.request (some readItem)) true,
        .opened 3 true, .start, .respond 0]) = some s ∧
    s.sock = some 1 ∧ s.wakes.map (fun w => (w.1.thread, w.1.conn, w.2)) =
      [(1, 0, .response true (.one 10)), (2, 0, .response true (.one 20))] :=
  (channel ℕ false items).exists_exec _ (fun s => s.sock = some 1 ∧
    s.wakes.map (fun w => (w.1.thread, w.1.conn, w.2)) =
      [(1, 0, .response true (.one 10)), (2, 0, .response true (.one 20))]) (by decide +kernel)

end Skynet.SocketChannel
