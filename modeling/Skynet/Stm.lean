import Skynet.RefCount

/-! # Shared copies of a message

The model of `lua-stm.cpp`: a writer publishes messages, and readers in other services look at the
latest one.  Every message has a copy with a reference count; the object has the current copy, a
reader keeps the copy that it read last, and a read that is on its way has the copy that it took.
A locked section of the code is one step, and so is a change of an atomic counter.

The lock of a function that deletes the object unlocks the mutex of the deleted object; the steps
after that are those of a machine on which this has no other effect.  The counters are 32-bit
numbers; fewer than 2³⁰ readers do not make them overflow.

A message is the number of messages that were published before it.  The address of a new copy is
any address that no copy has at that time, so an address may come back.  A reader is released when
it does not read.

A read finds out by comparing addresses whether there is something new; that is right because the
reader still holds the copy that it compares with (`copies_and_reads`).  When the writer is released
the object gives its copy up, so what was published just before is not read any more
(`publication_lost_at_release`). -/

namespace Skynet.Stm

open List RefCount

/-- Where a reader is: its pointer was taken by `stm.copy` but not made a reader yet, it waits
with the copy it read last, it is in `l_read` behind `stm_copy`, or it is being deleted and has
given the object up.  A read knows how much was published when it took its copy and whether the
writer was released then. -/
inductive Phase where
  | grabbed
  | idle (last : Option ℕ)
  | reading (last copy : Option ℕ) (seen : ℕ) (released : Bool)
  | closing (last : Option ℕ)
  | gone
deriving DecidableEq

/-- A reader, with what was published when it read last. -/
structure Reader where
  phase : Phase
  mark : ℕ
deriving DecidableEq

/-- The copies that a reader holds. -/
def Reader.held (r : Reader) : List ℕ :=
  match r.phase with
  | .grabbed | .gone => []
  | .idle last | .closing last => last.toList
  | .reading last copy _ _ => last.toList ++ copy.toList

/-- The reader has a reference to the object. -/
def Reader.grabs (r : Reader) : Bool :=
  match r.phase with
  | .grabbed | .idle _ | .reading _ _ _ _ => true
  | .closing _ | .gone => false

/-- `fault` is set by an assertion that fails and by an access to the deleted object, that of the
destructor of a lock included. -/
structure State where
  pool : Pool ℕ
  reference : ℤ
  deleted : Bool
  copy : Option ℕ
  /-- the writer was not released -/
  writer : Bool
  readers : List Reader
  published : ℕ
  fault : Bool

/-- The holders of copies: the object, the readers and the reads. -/
def State.held (s : State) : List ℕ := s.copy.toList ++ s.readers.flatMap Reader.held

/-- An access to the object that relies on a condition. -/
def State.access (s : State) (ok : Bool) : State :=
  { s with fault := s.fault || s.deleted || !ok }

/-- The destructor of the lock. -/
def State.unlock (s : State) : State := { s with fault := s.fault || s.deleted }

def State.setReader (s : State) (i : ℕ) (r : Reader) : State :=
  { s with readers := s.readers.set i r }

/-! ### The functions -/

def stmUpdate (s : State) (c : ℕ) : State :=
  { s.access true with
    pool := (s.pool.alloc c s.published).releaseOpt s.copy
    copy := some c
    published := s.published + 1 }

def stmRelease (s : State) : State :=
  State.unlock { s.access s.copy.isSome with
    pool := s.pool.releaseOpt s.copy
    copy := none
    writer := false
    reference := s.reference - 1
    deleted := s.deleted || decide (s.reference ≤ 1) }

/-- `stm_grab`, for a new reader -/
def stmGrab (s : State) : State :=
  { s.access (decide (0 < s.reference)) with
    reference := s.reference + 1
    readers := s.readers ++ [⟨.grabbed, 0⟩] }

/-- `stm_copy` in `l_read` -/
def stmCopy (s : State) (i : ℕ) (last : Option ℕ) (mark : ℕ) : State :=
  { (s.access true).setReader i ⟨.reading last s.copy s.published (!s.writer), mark⟩ with
    pool := s.pool.retainOpt s.copy }

/-- The rest of `l_read`. -/
def readEnd (s : State) (i : ℕ) (last copy : Option ℕ) (seen : ℕ) : State :=
  if copy = last then { s.setReader i ⟨.idle last, seen⟩ with pool := s.pool.releaseOpt copy }
  else { s.setReader i ⟨.idle copy, seen⟩ with pool := s.pool.releaseOpt last }

def stmReleasereader (s : State) (i : ℕ) (last : Option ℕ) (mark : ℕ) : State :=
  State.unlock { (s.access (s.reference ≠ 1 || s.copy.isNone)).setReader i ⟨.closing last, mark⟩ with
    reference := s.reference - 1
    deleted := s.deleted || decide (s.reference = 1) }

/-- What a read that is on its way returns: the message, or `false`. -/
def State.result (s : State) (last copy : Option ℕ) : Option ℕ :=
  if copy = last then none else copy.bind s.pool.payload

/-! ### Runs -/

inductive Label where
  /-- `l_update`, with the address of the new copy -/
  | update (c : ℕ)
  /-- `l_delete_writer` -/
  | release
  /-- `l_copy` -/
  | copy
  /-- `l_new_reader` -/
  | newReader (i : ℕ)
  /-- `l_read` up to `stm_copy` -/
  | read (i : ℕ)
  | readEnd (i : ℕ)
  /-- `stm_releasereader` in `l_delete_reader`, and the rest of it -/
  | deleteReader (i : ℕ)
  | deleted (i : ℕ)

def step (s : State) : Label → Option State
  | .update c => if s.writer ∧ s.pool.cells c = none then some (stmUpdate s c) else none
  | .release => if s.writer then some (stmRelease s) else none
  | .copy => if s.writer then some (stmGrab s) else none
  | .newReader i =>
    match s.readers[i]? with
    | some ⟨.grabbed, mark⟩ => some (s.setReader i ⟨.idle none, mark⟩)
    | _ => none
  | .read i =>
    match s.readers[i]? with
    | some ⟨.idle last, mark⟩ => some (stmCopy s i last mark)
    | _ => none
  | .readEnd i =>
    match s.readers[i]? with
    | some ⟨.reading last copy seen _, _⟩ => some (readEnd s i last copy seen)
    | _ => none
  | .deleteReader i =>
    match s.readers[i]? with
    | some ⟨.idle last, mark⟩ => some (stmReleasereader s i last mark)
    | _ => none
  | .deleted i =>
    match s.readers[i]? with
    | some ⟨.closing last, mark⟩ =>
      some { s.setReader i ⟨.gone, mark⟩ with pool := s.pool.releaseOpt last }
    | _ => none

/-- After `stm_new`. -/
def system : Transition.System State Label where
  init :=
    { pool := (⟨fun _ => none, [], false⟩ : Pool ℕ).alloc 0 0
      reference := 1
      deleted := false
      copy := some 0
      writer := true
      readers := []
      published := 1
      fault := false }
  step := step

/-! ### The invariant -/

/-- The copy is the one that was the latest when `mark` messages were published. -/
def Saw (pool : Pool ℕ) (o : Option ℕ) (mark : ℕ) : Prop :=
  ∀ c, o = some c → ∃ m, pool.payload c = some m ∧ m + 1 = mark

/-- What a reader knows is right. -/
def Reader.Fits (pool : Pool ℕ) (published : ℕ) (writer : Bool) (r : Reader) : Prop :=
  match r.phase with
  | .grabbed => r.mark = 0
  | .idle last => Saw pool last r.mark ∧ r.mark ≤ published ∧
      (last = none → r.mark = 0 ∨ writer = false)
  | .reading last copy seen released =>
    Saw pool last r.mark ∧ r.mark ≤ seen ∧ seen ≤ published ∧ 0 < seen ∧ Saw pool copy seen ∧
      (released = true → copy = none ∧ writer = false) ∧
      (released = false → copy ≠ none ∧ (last = none → r.mark = 0))
  | .closing _ | .gone => True

structure Sound (s : State) : Prop where
  balanced : Balanced s.pool s.held (range s.published)
  sound : s.fault = s.deleted
  object : s.reference = (if s.writer then 1 else 0) + s.readers.countP Reader.grabs
  deleted : s.deleted = true ↔ s.reference = 0
  copy : s.copy = none ↔ s.writer = false
  latest : Saw s.pool s.copy s.published
  positive : 0 < s.published
  reader : ∀ r ∈ s.readers, r.Fits s.pool s.published s.writer

theorem Saw.mono {pool pool' : Pool ℕ} {o : Option ℕ} {mark : ℕ} (h : Saw pool o mark)
    (hpool : ∀ c ∈ o.toList, pool'.payload c = pool.payload c) : Saw pool' o mark := by
  rintro c rfl
  obtain ⟨m, hm, hmark⟩ := h c rfl
  exact ⟨m, (hpool c (mem_singleton.mpr rfl)).trans hm, hmark⟩

theorem Reader.Fits.mono {pool pool' : Pool ℕ} {published published' : ℕ} {writer writer' : Bool}
    {r : Reader} (h : r.Fits pool published writer)
    (hpool : ∀ c ∈ r.held, pool'.payload c = pool.payload c) (hle : published ≤ published')
    (hwriter : writer = false → writer' = false) : r.Fits pool' published' writer' := by
  obtain ⟨phase, mark⟩ := r
  cases phase with
  | grabbed => exact h
  | idle last =>
    obtain ⟨hsaw, hmark, hnone⟩ := h
    exact ⟨hsaw.mono hpool, Nat.le_trans hmark hle, fun hlast => (hnone hlast).imp_right hwriter⟩
  | reading last copy seen released =>
    obtain ⟨hsaw, hmark, hseen, hpos, hcopy, hreleased, hlive⟩ := h
    refine ⟨hsaw.mono fun c hc => hpool c (mem_append_left _ hc), hmark, Nat.le_trans hseen hle,
      hpos, hcopy.mono fun c hc => hpool c (mem_append_right _ hc), fun hr => ?_, hlive⟩
    exact ⟨(hreleased hr).1, hwriter (hreleased hr).2⟩
  | closing last => trivial
  | gone => trivial

namespace Sound

variable {s : State} {i : ℕ} {r r' : Reader}

theorem held_set (s : State) (hi : s.readers[i]? = some r) (r' : Reader) :
    ∃ rest, s.copy.toList ⊆ rest ∧ s.held.Perm (r.held ++ rest) ∧
      (s.setReader i r').held.Perm (r'.held ++ rest) := by
  obtain ⟨rest, hbefore, hafter⟩ := perm_flatMap_set Reader.held hi r'
  have hswap : ∀ u : List ℕ,
      (s.copy.toList ++ (u ++ rest)).Perm (u ++ (s.copy.toList ++ rest)) := fun u => by
    rw [← append_assoc, ← append_assoc]
    exact perm_append_comm.append_right _
  exact ⟨s.copy.toList ++ rest, subset_append_left _ _,
    (hbefore.append_left _).trans (hswap _), (hafter.append_left _).trans (hswap _)⟩

theorem countP_set (hi : s.readers[i]? = some r) (r' : Reader) :
    ((s.readers.set i r').countP Reader.grabs : ℤ) =
      s.readers.countP Reader.grabs - (if r.grabs then 1 else 0) + if r'.grabs then 1 else 0 := by
  obtain ⟨hlt, rfl⟩ := List.getElem?_eq_some_iff.mp hi
  have hle := boole_getElem_le_countP (p := Reader.grabs) hlt
  rw [countP_set hlt]
  split_ifs at hle ⊢ <;> omega

variable (h : Sound s)

include h

theorem setReader (hi : s.readers[i]? = some r) {pool : Pool ℕ} {reference : ℤ}
    {deleted fault : Bool}
    (hpool : ∀ rest, s.copy.toList ⊆ rest →
      Balanced s.pool (r.held ++ rest) (range s.published) →
      Balanced pool (r'.held ++ rest) (range s.published) ∧
        ∀ c ∈ r'.held ++ rest, pool.payload c = s.pool.payload c)
    (href : reference = s.reference - (if r.grabs then 1 else 0) + if r'.grabs then 1 else 0)
    (hdeleted : deleted = true ↔ reference = 0) (hfault : fault = deleted)
    (hfits : (∀ c ∈ r'.held, pool.payload c = s.pool.payload c) → r'.Fits pool s.published s.writer) :
    Sound { s.setReader i r' with
      pool := pool, reference := reference, deleted := deleted, fault := fault } := by
  obtain ⟨rest, hcopy, hbefore, hafter⟩ := held_set s hi r'
  obtain ⟨hbalanced, hpayload⟩ := hpool rest hcopy (h.balanced.perm hbefore)
  have hsame : ∀ c ∈ (s.setReader i r').held, pool.payload c = s.pool.payload c :=
    fun c hc => hpayload c (hafter.mem_iff.mp hc)
  refine ⟨hbalanced.perm hafter.symm, hfault, ?_, hdeleted, h.copy, ?_, h.positive, ?_⟩
  · change reference = (if s.writer then 1 else 0) +
      ((s.readers.set i r').countP Reader.grabs : ℤ)
    rw [href, h.object, countP_set hi r']
    omega
  · exact h.latest.mono fun c hc => hpayload c (mem_append_right _ (hcopy hc))
  · intro x hx
    rcases mem_or_eq_of_mem_set hx with hold | rfl
    · refine (h.reader x hold).mono (fun c hc => ?_) (Nat.le_refl _) id
      exact hsame c (mem_append_right _ (mem_flatMap.mpr ⟨x, hx, hc⟩))
    · exact hfits fun c hc => hpayload c (mem_append_left _ hc)

theorem not_deleted (hpos : 0 < s.reference) : s.deleted = false := by
  cases hd : s.deleted with
  | false => rfl
  | true =>
    have hzero := h.deleted.mp hd
    omega

theorem reference_pos_of_writer (hw : s.writer = true) : 0 < s.reference := by
  rw [h.object, if_pos hw]
  omega

theorem reference_pos_of_reader (hi : s.readers[i]? = some r) (hr : r.grabs = true) :
    0 < s.reference := by
  have hcount : 0 < s.readers.countP Reader.grabs :=
    countP_pos_iff.mpr ⟨r, mem_of_getElem? hi, hr⟩
  rw [h.object]
  split_ifs <;> omega

theorem access (hpos : 0 < s.reference) {ok : Bool} (hok : ok = true) :
    (s.access ok).fault = false := by
  rw [State.access, h.sound, h.not_deleted hpos, hok]
  rfl

theorem access_eq (hpos : 0 < s.reference) {ok : Bool} (hok : ok = true) :
    (s.access ok).fault = s.deleted := (h.access hpos hok).trans (h.not_deleted hpos).symm

theorem update (hw : s.writer = true) {c : ℕ} (hc : s.pool.cells c = none) :
    Sound (stmUpdate s c) := by
  have hpos := h.reference_pos_of_writer hw
  have hnew : s.published ∉ range s.published := not_mem_range_self
  have halloc := h.balanced.alloc hc hnew
  rw [← range_succ] at halloc
  have hbalanced : Balanced (s.pool.alloc c s.published)
      (s.copy.toList ++ (c :: s.readers.flatMap Reader.held)) (range (s.published + 1)) :=
    halloc.perm perm_middle.symm
  have hne : ∀ d ∈ s.held, d ≠ c := by
    rintro d hd rfl
    obtain ⟨x, hx⟩ := h.balanced.live d hd
    rw [hc] at hx
    cases hx
  have hpayload : ∀ d ∈ s.readers.flatMap Reader.held,
      (stmUpdate s c).pool.payload d = s.pool.payload d := by
    intro d hd
    refine (payload_releaseOpt hbalanced (mem_cons_of_mem _ hd)).trans ?_
    exact payload_alloc_of_ne (hne d (mem_append_right _ hd))
  refine ⟨hbalanced.releaseOpt, h.access_eq hpos rfl, h.object, h.deleted, ?_, ?_, Nat.succ_pos _, ?_⟩
  · simp only [stmUpdate, State.access, hw, reduceCtorEq]
  · rintro d ⟨⟩
    exact ⟨s.published, (payload_releaseOpt hbalanced mem_cons_self).trans
      payload_alloc_self, rfl⟩
  · intro r hr
    refine (h.reader r hr).mono (fun d hd => ?_) (Nat.le_succ _) id
    exact hpayload d (mem_flatMap.mpr ⟨r, hr, hd⟩)

theorem release (hw : s.writer = true) : Sound (stmRelease s) := by
  have hpos := h.reference_pos_of_writer hw
  have hsome : s.copy.isSome = true := by
    cases hcopy : s.copy with
    | some c => rfl
    | none =>
      rw [h.copy.mp hcopy] at hw
      cases hw
  have hpayload : ∀ d ∈ s.readers.flatMap Reader.held,
      (stmRelease s).pool.payload d = s.pool.payload d :=
    fun d hd => payload_releaseOpt h.balanced hd
  refine ⟨h.balanced.releaseOpt, ?_, ?_, ?_, by simp [stmRelease, State.unlock], ?_, h.positive, ?_⟩
  · simp [stmRelease, State.unlock, h.access hpos hsome]
  · have hobject := h.object
    rw [if_pos hw] at hobject
    simp only [stmRelease, State.unlock, State.access, Bool.false_eq_true, if_false]
    omega
  · simp only [stmRelease, State.unlock, State.access, h.not_deleted hpos, Bool.false_or, decide_eq_true_eq]
    omega
  · rintro d ⟨⟩
  · intro r hr
    refine (h.reader r hr).mono (fun d hd => ?_) (Nat.le_refl _) fun _ => rfl
    exact hpayload d (mem_flatMap.mpr ⟨r, hr, hd⟩)

theorem grab (hw : s.writer = true) : Sound (stmGrab s) := by
  have hpos := h.reference_pos_of_writer hw
  have hheld : (stmGrab s).held = s.held := by
    simp [stmGrab, State.held, State.access, Reader.held]
  refine ⟨?_, h.access_eq hpos (decide_eq_true hpos), ?_, ?_, h.copy, h.latest, h.positive, ?_⟩
  · rw [hheld]
    exact h.balanced
  · have hobject := h.object
    rw [if_pos hw] at hobject
    have hcount : (s.readers ++ [(⟨.grabbed, 0⟩ : Reader)]).countP Reader.grabs =
        s.readers.countP Reader.grabs + 1 := by
      rw [countP_append]
      rfl
    simp only [stmGrab, State.access, hcount, hw, if_true]
    omega
  · have hdeleted := h.not_deleted hpos
    simp only [stmGrab, State.access, hdeleted, Bool.false_eq_true, false_iff]
    omega
  · intro r hr
    rcases mem_append.mp hr with hr | hr
    · exact h.reader r hr
    · rw [mem_singleton.mp hr]
      exact rfl

theorem of_access {ok : Bool} (hfault : (s.access ok).fault = s.deleted) :
    Sound (s.access ok) := { h with sound := hfault }

variable {mark : ℕ} {last : Option ℕ}

theorem newReader (hi : s.readers[i]? = some ⟨.grabbed, mark⟩) :
    Sound (s.setReader i ⟨.idle none, mark⟩) := by
  have hmark : mark = 0 := h.reader _ (mem_of_getElem? hi)
  refine h.setReader hi (fun rest _ hb => ⟨hb, fun _ _ => rfl⟩) ?_ h.deleted h.sound fun _ => ?_
  · simp only [Reader.grabs, if_true]
    omega
  · refine ⟨?_, ?_, fun _ => .inl hmark⟩
    · rintro c ⟨⟩
    · rw [hmark]
      exact Nat.zero_le _

theorem read (hi : s.readers[i]? = some ⟨.idle last, mark⟩) : Sound (stmCopy s i last mark) := by
  have hpos := h.reference_pos_of_reader hi rfl
  obtain ⟨hsaw, hmark, hnone⟩ := h.reader _ (mem_of_getElem? hi)
  have haccess := h.of_access (h.access_eq hpos rfl)
  refine haccess.setReader hi (fun rest hcopy hb => ⟨?_, ?_⟩) ?_ h.deleted haccess.sound
    fun hpayload => ?_
  · have hretain := hb.retainOpt fun c hc =>
      mem_append_right _ (hcopy (Option.mem_toList.mpr hc))
    refine hretain.perm ?_
    rw [← append_assoc]
    exact perm_append_comm.append_right _
  · exact fun c _ => payload_retainOpt
  · simp only [Reader.grabs, if_true, State.access, State.setReader]
    omega
  · have hcopy : s.copy = none ↔ s.writer = false := h.copy
    refine ⟨hsaw.mono fun c _ => payload_retainOpt, hmark, Nat.le_refl _, h.positive,
      h.latest.mono fun c _ => payload_retainOpt, fun hr => ?_, fun hr => ?_⟩
    · have hw : s.writer = false := by simpa using hr
      exact ⟨hcopy.mpr hw, hw⟩
    · have hw : s.writer = true := by simpa using hr
      refine ⟨fun hno => ?_, fun hlast => (hnone hlast).resolve_right ?_⟩
      · rw [hcopy.mp hno] at hw
        cases hw
      · rw [hw]
        exact Bool.noConfusion

omit h

theorem readEnd {last copy : Option ℕ} {seen mark : ℕ} {released : Bool} (h : Sound s)
    (hi : s.readers[i]? = some ⟨.reading last copy seen released, mark⟩) :
    Sound (readEnd s i last copy seen) := by
  obtain ⟨hsaw, hmark, hseen, hpos, hcopy, hreleased, hlive⟩ := h.reader _ (mem_of_getElem? hi)
  have hnone : copy = none → seen = 0 ∨ s.writer = false := fun hno => by
    cases released with
    | true => exact .inr (hreleased rfl).2
    | false => exact absurd hno (hlive rfl).1
  have heq : Stm.readEnd s i last copy seen =
      { s.setReader i ⟨.idle copy, seen⟩ with pool := s.pool.releaseOpt last } := by
    rw [Stm.readEnd]
    split_ifs with hsame
    · rw [hsame]
    · rfl
  rw [heq]
  refine h.setReader hi (fun rest _ hb => ?_) ?_ h.deleted h.sound fun hpayload => ?_
  · have hb' : Balanced s.pool (last.toList ++ (copy.toList ++ rest)) (range s.published) := by
      rw [← append_assoc]
      exact hb
    exact ⟨hb'.releaseOpt, fun c hc => payload_releaseOpt hb' hc⟩
  · simp only [Reader.grabs, if_true, State.setReader]
    omega
  · exact ⟨hcopy.mono hpayload, hseen, hnone⟩

theorem deleteReader (h : Sound s) (hi : s.readers[i]? = some ⟨.idle last, mark⟩) :
    Sound (stmReleasereader s i last mark) := by
  have hpos := h.reference_pos_of_reader hi rfl
  have hok : (s.reference ≠ 1 || s.copy.isNone) = true := by
    -- With one reference left it is the one of this reader, so there is no writer.
    by_cases hone : s.reference = 1
    · have hcount : 0 < s.readers.countP Reader.grabs :=
        countP_pos_iff.mpr ⟨_, mem_of_getElem? hi, rfl⟩
      have hobject := h.object
      have hw : s.writer = false := by
        cases hw : s.writer with
        | false => rfl
        | true =>
          rw [if_pos hw] at hobject
          omega
      rw [h.copy.mpr hw]
      simp
    · simp [hone]
  have haccess := h.of_access (h.access_eq hpos hok)
  refine haccess.setReader hi (fun rest _ hb => ⟨hb, fun _ _ => rfl⟩) ?_ ?_ ?_
    fun _ => trivial
  · simp only [Reader.grabs, if_true, State.access, Bool.false_eq_true, if_false]
    omega
  · simp only [h.not_deleted hpos, Bool.false_or, decide_eq_true_eq]
    omega
  · simp only [State.setReader, h.access hpos hok, Bool.false_or]

theorem deleted_step (h : Sound s) (hi : s.readers[i]? = some ⟨.closing last, mark⟩) :
    Sound { s.setReader i ⟨.gone, mark⟩ with pool := s.pool.releaseOpt last } := by
  refine h.setReader hi (fun rest _ hb => ⟨hb.releaseOpt, fun c hc => payload_releaseOpt hb hc⟩)
    ?_ h.deleted h.sound fun _ => trivial
  simp only [Reader.grabs, Bool.false_eq_true, if_false, State.setReader]
  omega

end Sound

theorem sound {s : State} (h : system.Reachable s) : Sound s := by
  refine h.invariant ?_ fun s a s' hs _ hstep => ?_
  · have hempty : Balanced (⟨fun _ => none, [], false⟩ : Pool ℕ) [] [] :=
      ⟨rfl, nofun, nofun, nofun, nofun, nofun, nofun, nodup_nil⟩
    refine ⟨hempty.alloc rfl not_mem_nil, rfl, rfl, by decide, by decide, ?_,
      Nat.one_pos, nofun⟩
    rintro c ⟨⟩
    exact ⟨0, rfl, rfl⟩
  simp only [system] at hstep
  cases a with simp only [step] at hstep
  | update c =>
    split_ifs at hstep with hw
    cases hstep
    exact hs.update hw.1 hw.2
  | release =>
    split_ifs at hstep with hw
    cases hstep
    exact hs.release hw
  | copy =>
    split_ifs at hstep with hw
    cases hstep
    exact hs.grab hw
  | newReader i =>
    split at hstep
    · rename_i mark hi
      cases hstep
      exact hs.newReader hi
    · cases hstep
  | read i =>
    split at hstep
    · rename_i last mark hi
      cases hstep
      exact hs.read hi
    · cases hstep
  | readEnd i =>
    split at hstep
    · rename_i last copy seen released mark hi
      cases hstep
      exact hs.readEnd hi
    · cases hstep
  | deleteReader i =>
    split at hstep
    · rename_i last mark hi
      cases hstep
      exact hs.deleteReader hi
    · cases hstep
  | deleted i =>
    split at hstep
    · rename_i last mark hi
      cases hstep
      exact hs.deleted_step hi
    · cases hstep

/-! ### What is read -/

/-- A read that is on its way returns the latest message if there is one that the reader has not
seen and the writer is there. -/
theorem Sound.result {s : State} (h : Sound s) {i seen mark : ℕ} {last copy : Option ℕ}
    {released : Bool} (hi : s.readers[i]? = some ⟨.reading last copy seen released, mark⟩) :
    s.result last copy = if mark < seen ∧ released = false then some (seen - 1) else none := by
  obtain ⟨hsaw, hmark, -, hpos, hcopy, hreleased, hlive⟩ := h.reader _ (mem_of_getElem? hi)
  simp only at hmark
  rw [State.result]
  cases released with
  | true =>
    obtain ⟨rfl, -⟩ := hreleased rfl
    simp
  | false =>
    obtain ⟨hsome, hfirst⟩ := hlive rfl
    obtain ⟨c, rfl⟩ := Option.ne_none_iff_exists'.mp hsome
    obtain ⟨m, hm, hseen⟩ := hcopy c rfl
    have hnew : some c = last ↔ mark = seen := by
      cases last with
      | none =>
        have hzero : mark = 0 := hfirst rfl
        simp only [reduceCtorEq, false_iff]
        omega
      | some d =>
        obtain ⟨l, hl, hlmark⟩ := hsaw d rfl
        simp only at hlmark
        constructor
        · rintro ⟨⟩
          rw [hm] at hl
          cases hl
          omega
        · intro heq
          obtain rfl : l = m := by omega
          rw [h.balanced.eq_of_payload hm hl]
    by_cases heq : mark = seen
    · rw [if_pos (hnew.mpr heq), if_neg (by omega)]
    · rw [if_neg (fun hc => heq (hnew.mp hc)), if_pos ⟨by omega, rfl⟩, Option.bind_some, hm]
      congr 1
      omega

theorem Reader.length_held_le (r : Reader) : r.held.length ≤ 2 := by
  obtain ⟨phase, mark⟩ := r
  cases phase with
  | grabbed | gone => exact Nat.zero_le _
  | idle last | closing last => cases last <;> simp [Reader.held]
  | reading last copy seen released => cases last <;> cases copy <;> simp [Reader.held]

theorem State.length_held_le (s : State) : s.held.length ≤ 1 + 2 * s.readers.length := by
  have hreaders : (s.readers.flatMap Reader.held).length ≤ 2 * s.readers.length := by
    induction s.readers with
    | nil => exact Nat.zero_le _
    | cons r l ih =>
      have := r.length_held_le
      rw [flatMap_cons, length_append, length_cons]
      omega
  have hcopy : s.copy.toList.length ≤ 1 := by cases s.copy <;> simp
  rw [State.held, length_append]
  omega

/-- **Copies and reads**: with fewer than 2³⁰ readers the counts fit their types; in every state the
count of a copy is the number of its holders, and nothing that is freed is used but for the unlock
in the step that deletes the object; a message is freed once, exactly when no holder of it remains;
and a read returns `true` exactly when the writer was not released and has published since the read
before, with the message that was the latest when the read took its copy. -/
theorem copies_and_reads {s : State} (h : system.Reachable s) (hfew : s.readers.length < 2 ^ 30) :
    (s.reference < 2 ^ 31 ∧ ∀ c x, s.pool.cells c = some x → x.count < 2 ^ 31) ∧
    (s.fault = s.deleted ∧ s.pool.fault = false) ∧
    (∀ c x, s.pool.cells c = some x → x.count = s.held.count c) ∧
    (s.pool.freed.Nodup ∧ ∀ m, m ∈ s.pool.freed ↔
      m < s.published ∧ ∀ c ∈ s.held, s.pool.payload c ≠ some m) ∧
    ∀ (i : ℕ) (last copy : Option ℕ) (seen : ℕ) (released : Bool) (mark : ℕ),
      s.readers[i]? = some ⟨.reading last copy seen released, mark⟩ →
      s.result last copy = if mark < seen ∧ released = false then some (seen - 1) else none := by
  have hs := sound h
  refine ⟨⟨?_, fun c x hx => ?_⟩, ⟨hs.sound, hs.balanced.sound⟩,
    fun c x hx => (hs.balanced.count hx).2,
    ⟨hs.balanced.nodup, fun m => ⟨fun hm => ?_, fun hm => ?_⟩⟩,
    fun i last copy seen released mark hi => hs.result hi⟩
  · have := countP_le_length (p := Reader.grabs) (l := s.readers)
    rw [hs.object]
    split_ifs <;> omega
  · have := s.length_held_le
    have := count_le_length (a := c) (l := s.held)
    rw [(hs.balanced.count hx).2]
    omega
  · obtain ⟨hmade, hno⟩ := hs.balanced.freed m hm
    refine ⟨mem_range.mp hmade, fun c _ hc => ?_⟩
    obtain ⟨x, hx, hxm⟩ := Option.map_eq_some_iff.mp hc
    exact hno hx hxm
  · rcases hs.balanced.kept m (mem_range.mpr hm.1) with hfreed | ⟨c, x, hx, hxm⟩
    · exact hfreed
    · refine absurd ?_ (hm.2 c (hs.balanced.count hx).1)
      rw [Pool.payload, hx, Option.map_some, hxm]

/-- A reader has read the first message, and a read is on its way after the second one. -/
theorem copies_and_reads_of_update :
    ∃ s, system.Reachable s ∧ s.readers[0]? = some ⟨.reading (some 0) (some 1) 2 false, 1⟩ ∧
      s.result (some 0) (some 1) = some 1 := by
  obtain ⟨s, hs, hi⟩ := Transition.System.exists_reachable system (fun _ _ => True)
    [.copy, .newReader 0, .read 0, .readEnd 0, .update 1, .read 0]
    (fun s : State => s.readers[0]? = some ⟨.reading (some 0) (some 1) 2 false, 1⟩ ∧
      s.readers.length < 2 ^ 30) (by decide +kernel)
  exact ⟨s, hs, hi.1, (copies_and_reads hs hi.2).2.2.2.2 0 _ _ _ _ _ hi.1⟩

/-- The writer publishes the second message and is released: the next read of the reader returns
`false`, and the message is freed. -/
theorem publication_lost_at_release :
    ∃ s, system.Reachable s ∧ s.readers[0]? = some ⟨.reading (some 0) none 2 true, 1⟩ ∧
      s.result (some 0) none = none ∧ s.published = 2 ∧ 1 ∈ s.pool.freed := by
  obtain ⟨s, hs, hlost⟩ := Transition.System.exists_reachable system (fun _ _ => True)
    [.copy, .newReader 0, .read 0, .readEnd 0, .update 1, .release, .read 0]
    (fun s : State => s.readers[0]? = some ⟨.reading (some 0) none 2 true, 1⟩ ∧
      s.result (some 0) none = none ∧ s.published = 2 ∧ 1 ∈ s.pool.freed) (by decide +kernel)
  exact ⟨s, hs, hlost⟩

end Skynet.Stm
