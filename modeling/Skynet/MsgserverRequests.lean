import Skynet.Msgserver

/-! # The response cache of the message server

A client that has lost its connection asks again for the responses it has not got, with the same
sessions.  The version in a cache entry is to tell such a repetition from a session that is used
anew, but it is written when the handler returns, with the version the user has by then: when the
client has reconnected in the meantime, the repetition looks like a new request and the handler is
called again (`handler_started_again`).

Without that a request is executed once (`handler_started_once`). -/

namespace Skynet.Msgserver

open List Function Transition State

variable {ν ρ : Type}

namespace State

variable (s : State ν ρ)

/-- The response of the call was sent to its user. -/
def answered (x : Start) : Bool := s.sends.any fun y => y.entry = x.entry ∧ y.user = x.user

/-- The request on `fd` repeats, under the version of the cache entry, one that was not answered. -/
def repeats [LinearOrder ν] (fd : ℕ) (session : Option ℕ) : Bool :=
  match s.connection fd, session with
  | some u, some k =>
    match (s.users u).response.lookup k with
    | some p =>
      (s.entries p).version = some (s.users u).version ∧ s.answered ⟨u, k, p⟩ = false
    | none => false
  | _, _ => false

/-- The reply of entry `p` makes `retire_response` drop a response of `u` that was not sent. -/
def loses (u p : ℕ) : Bool :=
  s.conf.expiredNumber * 2 ≤ (s.users u).index + 1 ∧
    ((s.expired u).any fun x => x.2 ≠ p ∧ s.answered ⟨u, x.1, x.2⟩ = false) = true

/-- A request that is not answered is not repeated under the version of its cache entry, and its
response is not retired. -/
def attentive [LinearOrder ν] : Label ν ρ → Bool
  | .data fd msg =>
    match s.connection fd, msg.session with
    | some u, some k =>
      !s.repeats fd msg.session &&
        ((s.users u).response.lookup k).all fun p => !s.loses u p
    | _, _ => true
  | .finish p _ => (s.tasks p).all fun task => !s.loses task.user p
  | _ => true

/-- What a handshake does: it fails, or it gives the connection to a user who is online. -/
theorem doAuth_cases [LinearOrder ν] (fd : ℕ) (m : Handshake ν) :
    ((s.doAuth fd m).1 ≠ .ok ∧ (s.doAuth fd m).2 = s) ∨
    ∃ u idx, m.username.bind s.userOnline = some u ∧ s.doAuth fd m = (.ok,
      { s.setUser u { s.users u with version := idx, fd := some fd } with
        connection := update s.connection fd (some u) }) := by
  unfold doAuth
  split
  · exact .inl ⟨nofun, rfl⟩
  · rename_i u hu
    split
    · split_ifs
      · exact .inl ⟨nofun, rfl⟩
      · exact .inl ⟨nofun, rfl⟩
      · exact .inr ⟨u, _, hu, rfl⟩
    · exact .inl ⟨nofun, rfl⟩

end State

/-! ### The invariant -/

/-- The cache holds the entries of all requests that were not answered. -/
structure Cached (s : State ν ρ) : Prop where
  entries : s.starts.map (·.entry) = List.range s.nentries
  users : ∀ x ∈ s.starts, x.user < s.nusers
  connection : ∀ fd u, s.connection fd = some u → u < s.nusers
  online : ∀ name u, s.userOnline name = some u → u < s.nusers
  owner : ∀ u k p, (s.users u).response.lookup k = some p → ⟨u, k, p⟩ ∈ s.starts
  kept : ∀ x ∈ s.starts, s.answered x = false →
    (s.users x.user).response.lookup x.session = some x.entry
  tasks : ∀ p task, s.tasks p = some task → ⟨task.user, task.session, p⟩ ∈ s.starts
  once : s.starts.Pairwise fun x y => x.user = y.user → x.session = y.session →
    s.answered x = true

namespace Cached

variable {s t : State ν ρ} {u p k : ℕ}

theorem init [Zero ν] (conf : Conf) : Cached (State.init conf : State ν ρ) := by
  constructor <;> simp [State.init]

theorem answered_of_subset (h : s.sends ⊆ t.sends) {x : Start} (hx : s.answered x = true) :
    t.answered x = true := by
  obtain ⟨y, hy, hyx⟩ := any_eq_true.mp hx
  exact any_eq_true.mpr ⟨y, h hy, hyx⟩

theorem of_drop (h : Cached s) (hstarts : t.starts = s.starts) (hentries : t.nentries = s.nentries)
    (hnusers : s.nusers ≤ t.nusers) (hsends : s.sends ⊆ t.sends)
    (hconnection : ∀ fd u, t.connection fd = some u → u < t.nusers)
    (honline : ∀ name u, t.userOnline name = some u → u < t.nusers)
    (htasks : ∀ p task, t.tasks p = some task → s.tasks p = some task)
    (howner : ∀ u k p, (t.users u).response.lookup k = some p →
      (s.users u).response.lookup k = some p)
    (hkept : ∀ x ∈ s.starts, t.answered x = false →
      (s.users x.user).response.lookup x.session = some x.entry →
        (t.users x.user).response.lookup x.session = some x.entry) : Cached t where
  entries := by rw [hstarts, hentries, h.entries]
  users x hx := lt_of_lt_of_le (h.users x (hstarts ▸ hx)) hnusers
  connection := hconnection
  online := honline
  owner u k p hp := hstarts ▸ h.owner u k p (howner u k p hp)
  kept x hx hnot := by
    rw [hstarts] at hx
    refine hkept x hx hnot (h.kept x hx ?_)
    rw [Bool.eq_false_iff]
    intro hs
    rw [answered_of_subset hsends hs] at hnot
    cases hnot
  tasks p task hp := hstarts ▸ h.tasks p task (htasks p task hp)
  once := by
    rw [hstarts]
    exact h.once.imp fun hxy hu hk => answered_of_subset hsends (hxy hu hk)

theorem of_frame (h : Cached s) (hstarts : t.starts = s.starts) (hentries : t.nentries = s.nentries)
    (hnusers : t.nusers = s.nusers) (hsends : t.sends = s.sends)
    (hconnection : ∀ fd u, t.connection fd = some u → u < s.nusers)
    (honline : ∀ name u, t.userOnline name = some u → u < s.nusers)
    (htasks : ∀ p task, t.tasks p = some task → s.tasks p = some task)
    (hresponse : ∀ u, (t.users u).response = (s.users u).response) : Cached t := by
  refine h.of_drop hstarts hentries (le_of_eq hnusers.symm) (hsends ▸ List.Subset.refl _)
    (by rw [hnusers]; exact hconnection) (by rw [hnusers]; exact honline) htasks
    (fun u k p => by rw [hresponse u]; exact id) (fun x _ _ => by rw [hresponse x.user]; exact id)

theorem start (h : Cached s) (hu : u < s.nusers) (fd : ℕ)
    (hnew : ∀ x ∈ s.starts, x.user = u → x.session = k → s.answered x = true) :
    Cached (s.start fd u k) := by
  have hself : ((s.start fd u k).users u).response = (s.users u).response.insert k s.nentries := by
    simp [State.start, State.setUser]
  have hother {v : ℕ} (hv : v ≠ u) : (s.start fd u k).users v = s.users v := by
    simp [State.start, State.setUser, State.setEntry, hv]
  have hstarts : (s.start fd u k).starts = s.starts ++ [⟨u, k, s.nentries⟩] := rfl
  have hmem {x : Start} (hx : x ∈ (s.start fd u k).starts) :
      x ∈ s.starts ∨ x = ⟨u, k, s.nentries⟩ := by
    simpa [hstarts] using hx
  constructor
  case entries =>
    rw [hstarts, map_append, h.entries]
    exact range_succ.symm
  case users =>
    intro x hx
    rcases hmem hx with hx | rfl
    · exact h.users x hx
    · exact hu
  case connection => exact h.connection
  case online => exact h.online
  case owner =>
    intro v k' p hp
    rw [hstarts, mem_append]
    by_cases hv : v = u
    · subst hv
      rw [hself] at hp
      by_cases hk : k' = k
      · subst hk
        rw [AList.lookup_insert, Option.some.injEq] at hp
        exact .inr (by rw [hp]; exact mem_singleton_self _)
      · rw [AList.lookup_insert_ne hk] at hp
        exact .inl (h.owner v k' p hp)
    · rw [hother hv] at hp
      exact .inl (h.owner v k' p hp)
  case kept =>
    intro x hx hnot
    rcases hmem hx with hx | rfl
    · have hold := h.kept x hx hnot
      by_cases hv : x.user = u
      · have hk : x.session ≠ k := by
          intro hk
          rw [show (s.start fd u k).answered x = s.answered x from rfl, hnew x hx hv hk] at hnot
          cases hnot
        rw [hv, hself, AList.lookup_insert_ne hk, ← hv]
        exact hold
      · rw [hother hv]
        exact hold
    · rw [hself, AList.lookup_insert]
  case tasks =>
    intro p task hp
    rw [hstarts, mem_append]
    by_cases hpn : p = s.nentries
    · subst hpn
      have : task = ⟨u, k, fd⟩ := by simpa [State.start, eq_comm] using hp
      exact .inr (by rw [this]; exact mem_singleton_self _)
    · have hold : s.tasks p = some task := by simpa [State.start, hpn] using hp
      exact .inl (h.tasks p task hold)
  case once =>
    rw [hstarts, pairwise_append]
    refine ⟨h.once, pairwise_singleton _ _, fun x hx y hy => ?_⟩
    rw [mem_singleton.mp hy]
    exact hnew x hx

/-! ### Replies -/

theorem lookup_foldl_erase (l : List (ℕ × ℕ)) (r : AList fun _ : ℕ => ℕ) (k : ℕ) :
    (l.foldl (fun r y => r.erase y.1) r).lookup k =
      if k ∈ l.map (·.1) then none else r.lookup k := by
  induction l generalizing r with
  | nil => simp
  | cons y l ih =>
    rw [foldl_cons, ih, map_cons]
    by_cases hy : k = y.1
    · subst hy
      simp
    · rw [AList.lookup_erase_ne hy]
      simp only [mem_cons, hy, false_or]

theorem retire_other (s : State ν ρ) {v : ℕ} (hv : v ≠ u) :
    (s.retireResponse u).users v = s.users v := by
  unfold retireResponse
  simp only
  split_ifs
  · rfl
  · exact update_of_ne hv _ _

/-- `retire_response` drops the expired entries when the index is high enough. -/
theorem retire_lookup (s : State ν ρ) (u k : ℕ) : ((s.retireResponse u).users u).response.lookup k =
      if s.conf.expiredNumber * 2 ≤ (s.users u).index ∧ k ∈ (s.expired u).map (·.1) then none
      else (s.users u).response.lookup k := by
  unfold retireResponse
  simp only
  split_ifs with hlt hk hk
  · omega
  · rfl
  all_goals simp only [update_self, lookup_foldl_erase]
  · exact if_pos hk.2
  · exact if_neg fun hmem => hk ⟨by omega, hmem⟩

theorem mem_expired {q : ℕ} :
    (k, q) ∈ s.expired u ↔ (s.users u).response.lookup k = some q ∧ (s.entries q).fd = none ∧
      (s.entries q).index < s.conf.expiredNumber := by
  simp only [expired, complete, mem_filter, mem_map, decide_eq_true_eq]
  constructor
  · rintro ⟨⟨⟨y, hy, heq⟩, hfd⟩, hlt⟩
    cases heq
    exact ⟨AList.mem_lookup_iff.mpr hy, hfd, hlt⟩
  · rintro ⟨hk, hfd, hlt⟩
    exact ⟨⟨⟨⟨k, q⟩, AList.mem_lookup_iff.mp hk, rfl⟩, hfd⟩, hlt⟩

/-- What is sent is appended to `sends`; nothing else of the history changes. -/
theorem sendResponse_eq (s : State ν ρ) (u p : ℕ) : ∃ l, s.sendResponse u p =
    { (s.setUser u { s.users u with index := (s.users u).index + 1 }).setEntry p
        { s.entries p with fd := none } with sends := s.sends ++ l } := by
  unfold sendResponse
  split
  · exact ⟨_, rfl⟩
  · exact ⟨[], by simp [setUser, setEntry]⟩

theorem response_setUser (s : State ν ρ) {x : User ν} (hx : x.response = (s.users u).response)
    (v : ℕ) : ((s.setUser u x).users v).response = (s.users v).response := by
  by_cases hv : v = u
  · subst hv
    simp only [setUser, update_self, hx]
  · simp only [setUser, update_of_ne hv]

theorem sendResponse_response (s : State ν ρ) (u p v : ℕ) :
    ((s.sendResponse u p).users v).response = (s.users v).response := by
  obtain ⟨l, hl⟩ := sendResponse_eq s u p
  rw [hl]
  exact response_setUser s (x := { s.users u with index := (s.users u).index + 1 }) rfl v

/-- The response of entry `p` is sent, if the client is still there. -/
theorem sendResponse (h : Cached s) : Cached (s.sendResponse u p) := by
  have hresponse := sendResponse_response s u p
  obtain ⟨l, hl⟩ := sendResponse_eq s u p
  rw [hl] at hresponse ⊢
  exact h.of_drop rfl rfl le_rfl (subset_append_left _ _) h.connection h.online
    (fun _ _ => id) (fun v k p hp => hresponse v ▸ hp) (fun x _ _ hx => hresponse x.user ▸ hx)

theorem sendResponse_index (s : State ν ρ) (u p : ℕ) :
    ((s.sendResponse u p).users u).index = (s.users u).index + 1 := by
  obtain ⟨l, hl⟩ := sendResponse_eq s u p
  simp [hl, setUser, setEntry]

theorem sendResponse_entry (s : State ν ρ) (u p : ℕ) :
    ((s.sendResponse u p).entries p).index = (s.entries p).index := by
  obtain ⟨l, hl⟩ := sendResponse_eq s u p
  simp [hl, setUser, setEntry]

theorem sendResponse_other (s : State ν ρ) (u : ℕ) {q : ℕ} (hq : q ≠ p) :
    (s.sendResponse u p).entries q = s.entries q := by
  obtain ⟨l, hl⟩ := sendResponse_eq s u p
  simp [hl, setUser, setEntry, hq]

theorem sendResponse_conf (s : State ν ρ) (u p : ℕ) : (s.sendResponse u p).conf = s.conf := by
  obtain ⟨l, hl⟩ := sendResponse_eq s u p
  rw [hl]
  rfl

theorem sendResponse_sends (s : State ν ρ) (u p : ℕ) : s.sends ⊆ (s.sendResponse u p).sends := by
  obtain ⟨l, hl⟩ := sendResponse_eq s u p
  rw [hl]
  exact subset_append_left _ _

theorem sendResponse_starts (s : State ν ρ) (u p : ℕ) : (s.sendResponse u p).starts = s.starts := by
  obtain ⟨l, hl⟩ := sendResponse_eq s u p
  rw [hl]
  rfl

/-- `retire_response` changes the entries and the user only. -/
theorem retire_eq (s : State ν ρ) (u : ℕ) : ∃ es us,
    s.retireResponse u = { s with entries := es, users := us } := by
  unfold retireResponse
  simp only
  split_ifs
  · exact ⟨s.entries, s.users, rfl⟩
  · exact ⟨_, _, rfl⟩

/-- What the reply of entry `p` drops from the cache was answered: `p` itself has the index the
user had before, which is too high. -/
theorem expired_answered (hp : (s.entries p).index = (s.users u).index) (hl : s.loses u p = false)
    {q : ℕ} (hle : s.conf.expiredNumber * 2 ≤ ((s.sendResponse u p).users u).index)
    (hq : (k, q) ∈ (s.sendResponse u p).expired u) : s.answered ⟨u, k, q⟩ = true := by
  obtain ⟨hlookup, hfd, hlt⟩ := mem_expired.mp hq
  rw [sendResponse_index] at hle
  rw [sendResponse_conf] at hlt
  rw [sendResponse_response] at hlookup
  have hqp : q ≠ p := by
    rintro rfl
    rw [sendResponse_entry, hp] at hlt
    omega
  rw [sendResponse_other s u hqp] at hfd hlt
  by_contra hnot
  refine Bool.eq_false_iff.mp hl (decide_eq_true ⟨hle, any_eq_true.mpr ?_⟩)
  exact ⟨(k, q), mem_expired.mpr ⟨hlookup, hfd, hlt⟩, decide_eq_true ⟨hqp, by simpa using hnot⟩⟩

theorem reply (h : Cached s) (hp : (s.entries p).index = (s.users u).index)
    (hl : s.loses u p = false) : Cached (s.reply u p) := by
  have hv : Cached (s.sendResponse u p) := h.sendResponse
  have howner (w k q : ℕ) (hq : ((s.reply u p).users w).response.lookup k = some q) :
      ((s.sendResponse u p).users w).response.lookup k = some q := by
    by_cases hw : w = u
    · subst hw
      rw [State.reply, retire_lookup] at hq
      split_ifs at hq
      exact hq
    · rwa [State.reply, retire_other _ hw] at hq
  have hkept (x : Start) (hnot : (s.sendResponse u p).answered x = false)
      (hx : ((s.sendResponse u p).users x.user).response.lookup x.session = some x.entry) :
      ((s.reply u p).users x.user).response.lookup x.session = some x.entry := by
    by_cases hw : x.user = u
    · rw [hw] at hx ⊢
      rw [State.reply, retire_lookup, if_neg]
      · exact hx
      · rintro ⟨hle, hmem⟩
        obtain ⟨⟨k, q⟩, hkq, rfl : k = x.session⟩ := mem_map.mp hmem
        obtain ⟨hlookup, -, -⟩ := mem_expired.mp hkq
        rw [hx, Option.some.injEq] at hlookup
        subst hlookup
        rw [sendResponse_conf] at hle
        have hans := answered_of_subset (sendResponse_sends s u p) (expired_answered hp hl hle hkq)
        subst hw
        rw [hans] at hnot
        cases hnot
    · rw [State.reply, retire_other _ hw]
      exact hx
  obtain ⟨es, us, heq⟩ := retire_eq (s.sendResponse u p) u
  rw [State.reply, heq] at howner hkept ⊢
  exact hv.of_drop rfl rfl (Nat.le_refl _) (List.Subset.refl _) hv.connection hv.online
    (fun _ _ => id) howner (fun x _ => hkept x)

theorem reply_starts (s : State ν ρ) (u p : ℕ) : (s.reply u p).starts = s.starts := by
  obtain ⟨es, us, heq⟩ := retire_eq (s.sendResponse u p) u
  rw [State.reply, heq]
  exact sendResponse_starts s u p

theorem mem_sends_reply {fd c : ℕ} (hfd : (s.entries p).fd = some fd)
    (hc : s.connection fd = some c) : ⟨p, fd, c⟩ ∈ (s.reply u p).sends := by
  obtain ⟨es, us, heq⟩ := retire_eq (s.sendResponse u p) u
  rw [State.reply, heq]
  simp [State.sendResponse, hfd, hc]

/-! ### Requests -/

theorem setEntry (h : Cached s) (p : ℕ) (x : Entry ν ρ) : Cached (s.setEntry p x) :=
  h.of_frame rfl rfl rfl rfl h.connection h.online (fun _ _ => id) (fun _ => rfl)

theorem closeclient_eq (s : State ν ρ) (fd : ℕ) : ∃ g, s.closeclient fd = { s with gate := g } := by
  unfold closeclient
  split_ifs
  · exact ⟨_, rfl⟩
  · exact ⟨s.gate, rfl⟩

theorem closeclient (h : Cached s) (fd : ℕ) : Cached (s.closeclient fd) := by
  obtain ⟨g, hg⟩ := closeclient_eq s fd
  rw [hg]
  exact h.of_frame rfl rfl rfl rfl h.connection h.online (fun _ _ => id) (fun _ => rfl)

/-- Whether a response is lost by the reply of `p` does not depend on entry `p`. -/
theorem loses_setEntry (s : State ν ρ) (u p : ℕ) (x : Entry ν ρ) :
    (s.setEntry p x).loses u p = s.loses u p := by
  have hany : ((s.setEntry p x).expired u).any
        (fun y => y.2 ≠ p ∧ (s.setEntry p x).answered ⟨u, y.1, y.2⟩ = false) =
      (s.expired u).any (fun y => y.2 ≠ p ∧ s.answered ⟨u, y.1, y.2⟩ = false) := by
    simp only [State.expired, State.complete, any_filter]
    refine congrArg (List.any _) (funext fun y => ?_)
    by_cases hy : y.2 = p
    · simp [hy]
    · simp [State.setEntry, hy, State.answered]
  simp only [State.loses, hany]
  rfl

variable (h : Cached s)

include h

theorem again (hl : s.loses u p = false) (fd : ℕ) : Cached (s.again fd u p) := by
  unfold State.again
  split_ifs
  · exact h.setEntry _ _
  · refine (h.setEntry _ _).reply ?_ ((loses_setEntry s u p _).trans hl)
    simp [State.setEntry]

theorem forget (hans : ∀ p, (s.users u).response.lookup k = some p → s.answered ⟨u, k, p⟩ = true) :
    Cached (s.forget u k) := by
  have hself : ((s.forget u k).users u).response = (s.users u).response.erase k := by
    simp [State.forget, State.setUser]
  have hother {v : ℕ} (hv : v ≠ u) : (s.forget u k).users v = s.users v := by
    simp [State.forget, State.setUser, hv]
  refine h.of_drop rfl rfl (Nat.le_refl _) (List.Subset.refl _) h.connection h.online
    (fun _ _ => id) (fun v k' p hp => ?_) (fun x _ hnot hx => ?_)
  · by_cases hv : v = u
    · subst hv
      rw [hself] at hp
      by_cases hk : k' = k
      · subst hk
        rw [AList.lookup_erase] at hp
        cases hp
      · rwa [AList.lookup_erase_ne hk] at hp
    · rwa [hother hv] at hp
  · by_cases hv : x.user = u
    · by_cases hk : x.session = k
      · subst hv hk
        rw [show (s.forget x.user x.session).answered x = s.answered x from rfl, hans _ hx] at hnot
        cases hnot
      · rw [hv, hself, AList.lookup_erase_ne hk, ← hv]
        exact hx
    · rw [hother hv]
      exact hx

theorem answered_of_lookup (hk : (s.users u).response.lookup k = none) (x : Start)
    (hx : x ∈ s.starts) (hu : x.user = u) (hs : x.session = k) : s.answered x = true := by
  by_contra hnot
  have hkept := h.kept x hx (by simpa using hnot)
  rw [hu, hs, hk] at hkept
  cases hkept

theorem doRequest [LinearOrder ν] {fd : ℕ} (hu : u < s.nusers)
    (hans : ∀ p, (s.users u).response.lookup k = some p →
      (s.entries p).version = some (s.users u).version → s.answered ⟨u, k, p⟩ = true)
    (hl : ∀ p, (s.users u).response.lookup k = some p → s.loses u p = false) :
    Cached (s.doRequest fd u k) := by
  unfold State.doRequest
  split
  case h_1 hk => exact h.start hu fd (h.answered_of_lookup hk)
  case h_2 p hk =>
    split_ifs with hversion
    · have hforget : Cached (s.forget u k) := by
        refine h.forget fun q hq => ?_
        obtain rfl : p = q := Option.some.inj (hk.symm.trans hq)
        exact hans p hk hversion
      split
      · exact hforget.closeclient fd
      · refine hforget.start hu fd (hforget.answered_of_lookup ?_)
        simp [State.forget, State.setUser]
    · exact h.again (hl p hk) fd

theorem request [LinearOrder ν] {fd : ℕ} {session : Option ℕ} {m : Handshake ν}
    (ha : s.attentive (.data fd ⟨m, session⟩) = true) : Cached (s.request fd session) := by
  unfold State.request
  split
  case h_1 => exact h
  case h_2 => exact h.closeclient fd
  case h_3 u k hc =>
    simp only [State.attentive, hc, Bool.and_eq_true, Bool.not_eq_true', State.repeats] at ha
    refine h.doRequest (h.connection fd u hc) (fun p hp hversion => ?_) (fun p hp => ?_)
    · simpa [hp, hversion] using ha.1
    · simpa [hp] using ha.2

theorem finish {task : Task} (hl : s.loses task.user p = false) (result : Option ρ) :
    Cached (s.finish p task result) := by
  have ht : Cached ({ s with tasks := update s.tasks p none } : State ν ρ) := by
    refine h.of_frame rfl rfl rfl rfl h.connection h.online (fun q task' hq => ?_) (fun _ => rfl)
    by_cases hqp : q = p
    · simp [hqp] at hq
    · simpa [hqp] using hq
  unfold State.finish
  split
  · split_ifs
    · exact ht
    · exact ht.closeclient task.fd
  · refine (ht.setEntry _ _).reply ?_ ((loses_setEntry _ _ p _).trans hl)
    simp [State.setEntry]

/-! ### Connections -/

theorem connection_update (fd : ℕ) {c : Option ℕ} (hc : ∀ u, c = some u → u < s.nusers) (f u : ℕ)
    (hu : update s.connection fd c f = some u) : u < s.nusers := by
  by_cases hf : f = fd
  · exact hc u (by simpa [hf] using hu)
  · exact h.connection f u (by simpa [hf] using hu)

theorem login [Zero ν] (username : String) : Cached (s.login username) := by
  unfold State.login
  split_ifs
  · have hlt {v : ℕ} (hv : v < s.nusers) : v ≠ s.nusers := ne_of_lt hv
    refine h.of_drop rfl rfl (Nat.le_succ _) (List.Subset.refl _)
      (fun fd u hu => Nat.lt_succ_of_lt (h.connection fd u hu)) (fun name u hu => ?_)
      (fun _ _ => id) (fun u k p hp => ?_) (fun x hx _ hlookup => ?_)
    · by_cases hname : name = username
      · have : s.nusers = u := by simpa [hname] using hu
        exact this ▸ Nat.lt_succ_self _
      · exact Nat.lt_succ_of_lt (h.online name u (by simpa [hname] using hu))
    · by_cases hv : u = s.nusers
      · simp [hv] at hp
      · simpa [hv] using hp
    · simpa [hlt (h.users x hx)] using hlookup
  · exact h

theorem logout (username : String) : Cached (s.logout username) := by
  have honline (name : String) (u : ℕ)
      (hu : update s.userOnline username none name = some u) : u < s.nusers := by
    by_cases hname : name = username
    · simp [hname] at hu
    · exact h.online name u (by simpa [hname] using hu)
  unfold State.logout
  split
  · exact h
  · simp only
    split
    · exact h.of_frame rfl rfl rfl rfl h.connection honline (fun _ _ => id) (fun _ => rfl)
    · rename_i fd _
      obtain ⟨g, hg⟩ := closeclient_eq
        ({ s with userOnline := update s.userOnline username none } : State ν ρ) fd
      rw [hg]
      exact h.of_frame rfl rfl rfl rfl (connection_update h fd nofun) honline (fun _ _ => id)
        (fun _ => rfl)

theorem disconnect (fd : ℕ) : Cached (s.disconnect fd) := by
  unfold State.disconnect
  split
  · exact h.of_frame rfl rfl rfl rfl h.connection h.online (fun _ _ => id) (fun _ => rfl)
  · exact h.of_frame rfl rfl rfl rfl (connection_update h fd nofun) h.online (fun _ _ => id)
      (fun v => response_setUser s (x := { s.users _ with fd := none }) rfl v)

theorem closeFd (fd : ℕ) : Cached (s.closeFd fd) := by
  unfold State.closeFd
  split_ifs
  · exact h
  · exact h.of_frame rfl rfl rfl rfl h.connection h.online (fun _ _ => id) (fun _ => rfl)

theorem doAuth [LinearOrder ν] (fd : ℕ) (m : Handshake ν) : Cached (s.doAuth fd m).2 := by
  rcases s.doAuth_cases fd m with ⟨-, heq⟩ | ⟨u, idx, hu, heq⟩ <;> rw [heq]
  · exact h
  · obtain ⟨name, -, hname⟩ := Option.bind_eq_some_iff.mp hu
    refine h.of_frame rfl rfl rfl rfl (connection_update h fd ?_) h.online (fun _ _ => id)
      (fun v => response_setUser s (x := { s.users u with version := idx, fd := some fd }) rfl v)
    rintro v ⟨rfl⟩
    exact h.online name u hname

theorem auth [LinearOrder ν] (fd : ℕ) (m : Handshake ν) : Cached (s.auth fd m) := by
  have ht : Cached (if (s.doAuth fd m).1 = .ok then (s.doAuth fd m).2
      else (s.doAuth fd m).2.closeclient fd) := by
    split_ifs
    · exact h.doAuth fd m
    · exact (h.doAuth fd m).closeclient fd
  exact ht.of_frame rfl rfl rfl rfl ht.connection ht.online (fun _ _ => id) (fun _ => rfl)

omit h

/-! ### Steps -/

variable [LinearOrder ν] [Zero ν]

theorem step (h : Cached s) {a : Label ν ρ} (ha : s.attentive a = true) (hs : s.step a = some t) :
    Cached t := by
  cases a with
  | login username =>
    cases hs
    exact h.login username
  | logout username =>
    cases hs
    exact h.logout username
  | «open» fd =>
    simp only [State.step] at hs
    split_ifs at hs
    · cases hs
      exact h
    · cases hs
      exact h.of_frame rfl rfl rfl rfl h.connection h.online (fun _ _ => id) (fun _ => rfl)
  | data fd msg =>
    simp only [State.step] at hs
    split_ifs at hs
    · cases hs
      exact h.auth fd msg.handshake
    · cases hs
      exact h.request ha
    · cases hs
      exact h
  | close fd | error fd =>
    cases hs
    exact (h.disconnect fd).closeFd fd
  | finish p result =>
    obtain ⟨task, htask, rfl⟩ := Option.map_eq_some_iff.mp hs
    exact h.finish (by simpa [State.attentive, htask] using ha) result

theorem of_reachable {conf : Conf}
    (h : (server ν ρ conf).ReachableVia (fun s a => s.attentive a = true) s) : Cached s :=
  h.invariant (init conf) fun _ _ _ hi hok hs => hi.step hok hs

end Cached

/-! ### Where the handler is called -/

namespace State

variable {s t : State ν ρ}

@[simp] theorem closeclient_starts (s : State ν ρ) (fd : ℕ) :
    (s.closeclient fd).starts = s.starts := by
  unfold closeclient
  split_ifs <;> rfl

@[simp] theorem login_starts [Zero ν] (s : State ν ρ) (username : String) :
    (s.login username).starts = s.starts := by
  unfold login
  split_ifs <;> rfl

@[simp] theorem logout_starts (s : State ν ρ) (username : String) :
    (s.logout username).starts = s.starts := by
  unfold logout
  split
  · rfl
  · split
    · rfl
    · exact closeclient_starts _ _

@[simp] theorem disconnect_starts (s : State ν ρ) (fd : ℕ) :
    (s.disconnect fd).starts = s.starts := by
  unfold disconnect
  split <;> rfl

@[simp] theorem closeFd_starts (s : State ν ρ) (fd : ℕ) : (s.closeFd fd).starts = s.starts := by
  unfold closeFd
  split_ifs <;> rfl

theorem again_starts (s : State ν ρ) (fd u p : ℕ) : (s.again fd u p).starts = s.starts := by
  simp only [again]
  split_ifs
  · rfl
  · exact Cached.reply_starts _ u p

theorem finish_starts (s : State ν ρ) (p : ℕ) (task : Task) (result : Option ρ) :
    (s.finish p task result).starts = s.starts := by
  unfold finish
  split
  · split_ifs
    · rfl
    · exact closeclient_starts _ _
  · exact Cached.reply_starts _ _ p

variable [LinearOrder ν]

@[simp] theorem doAuth_starts (s : State ν ρ) (fd : ℕ) (m : Handshake ν) :
    (s.doAuth fd m).2.starts = s.starts := by
  rcases s.doAuth_cases fd m with ⟨-, heq⟩ | ⟨u, idx, -, heq⟩ <;> rw [heq]
  rfl

@[simp] theorem auth_starts (s : State ν ρ) (fd : ℕ) (m : Handshake ν) :
    (s.auth fd m).starts = s.starts := by
  simp only [auth]
  split_ifs
  · exact doAuth_starts s fd m
  · exact (closeclient_starts _ fd).trans (doAuth_starts s fd m)

theorem doRequest_starts (s : State ν ρ) (fd u k : ℕ) :
    (s.doRequest fd u k).starts = s.starts ∨ ((s.doRequest fd u k).sends = s.sends ∧
      ∃ y, (s.doRequest fd u k).starts = s.starts ++ [y] ∧ y.user = u) := by
  unfold doRequest
  split
  · exact .inr ⟨rfl, _, rfl, rfl⟩
  · split_ifs
    · split
      · exact .inl (closeclient_starts _ fd)
      · exact .inr ⟨rfl, _, rfl, rfl⟩
    · exact .inl (again_starts s fd u _)

/-- A step that starts a request does so for the user of a connection, and sends nothing. -/
theorem step_starts [Zero ν] {a : Label ν ρ} (hs : s.step a = some t) :
    t.starts = s.starts ∨ (t.sends = s.sends ∧
      ∃ y fd, t.starts = s.starts ++ [y] ∧ s.connection fd = some y.user) := by
  cases a with
  | login username | logout username | close fd | error fd =>
    exact .inl (by simp [← Option.some.inj hs])
  | «open» fd =>
    simp only [step] at hs
    split_ifs at hs <;> exact .inl (by rw [← Option.some.inj hs])
  | data fd msg =>
    simp only [step] at hs
    split_ifs at hs
    · exact .inl (by simp [← Option.some.inj hs])
    · cases hs
      unfold request
      split
      · exact .inl rfl
      · exact .inl (closeclient_starts s fd)
      · rename_i u k hc _
        rcases doRequest_starts s fd u k with heq | ⟨hsends, y, heq, rfl⟩
        · exact .inl heq
        · exact .inr ⟨hsends, y, fd, heq, hc⟩
    · exact .inl (by rw [← Option.some.inj hs])
  | finish p result =>
    obtain ⟨task, -, rfl⟩ := Option.map_eq_some_iff.mp hs
    exact .inl (finish_starts s p task result)

end State

/-! ### Requests are executed once -/

variable [LinearOrder ν] [Zero ν] {conf : Conf} {s : State ν ρ}

namespace Cached

theorem not_started_again (h : Cached s) {a : Label ν ρ} (ha : s.attentive a = true) {t : State ν ρ}
    (hs : s.step a = some t) {x y : Start} (hx : x ∈ s.starts) (hnot : s.answered x = false)
    (hy : y ∈ t.starts) (hu : y.user = x.user) (hk : y.session = x.session) : y ∈ s.starts := by
  rcases step_starts hs with heq | ⟨hsends, z, fd, heq, -⟩
  · rwa [heq] at hy
  · have honce := (h.step ha hs).once
    rw [heq, pairwise_append] at honce
    rw [heq, mem_append, mem_singleton] at hy
    rcases hy with hy | rfl
    · exact hy
    · have hans := honce.2.2 x hx y (mem_singleton_self y) hu.symm hk.symm
      simp only [answered, hsends] at hans hnot
      rw [hans] at hnot
      cases hnot

/-- A request that was not answered and is received again gets the cached response, or is noted as
the one to answer. -/
theorem received_again (h : Cached s) {x : Start} (hx : x ∈ s.starts) (hnot : s.answered x = false)
    {fd : ℕ} {msg : Message ν} (hgate : s.gate fd = some true) (hshake : s.handshake fd = false)
    (hc : s.connection fd = some x.user) (hk : msg.session = some x.session)
    (ha : s.attentive (.data fd msg) = true) :
    s.step (.data fd msg) = some (s.again fd x.user x.entry) := by
  have hlookup := h.kept x hx hnot
  have hversion : (s.entries x.entry).version ≠ some (s.users x.user).version := by
    intro hversion
    simp [State.attentive, State.repeats, hc, hk, hlookup, hversion, hnot] at ha
  simp [State.step, hgate, hshake, State.request, hc, hk, State.doRequest, hlookup, hversion]

end Cached

/-- **A request is executed once**: as long as no request is repeated under the version of its
cache entry and no response that was not sent is retired, a call of `request_handler` whose
response was not sent to its user is not followed by another one for that session.  A repetition
is answered from the cache, or the new connection is noted in the entry, and what is noted there
when the handler returns is where the response goes. -/
theorem handler_started_once
    (h : (server ν ρ conf).ReachableVia (fun s a => s.attentive a = true) s) :
    (∀ a t, s.attentive a = true → s.step a = some t → ∀ x ∈ s.starts, s.answered x = false →
      ∀ y ∈ t.starts, y.user = x.user → y.session = x.session → y ∈ s.starts) ∧
    (∀ x ∈ s.starts, s.answered x = false → ∀ fd msg, s.gate fd = some true →
      s.handshake fd = false → s.connection fd = some x.user → msg.session = some x.session →
      s.attentive (.data fd msg) = true →
      ∃ t, s.step (.data fd msg) = some t ∧ t.starts = s.starts ∧
        ((s.entries x.entry).response = none → (t.entries x.entry).fd = some fd) ∧
        ((s.entries x.entry).response ≠ none → ⟨x.entry, fd, x.user⟩ ∈ t.sends)) ∧
    ∀ p task fd u r t, s.tasks p = some task → (s.entries p).fd = some fd →
      s.connection fd = some u → s.step (.finish p (some r)) = some t →
      ⟨p, fd, u⟩ ∈ t.sends := by
  have hc := Cached.of_reachable h
  refine ⟨fun a t ha hs x hx hnot y hy hu hk => hc.not_started_again ha hs hx hnot hy hu hk,
    fun x hx hnot fd msg hgate hshake hconn hk ha => ?_, fun p task fd u r t htask hfd hconn hs => ?_⟩
  · refine ⟨_, hc.received_again hx hnot hgate hshake hconn hk ha, again_starts _ _ _ _,
      fun hnone => ?_, fun hsome => ?_⟩
    · simp [again, hnone, setEntry]
    · rw [again, if_neg hsome]
      exact Cached.mem_sends_reply (by simp [setEntry]) hconn
  · obtain ⟨task', -, rfl⟩ := Option.map_eq_some_iff.mp hs
    exact Cached.mem_sends_reply (by simpa [setEntry] using hfd) hconn

/-- User `a` sends a handshake with the given index. -/
def hello (fd index : ℕ) : Label ℕ ℕ := .data fd ⟨⟨some "a", some index, some true⟩, none⟩

/-- User `a` sends a request. -/
def ask (fd session : ℕ) : Label ℕ ℕ := .data fd ⟨⟨none, none, none⟩, some session⟩

/-- The user sends a request with session 7, loses the connection and connects again while the
handler runs. -/
def reconnectRun : List (Label ℕ ℕ) :=
  [.login "a", .open 1, hello 1 1, ask 1 7, .close 1, .open 2, hello 2 2]

/-- The request is received again before the handler returns. -/
theorem handler_started_once_of_reconnect : ∃ s t : State ℕ ℕ,
    (server ℕ ℕ {}).ReachableVia (fun s a => s.attentive a = true) s ∧
    s.starts = [⟨0, 7, 0⟩] ∧ s.step (ask 2 7) = some t ∧ t.starts = s.starts ∧
    (t.entries 0).fd = some 2 := by
  obtain ⟨s, hs, hstarts, hnot, hgate, hshake, hc, hnone, ha⟩ :=
    (server ℕ ℕ {}).exists_reachable (fun s a => s.attentive a = true) reconnectRun
      (fun s => s.starts = [⟨0, 7, 0⟩] ∧ s.answered ⟨0, 7, 0⟩ = false ∧ s.gate 2 = some true ∧
        s.handshake 2 = false ∧ s.connection 2 = some 0 ∧ (s.entries 0).response = none ∧
        s.attentive (ask 2 7) = true) (by decide +kernel)
  obtain ⟨t, ht, hts, hfd, -⟩ := (handler_started_once hs).2.1 ⟨0, 7, 0⟩ (by simp [hstarts]) hnot 2
    ⟨⟨none, none, none⟩, some 7⟩ hgate hshake hc rfl ha
  exact ⟨s, t, hs, hstarts, ht, hts, hfd hnone⟩

/-- The request is received again after the handler has returned: its response was not sent, and
the handler is called a second time. -/
theorem handler_started_again : ∃ s : State ℕ ℕ,
    (server ℕ ℕ {}).exec (init {}) (reconnectRun ++ [.finish 0 (some 5), ask 2 7]) = some s ∧
    s.sends = [] ∧ s.starts = [⟨0, 7, 0⟩, ⟨0, 7, 1⟩] :=
  (server ℕ ℕ {}).exists_exec _ (fun s => s.sends = [] ∧ s.starts = [⟨0, 7, 0⟩, ⟨0, 7, 1⟩])
    (by decide +kernel)

end Skynet.Msgserver
