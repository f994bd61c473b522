import Skynet.MsgserverRequests

/-! # The connections of the message server

`connection` maps the fd of a client to its user, and `u.fd` is the way back.  A handshake sets
both for the new fd but does not look at the fd the user has: both connections then map to the
user, the close of the older one clears `u.fd`, and a logout no longer finds the newer one, whose
requests go on to be handled (`request_after_logout`).

Without such a handshake the two maps agree (`connections_owned`). -/

namespace Skynet.Msgserver

open Function Transition State Option

variable {ν ρ : Type}

/-- A handshake succeeds only for a user who has no connection. -/
def State.vacant [LinearOrder ν] (s : State ν ρ) : Label ν ρ → Bool
  | .data fd msg =>
    s.handshake fd = true → (s.doAuth fd msg.handshake).1 = .ok →
      ((msg.handshake.username.bind s.userOnline).all fun u => (s.users u).fd = none) = true
  | _ => true

/-! ### The invariant -/

/-- `connection` and `u.fd` agree for the users who are online, and only they are connected. -/
structure Owned (s : State ν ρ) : Prop where
  attached : ∀ name u, s.userOnline name = some u →
    ∀ fd, s.connection fd = some u ↔ (s.users u).fd = some fd
  online : ∀ fd u, s.connection fd = some u → s.userOnline (s.users u).username = some u
  username : ∀ name u, s.userOnline name = some u → (s.users u).username = name
  users : ∀ name u, s.userOnline name = some u → u < s.nusers
  handshake : ∀ fd, s.handshake fd = true → s.connection fd = none
  gate : ∀ fd, s.gate fd = none → s.connection fd = none

/-- The two states differ only in what the connections do not depend on. -/
structure SameOwners (s t : State ν ρ) : Prop where
  online : t.userOnline = s.userOnline
  connection : t.connection = s.connection
  handshake : t.handshake = s.handshake
  nusers : t.nusers = s.nusers
  gate : ∀ fd, t.gate fd = none ↔ s.gate fd = none
  fd : ∀ u, (t.users u).fd = (s.users u).fd
  username : ∀ u, (t.users u).username = (s.users u).username

namespace SameOwners

variable {s t v : State ν ρ} {u p k : ℕ}

theorem trans (h : SameOwners s t) (h' : SameOwners t v) : SameOwners s v where
  online := h'.online.trans h.online
  connection := h'.connection.trans h.connection
  handshake := h'.handshake.trans h.handshake
  nusers := h'.nusers.trans h.nusers
  gate fd := (h'.gate fd).trans (h.gate fd)
  fd u := (h'.fd u).trans (h.fd u)
  username u := (h'.username u).trans (h.username u)

theorem of_eq (honline : t.userOnline = s.userOnline) (hconnection : t.connection = s.connection)
    (hhandshake : t.handshake = s.handshake) (hnusers : t.nusers = s.nusers)
    (hgate : t.gate = s.gate) (husers : t.users = s.users) : SameOwners s t :=
  ⟨honline, hconnection, hhandshake, hnusers, by simp [hgate], by simp [husers], by simp [husers]⟩

/-- A state in which the user `u` has changed, but not the connection of `u`. -/
theorem of_update {x : User ν} (husers : t.users = update s.users u x) (hfd : x.fd = (s.users u).fd)
    (hname : x.username = (s.users u).username) (honline : t.userOnline = s.userOnline)
    (hconnection : t.connection = s.connection) (hhandshake : t.handshake = s.handshake)
    (hnusers : t.nusers = s.nusers) (hgate : t.gate = s.gate) : SameOwners s t := by
  refine ⟨honline, hconnection, hhandshake, hnusers, by simp [hgate], fun v => ?_, fun v => ?_⟩
  · by_cases hv : v = u
    · simp [husers, hv, hfd]
    · simp [husers, hv]
  · by_cases hv : v = u
    · simp [husers, hv, hname]
    · simp [husers, hv]

theorem setEntry (s : State ν ρ) (p : ℕ) (x : Entry ν ρ) : SameOwners s (s.setEntry p x) :=
  of_eq rfl rfl rfl rfl rfl rfl

theorem closeclient (s : State ν ρ) (fd : ℕ) : SameOwners s (s.closeclient fd) := by
  unfold State.closeclient
  split_ifs with hg
  · refine ⟨rfl, rfl, rfl, rfl, fun f => ?_, fun _ => rfl, fun _ => rfl⟩
    by_cases hf : f = fd
    · simp [hf, hg]
    · simp [hf]
  · exact of_eq rfl rfl rfl rfl rfl rfl

theorem retireResponse (s : State ν ρ) (u : ℕ) : SameOwners s (s.retireResponse u) := by
  unfold State.retireResponse
  simp only
  split_ifs
  · exact of_eq rfl rfl rfl rfl rfl rfl
  · exact of_update rfl rfl rfl rfl rfl rfl rfl rfl

theorem sendResponse (s : State ν ρ) (u p : ℕ) : SameOwners s (s.sendResponse u p) := by
  obtain ⟨l, hl⟩ := Cached.sendResponse_eq s u p
  rw [hl]
  exact of_update rfl rfl rfl rfl rfl rfl rfl rfl

theorem reply (s : State ν ρ) (u p : ℕ) : SameOwners s (s.reply u p) :=
  (sendResponse s u p).trans (retireResponse _ u)

theorem start (s : State ν ρ) (fd u k : ℕ) : SameOwners s (s.start fd u k) :=
  of_update rfl rfl rfl rfl rfl rfl rfl rfl

theorem forget (s : State ν ρ) (u k : ℕ) : SameOwners s (s.forget u k) :=
  of_update rfl rfl rfl rfl rfl rfl rfl rfl

theorem again (s : State ν ρ) (fd u p : ℕ) : SameOwners s (s.again fd u p) := by
  unfold State.again
  split_ifs
  · exact of_eq rfl rfl rfl rfl rfl rfl
  · exact (setEntry s p _).trans (reply _ u p)

theorem request [LinearOrder ν] (s : State ν ρ) (fd : ℕ) (session : Option ℕ) :
    SameOwners s (s.request fd session) := by
  unfold State.request
  split
  · exact of_eq rfl rfl rfl rfl rfl rfl
  · exact closeclient s fd
  · rename_i u k _
    unfold State.doRequest
    split
    · exact start s fd u k
    · split_ifs
      · split
        · exact (forget s u k).trans (closeclient _ fd)
        · exact (forget s u k).trans (start _ fd u k)
      · exact again s fd u _

theorem finish (s : State ν ρ) (p : ℕ) (task : Task) (result : Option ρ) :
    SameOwners s (s.finish p task result) := by
  have ht : SameOwners s { s with tasks := update s.tasks p none } :=
    of_eq rfl rfl rfl rfl rfl rfl
  unfold State.finish
  split
  · split_ifs
    · exact ht
    · exact ht.trans (closeclient _ task.fd)
  · exact (ht.trans (setEntry _ p _)).trans (reply _ task.user p)

end SameOwners

namespace Owned

variable {s t : State ν ρ} {u fd : ℕ}

theorem init [Zero ν] (conf : Conf) : Owned (State.init conf : State ν ρ) := by
  constructor <;> simp [State.init]

theorem of_same (h : Owned s) (hst : SameOwners s t) : Owned t where
  attached name u hu fd := by
    rw [hst.connection, hst.fd]
    exact h.attached name u (hst.online ▸ hu) fd
  online fd u hu := by
    rw [hst.online, hst.username]
    exact h.online fd u (hst.connection ▸ hu)
  username name u hu := (hst.username u).trans (h.username name u (hst.online ▸ hu))
  users name u hu := hst.nusers ▸ h.users name u (hst.online ▸ hu)
  handshake fd hf := hst.connection ▸ h.handshake fd (hst.handshake ▸ hf)
  gate fd hf := hst.connection ▸ h.gate fd ((hst.gate fd).mp hf)

theorem login [Zero ν] (h : Owned s) (username : String) : Owned (s.login username) := by
  unfold State.login
  split_ifs with hnone
  · have hne {name : String} {u : ℕ} (hu : s.userOnline name = some u) : u ≠ s.nusers :=
      ne_of_lt (h.users name u hu)
    have hfree (fd : ℕ) : s.connection fd ≠ some s.nusers := fun hc => hne (h.online fd _ hc) rfl
    have hold {name : String} {u : ℕ}
        (hu : update s.userOnline username (some s.nusers) name = some u) :
        (name = username ∧ u = s.nusers) ∨ (u ≠ s.nusers ∧ s.userOnline name = some u) := by
      by_cases hname : name = username
      · exact .inl ⟨hname, by simpa [hname, eq_comm] using hu⟩
      · have hu' : s.userOnline name = some u := by simpa [hname] using hu
        exact .inr ⟨hne hu', hu'⟩
    constructor
    case attached =>
      intro name u hu fd
      rcases hold hu with ⟨-, rfl⟩ | ⟨hun, hu⟩
      · simp [hfree fd]
      · simpa [hun] using h.attached name u hu fd
    case online =>
      intro fd u hu
      have honline := h.online fd u hu
      have hname : (s.users u).username ≠ username := by
        intro heq
        rw [heq, hnone] at honline
        cases honline
      simpa [hne honline, hname] using honline
    case username =>
      intro name u hu
      rcases hold hu with ⟨rfl, rfl⟩ | ⟨hun, hu⟩
      · simp
      · simpa [hun] using h.username name u hu
    case users =>
      intro name u hu
      rcases hold hu with ⟨-, rfl⟩ | ⟨-, hu⟩
      · exact Nat.lt_succ_self _
      · exact Nat.lt_succ_of_lt (h.users name u hu)
    case handshake => exact h.handshake
    case gate => exact h.gate
  · exact h

theorem ne_of_name (h : Owned s) {name name' : String} {v : ℕ} (hu : s.userOnline name = some u)
    (hv : s.userOnline name' = some v) (hne : name' ≠ name) : v ≠ u := by
  rintro rfl
  exact hne ((h.username name' v hv).symm.trans (h.username name v hu))

theorem logout_connection (h : Owned s) {username : String} (hu : s.userOnline username = some u)
    (fd : ℕ) : (s.logout username).connection fd = if s.connection fd = some u then none
      else s.connection fd := by
  have hattached := h.attached username u hu fd
  unfold logout
  simp only [hu]
  cases hfd : (s.users u).fd with
  | none =>
    have hne : s.connection fd ≠ some u := by simp [hattached, hfd]
    simp [hne]
  | some f =>
    by_cases hf : fd = f
    · simp [hf, h.attached username u hu f, hfd]
    · have hne : s.connection fd ≠ some u := by
        simpa [hattached, hfd, eq_comm] using hf
      simp [hf, hne]

theorem logout_frame (s : State ν ρ) (username : String) :
    (s.logout username).userOnline = update s.userOnline username none ∧
    (s.logout username).users = s.users ∧ (s.logout username).nusers = s.nusers ∧
    (s.logout username).handshake = s.handshake ∧
    ∀ fd, (s.logout username).gate fd = none ↔ s.gate fd = none := by
  unfold logout
  split
  · rename_i hu
    exact ⟨by rw [← hu, update_eq_self], rfl, rfl, rfl, fun _ => Iff.rfl⟩
  · simp only
    split
    · exact ⟨rfl, rfl, rfl, rfl, fun _ => Iff.rfl⟩
    · rename_i fd _
      have hst := SameOwners.closeclient
        ({ s with userOnline := update s.userOnline username none } : State ν ρ) fd
      obtain ⟨g, hg⟩ := Cached.closeclient_eq
        ({ s with userOnline := update s.userOnline username none } : State ν ρ) fd
      rw [hg] at hst ⊢
      exact ⟨rfl, rfl, rfl, rfl, hst.gate⟩

theorem logout (h : Owned s) (username : String) : Owned (s.logout username) := by
  cases hu : s.userOnline username with
  | none =>
    have : s.logout username = s := by simp [State.logout, hu]
    rwa [this]
  | some u =>
    have hconnection := h.logout_connection hu
    obtain ⟨honline, husers, hnusers, hhandshake, hgate⟩ := logout_frame s username
    generalize s.logout username = t at *
    have hold {name : String} {v : ℕ} (hv : t.userOnline name = some v) :
        name ≠ username ∧ s.userOnline name = some v := by
      rw [honline] at hv
      by_cases hname : name = username
      · simp [hname] at hv
      · exact ⟨hname, by simpa [hname] using hv⟩
    have hsome {fd v : ℕ} (hv : t.connection fd = some v) :
        v ≠ u ∧ s.connection fd = some v := by
      rw [hconnection] at hv
      split_ifs at hv with hc
      exact ⟨fun heq => hc (heq ▸ hv), hv⟩
    have hnone {fd : ℕ} (hc : s.connection fd = none) : t.connection fd = none := by
      rw [hconnection, hc]
      rfl
    constructor
    case attached =>
      intro name v hv fd
      obtain ⟨hname, hv⟩ := hold hv
      rw [husers, ← h.attached name v hv fd, hconnection]
      split_ifs with hc
      · simp [hc, (h.ne_of_name hu hv hname).symm]
      · rfl
    case online =>
      intro fd v hv
      obtain ⟨hvu, hv⟩ := hsome hv
      have hv' := h.online fd v hv
      have hname : (s.users v).username ≠ username := by
        intro heq
        rw [heq, hu, some.injEq] at hv'
        exact hvu hv'.symm
      simpa [honline, husers, hname] using hv'
    case username => exact fun name v hv => husers ▸ h.username name v (hold hv).2
    case users => exact fun name v hv => hnusers ▸ h.users name v (hold hv).2
    case handshake => exact fun fd hf => hnone (h.handshake fd (hhandshake ▸ hf))
    case gate => exact fun fd hf => hnone (h.gate fd ((hgate fd).mp hf))

/-- The connection `fd` is gone, and no other user is affected. -/
theorem disconnect_users (h : Owned s) (fd : ℕ) {name : String} (hu : s.userOnline name = some u) :
    ((s.disconnect fd).users u).fd = if (s.users u).fd = some fd then none else (s.users u).fd := by
  have hattached := h.attached name u hu fd
  unfold disconnect
  cases hc : s.connection fd with
  | none =>
    have hne : (s.users u).fd ≠ some fd := by simp [← hattached, hc]
    simp [hne]
  | some c =>
    by_cases hcu : u = c
    · have heq : (s.users c).fd = some fd := by
        rw [← hcu]
        exact hattached.mp (by rw [hc, hcu])
      simp [hcu, setUser, heq]
    · have hne : (s.users u).fd ≠ some fd := by simp [← hattached, hc, Ne.symm hcu]
      simp [setUser, hcu, hne]

theorem disconnect_frame (s : State ν ρ) (fd : ℕ) : (s.disconnect fd).userOnline = s.userOnline ∧
    (s.disconnect fd).connection = update s.connection fd none ∧
    (s.disconnect fd).nusers = s.nusers ∧ (s.disconnect fd).gate = s.gate ∧
    (s.disconnect fd).handshake = update s.handshake fd false ∧
    ∀ u, ((s.disconnect fd).users u).username = (s.users u).username := by
  unfold disconnect
  split
  · rename_i hc
    exact ⟨rfl, by rw [← hc, update_eq_self], rfl, rfl, rfl, fun _ => rfl⟩
  · rename_i c _
    refine ⟨rfl, rfl, rfl, rfl, rfl, fun u => ?_⟩
    by_cases hu : u = c
    · simp [setUser, hu]
    · simp [setUser, hu]

theorem disconnect (h : Owned s) (fd : ℕ) : Owned (s.disconnect fd) := by
  have husers {name : String} {u : ℕ} := @disconnect_users ν ρ s u h fd name
  obtain ⟨honline, hconnection, hnusers, hgate, hhandshake, hname⟩ := disconnect_frame s fd
  generalize s.disconnect fd = t at *
  have hsome {f u : ℕ} (hu : t.connection f = some u) : s.connection f = some u := by
    rw [hconnection] at hu
    by_cases hf : f = fd
    · simp [hf] at hu
    · simpa [hf] using hu
  have hnone {f : ℕ} (hc : s.connection f = none) : t.connection f = none := by
    rw [hconnection]
    by_cases hf : f = fd
    · simp [hf]
    · simpa [hf] using hc
  constructor
  case attached =>
    intro name u hu f
    rw [honline] at hu
    rw [husers hu, hconnection]
    have hattached := h.attached name u hu
    by_cases hf : f = fd
    · simp [hf]
    · by_cases hfd : (s.users u).fd = some fd
      · simp [hf, hattached f, hfd, Ne.symm hf]
      · simp [hf, hattached f, hfd]
  case online =>
    intro f u hu
    rw [honline, hname]
    exact h.online f u (hsome hu)
  case username => exact fun name u hu => (hname u).trans (h.username name u (honline ▸ hu))
  case users => exact fun name u hu => hnusers ▸ h.users name u (honline ▸ hu)
  case handshake =>
    intro f hf
    rw [hhandshake] at hf
    by_cases hffd : f = fd
    · simp [hffd] at hf
    · exact hnone (h.handshake f (by simpa [hffd] using hf))
  case gate => exact fun f hf => hnone (h.gate f (hgate ▸ hf))

theorem closeFd (h : Owned s) (hc : s.connection fd = none) : Owned (s.closeFd fd) := by
  unfold State.closeFd
  split_ifs
  · exact h
  · refine { h with gate := fun f hf => ?_ }
    by_cases hffd : f = fd
    · rw [hffd]
      exact hc
    · exact h.gate f (by simpa [hffd] using hf)

theorem close (h : Owned s) (fd : ℕ) : Owned ((s.disconnect fd).closeFd fd) := by
  obtain ⟨-, hconnection, -⟩ := disconnect_frame s fd
  exact (h.disconnect fd).closeFd (by simp [hconnection])

theorem attach (h : Owned s) {name : String} (hu : s.userOnline name = some u)
    (hfd : (s.users u).fd = none) (hc : s.connection fd = none) (hgate : s.gate fd ≠ none) (idx : ν) :
    Owned { s.setUser u { s.users u with version := idx, fd := some fd } with
      connection := update s.connection fd (some u)
      handshake := update s.handshake fd false } := by
  have hfree (f : ℕ) : s.connection f ≠ some u := by simp [h.attached name u hu f, hfd]
  constructor
  case attached =>
    intro name' v hv f
    by_cases hvu : v = u
    · subst hvu
      by_cases hf : f = fd
      · simp [hf, setUser]
      · simp [hf, setUser, hfree f, Ne.symm hf]
    · have hattached := h.attached name' v hv f
      by_cases hf : f = fd
      · subst hf
        rw [hc] at hattached
        simpa [setUser, hvu, Ne.symm hvu] using hattached
      · simpa [setUser, hvu, hf] using hattached
  case online =>
    intro f v hv
    by_cases hvu : v = u
    · subst hvu
      simpa [setUser] using (h.username name v hu).symm ▸ hu
    · have hf : f ≠ fd := by
        rintro rfl
        simp [Ne.symm hvu] at hv
      simpa [setUser, hvu] using h.online f v (by simpa [hf] using hv)
  case username =>
    intro name' v hv
    by_cases hvu : v = u
    · subst hvu
      simpa [setUser] using h.username name' v hv
    · simpa [setUser, hvu] using h.username name' v hv
  case users => exact h.users
  case handshake =>
    intro f hf
    have hne : f ≠ fd := by
      rintro rfl
      simp at hf
    simpa [hne] using h.handshake f (by simpa [hne] using hf)
  case gate =>
    intro f hf
    have hne : f ≠ fd := by
      rintro rfl
      exact hgate hf
    simpa [hne] using h.gate f hf

variable [LinearOrder ν]

theorem auth (h : Owned s) {msg : Message ν} (hgate : s.gate fd = some true)
    (hshake : s.handshake fd = true) (hv : s.vacant (.data fd msg) = true) :
    Owned (s.auth fd msg.handshake) := by
  rcases doAuth_cases s fd msg.handshake with ⟨hne, heq⟩ | ⟨u, idx, hu, heq⟩
  · have ht : Owned (s.closeclient fd) := h.of_same (SameOwners.closeclient s fd)
    simp only [State.auth, if_neg hne, heq]
    refine { ht with handshake := fun f hf => ?_ }
    by_cases hffd : f = fd
    · simp [hffd] at hf
    · exact ht.handshake f (by simpa [hffd] using hf)
  · obtain ⟨name, -, hname⟩ := bind_eq_some_iff.mp hu
    have hfd : (s.users u).fd = none := by
      simpa [State.vacant, hshake, heq, hu] using hv
    simp only [State.auth, heq, if_true]
    exact h.attach hname hfd (h.handshake fd hshake) (by simp [hgate]) idx

variable [Zero ν]

variable {a : Label ν ρ}

theorem step (h : Owned s) (hv : s.vacant a = true) (hs : s.step a = some t) : Owned t := by
  cases a with
  | login username =>
    cases hs
    exact h.login username
  | logout username =>
    cases hs
    exact h.logout username
  | «open» fd =>
    simp only [State.step] at hs
    split_ifs at hs with hgate
    · cases hs
      exact h
    · cases hs
      have hc : s.connection fd = none := h.gate fd (by simpa using hgate)
      refine { h with handshake := fun f hf => ?_, gate := fun f hf => ?_ }
      · by_cases hffd : f = fd
        · rw [hffd]
          exact hc
        · exact h.handshake f (by simpa [hffd] using hf)
      · by_cases hffd : f = fd
        · rw [hffd]
          exact hc
        · exact h.gate f (by simpa [hffd] using hf)
  | data fd msg =>
    simp only [State.step] at hs
    split_ifs at hs with hgate hshake
    · cases hs
      exact h.auth hgate hshake hv
    · cases hs
      exact h.of_same (SameOwners.request s fd msg.session)
    · cases hs
      exact h
  | close fd | error fd =>
    cases hs
    exact h.close fd
  | finish p result =>
    obtain ⟨task, -, rfl⟩ := map_eq_some_iff.mp hs
    exact h.of_same (SameOwners.finish s p task result)

theorem of_reachable {conf : Conf}
    (h : (server ν ρ conf).ReachableVia (fun s a => s.vacant a = true) s) : Owned s :=
  h.invariant (init conf) fun _ _ _ hi hok hs => hi.step hok hs

/-- A close or an error on `fd` leaves the users alone who have another connection. -/
theorem not_detached (h : Owned s) (ha : a = .close fd ∨ a = .error fd) (hs : s.step a = some t)
    {name : String} (hu : s.userOnline name = some u) {f : ℕ} (hf : (s.users u).fd = some f)
    (hne : f ≠ fd) :
    (t.users u).fd = some f ∧ t.connection f = some u := by
  have ht : t = (s.disconnect fd).closeFd fd := by
    rcases ha with rfl | rfl <;> exact (some.inj hs).symm
  have hsame : ((s.disconnect fd).closeFd fd).users = (s.disconnect fd).users := by
    unfold State.closeFd
    split_ifs <;> rfl
  have honline : t.userOnline name = some u := by
    rw [ht]
    unfold State.closeFd
    split_ifs <;> exact (congrFun (disconnect_frame s fd).1 name).trans hu
  have hfd : (t.users u).fd = some f := by
    rw [ht, hsame, h.disconnect_users fd hu, hf, if_neg (by simpa using hne)]
  exact ⟨hfd, ((ht ▸ h.close fd : Owned t).attached name u honline f).mpr hfd⟩

theorem started_online (h : Owned s) (hs : s.step a = some t) {y : Start} (hy : y ∈ t.starts)
    (hnew : y ∉ s.starts) :
    s.userOnline (s.users y.user).username = some y.user := by
  rcases step_starts hs with heq | ⟨-, z, fd, heq, hc⟩
  · exact absurd (heq ▸ hy) hnew
  · rw [heq, List.mem_append, List.mem_singleton] at hy
    rcases hy with hy | rfl
    · exact absurd hy hnew
    · exact h.online fd y.user hc

end Owned

/-! ### Connections belong to their users -/

variable [LinearOrder ν] [Zero ν] {conf : Conf} {s : State ν ρ}

/-- **Connections are owned**: as long as a handshake succeeds only for a user without a
connection, the fd of a user who is online is the one fd that maps to the user, and only users who
are online have one; a close takes no other connection away; after a logout no fd maps to the user;
and the handler is called for users who are online only. -/
theorem connections_owned (h : (server ν ρ conf).ReachableVia (fun s a => s.vacant a = true) s) :
    (∀ name u, s.userOnline name = some u →
      ∀ fd, s.connection fd = some u ↔ (s.users u).fd = some fd) ∧
    (∀ fd u, s.connection fd = some u → s.userOnline (s.users u).username = some u) ∧
    (∀ fd a t, a = .close fd ∨ a = .error fd → s.step a = some t →
      ∀ name u f, s.userOnline name = some u → (s.users u).fd = some f → f ≠ fd →
        (t.users u).fd = some f ∧ t.connection f = some u) ∧
    (∀ name u t, s.userOnline name = some u → s.step (.logout name) = some t →
      t.userOnline name = none ∧ ∀ fd, t.connection fd ≠ some u) ∧
    ∀ a t, s.step a = some t → ∀ y ∈ t.starts, y ∉ s.starts →
      s.userOnline (s.users y.user).username = some y.user := by
  have ho := Owned.of_reachable h
  refine ⟨ho.attached, ho.online,
    fun fd a t ha hs name u f hu hf hne => ho.not_detached ha hs hu hf hne,
    fun name u t hu hs => ?_, fun a t hs y hy hnew => ho.started_online hs hy hnew⟩
  cases hs
  refine ⟨by simp [(Owned.logout_frame s name).1], fun fd => ?_⟩
  rw [ho.logout_connection hu fd]
  split_ifs with hc
  · nofun
  · exact hc

/-- The user connects, loses the connection, connects again and logs out. -/
theorem connections_owned_of_logout : ∃ s t : State ℕ ℕ,
    (server ℕ ℕ {}).ReachableVia (fun s a => s.vacant a = true) s ∧ s.connection 2 = some 0 ∧
    s.step (.logout "a") = some t ∧ t.userOnline "a" = none ∧ ∀ fd, t.connection fd ≠ some 0 := by
  obtain ⟨s, hs, hu, hc⟩ :=
    (server ℕ ℕ {}).exists_reachable (fun s a => s.vacant a = true) reconnectRun
      (fun s => s.userOnline "a" = some 0 ∧ s.connection 2 = some 0) (by decide +kernel)
  obtain ⟨hnone, hfree⟩ := (connections_owned hs).2.2.2.1 "a" 0 (s.logout "a") hu rfl
  exact ⟨s, s.logout "a", hs, hc, rfl, hnone, hfree⟩

/-- The user connects on fd 2 while fd 1 is still connected.  The close of fd 1 takes the fd from
the user, the logout does not see fd 2, and a request on fd 2 is handled after the logout. -/
theorem request_after_logout : ∃ s : State ℕ ℕ,
    (server ℕ ℕ {}).exec (init {})
      [.login "a", .open 1, hello 1 1, .open 2, hello 2 2, .close 1, .logout "a", ask 2 7] =
        some s ∧
    s.userOnline "a" = none ∧ s.connection 2 = some 0 ∧ (s.users 0).fd = none ∧
    s.starts = [⟨0, 7, 0⟩] :=
  (server ℕ ℕ {}).exists_exec _ (fun s => s.userOnline "a" = none ∧ s.connection 2 = some 0 ∧
    (s.users 0).fd = none ∧ s.starts = [⟨0, 7, 0⟩]) (by decide +kernel)

end Skynet.Msgserver
