import Skynet.ServiceSessions

/-! # Requests and their replies

A request with a session is owned by the coroutine that handles it, until the coroutine replies,
gives the session up, or hands it to a closure made by `skynet.response`.  `Books` says where
every request is: with a coroutine, with a closure, answered by one reply, or given up. -/

namespace Skynet.Service

open List Function Transition Accounts Option

/-- Where a request is. -/
inductive Place where
  /-- coroutine `i` owns its session -/
  | handler (i : ℕ)
  /-- closure `c` has not been fired -/
  | closure (c : ℕ)
  /-- it has been answered -/
  | replied
  /-- its handler returned or called `skynet.ignoreret` without a reply -/
  | forgotten
deriving DecidableEq, Repr

namespace Accounts

/-- Coroutine `i` owns the session of request `n`. -/
def Owns (a : Accounts) (i n : ℕ) : Prop :=
  (∃ m, a.threadSessionMap i = some (m + 1)) ∧ a.threadReq i = n

/-- Closure `c` was made for request `n` and has not been fired. -/
def Unfired (a : Accounts) (c n : ℕ) : Prop :=
  c < a.nclosures ∧ (a.closures c).pack = true ∧ (a.closures c).req = n

/-- How many replies to request `n` have been sent. -/
def replies (a : Accounts) (n : ℕ) : ℕ := a.sent.countP (·.req = n)

end Accounts

/-- Every request with a session is in one place. -/
structure Books (a : Accounts) (place : ℕ → Option Place) : Prop where
  owner : ∀ n i, place n = some (.handler i) ↔ a.exited = false ∧ a.Owns i n
  unfired : ∀ n c, place n = some (.closure c) ↔ a.Unfired c n
  replies : ∀ n, a.replies n = if place n = some .replied then 1 else 0
  forgotten : ∀ n, place n = some .forgotten ↔ n ∈ a.forgotten
  tracked : ∀ n, place n ≠ none ↔ ∃ m src, a.requests[n]? = some (m + 1, src)
  session : ∀ i m, a.threadSessionMap i = some (m + 1) →
    ∃ h, a.threadSvcHandleMap i = some h ∧ a.requests[a.threadReq i]? = some (m + 1, h)
  closure : ∀ c < a.nclosures, ∃ m, (a.closures c).session = m + 1 ∧
    a.requests[(a.closures c).req]? = some (m + 1, (a.closures c).svcHandle)
  open_ : ∀ c, (a.closures c).unresponse = true → c < a.nclosures ∧ (a.closures c).pack = true
  sent : ∀ r ∈ a.sent, a.requests[r.req]? = some (r.session, r.dst)

theorem countP_append_reply (l : List Reply) (r : Reply) (n : ℕ) :
    (l ++ [r]).countP (·.req = n) = l.countP (·.req = n) + if n = r.req then 1 else 0 := by
  by_cases h : r.req = n
  · simp [countP_append, h]
  · simp [countP_append, h, Ne.symm h]

/-- One request moves from one place to another, and no request is moved to or from `q`. -/
theorem update_eq_iff {place : ℕ → Option Place} {n₀ : ℕ} {p q : Option Place} (hq : place n₀ ≠ q)
    (hp : p ≠ q) (n : ℕ) : update place n₀ p n = q ↔ place n = q := by
  by_cases hn : n = n₀
  · subst hn
    simp [hq, hp]
  · rw [update_of_ne hn]

namespace Books

variable {a b : Accounts} {place : ℕ → Option Place} {i : ℕ}

theorem request_eq {m src : ℕ} (h : Books a place) (hi : a.threadSessionMap i = some (m + 1))
    (hh : a.threadSvcHandleMap i = some src) : a.requests[a.threadReq i]? = some (m + 1, src) := by
  obtain ⟨src', hh', hr⟩ := h.session i m hi
  rw [hh] at hh'
  cases hh'
  exact hr

theorem owner_unique (h : Books a place) (hex : a.exited = false) {n j : ℕ} (hi : a.Owns i n)
    (hj : a.Owns j n) : i = j := by
  have h1 := (h.owner n i).mpr ⟨hex, hi⟩
  rw [(h.owner n j).mpr ⟨hex, hj⟩] at h1
  cases h1
  rfl

/-- The session of the request of coroutine `i` goes over to `p`. -/
theorem pass {p : Place} {m : ℕ} (h : Books a place) (hi : a.threadSessionMap i = some (m + 1))
    (hex : a.exited = false) (hp : ∀ j, p ≠ .handler j)
    (hsession : b.threadSessionMap = update a.threadSessionMap i none)
    (hhandle : ∀ j, j ≠ i → b.threadSvcHandleMap j = a.threadSvcHandleMap j)
    (hreq : b.threadReq = a.threadReq) (hreqs : b.requests = a.requests)
    (hexited : b.exited = a.exited)
    (hunfired : ∀ c n, b.Unfired c n ↔ a.Unfired c n ∨ (p = .closure c ∧ n = a.threadReq i))
    (hreplies : ∀ n, b.replies n = a.replies n + if p = .replied ∧ n = a.threadReq i then 1 else 0)
    (hforgotten : ∀ n, n ∈ b.forgotten ↔ n ∈ a.forgotten ∨ (p = .forgotten ∧ n = a.threadReq i))
    (hclosure : ∀ c < b.nclosures, ∃ m, (b.closures c).session = m + 1 ∧
      b.requests[(b.closures c).req]? = some (m + 1, (b.closures c).svcHandle))
    (hopen : ∀ c, (b.closures c).unresponse = true → c < b.nclosures ∧ (b.closures c).pack = true)
    (hsent : ∀ r ∈ b.sent, b.requests[r.req]? = some (r.session, r.dst)) :
    Books b (update place (a.threadReq i) (some p)) := by
  have hown : a.Owns i (a.threadReq i) := ⟨⟨m, hi⟩, rfl⟩
  have hplace := (h.owner _ i).mpr ⟨hex, hown⟩
  have howns : ∀ j n, b.Owns j n ↔ j ≠ i ∧ a.Owns j n := by
    intro j n
    unfold Accounts.Owns
    rw [hsession, hreq]
    by_cases hj : j = i <;> simp [hj]
  refine ⟨fun n j => ?_, fun n c => ?_, fun n => ?_, fun n => ?_, fun n => ?_, fun j m' hj => ?_,
    hclosure, hopen, hsent⟩
  · rw [howns, hexited]
    by_cases hn : n = a.threadReq i
    · subst hn
      rw [update_self]
      constructor
      · intro he
        exact absurd (some.inj he) (hp j)
      · rintro ⟨-, hji, hj⟩
        exact absurd (h.owner_unique hex hj hown) hji
    · rw [update_of_ne hn, h.owner, hex]
      have : a.Owns j n → j ≠ i := by
        rintro ⟨-, hj⟩ rfl
        exact hn hj.symm
      tauto
  · rw [hunfired]
    by_cases hn : n = a.threadReq i
    · subst hn
      rw [update_self, ← h.unfired, hplace]
      simp
    · rw [update_of_ne hn, h.unfired]
      simp [hn]
  · rw [hreplies, h.replies]
    by_cases hn : n = a.threadReq i
    · subst hn
      rw [update_self, hplace]
      by_cases hr : p = .replied <;> simp [hr]
    · simp [hn]
  · rw [hforgotten]
    by_cases hn : n = a.threadReq i
    · subst hn
      rw [update_self, ← h.forgotten, hplace]
      simp
    · rw [update_of_ne hn, h.forgotten]
      simp [hn]
  · rw [hreqs, ← h.tracked]
    exact not_congr (update_eq_iff (q := none) (by simp [hplace]) (by simp) n)
  · have hji : j ≠ i := by
      rintro rfl
      rw [hsession, update_self] at hj
      cases hj
    rw [hsession, update_of_ne hji] at hj
    rw [hhandle j hji, hreq, hreqs]
    exact h.session j m' hj

variable {handles : ℕ → Option ℕ}

theorem reply {m h : ℕ} (hb : Books a place) (hi : a.threadSessionMap i = some (m + 1))
    (hh : a.threadSvcHandleMap i = some h) (hex : a.exited = false) (type : ReplyType)
    (hhandle : ∀ j, j ≠ i → handles j = a.threadSvcHandleMap j) : Books
      { a with
        threadSessionMap := update a.threadSessionMap i none
        threadSvcHandleMap := handles
        sent := a.sent ++ [⟨a.threadReq i, type, h, m + 1⟩] }
      (update place (a.threadReq i) (some .replied)) := by
  refine hb.pass hi hex nofun rfl hhandle rfl rfl rfl (fun c n => ?_)
    (fun n => ?_) (fun n => ?_) hb.closure hb.open_
    (forall_mem_append.mpr ⟨hb.sent, forall_mem_singleton.mpr (hb.request_eq hi hh)⟩)
  · simp [Accounts.Unfired]
  · simpa [Accounts.replies] using
      countP_append_reply a.sent ⟨a.threadReq i, type, h, m + 1⟩ n
  · simp

theorem forget {m : ℕ} (hb : Books a place) (hi : a.threadSessionMap i = some (m + 1))
    (hex : a.exited = false) (hhandle : ∀ j, j ≠ i → handles j = a.threadSvcHandleMap j) : Books
      { a with
        threadSessionMap := update a.threadSessionMap i none
        threadSvcHandleMap := handles
        forgotten := a.forgotten ++ [a.threadReq i] }
      (update place (a.threadReq i) (some .forgotten)) := by
  refine hb.pass hi hex nofun rfl hhandle rfl rfl rfl (fun c n => ?_)
    (fun n => ?_) (fun n => ?_) hb.closure hb.open_ hb.sent
  · simp [Accounts.Unfired]
  · simp [Accounts.replies]
  · simp

theorem response {m h : ℕ} (hb : Books a place) (hi : a.threadSessionMap i = some (m + 1))
    (hh : a.threadSvcHandleMap i = some h) (hex : a.exited = false) : Books
      { a with
        threadSessionMap := update a.threadSessionMap i none
        closures := update a.closures a.nclosures ⟨m + 1, h, a.threadReq i, true, true⟩
        nclosures := a.nclosures + 1 }
      (update place (a.threadReq i) (some (.closure a.nclosures))) := by
  refine hb.pass hi hex nofun rfl (fun _ _ => rfl) rfl rfl rfl (fun c n => ?_)
    (fun n => ?_) (fun n => ?_) (fun c hc => ?_) (fun c hc => ?_) hb.sent
  · unfold Accounts.Unfired
    by_cases hc : c = a.nclosures
    · subst hc
      constructor
      · rintro ⟨-, -, hn⟩
        exact .inr ⟨rfl, by simpa using hn.symm⟩
      · rintro (⟨hlt, -⟩ | ⟨-, rfl⟩)
        · exact absurd hlt (Nat.lt_irrefl _)
        · simp
    · simp only [update_of_ne hc, Place.closure.injEq, Ne.symm hc, false_and, or_false]
      constructor
      · rintro ⟨hlt, h1, h2⟩
        exact ⟨by omega, h1, h2⟩
      · rintro ⟨hlt, h1, h2⟩
        exact ⟨by omega, h1, h2⟩
  · simp [Accounts.replies]
  · simp
  · by_cases hcn : c = a.nclosures
    · subst hcn
      exact ⟨m, by simp, by simpa using hb.request_eq hi hh⟩
    · simp only [update_of_ne hcn]
      exact hb.closure c (by simp only at hc; omega)
  · by_cases hcn : c = a.nclosures
    · subst hcn
      simp
    · simp only [update_of_ne hcn] at hc ⊢
      have := hb.open_ c hc
      exact ⟨by omega, this.2⟩

/-- Coroutine `i` owns no session that is to be answered, and loses its entries. -/
theorem drop (h : Books a place) (hi : ∀ m, a.threadSessionMap i ≠ some (m + 1))
    (hhandle : ∀ j, j ≠ i → handles j = a.threadSvcHandleMap j) : Books
      { a with
        threadSessionMap := update a.threadSessionMap i none
        threadSvcHandleMap := handles } place := by
  have hupd : ∀ j m, update a.threadSessionMap i none j = some (m + 1) ↔
      a.threadSessionMap j = some (m + 1) := by
    intro j m
    by_cases hj : j = i
    · subst hj
      simp [hi m]
    · rw [update_of_ne hj]
  refine ⟨fun n j => ?_, h.unfired, h.replies, h.forgotten, h.tracked, fun j m hj => ?_,
    h.closure, h.open_, h.sent⟩
  · simpa only [Accounts.Owns, hupd] using h.owner n j
  · replace hj := (hupd j m).mp hj
    have hji : j ≠ i := by
      rintro rfl
      exact hi m hj
    simp only [hhandle j hji]
    exact h.session j m hj

/-! ### Closures -/

/-- Closure `c` is fired with a reply. -/
theorem fire {c : ℕ} (h : Books a place) (hc : (a.closures c).unresponse = true) (type : ReplyType) :
    Books
      { a with
        closures := update a.closures c (a.closures c).fired
        sent := a.sent ++ [(a.closures c).reply type] }
      (update place (a.closures c).req (some .replied)) := by
  obtain ⟨hlt, hpack⟩ := h.open_ c hc
  have hplace : place (a.closures c).req = some (.closure c) := (h.unfired _ c).mpr ⟨hlt, hpack, rfl⟩
  have hsame : ∀ d, d ≠ c → update a.closures c (a.closures c).fired d = a.closures d :=
    fun d hd => update_of_ne hd _ _
  refine ⟨fun n i => ?_, fun n d => ?_, fun n => ?_, fun n => ?_, fun n => ?_, h.session,
    fun d hd => ?_, fun d hd => ?_, forall_mem_append.mpr ⟨h.sent, forall_mem_singleton.mpr ?_⟩⟩
  · show _ ↔ a.exited = false ∧ a.Owns i n
    rw [← h.owner]
    exact update_eq_iff (by simp [hplace]) (by simp) n
  · by_cases hd : d = c
    · subst hd
      have hfalse : ¬ Accounts.Unfired
          { a with
            closures := update a.closures d (a.closures d).fired
            sent := a.sent ++ [(a.closures d).reply type] } d n := by
        simp [Accounts.Unfired, Closure.fired]
      refine iff_of_false ?_ hfalse
      by_cases hn : n = (a.closures d).req
      · subst hn
        simp
      · rw [update_of_ne hn, h.unfired]
        rintro ⟨-, -, hreq⟩
        exact hn hreq.symm
    · have : Accounts.Unfired
          { a with
            closures := update a.closures c (a.closures c).fired
            sent := a.sent ++ [(a.closures c).reply type] } d n ↔ a.Unfired d n := by
        simp [Accounts.Unfired, hsame d hd]
      rw [this, ← h.unfired]
      exact update_eq_iff (by simp [hplace, Ne.symm hd]) (by simp) n
  · rw [Accounts.replies, countP_append_reply]
    have hr := h.replies n
    rw [Accounts.replies] at hr
    rw [hr]
    by_cases hn : n = (a.closures c).req
    · subst hn
      simp [hplace, Closure.reply]
    · simp [hn, Closure.reply]
  · rw [← h.forgotten]
    exact update_eq_iff (by simp [hplace]) (by simp) n
  · rw [← h.tracked]
    exact not_congr (update_eq_iff (q := none) (by simp [hplace]) (by simp) n)
  · by_cases hdc : d = c
    · subst hdc
      simpa [Closure.fired] using h.closure d hd
    · simpa only [hsame d hdc] using h.closure d hd
  · by_cases hdc : d = c
    · subst hdc
      simp [Closure.fired] at hd
    · simp only [hsame d hdc] at hd ⊢
      exact h.open_ d hd
  · obtain ⟨m, hm, hreq⟩ := h.closure c hlt
    simpa [Closure.reply, hm] using hreq

theorem unresponse (h : Books a place) (dead : Closure → Bool) : Books
      { a with closures := fun c =>
          if dead (a.closures c) then { a.closures c with unresponse := false } else a.closures c }
      place := by
  refine ⟨h.owner, fun n c => ?_, h.replies, h.forgotten, h.tracked, h.session, fun c hc => ?_,
    fun c hc => ?_, h.sent⟩
  · rw [h.unfired]
    by_cases hd : dead (a.closures c) = true <;> simp [Accounts.Unfired, hd]
  · by_cases hd : dead (a.closures c) = true <;> simpa [hd] using h.closure c hc
  · by_cases hd : dead (a.closures c) = true
    · simp [hd] at hc
    · simp only [hd] at hc ⊢
      exact h.open_ c hc

/-! ### New requests -/

theorem getElem?_concat_of_some {l : List (ℕ × ℕ)} {n : ℕ} {x : ℕ × ℕ} (hx : l[n]? = some x)
    (y : ℕ × ℕ) : (l ++ [y])[n]? = some x := by
  rw [getElem?_append_left (List.getElem?_eq_some_iff.mp hx).1]
  exact hx

/-- Request `(session, src)` is entered and goes to `p`, or nowhere when it has no session. -/
theorem enter (h : Books a place) {p : Option Place} {session src : ℕ} (hp : p ≠ none ↔ session ≠ 0)
    (hclosure : ∀ c, p ≠ some (.closure c)) (hforgot : p ≠ some .forgotten)
    (hreqs : b.requests = a.requests ++ [(session, src)])
    (howns : ∀ n j, b.exited = false ∧ b.Owns j n ↔
      n ≠ a.requests.length ∧ a.exited = false ∧ a.Owns j n ∨
      n = a.requests.length ∧ p = some (.handler j))
    (hreplies : ∀ n, b.replies n =
      a.replies n + if n = a.requests.length ∧ p = some .replied then 1 else 0)
    (hclosures : b.closures = a.closures) (hn : b.nclosures = a.nclosures)
    (hforgotten : b.forgotten = a.forgotten)
    (hsession : ∀ i m, b.threadSessionMap i = some (m + 1) →
      ∃ h, b.threadSvcHandleMap i = some h ∧ b.requests[b.threadReq i]? = some (m + 1, h))
    (hsent : ∀ r ∈ b.sent, b.requests[r.req]? = some (r.session, r.dst)) :
    Books b (update place a.requests.length p) := by
  have hnew : place a.requests.length = none := by
    by_contra hne
    obtain ⟨m, src', hm⟩ := (h.tracked _).mp hne
    simp at hm
  refine ⟨fun n j => ?_, fun n c => ?_, fun n => ?_, fun n => ?_, fun n => ?_, hsession,
    fun c hc => ?_, ?_, hsent⟩
  · rw [howns]
    by_cases hn : n = a.requests.length
    · subst hn
      simp
    · simp [hn, h.owner]
  · rw [Accounts.Unfired, hclosures, hn, ← Accounts.Unfired, ← h.unfired]
    exact update_eq_iff (by simp [hnew]) (hclosure c) n
  · rw [hreplies, h.replies]
    by_cases hn : n = a.requests.length
    · subst hn
      simp [hnew]
    · simp [hn]
  · rw [hforgotten, ← h.forgotten]
    exact update_eq_iff (by simp [hnew]) hforgot n
  · by_cases hn : n = a.requests.length
    · subst hn
      rw [update_self, hp, hreqs]
      cases session <;> simp
    · rw [update_of_ne hn, h.tracked, hreqs]
      rcases Nat.lt_or_ge n a.requests.length with hlt | hge
      · simp only [getElem?_append_left hlt]
      · simp only [getElem?_eq_none (show a.requests.length ≤ n by omega),
          getElem?_eq_none (show (a.requests ++ [(session, src)]).length ≤ n by simp; omega)]
  · rw [hn] at hc
    rw [hclosures]
    obtain ⟨m, hm, hr⟩ := h.closure c hc
    exact ⟨m, hm, hreqs ▸ getElem?_concat_of_some hr _⟩
  · rw [hclosures, hn]
    exact h.open_

/-- A request that comes is not one of the old ones. -/
theorem owns_ne (h : Books a place) {n j : ℕ} (ho : a.Owns j n) : n ≠ a.requests.length := by
  rintro rfl
  obtain ⟨⟨m, hm⟩, hr⟩ := ho
  obtain ⟨h', -, hr'⟩ := h.session j m hm
  rw [hr] at hr'
  simp at hr'

/-- A request for coroutine `i`, which owns no session. -/
theorem accept (h : Books a place) (hi : ∀ m, a.threadSessionMap i ≠ some (m + 1))
    (hex : a.exited = false) (session src : ℕ) : Books
      { a with
        threadSessionMap := update a.threadSessionMap i (some session)
        threadSvcHandleMap := update a.threadSvcHandleMap i (some src)
        threadReq := update a.threadReq i a.requests.length
        requests := a.requests ++ [(session, src)] }
      (update place a.requests.length
        (if session = 0 then none else some (.handler i))) := by
  refine h.enter ?_ ?_ ?_ rfl (fun n j => ?_) (fun n => ?_) rfl rfl rfl (fun j m hj => ?_)
    fun r hr => getElem?_concat_of_some (h.sent r hr) _
  · cases session <;> simp
  · split_ifs <;> simp
  · split_ifs <;> simp
  · unfold Accounts.Owns
    by_cases hj : j = i
    · subst hj
      have hnone : ¬ ∃ m, a.threadSessionMap j = some (m + 1) := fun ⟨m, hm⟩ => hi m hm
      simp only [hnone, false_and, and_false, false_or, hex, true_and, update_self,
        some.injEq]
      cases session <;> simp [eq_comm]
    · have hnot : ¬ (if session = 0 then none else some (Place.handler i)) = some (.handler j) := by
        split_ifs <;> simp [Ne.symm hj]
      simp only [update_of_ne hj, hnot, and_false, or_false]
      exact ⟨fun ho => ⟨h.owns_ne ho.2, ho⟩, And.right⟩
  · have : (if session = 0 then none else some (Place.handler i)) ≠ some .replied := by
      split_ifs <;> simp
    simp [Accounts.replies, this]
  · by_cases hji : j = i
    · subst hji
      simp only [update_self, some.injEq] at hj ⊢
      exact ⟨src, rfl, by simp [hj]⟩
    · simp only [update_of_ne hji] at hj ⊢
      obtain ⟨h', hh, hr⟩ := h.session j m hj
      exact ⟨h', hh, getElem?_concat_of_some hr _⟩

theorem unhandled (h : Books a place) (session src : ℕ) {replies : List Reply}
    (hreplies : replies = if session = 0 then [] else [⟨a.requests.length, .error, src, session⟩]) :
    Books
      { a with
        requests := a.requests ++ [(session, src)]
        sent := a.sent ++ replies }
      (update place a.requests.length
        (if session = 0 then none else some .replied)) := by
  refine h.enter ?_ ?_ ?_ rfl (fun n j => ?_) (fun n => ?_) rfl rfl rfl (fun j m hj => ?_)
    fun r hr => ?_
  · cases session <;> simp
  · split_ifs <;> simp
  · split_ifs <;> simp
  · have hnot : ¬ (if session = 0 then none else some Place.replied) = some (.handler j) := by
      split_ifs <;> simp
    simp only [hnot, and_false, or_false]
    exact ⟨fun ho => ⟨h.owns_ne ho.2, ho⟩, And.right⟩
  · rw [hreplies]
    by_cases h0 : session = 0
    · simp [Accounts.replies, h0]
    · simpa [Accounts.replies, h0] using
        countP_append_reply a.sent ⟨a.requests.length, .error, src, session⟩ n
  · obtain ⟨h', hh, hr⟩ := h.session j m hj
    exact ⟨h', hh, getElem?_concat_of_some hr _⟩
  · rcases mem_append.mp hr with hr | hr
    · exact getElem?_concat_of_some (h.sent r hr) _
    · rw [hreplies] at hr
      split_ifs at hr with h0
      · cases hr
      · obtain rfl := mem_singleton.mp hr
        simp

end Books

/-! ### Exit -/

/-- One of the reports is for request `n`. -/
theorem countP_reports_one {f : ℕ → Option Reply} {k n i : ℕ} (hi : i < k)
    (hf : ∀ j < k, (∃ r, f j = some r ∧ r.req = n) ↔ j = i) :
    ((range k).filterMap f).countP (·.req = n) = 1 := by
  rw [countP_filterMap]
  have : (range k).countP (fun j => ((f j).map fun r => decide (r.req = n)).getD false) =
      (range k).count i := by
    rw [count]
    refine countP_congr fun j hj => ?_
    rw [beq_iff_eq, ← hf j (mem_range.mp hj)]
    cases f j <;> simp
  rw [this]
  exact count_eq_one_of_mem nodup_range (mem_range.mpr hi)

/-- None of the reports is for request `n`. -/
theorem countP_reports_zero {f : ℕ → Option Reply} {k n : ℕ}
    (hf : ∀ j < k, ∀ r, f j = some r → r.req ≠ n) :
    ((range k).filterMap f).countP (·.req = n) = 0 := by
  rw [countP_eq_zero]
  intro r hr
  obtain ⟨j, hj, hfj⟩ := mem_filterMap.mp hr
  simpa using hf j (mem_range.mp hj) r hfj

namespace Accounts

variable (a : Accounts)

/-- `skynet.exit` with `k` threads. -/
def exit (k : ℕ) : Accounts :=
  { a with
    sent := a.sent ++ (range k).filterMap a.threadReport ++
      (range a.nclosures).filterMap a.closureReport
    closures := fun c => if (a.closures c).unresponse then (a.closures c).fired else a.closures c
    exited := true }

end Accounts

/-- Where `skynet.exit` leaves a request. -/
def Place.exit (a : Accounts) : Place → Place
  | handler _ => replied
  | closure c => if (a.closures c).unresponse then replied else closure c
  | p => p

theorem Place.exit_eq_iff {a : Accounts} {p q : Place} (hq : q ≠ .replied) :
    p.exit a = q ↔ p = q ∧ (∀ i, q ≠ .handler i) ∧
      ∀ c, q = .closure c → (a.closures c).unresponse = false := by
  cases p <;> grind [Place.exit]

namespace Books

variable {a : Accounts} {place : ℕ → Option Place}

theorem threadReport_iff (h : Books a place) (i n : ℕ) :
    (∃ r, a.threadReport i = some r ∧ r.req = n) ↔ a.Owns i n := by
  unfold threadReport Accounts.Owns
  rcases hs : a.threadSessionMap i with _ | _ | m
  · simp
  · simp
  · obtain ⟨src, hsrc, -⟩ := h.session i m hs
    simp [hsrc]

theorem closureReport_iff (h : Books a place) (c n : ℕ) :
    (∃ r, a.closureReport c = some r ∧ r.req = n) ↔
      place n = some (.closure c) ∧ (a.closures c).unresponse = true := by
  rw [h.unfired]
  unfold closureReport Accounts.Unfired
  by_cases hc : (a.closures c).unresponse = true
  · have := h.open_ c hc
    simp [hc, Closure.reply, this]
  · simp [hc]

open scoped Classical in
/-- The replies of `skynet.exit` to the requests that coroutines own. -/
theorem countP_threadReports (h : Books a place) (hex : a.exited = false) {k : ℕ}
    (hk : ∀ i m, a.threadSessionMap i = some (m + 1) → i < k) (n : ℕ) :
    ((range k).filterMap a.threadReport).countP (·.req = n) =
      if ∃ i, place n = some (.handler i) then 1 else 0 := by
  have howner := fun i => (h.owner n i).trans (and_iff_right hex)
  split_ifs with hi
  · obtain ⟨i, hi⟩ := hi
    obtain ⟨⟨m, hm⟩, -⟩ := (howner i).mp hi
    refine countP_reports_one (hk i m hm) fun j _ => ?_
    rw [h.threadReport_iff, ← howner, hi]
    simp [eq_comm]
  · refine countP_reports_zero fun j _ r hr hreq => hi ⟨j, ?_⟩
    exact (howner j).mpr ((h.threadReport_iff j n).mp ⟨r, hr, hreq⟩)

open scoped Classical in
/-- The replies of `skynet.exit` to the requests of `unresponse`. -/
theorem countP_closureReports (h : Books a place) (n : ℕ) :
    ((range a.nclosures).filterMap a.closureReport).countP (·.req = n) =
      if ∃ c, place n = some (.closure c) ∧ (a.closures c).unresponse = true then 1 else 0 := by
  split_ifs with hc
  · obtain ⟨c, hplace, hopen⟩ := hc
    refine countP_reports_one (h.open_ c hopen).1 fun d _ => ?_
    rw [h.closureReport_iff, hplace]
    constructor
    · rintro ⟨he, -⟩
      cases he
      rfl
    · rintro rfl
      exact ⟨rfl, hopen⟩
  · refine countP_reports_zero fun c _ r hr hreq => hc ⟨c, ?_⟩
    exact (h.closureReport_iff c n).mp ⟨r, hr, hreq⟩

theorem mem_reports (h : Books a place) {k : ℕ} {r : Reply}
    (hr : r ∈ (range k).filterMap a.threadReport ∨
      r ∈ (range a.nclosures).filterMap a.closureReport) :
    a.requests[r.req]? = some (r.session, r.dst) := by
  rcases hr with hr | hr
  · obtain ⟨i, -, hi⟩ := mem_filterMap.mp hr
    unfold threadReport at hi
    split at hi
    · rename_i m src hs hsrc
      cases hi
      exact h.request_eq hs hsrc
    · cases hi
  · obtain ⟨c, hc, hr⟩ := mem_filterMap.mp hr
    unfold closureReport at hr
    split_ifs at hr
    cases hr
    obtain ⟨m, hm, hreq⟩ := h.closure c (mem_range.mp hc)
    rw [Closure.reply, hm]
    exact hreq

/-- `skynet.exit` answers every request that a coroutine or a closure of `unresponse` owns. -/
theorem exit (h : Books a place) (hex : a.exited = false) {k : ℕ}
    (hk : ∀ i m, a.threadSessionMap i = some (m + 1) → i < k) :
    Books (a.exit k) fun n => (place n).map (Place.exit a) := by
  have hkept : ∀ c, ((a.exit k).closures c).session = (a.closures c).session ∧
      ((a.exit k).closures c).svcHandle = (a.closures c).svcHandle ∧
      ((a.exit k).closures c).req = (a.closures c).req := by
    intro c
    by_cases hc : (a.closures c).unresponse = true <;> simp [Accounts.exit, hc, Closure.fired]
  refine ⟨fun n i => ?_, fun n c => ?_, fun n => ?_, fun n => ?_, fun n => ?_, h.session,
    fun c hc => ?_, fun c hc => ?_, fun r hr => ?_⟩
  · refine iff_of_false ?_ nofun
    simp [Place.exit_eq_iff]
  · have hfire : (a.exit k).Unfired c n ↔ a.Unfired c n ∧ (a.closures c).unresponse = false := by
      by_cases hc : (a.closures c).unresponse = true <;>
        simp [Accounts.Unfired, Accounts.exit, hc, Closure.fired]
    rw [hfire, ← h.unfired]
    simp [Place.exit_eq_iff]
  · have hcount : (a.exit k).replies n = a.replies n +
        ((range k).filterMap a.threadReport).countP (·.req = n) +
        ((range a.nclosures).filterMap a.closureReport).countP (·.req = n) := by
      simp only [Accounts.replies, Accounts.exit, countP_append]
    rw [hcount, h.replies, h.countP_threadReports hex hk, h.countP_closureReports]
    rcases hp : place n with _ | (_ | d | _ | _)
    all_goals simp [Place.exit]
  · rw [show (a.exit k).forgotten = a.forgotten from rfl, ← h.forgotten]
    simp [Place.exit_eq_iff]
  · rw [← show _ ↔ ∃ m src, (a.exit k).requests[n]? = some (m + 1, src) from h.tracked n]
    simp
  · obtain ⟨m, hm, hreq⟩ := h.closure c hc
    rw [(hkept c).1, (hkept c).2.1, (hkept c).2.2]
    exact ⟨m, hm, hreq⟩
  · by_cases hu : (a.closures c).unresponse = true
    · simp [Accounts.exit, hu, Closure.fired] at hc
    · simp [Accounts.exit, hu] at hc
  · rcases mem_append.mp hr with hr | hr
    · rcases mem_append.mp hr with hr | hr
      · exact h.sent r hr
      · exact h.mem_reports (.inl hr)
    · exact h.mem_reports (k := k) (.inr hr)

end Books

end Skynet.Service
