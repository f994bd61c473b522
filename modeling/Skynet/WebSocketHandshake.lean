import Skynet.WebSocket

/-! # The handshake of a web socket

When `read_handshake` rejects a request, `resolve_accept` writes the status and goes on as if the
handshake had succeeded: the method `handshake` is called and the frames that follow are handled
(`message_after_rejection`).  When the request is not rejected with a status, the methods
`handshake` and `message` are called only after a valid handshake, and after the response with the
status 101 was written (`handlers_after_handshake`). -/

namespace Skynet.WebSocket

open List LuaText ByteReader Http

/-- A request that is to be accepted. -/
structure Valid (lib : Lib) (request url : Bytes) (header : Header) : Prop where
  get : ∃ version v, requestLine request = some (ofString "GET", url, version) ∧
    tonumber lib.str2d version = some v ∧ v.lt oneOne = false
  upgrade : ∃ s, header (ofString "upgrade") = some (.one s) ∧ lower s = ofString "websocket"
  host : header (ofString "host") ≠ none
  connection : ∃ s, header (ofString "connection") = some (.one s) ∧ lower s = ofString "upgrade"
  key : ∃ s raw, header (ofString "sec-websocket-key") = some (.one s) ∧
    base64decode s = some raw ∧ raw.length = 16
  version : header (ofString "sec-websocket-version") = some (.one (ofString "13"))
  protocol : ∀ v, header (ofString "sec-websocket-protocol") = some v →
    ∃ s, v = .one s ∧ ofString "chat" ∈ protocols s

/-! ### The checks -/

section Checks

variable {header : Header}

theorem andThen_eq_none {a b : Except Fault (Option Rejection)} (h : andThen a b = .ok none) :
    a = .ok none ∧ b = .ok none := by
  unfold andThen at h
  split at h
  · exact ⟨rfl, h⟩
  · rename_i hne
    exact absurd h hne

theorem checkToken_eq_none {field token : String} {code : ℕ} {err : String}
    (h : checkToken header field token code err = .ok none) :
    ∃ s, header (ofString field) = some (.one s) ∧ lower s = ofString token := by
  unfold checkToken at h
  split at h
  · cases h
  · rename_i s hs
    by_cases heq : lower s = ofString token
    · exact ⟨s, hs, heq⟩
    · rw [if_neg heq] at h
      cases h
  · cases h

theorem checkKey_eq_none (h : checkKey header = .ok none) :
    ∃ s raw, header (ofString "sec-websocket-key") = some (.one s) ∧
      base64decode s = some raw ∧ raw.length = 16 := by
  unfold checkKey at h
  split at h
  · cases h
  · rename_i s hs
    split at h
    · cases h
    · rename_i raw hraw
      by_cases heq : raw.length = 16
      · exact ⟨s, raw, hs, hraw, heq⟩
      · rw [if_neg heq] at h
        cases h
  · cases h

theorem checkProtocol_eq_none (h : checkProtocol header = .ok none) (v : Value)
    (hv : header (ofString "sec-websocket-protocol") = some v) :
    ∃ s, v = .one s ∧ ofString "chat" ∈ protocols s := by
  unfold checkProtocol at h
  rw [hv] at h
  cases v with
  | one s =>
    by_cases hs : ofString "chat" ∈ protocols s
    · exact ⟨s, rfl, hs⟩
    · simp [hs] at h
  | many l => cases h

theorem checkHeader_eq_none (h : checkHeader header = .ok none) :
    (∃ s, header (ofString "upgrade") = some (.one s) ∧ lower s = ofString "websocket") ∧
    header (ofString "host") ≠ none ∧
    (∃ s, header (ofString "connection") = some (.one s) ∧ lower s = ofString "upgrade") ∧
    (∃ s raw, header (ofString "sec-websocket-key") = some (.one s) ∧
      base64decode s = some raw ∧ raw.length = 16) ∧
    header (ofString "sec-websocket-version") = some (.one (ofString "13")) ∧
    ∀ v, header (ofString "sec-websocket-protocol") = some v →
      ∃ s, v = .one s ∧ ofString "chat" ∈ protocols s := by
  obtain ⟨hupgrade, h⟩ := andThen_eq_none h
  obtain ⟨hhost, h⟩ := andThen_eq_none h
  obtain ⟨hconnection, h⟩ := andThen_eq_none h
  obtain ⟨hkey, h⟩ := andThen_eq_none h
  obtain ⟨hversion, hprotocol⟩ := andThen_eq_none h
  exact ⟨checkToken_eq_none hupgrade, by simpa [checkHost] using hhost,
    checkToken_eq_none hconnection, checkKey_eq_none hkey, by simpa [checkVersion] using hversion,
    checkProtocol_eq_none hprotocol⟩

end Checks

variable {lib : Lib} {pieces : Pieces}

theorem readHandshake_accepted {pieces' : Pieces} {response url : Bytes} {header : Header}
    (h : readHandshake lib pieces = .ok (.accepted response header url, pieces')) :
    response = acceptResponse lib header ∧ ∃ request fields rest,
      recvheader [] pieces = .ok (some ⟨request :: fields, rest⟩, pieces') ∧
      parseheader none (fun _ => none) fields = .ok (some header) ∧
      Valid lib request url header := by
  unfold readHandshake at h
  split at h
  · cases h
  · cases h
  · cases h
  · rename_i request fields rest ps hrecv
    split at h
    · cases h
    · rename_i method url' version hline
      split_ifs at h with hmethod
      · cases h
      · rw [ne_eq, not_not] at hmethod
        split at h
        · cases h
        · rename_i v hv
          split_ifs at h with hlt
          · cases h
          · split at h
            · cases h
            · cases h
            · rename_i header' hparse
              split at h
              · cases h
              · cases h
              · rename_i hcheck
                cases h
                refine ⟨rfl, request, fields, rest, hrecv, hparse, ?_⟩
                have hchecked := checkHeader_eq_none hcheck
                exact ⟨⟨version, v, hmethod ▸ hline, hv, by simpa using hlt⟩, hchecked.1,
                  hchecked.2.1, hchecked.2.2.1, hchecked.2.2.2.1, hchecked.2.2.2.2.1,
                  hchecked.2.2.2.2.2⟩

/-! ### Runs -/

theorem emit_spec (env : Env) (trace events : List Event) :
    ∃ l, (emit env trace events).trace = trace ++ l ∧ l <+: events ∧
      ((emit env trace events).fault = none → l = events) := by
  induction events generalizing trace with
  | nil => exact ⟨[], by simp [emit], prefix_refl _, fun _ => rfl⟩
  | cons e events ih =>
    unfold emit
    split
    · exact ⟨[e], rfl, by simp, nofun⟩
    · obtain ⟨l, htrace, hl, hall⟩ := ih (trace ++ [e])
      exact ⟨e :: l, by simp [htrace], by simpa using hl, fun hf => by rw [hall hf]⟩

variable {env : Env}

theorem mem_emit {trace events : List Event} {e : Event} (he : e ∈ (emit env trace events).trace) :
    e ∈ trace ∨ e ∈ events := by
  obtain ⟨l, htrace, hl, -⟩ := emit_spec env trace events
  rw [htrace, mem_append] at he
  exact he.imp_right fun h => hl.subset h

theorem prefix_emit (env : Env) (trace events : List Event) :
    trace <+: (emit env trace events).trace := by
  obtain ⟨l, hl, -⟩ := emit_spec env trace events
  rw [hl]
  exact prefix_append _ _

/-- From `trace` on no call raises an error and the web socket stays open. -/
structure Env.Quiet (env : Env) (trace : List Event) : Prop where
  raises : ∀ t, trace <+: t → env.raises t = none
  closed : ∀ t, trace <+: t → env.closed t = false

theorem Env.Quiet.append {trace : List Event} (h : env.Quiet trace) (events : List Event) :
    env.Quiet (trace ++ events) :=
  ⟨fun t ht => h.raises t ((prefix_append _ _).trans ht),
    fun t ht => h.closed t ((prefix_append _ _).trans ht)⟩

theorem Env.Quiet.emit {trace : List Event} (h : env.Quiet trace) (events : List Event) :
    emit env trace events = ⟨trace ++ events, none⟩ := by
  induction events generalizing trace with
  | nil => simp [WebSocket.emit]
  | cons e events ih =>
    have hraises := h.raises (trace ++ [e]) (prefix_append _ _)
    simp only [WebSocket.emit, hraises, ih (h.append [e]), append_assoc,
      singleton_append]

/-- What has happened at the end of a round. -/
def Round.trace : Round → List Event
  | .stop r => r.trace
  | .again trace _ => trace

theorem prefix_after (env : Env) (trace events : List Event) (buf : Buffer) :
    trace <+: (Round.after env trace events buf).trace := by
  have hle := prefix_emit env trace events
  unfold Round.after
  split
  all_goals
    rename_i hemit
    rw [hemit] at hle
    exact hle

theorem prefix_round (env : Env) (trace : List Event) (buf : Buffer) (r : Read) :
    trace <+: (round env trace buf r).trace := by
  unfold round
  split
  · exact prefix_emit _ _ _
  · exact prefix_after _ _ _ _
  · exact prefix_after _ _ _ _
  all_goals
    simp only
    split_ifs
    · exact prefix_after _ _ _ _
    · exact prefix_refl _
    · exact prefix_after _ _ _ _
    · exact prefix_refl _

theorem prefix_serve (env : Env) (trace : List Event) (buf : Buffer) (pieces : Pieces) :
    trace <+: (serve env trace buf pieces).trace := by
  induction trace, buf, pieces using serve.induct env with
  | case1 trace buf pieces hclosed =>
    rw [serve, if_pos hclosed]
    exact prefix_emit _ _ _
  | case2 trace buf pieces hclosed e he =>
    rw [serve, if_neg hclosed, he]
  | case3 trace buf pieces hclosed r ps hr run hround =>
    rw [serve, if_neg hclosed, hr]
    simp only [hround]
    have := prefix_round env trace buf r
    rwa [hround] at this
  | case4 trace buf pieces hclosed r ps hr trace' buf' hround ih =>
    rw [serve, if_neg hclosed, hr]
    simp only [hround]
    have := prefix_round env trace buf r
    rw [hround] at this
    exact this.trans ih

theorem prefix_start (env : Env) (trace : List Event) (header : Handed) (url : Option Bytes)
    (pieces : Pieces) : trace <+: (start env trace header url pieces).trace := by
  have hle := prefix_emit env trace [.handshake header url]
  unfold start
  split
  · rename_i hemit
    rw [hemit] at hle
    exact hle
  · rename_i hemit
    rw [hemit] at hle
    exact List.IsPrefix.trans hle (prefix_serve _ _ _ _)

theorem handshake_mem_start (env : Env) (trace : List Event) (header : Handed) (url : Option Bytes)
    (pieces : Pieces) : .handshake header url ∈ (start env trace header url pieces).trace := by
  have hmem : .handshake header url ∈ (emit env trace [.handshake header url]).trace := by
    unfold emit
    split <;> simp [emit]
  rw [start]
  split
  · rename_i hemit
    rwa [hemit] at hmem
  · rename_i hemit
    rw [hemit] at hmem
    exact (prefix_serve _ _ _ _).subset hmem

/-- The event is a call of the method `handshake` or `message`. -/
def Event.delivers : Event → Bool
  | .handshake _ _ | .message _ => true
  | _ => false

theorem emit_connect (env : Env) : (emit env [] [.connect]).trace = [.connect] := by
  unfold emit
  split <;> rfl

/-- The events of a rejected handshake. -/
def rejectedRun (env : Env) (r : Rejection) : Run := emit env [] (.connect :: rejectionEvents r)

theorem resolveAccept_of_rejected (env : Env) {pieces' : Pieces} {r : Rejection}
    (h : readHandshake lib pieces = .ok (.rejected r, pieces')) :
    (rejectedRun env r).fault ≠ none ∧ resolveAccept lib env pieces = rejectedRun env r ∨
      (rejectedRun env r).fault = none ∧ resolveAccept lib env pieces =
        start env (.connect :: rejectionEvents r) (.err r.err) none pieces' := by
  have hrun := emit_spec env [] (.connect :: rejectionEvents r)
  unfold rejectedRun resolveAccept
  simp only [emit, nil_append] at hrun ⊢
  split
  · exact .inl ⟨by simp, rfl⟩
  · rename_i hraises
    simp only [hraises] at hrun
    simp only [h]
    obtain ⟨l, htrace, -, hall⟩ := hrun
    split
    · rename_i hwrite
      exact .inl ⟨by simp [hwrite], hwrite.symm⟩
    · rename_i trace hwrite
      rw [hwrite] at htrace hall
      obtain rfl := hall rfl
      obtain rfl : trace = _ := htrace
      exact .inr ⟨by rw [hwrite], rfl⟩

theorem rejected_answered {pieces' : Pieces} {r : Rejection}
    (h : readHandshake lib pieces = .ok (.rejected r, pieces')) :
    .connect :: rejectionEvents r <+: (resolveAccept lib env pieces).trace ∨
      (resolveAccept lib env pieces).trace <+: .connect :: rejectionEvents r ∧
        (resolveAccept lib env pieces).fault ≠ none := by
  obtain ⟨hf, hrun⟩ | ⟨-, hrun⟩ := resolveAccept_of_rejected env h <;> rw [hrun]
  · obtain ⟨l, htrace, hl, -⟩ := emit_spec env [] (.connect :: rejectionEvents r)
    exact .inr ⟨by rw [rejectedRun, htrace]; exact hl, hf⟩
  · exact .inl (prefix_start _ _ _ _ _)

theorem delivered_after_response (h : ∀ r ps, readHandshake lib pieces ≠ .ok (.rejected r, ps))
    {e : Event} (he : e ∈ (resolveAccept lib env pieces).trace) (hd : e.delivers = true) :
    ∃ response header url ps, readHandshake lib pieces = .ok (.accepted response header url, ps) ∧
      [.connect, .write response] <+: (resolveAccept lib env pieces).trace := by
  have hconnect := emit_connect env
  unfold resolveAccept at he ⊢
  split at he
  · rename_i trace f hemit
    rw [hemit] at hconnect
    obtain rfl : trace = [.connect] := hconnect
    rw [mem_singleton.mp he] at hd
    cases hd
  · rename_i trace hemit
    rw [hemit] at hconnect
    obtain rfl : trace = [.connect] := hconnect
    split at he
    · rw [mem_singleton.mp he] at hd
      cases hd
    · rename_i r ps hr
      exact absurd hr (h r ps)
    · rename_i response header url ps hr
      obtain ⟨l, htrace, hl, hall⟩ := emit_spec env [.connect] [.write response]
      refine ⟨response, header, url, ps, hr, ?_⟩
      split at he
      · rename_i trace f hwrite
        rw [hwrite] at htrace
        obtain rfl : trace = [.connect] ++ l := htrace
        rcases mem_append.mp he with he | he
        · rw [mem_singleton.mp he] at hd
          cases hd
        · rw [mem_singleton.mp (hl.subset he)] at hd
          cases hd
      · rename_i trace hwrite
        rw [hwrite] at htrace hall
        obtain rfl : trace = [.connect] ++ l := htrace
        obtain rfl := hall rfl
        exact prefix_start _ _ _ _ _

/-- `M.accept` goes on with `close` or `error` only. -/
theorem accept_spec (lib : Lib) (env : Env) (pieces : Pieces) :
    (resolveAccept lib env pieces).trace <+: (accept lib env pieces).trace ∧
      ∀ e ∈ (accept lib env pieces).trace, e.delivers = true →
        e ∈ (resolveAccept lib env pieces).trace := by
  unfold accept
  simp only
  split
  · refine ⟨prefix_emit _ _ _, fun e he hd => ?_⟩
    rcases mem_emit he with he | he
    · exact he
    · rw [mem_singleton.mp he] at hd
      split at hd <;> cases hd
  · exact ⟨prefix_refl _, fun e he _ => he⟩

/-- The handshake was valid, and the response to it has been written. -/
def Shaken (lib : Lib) (env : Env) (pieces : Pieces) : Prop :=
  ∃ request fields rest ps ps' header url,
    recvheader [] pieces = .ok (some ⟨request :: fields, rest⟩, ps) ∧
    parseheader none (fun _ => none) fields = .ok (some header) ∧
    readHandshake lib pieces = .ok (.accepted (acceptResponse lib header) header url, ps') ∧
    Valid lib request url header ∧
    [.connect, .write (acceptResponse lib header)] <+: (accept lib env pieces).trace

/-- **Handlers run after the handshake**: a rejected handshake is answered with its status.  The
methods `handshake` and `message` are called only after a valid handshake and the response to it
exactly when the request is not rejected, or the method `connect` or a write of the rejection raises
an error. -/
theorem handlers_after_handshake (lib : Lib) (env : Env) (pieces : Pieces) :
    (∀ r ps, readHandshake lib pieces = .ok (.rejected r, ps) →
      .connect :: rejectionEvents r <+: (resolveAccept lib env pieces).trace ∨
        (resolveAccept lib env pieces).trace <+: .connect :: rejectionEvents r ∧
          (resolveAccept lib env pieces).fault ≠ none) ∧
    ((∀ e ∈ (accept lib env pieces).trace, e.delivers = true → Shaken lib env pieces) ↔
      ∀ r ps, readHandshake lib pieces = .ok (.rejected r, ps) →
        (rejectedRun env r).fault ≠ none) := by
  obtain ⟨hle, hmem⟩ := accept_spec lib env pieces
  refine ⟨fun r ps hr => rejected_answered hr, fun h r ps hr => ?_, fun h e he hd => ?_⟩
  · obtain ⟨hf, -⟩ | ⟨-, hrun⟩ := resolveAccept_of_rejected env hr
    · exact hf
    · have hcall : .handshake (.err r.err) none ∈ (resolveAccept lib env pieces).trace := by
        rw [hrun]
        exact handshake_mem_start _ _ _ _ _
      obtain ⟨_, _, _, _, _, _, _, -, -, haccepted, -⟩ := h _ (hle.subset hcall) rfl
      rw [hr] at haccepted
      cases haccepted
  · by_cases hrej : ∃ r ps, readHandshake lib pieces = .ok (.rejected r, ps)
    · obtain ⟨r, ps, hr⟩ := hrej
      obtain ⟨-, hrun⟩ | ⟨hf, -⟩ := resolveAccept_of_rejected env hr
      · have hin := hmem e he hd
        rw [hrun] at hin
        rcases mem_emit hin with hin | hin
        · cases hin
        · rcases mem_cons.mp hin with rfl | hin
          · cases hd
          · obtain ⟨w, -, rfl⟩ := mem_map.mp hin
            cases hd
      · exact absurd hf (h r ps hr)
    · have hnot : ∀ r ps, readHandshake lib pieces ≠ .ok (.rejected r, ps) :=
        fun r ps hr => hrej ⟨r, ps, hr⟩
      obtain ⟨response, header, url, ps, hr, hresponse⟩ :=
        delivered_after_response hnot (hmem e he hd) hd
      obtain ⟨rfl, request, fields, rest, hrecv, hparse, hvalid⟩ := readHandshake_accepted hr
      exact ⟨request, fields, rest, _, ps, header, url, hrecv, hparse, hr, hvalid,
        hresponse.trans hle⟩

/-! ### Two runs -/

/-- No call raises an error and the web socket stays open. -/
def quiet : Env := ⟨fun _ => none, fun _ => false⟩

theorem emit_quiet (trace events : List Event) :
    emit quiet trace events = ⟨trace ++ events, none⟩ :=
  Env.Quiet.emit ⟨fun _ _ => rfl, fun _ _ => rfl⟩ events

/-- The frame of a text. -/
def hiFrame : Bytes := [0x81, 2, 104, 105]

theorem message_mem_start (trace : List Event) (header : Handed) (url : Option Bytes) :
    .message (ofString "hi") ∈ (start quiet trace header url [hiFrame]).trace := by
  have hread : readFrame true [hiFrame] = .ok (⟨true, .text, ofString "hi"⟩, []) := by
    decide +kernel
  rw [start, emit_quiet]
  simp only
  rw [serve, if_neg (by simp [quiet]), hread]
  refine (prefix_serve quiet _ _ []).subset ?_
  simp

/-- `strtod` on the version number, and an accept key. -/
def demo : Lib := ⟨fun s => if s = ofString "1.1" then some (.float oneOne) else none, id⟩

/-- A handshake with all that is required. -/
def goodHandshake : Bytes :=
  ofString "GET /chat HTTP/1.1\r\nHost: a\r\nUpgrade: websocket\r\nConnection: Upgrade\r\n" ++
    ofString "Sec-WebSocket-Key: AAAAAAAAAAAAAAAAAAAAAA==\r\nSec-WebSocket-Version: 13\r\n\r\n"

/-- A request with another method. -/
def badHandshake : Bytes := ofString "POST / HTTP/1.1\r\n\r\n"

theorem resolveAccept_rejected {ps : Pieces} {r : Rejection}
    (h : readHandshake lib pieces = .ok (.rejected r, ps)) : resolveAccept lib quiet pieces =
      start quiet ([.connect] ++ rejectionEvents r) (.err r.err) none ps := by
  rw [resolveAccept, emit_quiet]
  simp only [h, emit_quiet, nil_append]

theorem resolveAccept_accepted {ps : Pieces} {response url : Bytes} {header : Header}
    (h : readHandshake lib pieces = .ok (.accepted response header url, ps)) :
    resolveAccept lib quiet pieces =
      start quiet [.connect, .write response] (.header header) (some url) ps := by
  rw [resolveAccept, emit_quiet]
  simp only [h, emit_quiet, nil_append, singleton_append]

/-- The rejection, if the handshake is rejected. -/
def Handshake.rejection : Handshake → Option Rejection
  | .rejected r => some r
  | .accepted _ _ _ => none

theorem readHandshake_bad : readHandshake demo [badHandshake, hiFrame] =
      .ok (.rejected ⟨400, some "need GET method"⟩, [hiFrame]) := by
  have h : (readHandshake demo [badHandshake, hiFrame]).map (fun x => (x.1.rejection, x.2)) =
      .ok (some ⟨400, some "need GET method"⟩, [hiFrame]) := by decide +kernel
  revert h
  generalize readHandshake demo [badHandshake, hiFrame] = r
  intro h
  rcases r with e | ⟨r | ⟨response, header, url⟩, ps⟩
  · cases h
  · simp only [Except.map, Handshake.rejection, Except.ok.injEq, Prod.mk.injEq,
      Option.some.injEq] at h
    rw [h.1, h.2]
  · cases h

theorem readHandshake_good : ∃ response header url,
    readHandshake demo [goodHandshake, hiFrame] =
      .ok (.accepted response header url, [hiFrame]) := by
  have h : (readHandshake demo [goodHandshake, hiFrame]).map (fun x => (x.1.rejection, x.2)) =
      .ok (none, [hiFrame]) := by decide +kernel
  revert h
  generalize readHandshake demo [goodHandshake, hiFrame] = r
  intro h
  rcases r with e | ⟨r | ⟨response, header, url⟩, ps⟩
  · cases h
  · cases h
  · simp only [Except.map, Handshake.rejection, Except.ok.injEq, Prod.mk.injEq, true_and] at h
    exact ⟨response, header, url, by rw [h]⟩

/-- After a valid handshake the text is handed to the handler, after the response. -/
theorem handlers_after_handshake_of_good :
    .message (ofString "hi") ∈ (accept demo quiet [goodHandshake, hiFrame]).trace ∧
    Shaken demo quiet [goodHandshake, hiFrame] := by
  obtain ⟨response, header, url, hr⟩ := readHandshake_good
  have hmem : .message (ofString "hi") ∈ (accept demo quiet [goodHandshake, hiFrame]).trace := by
    refine (accept_spec demo quiet _).1.subset ?_
    rw [resolveAccept_accepted hr]
    exact message_mem_start _ _ _
  refine ⟨hmem, (handlers_after_handshake demo quiet _).2.mpr (fun r ps hrej => ?_) _ hmem rfl⟩
  rw [hr] at hrej
  cases hrej

/-- A request that is rejected with the status 400 is followed by the call of `message` for the
frame that comes after it. -/
theorem message_after_rejection : readHandshake demo [badHandshake, hiFrame] =
      .ok (.rejected ⟨400, some "need GET method"⟩, [hiFrame]) ∧
    .handshake (.err (some "need GET method")) none ∈
      (accept demo quiet [badHandshake, hiFrame]).trace ∧
    .message (ofString "hi") ∈ (accept demo quiet [badHandshake, hiFrame]).trace := by
  have hrun := resolveAccept_rejected readHandshake_bad
  have hle := (accept_spec demo quiet [badHandshake, hiFrame]).1.subset
  rw [hrun] at hle
  refine ⟨readHandshake_bad, hle ?_, hle (message_mem_start _ _ _)⟩
  rw [start, emit_quiet]
  exact (prefix_serve quiet _ _ _).subset (by simp)

end Skynet.WebSocket
