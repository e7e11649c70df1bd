import Eipc.ServerMain

/-!
# What the connections of the server share

The handlers of `cmd/eipc-server` hand their entries to one audit logger, open their sessions in
one table and report heartbeats to one health service. For each session the logger is given an
entry, in the order in which they were opened, and only the handshake makes such an entry
(`EipcServer.Server.main_sessions_logged`). A service is alive while somebody who has been
authenticated says so (`EipcServer.Server.main_isAlive_iff`).
-/

open Bytes MessageType Audit

namespace EipcServer

namespace Server

variable {σ ε : Type} {srv : Server σ ε} {d : Deployment σ} {i : ℕ} {r : Reading}
  {hs : List Happening}

/-! ## The sessions and the log -/

/-- The entry for a session that is opened. -/
def sessionEntry (requestID serviceID : Bytes) : Entry :=
  ⟨requestID, serviceID, ascii "eipc-server", ascii "authenticate", .allowed,
    ascii "session created"⟩

/-- The entry is one for a session. -/
def logsSession (e : Entry) : Bool := e = sessionEntry e.requestID e.source

/-- The session that a call opens, if it opens one, behind the identifier of the request that
asked for it. -/
def openedBy (a : Authenticator) (requestID : Bytes) :
    Option Authenticator.Call → Option (Bytes × PeerIdentity)
  | some (.verifyResponse now draw s response) =>
    match (a.verifyResponse now draw s response).1 with
    | .error _ => none
    | .ok peer => some (requestID, peer)
  | _ => none

/-- The session that a turn opens. -/
def opens (srv : Server σ ε) (a : Authenticator) (h : Handler σ) (r : Reading) :
    Option (Bytes × PeerIdentity) :=
  match h.phase with
  | .awaitResponse _ requestID => openedBy a requestID (srv.callOf h r)
  | _ => none

/-- The sessions that a step of the server opens. -/
def opened (srv : Server σ ε) (m : Main σ) : Happening → List (Bytes × PeerIdentity)
  | .turn i r =>
    match m.seats[i]? with
    | none => []
    | some seat => (srv.opens m.authenticator seat.handler r).toList
  | _ => []

theorem logsSession_sessionEntry (requestID serviceID : Bytes) :
    logsSession (sessionEntry requestID serviceID) = true := decide_eq_true rfl

theorem audit_deny (srv : Server σ ε) (h : Handler σ) (stamp : Instant)
    (requestID serviceID result : Bytes) (err : AuthError) (t : Turn ε) :
    (srv.deny h stamp requestID serviceID result err t).1.audit
      = [⟨requestID, serviceID, ascii "eipc-server", ascii "authenticate", .denied, result⟩] := by
  unfold deny
  dsimp only
  split <;> rfl

theorem audit_proceed (srv : Server σ ε) (h : Handler σ) (stamp : Instant) (type : MessageType)
    (requestID : Bytes) (payload : Except String Bytes) (next : Phase) (t : Turn ε) :
    (srv.proceed h stamp type requestID payload next t).1.audit = t.audit := by
  unfold proceed
  cases payload with
  | error err => rfl
  | ok payload =>
    dsimp only
    rcases srv.send h (handshakeMessage stamp type requestID payload) with ⟨err | u, h'⟩
    · rfl
    · rfl

/-- What the handlers log as allowed is a success or a message that was passed on. -/
theorem result_of_mem_audit {env : Env} {now : Instant} {msg : Message Instant} {e : Entry}
    (h : e ∈ ((router env).dispatch now msg).audit) :
    e.decision = .denied ∨ e.result = ascii "success" ∨ e.result = ascii "forwarded" := by
  have hcontrolled : ∀ checked logged target result what payload reply,
      e ∈ (controlled env msg checked logged target result what payload reply).audit →
      e.decision = .denied ∨ e.result = result := by
    intro checked logged target result what payload reply hmem
    rcases controlled_cases env msg checked logged target result what payload reply with
      ⟨err, -, -, haudit⟩ | ⟨-, haudit⟩
    · rw [haudit] at hmem
      exact .inl (congrArg Entry.decision (List.mem_singleton.mp hmem))
    · rw [haudit] at hmem
      exact .inr (congrArg Entry.result (List.mem_singleton.mp hmem))
  rw [dispatch_router] at h
  split_ifs at h
  · unfold handleIntent at h
    split at h
    · cases h
    · exact (hcontrolled _ _ _ _ _ _ _ h).imp_right .inl
  · unfold handleHeartbeat at h
    split at h <;> cases h
  · unfold handleChat at h
    split at h
    · cases h
    · exact (hcontrolled _ _ _ _ _ _ _ h).imp_right .inr
  · unfold handleComplete at h
    split at h
    · cases h
    · exact (hcontrolled _ _ _ _ _ _ _ h).imp_right .inr
  · cases h

/-- **What a turn does to the sessions, and what it logs of it.** -/
inductive SessionTurn (srv : Server σ ε) (a : Authenticator) (h : Handler σ) (r : Reading)
    (t : Turn ε) (a' : Authenticator) : Prop
  /-- No session is opened, and none is logged. -/
  | unchanged (hopens : srv.opens a h r = none) (hsame : a'.activeSessions = a.activeSessions)
    (haudit : ∀ e ∈ t.audit, logsSession e = false)
  /-- The peer has proved that it knows the secret, and its session is opened and logged. -/
  | opened (s requestID : Bytes) (peer : PeerIdentity)
    (hopens : srv.opens a h r = some (requestID, peer))
    (hphase : h.phase = .awaitResponse s requestID)
    (hproves : srv.Proves a.sharedSecret ⟨a, h⟩ r s peer) (hservice : peer.serviceID = s)
    (haudit : t.audit = [sessionEntry requestID s])
    (hsessions : a'.activeSessions = a.activeSessions.insert peer.sessionToken peer)

theorem logsSession_of_denied {e : Entry} (h : e.decision = .denied) : logsSession e = false := by
  refine decide_eq_false fun heq => ?_
  rw [heq] at h
  cases h

theorem logsSession_of_result {e : Entry}
    (h : e.result = ascii "success" ∨ e.result = ascii "forwarded") : logsSession e = false := by
  refine decide_eq_false fun heq => ?_
  rw [heq] at h
  rcases h with h | h
  · exact absurd h (show ascii "session created" ≠ ascii "success" by decide)
  · exact absurd h (show ascii "session created" ≠ ascii "forwarded" by decide)

/-- What the authenticator makes of a response. -/
theorem activeSessions_verifyResponse (a : Authenticator) (now : Instant) (draw : Draw)
    (s response : Bytes) :
    match a.verifyResponse now draw s response with
    | (.error _, a') => a'.activeSessions = a.activeSessions
    | (.ok peer, a') => peer.serviceID = s
      ∧ a'.activeSessions = a.activeSessions.insert peer.sessionToken peer := by
  unfold Authenticator.verifyResponse Authenticator.openSession
  cases a.pendingChallenges.lookup s with
  | none => rfl
  | some challenge =>
    dsimp only
    by_cases hmac : hmacSha256 a.sharedSecret challenge.nonce = response
    · rw [if_neg (not_not.mpr hmac)]
      cases draw with
      | error err => rfl
      | ok b => exact ⟨rfl, rfl⟩
    · rw [if_pos hmac]

theorem activeSessions_createChallenge (a : Authenticator) (now : Instant) (draw : Draw)
    (s : Bytes) : (a.createChallenge now draw s).2.activeSessions = a.activeSessions := by
  unfold Authenticator.createChallenge
  split
  · rfl
  · cases draw with
    | error err => rfl
    | ok nonce => rfl

theorem sessionTurn_onAuth (srv : Server σ ε) (a : Authenticator) (h : Handler σ) (r : Reading)
    (msg : Message Instant) :
    (srv.onAuth a h r msg).2.1.activeSessions = a.activeSessions
      ∧ ∀ e ∈ (srv.onAuth a h r msg).1.audit, logsSession e = false := by
  unfold onAuth
  by_cases htype : msg.type = typeAuth
  · rw [if_neg (not_not.mpr htype)]
    cases srv.env.payloads.unmarshalAuthRequest msg.payload with
    | error err => exact ⟨rfl, List.forall_mem_nil _⟩
    | ok req =>
      have hsame := activeSessions_createChallenge a r.now r.draw req.serviceID
      dsimp only
      revert hsame
      rcases a.createChallenge r.now r.draw req.serviceID with ⟨err | challenge, a'⟩
      · intro hsame
        rw [audit_deny]
        exact ⟨hsame, List.forall_mem_singleton.mpr (logsSession_of_denied rfl)⟩
      · intro hsame
        rw [audit_proceed]
        exact ⟨hsame, List.forall_mem_nil _⟩
  · rw [if_pos htype]
    exact ⟨rfl, List.forall_mem_nil _⟩

/-- **The response of a peer** opens a session and logs it, or does neither. -/
theorem sessionTurn_awaitResponse (srv : Server σ ε) (a : Authenticator) {h : Handler σ}
    (r : Reading) {s requestID : Bytes} (hphase : h.phase = .awaitResponse s requestID) :
    SessionTurn srv a h r (srv.turn a h r).1 (srv.turn a h r).2.1 := by
  have hopen : h.phase ≠ .closed := by
    rw [hphase]
    intro hclosed
    cases hclosed
  have hopens : srv.opens a h r = openedBy a requestID (srv.callOf h r) := by
    unfold opens
    rw [hphase]
  unfold callOf at hopens
  cases hreceive : (srv.receive h).1 with
  | error err =>
    rw [hphase, hreceive] at hopens
    rw [turn_of_error hopen hreceive]
    exact .unchanged hopens rfl (List.forall_mem_nil _)
  | ok msg =>
    rw [hphase, hreceive] at hopens
    rw [turn_of_ok hopen hreceive, onReceived, phase_receive, hphase]
    dsimp only [onResponse] at hopens ⊢
    by_cases htype : msg.type = typeAuthResponse
    · rw [if_neg (not_not.mpr htype)] at hopens ⊢
      cases hread : srv.env.payloads.unmarshalChallengeResponse msg.payload with
      | error err =>
        rw [hread] at hopens
        exact .unchanged hopens rfl (List.forall_mem_nil _)
      | ok resp =>
        rw [hread] at hopens
        dsimp only at hopens ⊢
        cases hhex : ofHex resp.response with
        | none =>
          rw [hhex] at hopens
          exact .unchanged hopens rfl (List.forall_mem_nil _)
        | some response =>
          rw [hhex] at hopens
          have hsessions := activeSessions_verifyResponse a r.now r.draw s response
          dsimp only [Option.map, openedBy] at hopens ⊢
          rcases hverify : a.verifyResponse r.now r.draw s response with ⟨err | peer, a'⟩
          · rw [hverify] at hopens hsessions
            refine .unchanged hopens hsessions ?_
            rw [audit_deny]
            exact List.forall_mem_singleton.mpr (logsSession_of_denied rfl)
          · rw [hverify] at hopens hsessions
            obtain ⟨hservice, hinsert⟩ := hsessions
            have hfst := congrArg Prod.fst hverify
            obtain ⟨-, nonce, hnonce, rfl⟩ := Authenticator.verifyResponse_eq_ok_iff.mp ⟨peer, hfst⟩
            refine .opened s requestID peer hopens hphase
              ⟨msg, resp, nonce, hreceive, htype, hread, hnonce, hhex, hfst⟩ hservice ?_ hinsert
            dsimp only
            rw [audit_proceed, hservice]
            rfl
    · rw [if_pos htype] at hopens ⊢
      exact .unchanged hopens rfl (List.forall_mem_nil _)

theorem sessionTurn (srv : Server σ ε) (a : Authenticator) (h : Handler σ) (r : Reading) :
    SessionTurn srv a h r (srv.turn a h r).1 (srv.turn a h r).2.1 := by
  have hnone : (∀ s requestID, h.phase ≠ .awaitResponse s requestID) → srv.opens a h r = none := by
    intro hphase
    unfold opens
    split
    · next s requestID heq => exact absurd heq (hphase s requestID)
    · rfl
  cases hphase : h.phase with
  | closed =>
    rw [turn_closed hphase]
    exact .unchanged (hnone (by rw [hphase]; exact nofun)) rfl (List.forall_mem_nil _)
  | serving peer =>
    obtain ⟨hsame, hturn⟩ := srv.turn_serving a r hphase
    refine .unchanged (hnone (by rw [hphase]; exact nofun))
      (congrArg Authenticator.activeSessions hsame) fun e he => ?_
    cases hturn with
    | gone _ _ _ haudit _ =>
      rw [haudit] at he
      cases he
    | expired _ _ haudit _ =>
      rw [haudit] at he
      exact logsSession_of_denied (congrArg Entry.decision (List.mem_singleton.mp he))
    | refused _ _ _ _ haudit _ _ _ =>
      rw [haudit] at he
      exact logsSession_of_denied (congrArg Entry.decision (List.mem_singleton.mp he))
    | dispatched _ _ _ _ _ haudit _ _ =>
      rw [haudit] at he
      exact (result_of_mem_audit he).elim logsSession_of_denied logsSession_of_result
  | awaitAuth =>
    have hopen : h.phase ≠ .closed := by
      rw [hphase]
      intro hclosed
      cases hclosed
    have hopens := hnone (by rw [hphase]; exact nofun)
    cases hreceive : (srv.receive h).1 with
    | error err =>
      rw [turn_of_error hopen hreceive]
      exact .unchanged hopens rfl (List.forall_mem_nil _)
    | ok msg =>
      rw [turn_of_ok hopen hreceive, onReceived, phase_receive, hphase]
      obtain ⟨hsame, haudit⟩ := srv.sessionTurn_onAuth a (srv.receive h).2 r msg
      exact .unchanged hopens hsame haudit
  | awaitResponse s requestID => exact srv.sessionTurn_awaitResponse a r hphase

/-- What the log and the table have to do with the sessions that were opened. -/
structure Recorded (m : Main σ) (sessions : List (Bytes × PeerIdentity)) : Prop where
  audit : m.audit.filter logsSession = sessions.map fun o => sessionEntry o.1 o.2.serviceID
  table : ∀ token peer, m.authenticator.activeSessions.lookup token = some peer →
    peer.sessionToken = token ∧ ∃ requestID, (requestID, peer) ∈ sessions

/-- Where no session is opened, the log has no new entry for one. -/
theorem Recorded.keep {m m' : Main σ} {sessions new : List (Bytes × PeerIdentity)}
    (h : Recorded m sessions) (hnone : new = [])
    (haudit : m'.audit.filter logsSession = m.audit.filter logsSession)
    (htable : ∀ token peer, m'.authenticator.activeSessions.lookup token = some peer →
      m.authenticator.activeSessions.lookup token = some peer) :
    Recorded m' (sessions ++ new) := by
  rw [hnone, List.append_nil]
  exact ⟨haudit.trans h.audit, fun token peer hlookup => h.table token peer
    (htable token peer hlookup)⟩

/-- A session is opened and logged. -/
theorem Recorded.insert {m m' : Main σ} {sessions : List (Bytes × PeerIdentity)}
    (h : Recorded m sessions) {requestID : Bytes} {peer : PeerIdentity}
    (haudit : m'.audit = m.audit ++ [sessionEntry requestID peer.serviceID])
    (hsessions : m'.authenticator.activeSessions
      = m.authenticator.activeSessions.insert peer.sessionToken peer) :
    Recorded m' (sessions ++ [(requestID, peer)]) := by
  refine ⟨?_, fun token peer' hlookup => ?_⟩
  · rw [haudit, List.filter_append, List.map_append, h.audit,
      List.filter_cons_of_pos (logsSession_sessionEntry _ _)]
    rfl
  · rw [hsessions, Finmap.lookup_insert_eq_ite] at hlookup
    split at hlookup
    · next htoken =>
      obtain rfl := Option.some.inj hlookup
      exact ⟨htoken.symm, requestID, List.mem_append_right _ List.mem_cons_self⟩
    · obtain ⟨htoken, requestID', hmem⟩ := h.table token peer' hlookup
      exact ⟨htoken, requestID', List.mem_append_left _ hmem⟩

/-- **One step** records the session that it opens. -/
theorem Recorded.step {m : Main σ} {sessions : List (Bytes × PeerIdentity)}
    (h : Recorded m sessions) (x : Happening) :
    Recorded ((srv.main d).step m x).2 (sessions ++ srv.opened m x) := by
  have hstep := srv.mainStep d m x
  generalize (srv.main d).step m x = out at hstep
  cases hstep with
  | accepted remoteAddr hroom => exact h.keep rfl rfl fun _ _ hlookup => hlookup
  | refused remoteAddr hfull =>
    refine h.keep rfl ?_ fun _ _ hlookup => hlookup
    show (m.audit ++ [limitEntry remoteAddr]).filter logsSession = _
    have hnone : ¬logsSession (limitEntry remoteAddr) = true :=
      Bool.eq_false_iff.mp (logsSession_of_denied rfl)
    rw [List.filter_append, List.filter_cons_of_neg hnone]
    exact List.append_nil _
  | released i seat hseat hended hkept => exact h.keep rfl rfl fun _ _ hlookup => hlookup
  | timedOut i seat hseat => exact h.keep rfl rfl fun _ _ hlookup => hlookup
  | cleaned now =>
    exact h.keep rfl rfl fun _ _ hlookup => (Authenticator.lookup_cleanupExpired.mp hlookup).1
  | idleTurn i r hseat =>
    refine h.keep ?_ rfl fun _ _ hlookup => hlookup
    unfold opened
    dsimp only
    rw [hseat]
  | idleTimeout i hseat => exact h.keep rfl rfl fun _ _ hlookup => hlookup
  | idleRelease i => exact h.keep rfl rfl fun _ _ hlookup => hlookup
  | turn i r seat hseat =>
    have hopened : srv.opened m (.turn i r)
        = (srv.opens m.authenticator seat.handler r).toList := by
      unfold opened
      dsimp only
      rw [hseat]
    cases srv.sessionTurn m.authenticator seat.handler r with
    | unchanged hopens hsessions haudit =>
      have hnone : (srv.turn m.authenticator seat.handler r).1.audit.filter logsSession = [] :=
        List.filter_eq_nil_iff.mpr fun e he => Bool.eq_false_iff.mp (haudit e he)
      refine h.keep (by rw [hopened, hopens]; rfl) ?_ fun token peer hlookup => ?_
      · show (m.audit ++ (srv.turn m.authenticator seat.handler r).1.audit).filter logsSession = _
        rw [List.filter_append, hnone, List.append_nil]
      · rw [← hsessions]
        exact hlookup
    | opened s requestID peer hopens hphase hproves hservice haudit hsessions =>
      rw [hopened, hopens]
      subst hservice
      exact h.insert (congrArg (m.audit ++ ·) haudit) hsessions

/-- A step of the server makes the calls to the health service that can be seen of it. -/
theorem health_step (m : Main σ) (x : Happening) :
    ((srv.main d).step m x).2.health
      = Health.Service.machine.after m.health ((srv.main d).step m x).1.beats := by
  have hstep := srv.mainStep d m x
  generalize (srv.main d).step m x = out at hstep
  cases hstep with
  | _ => rfl

/-- The heartbeats that the server has recorded. -/
def beatsOf (srv : Server σ ε) (d : Deployment σ) (hs : List Happening) : List Health.Beat :=
  ((srv.main d).answers (srv.mainStart d) hs).flatMap Observed.beats

theorem health_reached (srv : Server σ ε) (d : Deployment σ) (hs : List Happening) :
    (srv.mainReached d hs).health
      = Health.Service.machine.after (srv.mainStart d).health (srv.beatsOf d hs) := by
  induction hs using List.reverseRecOn with
  | nil => rfl
  | append_singleton hs x ih =>
    rw [mainReached_concat, health_step, ih, beatsOf, beatsOf, Machine.answers_concat,
      List.flatMap_append, Machine.after_append, List.flatMap_singleton]
    rfl

/-- Only the handler of heartbeats records any. -/
theorem of_mem_heartbeats {env : Env} {now : Instant} {msg : Message Instant} {hb : HeartbeatEvent}
    (h : hb ∈ ((router env).dispatch now msg).heartbeats) :
    msg.type = typeHeartbeat ∧ env.payloads.unmarshalHeartbeat msg.payload = .ok hb := by
  have hcontrolled : ∀ checked logged target result what payload reply,
      (controlled env msg checked logged target result what payload reply).heartbeats = [] := by
    intro checked logged target result what payload reply
    unfold controlled
    split <;> rfl
  rw [dispatch_router] at h
  split_ifs at h with hi hh hc hco
  · unfold handleIntent at h
    split at h
    · cases h
    · rw [hcontrolled] at h
      cases h
  · unfold handleHeartbeat at h
    split at h
    · cases h
    · next hb' hread => exact ⟨hh, (List.mem_singleton.mp h) ▸ hread⟩
  · unfold handleChat at h
    split at h
    · cases h
    · rw [hcontrolled] at h
      cases h
  · unfold handleComplete at h
    split at h
    · cases h
    · rw [hcontrolled] at h
      cases h
  · cases h

theorem exists_dispatched_of_mem_heartbeats {t : Turn ε} {hb : HeartbeatEvent}
    (h : hb ∈ t.heartbeats) :
    ∃ msg handled, t.dispatched = some (msg, handled) ∧ hb ∈ handled.heartbeats := by
  unfold Turn.heartbeats at h
  split at h
  · cases h
  · next msg handled hd => exact ⟨msg, handled, hd, h⟩

/-- A heartbeat that is recorded came in a message of that type, from a peer that is served. -/
theorem exists_of_mem_beats {b : Health.Beat}
    (h : b ∈ ((srv.main d).step (srv.mainReached d hs) (.turn i r)).1.beats) :
    ∃ seat peer msg, (srv.mainReached d hs).seats[i]? = some seat
      ∧ seat.handler.phase = .serving peer ∧ peer.isExpired r.now = false
      ∧ (srv.receive seat.handler).1 = .ok msg ∧ msg.type = typeHeartbeat
      ∧ srv.env.payloads.unmarshalHeartbeat msg.payload = .ok ⟨b.serviceID, b.status⟩
      ∧ b.now = r.stamp := by
  cases hseat : (srv.mainReached d hs).seats[i]? with
  | none =>
    rw [main_turn_of_none hseat] at h
    cases h
  | some seat =>
    rw [observed_turn hseat] at h
    obtain ⟨hb, hmem, rfl⟩ := List.mem_map.mp h
    obtain ⟨msg, handled, hd, hmem⟩ := exists_dispatched_of_mem_heartbeats hmem
    obtain ⟨peer, hphase⟩ := exists_serving_of_dispatched (hd ▸ Option.some_ne_none _)
    obtain ⟨-, hloop⟩ := srv.turn_serving (srv.mainReached d hs).authenticator r hphase
    obtain ⟨hreceive, hexpired, -, rfl, -⟩ := hloop.of_dispatched hd
    obtain ⟨htype, hread⟩ := of_mem_heartbeats hmem
    exact ⟨seat, peer, msg, rfl, hphase, hexpired, hreceive, htype, hread, rfl⟩

/-- **Who is alive.** In every run of the server, a service is alive exactly if the last
heartbeat that named it was recorded no longer than fifteen seconds ago; and every heartbeat
that was recorded came from a peer whose session had not expired. Which service it names is up
to the peer. -/
theorem main_isAlive_iff (srv : Server σ ε) (d : Deployment σ) (hs : List Happening)
    (now : Instant) (s : Bytes) :
    ((srv.mainReached d hs).health.isAlive now s = true ↔
        Since (fun b : Health.Beat => b.serviceID = s ∧ Instant.since now b.now ≤ 15000000000)
          (fun b => b.serviceID = s) (srv.beatsOf d hs))
      ∧ ((srv.mainReached d hs).health.isAlive now s = true ↔
        Since (fun b : Health.Beat => b.serviceID = s ∧ now - b.now ≤ 15000000000)
          (fun b => b.serviceID = s) (srv.beatsOf d hs))
      ∧ ∀ b ∈ srv.beatsOf d hs, ∃ hs₁ i r hs₂ seat peer msg, hs = hs₁ ++ .turn i r :: hs₂
        ∧ (srv.mainReached d hs₁).seats[i]? = some seat
        ∧ seat.handler.phase = .serving peer ∧ peer.isExpired r.now = false
        ∧ (srv.receive seat.handler).1 = .ok msg ∧ msg.type = typeHeartbeat
        ∧ srv.env.payloads.unmarshalHeartbeat msg.payload = .ok ⟨b.serviceID, b.status⟩
        ∧ b.now = r.stamp := by
  refine ⟨?_, ?_, ?_⟩
  · rw [health_reached, Health.Service.isAlive_after_iff rfl]
    rfl
  · have htimeout : (srv.mainStart d).health.timeout.toInt < 2 ^ 63 - 1 := by
      show (15000000000 : Int64).toInt < 2 ^ 63 - 1
      decide
    rw [health_reached, Health.Service.isAlive_after_iff_sub_le rfl htimeout]
    rfl
  · intro b hb
    obtain ⟨o, ho, hb⟩ := List.mem_flatMap.mp hb
    obtain ⟨l₁, l₂, hl⟩ := List.append_of_mem ho
    obtain ⟨hs₁, x, hs₂, rfl, -, rfl⟩ := Machine.exists_of_answers_eq hl
    cases x with
    | turn i r =>
      obtain ⟨seat, peer, msg, hrest⟩ := exists_of_mem_beats hb
      exact ⟨hs₁, i, r, hs₂, seat, peer, msg, rfl, hrest⟩
    | accept remoteAddr =>
      have hstep := srv.mainStep d ((srv.main d).after (srv.mainStart d) hs₁) (.accept remoteAddr)
      generalize (srv.main d).step _ _ = out at hstep hb
      cases hstep <;> cases hb
    | timeout i =>
      have hstep := srv.mainStep d ((srv.main d).after (srv.mainStart d) hs₁) (.timeout i)
      generalize (srv.main d).step _ _ = out at hstep hb
      cases hstep <;> cases hb
    | release i =>
      have hstep := srv.mainStep d ((srv.main d).after (srv.mainStart d) hs₁) (.release i)
      generalize (srv.main d).step _ _ = out at hstep hb
      cases hstep <;> cases hb
    | cleanup now => cases hb

end Server

end EipcServer
