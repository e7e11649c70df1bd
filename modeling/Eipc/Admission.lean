import Eipc.HandleConnection

/-!
# Who gets a message dispatched

The message loop of `handleConnection` is only reached through the handshake
(`EipcServer.Server.phase_invariant`), so a message is dispatched only on behalf of a
peer that has proved to know the secret. How long that is good for is decided by the
peer's own record, which the loop keeps: the session's lifetime counts, and the
session table does not. A session that was revoked goes on being served
(`EipcServer.Server.dispatched_only_if_unexpired`).
-/

open Bytes MessageType Audit Endpoint

namespace EipcServer

namespace Server

variable {σ ε : Type} {srv : Server σ ε} {a : Authenticator} {h : Handler σ} {r : Reading}
  {msg : Message Instant} {peer : PeerIdentity}

/-! ## The handshake comes first -/

/-- There is no turn among the moves, and the timer has not fired. -/
def Quiet (moves : List Move) : Prop := ∀ i ∈ moves, ∃ call, i = .call call

section Run

variable (srv) (s₀ : σ)

/-- A new connection, and a new authenticator. Whatever happens before the first turn
is part of the run. -/
def start : State σ :=
  ⟨Authenticator.new srv.secret srv.known, Handler.new srv.codec srv.hmacKey s₀⟩

/-- The state after the moves. -/
def reached (moves : List Move) : State σ := srv.machine.after (srv.start s₀) moves

/-- The first message of the connection asked for the service `s`, which is known, and
no other message came since. -/
def Requested (moves : List Move) (s : Bytes) : Prop :=
  ∃ moves₁ r moves₂, moves = moves₁ ++ .turn r :: moves₂ ∧ Quiet moves₁ ∧ Quiet moves₂
    ∧ srv.Requests (srv.reached s₀ moves₁).handler s ∧ s ∈ srv.known

/-- The peer has a session, and is served. -/
def Seated (st : State σ) (peer : PeerIdentity) : Prop :=
  st.authenticator.activeSessions.lookup peer.sessionToken = some peer
    ∧ st.handler.phase = .serving peer

/-- The first message of the connection asked for the service `s`, the second one
proved the knowledge of the secret, and `peer` was admitted; `later` is what happened
since. -/
def Admitted (moves : List Move) (s : Bytes) (peer : PeerIdentity) (later : List Move) : Prop :=
  ∃ moves₁ r, moves = moves₁ ++ .turn r :: later ∧ srv.Requested s₀ moves₁ s
    ∧ srv.Proves srv.secret (srv.reached s₀ moves₁) r s peer
    ∧ Seated (srv.reached s₀ (moves₁ ++ [.turn r])) peer

variable {srv s₀} {moves : List Move} {s : Bytes} {later : List Move}

theorem reached_concat (moves : List Move) (i : Move) :
    srv.reached s₀ (moves ++ [i]) = (srv.machine.step (srv.reached s₀ moves) i).2 :=
  Machine.after_concat _ _ _

theorem Quiet.concat (h : Quiet moves) (call : Authenticator.Call) :
    Quiet (moves ++ [.call call]) :=
  List.forall_mem_append.mpr ⟨h, List.forall_mem_singleton.mpr ⟨call, rfl⟩⟩

theorem Requested.concat (h : srv.Requested s₀ moves s) (call : Authenticator.Call) :
    srv.Requested s₀ (moves ++ [.call call]) s := by
  obtain ⟨moves₁, r, moves₂, rfl, hquiet₁, hquiet₂, h⟩ := h
  exact ⟨moves₁, r, moves₂ ++ [.call call], List.append_assoc _ _ _, hquiet₁,
    hquiet₂.concat call, h⟩

theorem Admitted.concat (h : srv.Admitted s₀ moves s peer later) (i : Move) :
    srv.Admitted s₀ (moves ++ [i]) s peer (later ++ [i]) := by
  obtain ⟨moves₁, r, rfl, h⟩ := h
  exact ⟨moves₁, r, List.append_assoc _ _ _, h⟩

/-- What a move does to the authenticator is a call, or nothing. -/
theorem authenticator_step (srv : Server σ ε) (st : State σ) (i : Move) :
    (srv.machine.step st i).2.authenticator = st.authenticator
      ∨ ∃ call, (srv.machine.step st i).2.authenticator = (st.authenticator.perform call).2 := by
  cases i with
  | call call => exact .inr ⟨call, rfl⟩
  | timeout => exact .inl rfl
  | turn r =>
    show (srv.turn st.authenticator st.handler r).2.1 = _
      ∨ ∃ call, (srv.turn st.authenticator st.handler r).2.1 = _
    cases hphase : st.handler.phase with
    | awaitAuth =>
      exact (turn_awaitAuth _ r hphase).2.1.imp_right fun ⟨s, h⟩ => ⟨_, h⟩
    | awaitResponse s requestID =>
      exact (turn_awaitResponse _ r hphase).2.1.imp_right fun ⟨response, h⟩ => ⟨_, h⟩
    | serving peer => exact .inl (srv.turn_serving _ r hphase).1
    | closed =>
      rw [turn_closed hphase]
      exact .inl rfl

/-- The authenticator keeps its services and its secret. -/
theorem serves_reached (srv : Server σ ε) (s₀ : σ) (moves : List Move) :
    Authenticator.Serves srv.known (srv.reached s₀ moves).authenticator
      ∧ (srv.reached s₀ moves).authenticator.sharedSecret = srv.secret := by
  refine Machine.after_invariant (I := fun st : State σ =>
    Authenticator.Serves srv.known st.authenticator ∧ st.authenticator.sharedSecret = srv.secret)
    (fun st i h => ?_) ⟨Authenticator.serves_new srv.secret srv.known, rfl⟩ moves
  rcases srv.authenticator_step st i with heq | ⟨call, heq⟩
  · rw [heq]
    exact h
  · rw [heq]
    exact ⟨Authenticator.serves_step st.authenticator ((), call) h.1,
      (Authenticator.sharedSecret_step st.authenticator ((), call)).trans h.2⟩

/-- What is behind a handler that waits, after the moves. -/
def Behind (srv : Server σ ε) (s₀ : σ) (moves : List Move) (h : Handler σ) : Prop :=
  match h.phase with
  | .awaitAuth => Quiet moves
  | .awaitResponse s _ => srv.Requested s₀ moves s
  | .serving peer =>
    (∃ later, srv.Admitted s₀ moves peer.serviceID peer later)
      ∧ srv.known.lookup peer.serviceID = some peer.capabilities
      ∧ h.endpoint.peerCapabilities = peer.capabilities
  | .closed => True

theorem Behind.call (hbehind : Behind srv s₀ moves h) (call : Authenticator.Call) :
    Behind srv s₀ (moves ++ [.call call]) h := by
  unfold Behind at hbehind ⊢
  cases hphase : h.phase with
  | awaitAuth =>
    rw [hphase] at hbehind
    exact hbehind.concat call
  | awaitResponse s requestID =>
    rw [hphase] at hbehind
    exact hbehind.concat call
  | serving peer =>
    rw [hphase] at hbehind
    obtain ⟨⟨later, hadmitted⟩, hcaps⟩ := hbehind
    exact ⟨⟨later ++ [.call call], hadmitted.concat _⟩, hcaps⟩
  | closed => trivial

theorem Behind.timeout (hbehind : Behind srv s₀ moves h) :
    Behind srv s₀ (moves ++ [.timeout]) h.timeout := by
  unfold Behind at hbehind
  unfold Behind Handler.timeout
  cases hphase : h.phase with
  | awaitAuth => trivial
  | awaitResponse s requestID => trivial
  | serving peer =>
    rw [hphase] at hbehind
    dsimp only
    rw [hphase]
    obtain ⟨⟨later, hadmitted⟩, hcaps⟩ := hbehind
    exact ⟨⟨later ++ [.timeout], hadmitted.concat _⟩, hcaps⟩
  | closed =>
    dsimp only
    rw [hphase]
    trivial

/-- **One turn**, and what is behind the handler after it. -/
theorem Behind.turn (hbehind : Behind srv s₀ moves (srv.reached s₀ moves).handler) (r : Reading) :
    Behind srv s₀ (moves ++ [.turn r]) (srv.reached s₀ (moves ++ [.turn r])).handler := by
  obtain ⟨hserves, hsecret⟩ := srv.serves_reached s₀ moves
  have hnext : srv.reached s₀ (moves ++ [.turn r]) = _ := reached_concat moves (.turn r)
  unfold Behind at hbehind ⊢
  generalize hst : srv.reached s₀ moves = st at hbehind hserves hsecret hnext
  cases hphase : st.handler.phase with
  | awaitAuth =>
    rw [hphase] at hbehind
    rcases (turn_awaitAuth st.authenticator r hphase).2.2 with
      hclosed | ⟨s, requestID, hrequests, hknown, hwaits⟩
    · rw [hnext, show (srv.machine.step st (.turn r)).2.handler.phase = .closed from hclosed]
      trivial
    · rw [hnext, show (srv.machine.step st (.turn r)).2.handler.phase = _ from hwaits]
      exact ⟨moves, r, [], rfl, hbehind, fun i hi => absurd hi List.not_mem_nil,
        by rw [hst]; exact hrequests, hserves.services ▸ hknown⟩
  | awaitResponse s requestID =>
    rw [hphase] at hbehind
    rcases (turn_awaitResponse st.authenticator r hphase).2.2 with
      hclosed | ⟨peer, hproves, hlookup, hserving, hcaps⟩
    · rw [hnext, show (srv.machine.step st (.turn r)).2.handler.phase = .closed from hclosed]
      trivial
    · have hseated : Seated (srv.reached s₀ (moves ++ [.turn r])) peer := by
        rw [hnext]
        exact ⟨hlookup, hserving⟩
      rw [hseated.2]
      have hproves' : srv.Proves srv.secret (srv.reached s₀ moves) r s peer := by
        rw [hst, ← hsecret]
        exact hproves
      -- the peer that is admitted is the one of the request
      obtain ⟨_, _, _, _, _, _, _, _, hverify⟩ := hproves
      obtain ⟨rfl, -, hgranted, -⟩ := hserves.verifyResponse hverify
      refine ⟨⟨[], moves, r, rfl, hbehind, hproves', hseated⟩, hgranted, ?_⟩
      rw [hnext]
      exact hcaps
  | serving peer =>
    rw [hphase] at hbehind
    obtain ⟨⟨later, hadmitted⟩, hlookup, hcaps⟩ := hbehind
    have hloops : Loops peer (srv.reached s₀ (moves ++ [.turn r])).handler := by
      rw [hnext]
      exact (srv.loops_turn st.authenticator r (.inr ⟨hphase, hcaps⟩)).2
    rcases hloops with hclosed | ⟨hsame, hkeep⟩
    · rw [hclosed]
      trivial
    · rw [hsame]
      exact ⟨⟨later ++ [.turn r], hadmitted.concat _⟩, hlookup, hkeep⟩
  | closed =>
    have hclosed : (srv.machine.step st (.turn r)).2.handler.phase = .closed := by
      show (srv.turn st.authenticator st.handler r).2.2.phase = _
      rw [turn_closed hphase]
      exact hphase
    rw [hnext, hclosed]
    trivial

/-- **The message loop is reached through the handshake only.** -/
theorem phase_invariant (srv : Server σ ε) (s₀ : σ) (moves : List Move) :
    Behind srv s₀ moves (srv.reached s₀ moves).handler := by
  induction moves using List.reverseRecOn with
  | nil => exact fun i hi => absurd hi List.not_mem_nil
  | append_singleton moves i ih =>
    cases i with
    | call call =>
      rw [reached_concat]
      exact ih.call call
    | turn r => exact ih.turn r
    | timeout =>
      rw [reached_concat]
      exact ih.timeout

/-- A handler that serves a peer does so in the message loop. -/
theorem loops_reached (hphase : (srv.reached s₀ moves).handler.phase = .serving peer) :
    Loops peer (srv.reached s₀ moves).handler := by
  have hbehind := srv.phase_invariant s₀ moves
  unfold Behind at hbehind
  rw [hphase] at hbehind
  exact .inr ⟨hphase, hbehind.2.2⟩

/-- What is behind a turn that dispatches: a peer that was admitted, and a turn of the
message loop. -/
theorem loopTurn_of_dispatched {handled : Handled}
    (hd : (srv.turn (srv.reached s₀ moves).authenticator (srv.reached s₀ moves).handler
      r).1.dispatched = some (msg, handled)) :
    ∃ peer later, srv.Admitted s₀ moves peer.serviceID peer later
      ∧ srv.known.lookup peer.serviceID = some peer.capabilities
      ∧ (srv.reached s₀ moves).handler.phase = .serving peer
      ∧ (srv.reached s₀ moves).handler.endpoint.peerCapabilities = peer.capabilities
      ∧ LoopTurn srv (srv.reached s₀ moves).handler r peer
        (srv.turn (srv.reached s₀ moves).authenticator (srv.reached s₀ moves).handler r).1
        (srv.turn (srv.reached s₀ moves).authenticator (srv.reached s₀ moves).handler r).2.2 := by
  have hbehind := srv.phase_invariant s₀ moves
  generalize srv.reached s₀ moves = st at hd hbehind ⊢
  obtain ⟨peer, hphase⟩ := exists_serving_of_dispatched (h := st.handler) (r := r)
    (a := st.authenticator) (by rw [hd]; exact Option.some_ne_none _)
  unfold Behind at hbehind
  rw [hphase] at hbehind
  obtain ⟨⟨later, hadmitted⟩, hlookup, hcaps⟩ := hbehind
  exact ⟨peer, later, hadmitted, hlookup, hphase, hcaps,
    (srv.turn_serving st.authenticator r hphase).2⟩

/-- The handshake goes on. -/
def Advances (h h' : Handler σ) : Prop :=
  (h.phase = .awaitAuth ∧ ∃ s requestID, h'.phase = .awaitResponse s requestID)
    ∨ ∃ s requestID peer, h.phase = .awaitResponse s requestID ∧ h'.phase = .serving peer

/-- A turn that dispatches nothing ends the connection, goes on with the handshake, or
answers with an error and goes on with the loop. -/
theorem of_not_dispatched {a : Authenticator} (hd : (srv.turn a h r).1.dispatched = none) :
    (srv.turn a h r).2.2.phase = .closed ∨ Advances h (srv.turn a h r).2.2
      ∨ ∃ msg peer, (srv.receive h).1 = .ok msg ∧ srv.AnsweredWithError msg (srv.turn a h r).1
        ∧ h.phase = .serving peer ∧ (srv.turn a h r).2.2.phase = .serving peer := by
  cases hphase : h.phase with
  | awaitAuth =>
    rcases (turn_awaitAuth a r hphase).2.2 with hclosed | ⟨s, requestID, -, -, hnext⟩
    · exact .inl hclosed
    · exact .inr (.inl (.inl ⟨hphase, s, requestID, hnext⟩))
  | awaitResponse s requestID =>
    rcases (turn_awaitResponse a r hphase).2.2 with hclosed | ⟨peer, -, -, hnext, -⟩
    · exact .inl hclosed
    · exact .inr (.inl (.inr ⟨s, requestID, peer, hphase, hnext⟩))
  | serving peer =>
    cases (srv.turn_serving a r hphase).2 with
    | gone _ _ _ _ hclosed => exact .inl hclosed
    | expired _ _ _ hclosed => exact .inl hclosed
    | refused msg hreceive _ _ _ hsame _ hanswer =>
      exact .inr (.inr ⟨msg, peer, hreceive, hanswer, rfl, hsame⟩)
    | dispatched msg _ _ _ hsome _ _ _ => exact (nomatch hsome.symm.trans hd)
  | closed =>
    rw [turn_closed hphase]
    exact .inl hphase

end Run

end Server

/-! ## A peer that follows a script -/

/-- What a peer does: the frames it sends, and how many frames it takes before it
stops. -/
structure Script where
  frames : List Frame
  room : ℕ

namespace Script

/-- The connection to such a peer. -/
def conn : Connection Script String where
  send s _ :=
    match s.room with
    | 0 => (.error "broken pipe", s)
    | room + 1 => (.ok (), { s with room })
  receive s :=
    match s.frames with
    | [] => (.error "EOF", s)
    | frame :: frames => (.ok frame, { s with frames })

/-- The layout, for programs that format no other time than zero. -/
def zeroTime : TimeFormat Instant where
  zero := 0
  format _ := TimeFormat.zeroText
  parse b := if b = TimeFormat.zeroText then some 0 else none

/-- The server of `main`, for such peers. -/
def server : Server Script String where
  env :=
    { payloads := .json
      quote := fun s => "\"" ++ String.ofList (s.map fun b => Char.ofNat b.toNat) ++ "\"" }
  codec := .json
  hmacKey := ascii "secret"
  secret := ascii "secret"
  known := knownServices
  tf := zeroTime
  conn := conn

/-- The frame that a client sends for a message. -/
def frameFor (seq : UInt64) (msg : Message Instant) : Frame :=
  signFrame server.hmacKey (frameOf (Json.writeObject (headerOf zeroTime seq msg).members) msg)

/-- Messages that arrive as they are sent. -/
structure Sendable (msg : Message Instant) : Prop where
  version : msg.version = 1
  type : msg.type ∈ declared
  source : Json.ValidUTF8 msg.source
  timestamp : msg.timestamp = 0
  sessionID : Json.ValidUTF8 msg.sessionID
  requestID : Json.ValidUTF8 msg.requestID
  capability : Json.ValidUTF8 msg.capability

/-- The handler of such a connection. -/
def handler (replay : Tracker) (seq : UInt64) (caps : List Bytes) (s : Script) (phase : Phase) :
    Handler Script :=
  ⟨⟨.json, server.hmacKey, replay, seq, caps⟩, s, phase⟩

variable {replay : Tracker} {seq n : UInt64} {caps : List Bytes} {frames : List Frame} {room : ℕ}
  {phase : Phase} {msg : Message Instant}

theorem openFrame_frameFor (hmsg : Sendable msg) :
    openFrame (ε := String) .json server.hmacKey (frameFor n msg)
      = .ok (headerOf zeroTime n msg) := by
  have hvalid : (headerOf zeroTime n msg).ValidUTF8 :=
    ⟨hmsg.source, hmsg.sessionID, hmsg.requestID, Json.validUTF8_of_ascii rfl, hmsg.capability,
      Json.validUTF8_nil⟩
  exact openFrame_eq_ok_iff.mpr
    ⟨fun _ => mac_signFrame server.hmacKey _, Codec.json_undoes _ _ hvalid rfl⟩

theorem messageOf_frameFor (hmsg : Sendable msg) :
    messageOf zeroTime (frameFor n msg) (headerOf zeroTime n msg) = msg := by
  obtain ⟨version, type, source, timestamp, sessionID, requestID, priority, capability, payload⟩
    := msg
  obtain ⟨rfl, htype, -, rfl, -, -, -⟩ := hmsg
  show Message.mk 1 (msgTypeFromByte (msgTypeToByte type)) _ _ _ _ _ _ _ = _
  rw [msgTypeFromByte_msgTypeToByte type htype]
  rfl

/-- A message with a new number is received as it was sent. -/
theorem receive_frameFor (hmsg : Sendable msg) (hseq : n > replay.maxSeen) :
    server.receive (handler replay seq caps ⟨frameFor n msg :: frames, room⟩ phase)
      = (.ok msg, handler (replay.check n).2 seq caps ⟨frames, room⟩ phase) := by
  have hreceive := server.receive_of_openFrame
    (handler replay seq caps ⟨frameFor n msg :: frames, room⟩ phase) (frameFor n msg)
    (s := ⟨frames, room⟩) rfl (openFrame_frameFor hmsg) hseq
  rw [show server.tf = zeroTime from rfl, messageOf_frameFor hmsg] at hreceive
  exact hreceive

/-- What is sent is taken as long as there is room. -/
theorem send_room :
    server.send (handler replay seq caps ⟨frames, room + 1⟩ phase) msg
      = (.ok (), handler replay (seq + 1) caps ⟨frames, room⟩ phase) := rfl

/-- Then it is not. -/
theorem send_no_room :
    server.send (handler replay seq caps ⟨frames, 0⟩ phase) msg
      = (.error (.conn "broken pipe"), handler replay (seq + 1) caps ⟨frames, 0⟩ phase) := rfl

/-- A turn that receives such a message. -/
theorem turn_frameFor {a : Authenticator} {r : Reading} (hmsg : Sendable msg)
    (hseq : n > replay.maxSeen) (hphase : phase ≠ .closed) :
    server.turn a (handler replay seq caps ⟨frameFor n msg :: frames, room⟩ phase) r
      = server.onReceived a (handler (replay.check n).2 seq caps ⟨frames, room⟩ phase) r msg := by
  have hreceive : server.receive (handler replay seq caps ⟨frameFor n msg :: frames, room⟩ phase)
      = _ := receive_frameFor hmsg hseq
  rw [Server.turn_of_ok (h := handler replay seq caps ⟨frameFor n msg :: frames, room⟩ phase) hphase
    (by rw [hreceive]), hreceive]

/-- The service that connects. -/
def service : Bytes := ascii "ail.min.agent"

/-- Its request. -/
def authMessage : Message Instant :=
  .newMessage 0 typeAuth service (Json.writeObject [(ascii "service_id", .str service)])

/-- Its response to the challenge. -/
def responseMessage (response : Bytes) : Message Instant :=
  .newMessage 0 typeAuthResponse service
    (Json.writeObject [(ascii "service_id", .str service),
      (ascii "response", .str (toHex response))])

theorem validUTF8_service : Json.ValidUTF8 service := Json.validUTF8_of_ascii rfl

theorem sendable_authMessage : Sendable authMessage :=
  ⟨rfl, by decide, validUTF8_service, rfl, Json.validUTF8_nil, Json.validUTF8_nil,
    Json.validUTF8_nil⟩

theorem sendable_responseMessage (response : Bytes) : Sendable (responseMessage response) :=
  have htype : typeAuthResponse ∈ declared := by decide
  ⟨rfl, htype, validUTF8_service, rfl, Json.validUTF8_nil, Json.validUTF8_nil, Json.validUTF8_nil⟩

/-- Where there is room, the handshake goes on. -/
theorem proceed_room {stamp : Instant} {type : MessageType} {q payload : Bytes} {next : Phase}
    {t : Turn String} :
    (server.proceed (handler replay seq caps ⟨frames, room + 1⟩ phase) stamp type q
      (.ok payload) next
      t).2 = handler replay (seq + 1) caps ⟨frames, room⟩ next := by
  unfold Server.proceed
  dsimp only
  rw [send_room]
  rfl

/-- The first turn. -/
theorem turn_authMessage {a : Authenticator} {now stamp : Instant}
    {nonce : { b : Bytes // b.length = 32 }} (hknown : service ∈ a.knownServices)
    (hseq : n > replay.maxSeen) :
    (server.turn a (handler replay seq caps ⟨frameFor n authMessage :: frames, room + 1⟩ .awaitAuth)
        ⟨now, stamp, .ok nonce⟩).2
      = ({ a with pendingChallenges := a.pendingChallenges.insert service ⟨service, nonce, now⟩ },
        handler (replay.check n).2 (seq + 1) caps ⟨frames, room⟩ (.awaitResponse service [])) := by
  have hopen : Phase.awaitAuth ≠ .closed := fun h => (nomatch h)
  have htype : authMessage.type = typeAuth := rfl
  have hread : server.env.payloads.unmarshalAuthRequest authMessage.payload = .ok ⟨service⟩ :=
    PayloadCodec.unmarshalAuthRequest_writeObject validUTF8_service
  rw [turn_frameFor sendable_authMessage hseq hopen]
  show (server.onAuth _ _ _ _).2 = _
  unfold Server.onAuth
  dsimp only
  rw [if_neg (not_not.mpr htype), hread]
  dsimp only
  unfold Authenticator.createChallenge
  rw [if_neg (not_not.mpr hknown)]
  exact congrArg (Prod.mk _) proceed_room

/-- The second turn. -/
theorem turn_responseMessage {a a' : Authenticator} {now stamp : Instant} {draw : Draw}
    {response q : Bytes} {peer : PeerIdentity}
    (hverify : a.verifyResponse now draw service response = (.ok peer, a'))
    (hseq : n > replay.maxSeen) :
    (server.turn a (handler replay seq caps
      ⟨frameFor n (responseMessage response) :: frames, room + 1⟩
        (.awaitResponse service q)) ⟨now, stamp, draw⟩).2
      = (a', handler (replay.check n).2 (seq + 1) peer.capabilities ⟨frames, room⟩
        (.serving peer)) := by
  have hopen : Phase.awaitResponse service q ≠ .closed := fun h => (nomatch h)
  have htype : (responseMessage response).type = typeAuthResponse := rfl
  have hread : server.env.payloads.unmarshalChallengeResponse (responseMessage response).payload
      = .ok ⟨service, toHex response⟩ :=
    PayloadCodec.unmarshalChallengeResponse_writeObject validUTF8_service
      (Json.validUTF8_of_ascii (all_toHex_lt _))
  rw [turn_frameFor (sendable_responseMessage response) hseq hopen]
  show (server.onResponse _ _ _ _ _ _).2 = _
  unfold Server.onResponse
  dsimp only
  rw [if_neg (not_not.mpr htype), hread]
  dsimp only
  rw [ofHex_toHex]
  dsimp only
  rw [hverify]
  exact congrArg (Prod.mk a') proceed_room

/-- The nonce of the challenge. -/
def nonce : Bytes := List.replicate 32 1

/-- The peer after the handshake. -/
def agent : PeerIdentity where
  serviceID := service
  capabilities := [ascii "ui:control"]
  sessionToken := toHex (List.replicate 32 2)
  createdAt := 0
  sessionTTL := 3600000000000

/-- What the third turn takes from outside. -/
def third : Reading := ⟨1, 1, .error "no entropy"⟩

theorem isExpired_agent : agent.isExpired third.now = false := by decide +kernel

/-- The script of a peer that authenticates, sends one message, and takes `room`
answers to it. -/
def sending (msg : Message Instant) (room : ℕ) : Script where
  frames := [frameFor 1 authMessage, frameFor 2 (responseMessage (hmacSha256 server.secret nonce)),
    frameFor 3 msg]
  room := room + 2

/-- The handshake. -/
def handshake : List Move :=
  [.turn ⟨0, 0, Authenticator.constantDraw 1⟩, .turn ⟨0, 0, Authenticator.constantDraw 2⟩]

/-- The numbers of the handshake have been seen. -/
def tracker : Tracker := (((Tracker.new 0).check 1).2.check 2).2

/-- The authenticator after the request. -/
def challenged : Authenticator :=
  { Authenticator.new server.secret knownServices with
    pendingChallenges := Finmap.insert service ⟨service, nonce, 0⟩ ∅ }

/-- The authenticator after the handshake. -/
def authenticator : Authenticator :=
  { challenged with
    activeSessions := Finmap.insert agent.sessionToken agent ∅
    pendingChallenges := challenged.pendingChallenges.erase service }

/-- A turn as a step of the run. -/
theorem step_turn {st : State Script} {r : Reading} {a : Authenticator} {h : Handler Script}
    (hturn : (server.turn st.authenticator st.handler r).2 = (a, h)) :
    (server.machine.step st (.turn r)).2 = ⟨a, h⟩ :=
  congrArg (fun out : Authenticator × Handler Script => State.mk out.1 out.2) hturn

/-- **The handshake succeeds.** -/
theorem reached_handshake (msg : Message Instant) (room : ℕ) :
    server.reached (sending msg room) handshake
      = ⟨authenticator, handler tracker 2 agent.capabilities ⟨[frameFor 3 msg], room⟩
        (.serving agent)⟩ := by
  have hknown : service ∈ knownServices := by decide +kernel
  have hgranted : challenged.knownServices.lookup service = some [ascii "ui:control"] := by
    decide +kernel
  have hfresh : (2 : UInt64) > ((Tracker.new 0).check 1).2.maxSeen := by decide +kernel
  have hverify : challenged.verifyResponse 0 (Authenticator.constantDraw 2) service
      (hmacSha256 server.secret nonce) = (.ok agent, authenticator) := by
    refine (Authenticator.verifyResponse_of_pending (a := challenged) (Finmap.lookup_insert _) 0
      _).trans ?_
    unfold Authenticator.openSession Authenticator.constantDraw
    dsimp only
    rw [hgranted]
    rfl
  have hfirst : (server.machine.step (server.start (sending msg room))
      (.turn ⟨0, 0, Authenticator.constantDraw 1⟩)).2
        = ⟨challenged, handler ((Tracker.new 0).check 1).2 1 [] _ (.awaitResponse service [])⟩ :=
    step_turn (turn_authMessage hknown (by decide))
  unfold Server.reached handshake
  rw [Machine.after_cons, hfirst, Machine.after_cons, Machine.after_nil]
  refine step_turn ?_
  exact turn_responseMessage hverify hfresh

/-- A call from elsewhere after the handshake. -/
theorem reached_call (msg : Message Instant) (room : ℕ) (call : Authenticator.Call) :
    server.reached (sending msg room) (handshake ++ [.call call])
      = ⟨(authenticator.perform call).2, handler tracker 2 agent.capabilities
        ⟨[frameFor 3 msg], room⟩ (.serving agent)⟩ := by
  rw [Server.reached_concat, reached_handshake]
  rfl

theorem handler_handshake (msg : Message Instant) (room : ℕ) :
    (server.reached (sending msg room) handshake).handler
      = handler tracker 2 agent.capabilities ⟨[frameFor 3 msg], room⟩ (.serving agent) := by
  rw [reached_handshake]

/-- Without room, an error is not answered. -/
theorem answerError_no_room (stamp : Instant) (msg : Message Instant) (text : String)
    (t : Turn String) :
    ∃ ack, server.answerError (handler replay seq caps ⟨frames, 0⟩ phase) stamp msg text t
      = ({ t with sent := some (ack, .error (.conn "broken pipe")) },
        handler replay (seq + 1) caps ⟨frames, 0⟩ phase) := by
  obtain ⟨payload, hpayload⟩ : ∃ payload, server.env.payloads.marshalAck
    ⟨msg.requestID, ascii "error", utf8 text⟩ = .ok payload := ⟨_, rfl⟩
  refine ⟨reply stamp msg typeAck Message.priorityP0 payload, ?_⟩
  unfold Server.answerError
  rw [hpayload]
  dsimp only
  rw [send_no_room]

/-- An intent. -/
def intentMessage (source capability intent : Bytes) : Message Instant :=
  { Message.newMessage 0 typeIntent source
      (Json.writeObject [(ascii "intent", .str intent), (ascii "session_id", .str [])]) with
    capability }

theorem sendable_intentMessage {source capability : Bytes} (intent : Bytes)
    (hsource : Json.ValidUTF8 source) (hcap : Json.ValidUTF8 capability) :
    Sendable (intentMessage source capability intent) :=
  have htype : typeIntent ∈ declared := by decide
  ⟨rfl, htype, hsource, rfl, Json.validUTF8_nil, Json.validUTF8_nil, hcap⟩

/-- The message asks for the intent, with the capability of the agent. -/
structure Controls (source intent : Bytes) (msg : Message Instant) : Prop where
  sendable : Sendable msg
  source : msg.source = source
  type : msg.type = typeIntent
  capability : msg.capability = ascii "ui:control"
  read : server.env.payloads.unmarshalIntent msg.payload = .ok ⟨intent, []⟩

theorem controls_intentMessage {source intent : Bytes} (hsource : Json.ValidUTF8 source)
    (hintent : Json.ValidUTF8 intent) :
    Controls source intent (intentMessage source (ascii "ui:control") intent) where
  sendable := sendable_intentMessage intent hsource (Json.validUTF8_of_ascii rfl)
  source := rfl
  type := rfl
  capability := rfl
  read := PayloadCodec.unmarshalIntent_writeObject hintent Json.validUTF8_nil

/-- The handler lets it through. -/
theorem Controls.check {source intent : Bytes} (hmsg : Controls source intent msg) :
    capChecker.check [msg.capability] (ascii "ui.cursor.move") = .ok () := by
  rw [hmsg.capability]
  decide +kernel

/-- The agent asks for a click. -/
def click : Message Instant := intentMessage service (ascii "ui:control") (ascii "ui.click")

theorem controls_click : Controls service (ascii "ui.click") click :=
  controls_intentMessage validUTF8_service (Json.validUTF8_of_ascii rfl)

section Third

variable {st : State Script} {r : Reading}
  (hst : st.handler
    = handler tracker 2 agent.capabilities ⟨[frameFor 3 msg], room⟩ (.serving agent))

include hst

/-- What is done with the message, if the capability is the agent's. -/
theorem Controls.dispatched {source intent : Bytes} (hmsg : Controls source intent msg) :
    let out := server.turn st.authenticator st.handler third
    out.1.dispatched = some (msg, (router server.env).dispatch third.stamp msg)
      ∧ out.1.audit = ((router server.env).dispatch third.stamp msg).audit := by
  have hfresh : (3 : UInt64) > tracker.maxSeen := by decide +kernel
  have hserving : st.handler.phase = .serving agent := by
    rw [hst]
    rfl
  refine (server.turn_serving st.authenticator third hserving).2.dispatched_of_granted ?_
    isExpired_agent (.inr ?_)
  · rw [hst, receive_frameFor hmsg.sendable hfresh]
  · rw [hst, hmsg.capability]
    exact List.mem_singleton_self _

/-- It is the only message of the turn. -/
theorem Controls.eq_of_dispatched {source intent : Bytes} (hmsg : Controls source intent msg)
    {t : Turn String} {m : Message Instant} {handled : Handled}
    (ht : .turn t ∈ server.machine.answers st [.turn third])
    (hd : t.dispatched = some (m, handled)) : m = msg := by
  obtain rfl : t = (server.turn st.authenticator st.handler third).1 :=
    Event.turn.inj (List.mem_singleton.mp ht)
  exact congrArg Prod.fst (Option.some.inj (hd.symm.trans (hmsg.dispatched hst).1))

/-- What is done with the message, if the capability was not granted and there is no
room for the answer. -/
theorem refused_third (hmsg : Sendable msg) (hnil : msg.capability ≠ [])
    (hcap : msg.capability ∉ agent.capabilities) (hroom : room = 0) :
    let out := server.turn st.authenticator st.handler third
    out.1.dispatched = none ∧ out.2.2.phase = .serving agent
      ∧ ∃ ack, out.1.sent = some (ack, .error (.conn "broken pipe")) := by
  subst hroom
  have hopen : Phase.serving agent ≠ .closed := fun h => (nomatch h)
  have hfresh : (3 : UInt64) > tracker.maxSeen := by decide +kernel
  rw [hst, turn_frameFor hmsg hfresh hopen]
  generalize (tracker.check 3).2 = replay
  have hserving : (handler replay 2 agent.capabilities ⟨[], 0⟩ (.serving agent)).phase
      = .serving agent := rfl
  have hlacks : (handler replay 2 agent.capabilities ⟨[], 0⟩
      (.serving agent)).endpoint.validateCapability msg.capability
        = .error (.lacks msg.capability) := by
    unfold ServerEndpoint.validateCapability
    rw [if_neg hnil]
    exact if_neg hcap
  have hmessage := server.onMessage_of_lacks isExpired_agent hlacks
  obtain ⟨ack, hanswer⟩ : ∃ ack, server.onMessage
      (handler replay 2 agent.capabilities ⟨[], 0⟩ (.serving agent)) third agent msg = (_, _) := by
    rw [hmessage]
    exact answerError_no_room third.stamp msg _ _
  rw [Server.onReceived_serving hserving, hanswer]
  exact ⟨rfl, rfl, ack, rfl⟩

end Third

end Script

/-! ## Who gets a message dispatched -/

namespace Server

variable {σ ε : Type} {srv : Server σ ε} {s₀ : σ} {moves : List Move} {r : Reading}
  {msg : Message Instant} {peer : PeerIdentity}

/-- **Who gets a message dispatched.** In every run, a turn dispatches a message only
if the first message of the connection was a request for a known service, the second
one a response whose bytes are the HMAC-SHA256 of the nonce that was pending for the
service, the session that was opened then has not expired, and the message's
capability is empty or was granted to the service; and then the intent, chat and
complete handlers succeed only if the capability was granted and permits their
action. Otherwise the connection ends, or the message is answered with an error, as
far as the answer can be sent, and the loop goes on – or the handshake goes on. -/
theorem dispatched_only_if_authenticated (srv : Server σ ε) (s₀ : σ) (moves : List Move)
    (r : Reading) :
    let st := srv.reached s₀ moves
    let out := srv.turn st.authenticator st.handler r
    (∀ msg handled, out.1.dispatched = some (msg, handled) →
        ∃ s peer later caps, srv.Admitted s₀ moves s peer later ∧ srv.known.lookup s = some caps
          ∧ peer.isExpired r.now = false ∧ (srv.receive st.handler).1 = .ok msg
          ∧ (msg.capability = [] ∨ msg.capability ∈ caps)
          ∧ ∀ action, checkedAction msg.type = some action → ∀ rep, handled.reply = .ok rep →
            msg.capability ∈ caps ∧ capChecker.check [msg.capability] action = .ok ())
      ∧ (out.1.dispatched = none →
        out.2.2.phase = .closed ∨ Advances st.handler out.2.2
          ∨ ∃ msg peer, (srv.receive st.handler).1 = .ok msg ∧ srv.AnsweredWithError msg out.1
            ∧ st.handler.phase = .serving peer ∧ out.2.2.phase = .serving peer) := by
  intro st out
  refine ⟨fun msg handled hd => ?_, of_not_dispatched⟩
  obtain ⟨peer, later, hadmitted, hlookup, -, hcaps, hturn⟩ := loopTurn_of_dispatched hd
  obtain ⟨hreceive, hexpired, hcap, rfl, -⟩ := hturn.of_dispatched hd
  rw [hcaps] at hcap
  refine ⟨peer.serviceID, peer, later, peer.capabilities, hadmitted, hlookup, hexpired, hreceive,
    hcap, fun action haction rep hrep => ?_⟩
  have hcheck := check_of_reply_ok haction hrep
  exact ⟨hcap.resolve_left (capability_ne_nil hcheck), hcheck⟩

/-- An agent that asks for a click gets it dispatched. -/
theorem dispatched_only_if_authenticated_click :
    ∃ s peer later caps,
      Script.server.Admitted (Script.sending Script.click 1) Script.handshake s peer later
        ∧ knownServices.lookup s = some caps ∧ peer.isExpired 1 = false
        ∧ ascii "ui:control" ∈ caps := by
  have hst := Script.handler_handshake Script.click 1
  obtain ⟨s, peer, later, caps, hadmitted, hlookup, hexpired, -, hgranted, -⟩ :=
    (dispatched_only_if_authenticated Script.server (Script.sending Script.click 1) Script.handshake
      Script.third).1 Script.click _ (Script.controls_click.dispatched hst).1
  exact ⟨s, peer, later, caps, hadmitted, hlookup, hexpired,
    hgranted.resolve_left (fun h => (nomatch h))⟩

/-- **An error can go unanswered.** An agent claims a capability that it was not
granted, and no longer reads. Nothing is dispatched, the answer cannot be sent, and
the connection goes on. -/
theorem refused_without_answer :
    let write := Script.intentMessage Script.service (ascii "device:write") (ascii "ui.click")
    let st := Script.server.reached (Script.sending write 0) Script.handshake
    let out := Script.server.turn st.authenticator st.handler Script.third
    out.1.dispatched = none ∧ out.2.2.phase = .serving Script.agent
      ∧ ∃ ack, out.1.sent = some (ack, .error (.conn "broken pipe")) := by
  have hwrite := Script.sendable_intentMessage (ascii "ui.click") Script.validUTF8_service
    (Json.validUTF8_of_ascii (s := ascii "device:write") rfl)
  have hnil : ascii "device:write" ≠ [] := by decide
  have hcap : ascii "device:write" ∉ Script.agent.capabilities := by decide
  -- the message as a variable, so that no frame is evaluated
  generalize hmsg : Script.intentMessage Script.service (ascii "device:write") (ascii "ui.click")
    = write at hwrite ⊢
  have hfield : write.capability = ascii "device:write" := hmsg ▸ rfl
  rw [← hfield] at hnil hcap
  exact Script.refused_third (Script.handler_handshake write 0) hwrite hnil hcap rfl

/-! ## Sessions that are revoked -/

/-- The log has no call that revoked the token or issued it again, or that read a later
time. -/
def Untouched (t : Instant) (token : Bytes) (log : List (Event ε)) : Prop :=
  ∀ e, .call e ∈ log →
    e.revokes token = false ∧ e.token ≠ some token ∧ ∀ u ∈ e.call.time, u ≤ t

/-- While the message loop runs, what is live changes with the calls from elsewhere
only. -/
theorem live_after_loops {t : Instant} {token : Bytes} (later : List Move) {st : State σ}
    (hloops : Loops peer st.handler) (hlog : Untouched t token (srv.machine.answers st later)) :
    (srv.machine.after st later).authenticator.live t token = st.authenticator.live t token := by
  induction later generalizing st with
  | nil => rfl
  | cons i later ih =>
    have hlater : Untouched t token (srv.machine.answers (srv.machine.step st i).2 later) :=
      fun e he => hlog e (List.mem_cons_of_mem _ he)
    cases i with
    | turn r =>
      obtain ⟨hsame, hnext⟩ := srv.loops_turn st.authenticator r hloops
      refine (ih hnext hlater).trans ?_
      show (srv.turn st.authenticator st.handler r).2.1.live t token = _
      rw [hsame]
    | call call =>
      obtain ⟨hrevokes, htoken, htime⟩ := hlog _ List.mem_cons_self
      have hnext : Loops peer (srv.machine.step st (.call call)).2.handler := hloops
      refine (ih hnext hlater).trans ?_
      have hkept := Authenticator.Event.setsLive_eq_none_iff (t := t).mpr ⟨hrevokes, htoken⟩
      refine (Authenticator.live_step token st.authenticator (i := ((), call)) htime).trans ?_
      exact congrArg (Option.getD · _) hkept
    | timeout => exact ih hloops.timeout hlater

/-- A call in the log was among the moves. -/
theorem exists_of_call_mem_answers {later : List Move} {st : State σ} {e : Authenticator.Event Unit}
    (h : .call e ∈ srv.machine.answers st later) :
    ∃ (a : Authenticator) (call : _), .call call ∈ later ∧ e = ⟨(), call, (a.perform call).1⟩ := by
  obtain ⟨log₁, log₂, hlog⟩ := List.append_of_mem h
  obtain ⟨moves₁, i, moves₂, rfl, -, hanswer⟩ := Machine.exists_of_answers_eq hlog
  cases i with
  | turn r => exact (nomatch hanswer)
  | timeout => exact (nomatch hanswer)
  | call call =>
    exact ⟨_, call, List.mem_append_right _ List.mem_cons_self, (Event.call.inj hanswer).symm⟩

/-- **What the message loop knows of a session.** However the loop is interleaved with
other calls to the authenticator, a message is dispatched only if the session that was
opened in the handshake has not expired by then. If the token was neither revoked nor
issued again since, and the clock did not go back, then `ValidateSession` would accept
it too. -/
theorem dispatched_only_if_unexpired (srv : Server σ ε) (s₀ : σ) (moves : List Move) (r : Reading)
    (msg : Message Instant) (handled : Handled) :
    let st := srv.reached s₀ moves
    (srv.turn st.authenticator st.handler r).1.dispatched = some (msg, handled) →
      ∃ peer moves₁ r₁ later, moves = moves₁ ++ .turn r₁ :: later
        ∧ Seated (srv.reached s₀ (moves₁ ++ [.turn r₁])) peer ∧ peer.createdAt = r₁.now
        ∧ st.handler.phase = .serving peer ∧ peer.isExpired r.now = false
        ∧ (Untouched r.now peer.sessionToken
            (srv.machine.answers (srv.reached s₀ (moves₁ ++ [.turn r₁])) later) →
          st.authenticator.validateSession r.now peer.sessionToken = .ok peer) := by
  intro st hd
  obtain ⟨peer, later, ⟨moves₁, r₁, rfl, -, hproves, hseated⟩, -, hphase, -, hturn⟩ :=
    loopTurn_of_dispatched hd
  obtain ⟨-, hexpired, -⟩ := hturn.of_dispatched hd
  obtain ⟨_, _, _, _, _, _, _, _, hverify⟩ := hproves
  obtain ⟨-, hcreated, -⟩ := (srv.serves_reached s₀ moves₁).1.verifyResponse hverify
  refine ⟨peer, moves₁, r₁, later, rfl, hseated, hcreated, hphase, hexpired, fun hlog => ?_⟩
  have hst : st = srv.machine.after (srv.reached s₀ (moves₁ ++ [.turn r₁])) later := by
    show srv.machine.after _ (moves₁ ++ .turn r₁ :: later) = _
    rw [List.append_cons, Machine.after_append]
    rfl
  rw [hst, Authenticator.validateSession_eq_ok_iff,
    live_after_loops later (loops_reached hseated.2) hlog, Authenticator.live_eq_some_iff]
  exact ⟨hseated.1, hexpired⟩

/-- A cleanup between the handshake and the message does not matter. -/
theorem dispatched_only_if_unexpired_cleanup :
    let moves := Script.handshake ++ [.call (.cleanupExpired 1)]
    let st := Script.server.reached (Script.sending Script.click 1) moves
    ∃ peer, st.handler.phase = .serving peer
      ∧ st.authenticator.validateSession 1 peer.sessionToken = .ok peer := by
  have hclick := Script.controls_click
  generalize Script.click = click at hclick ⊢
  intro moves st
  have hst : st = _ := Script.reached_call click 1 (.cleanupExpired 1)
  obtain ⟨peer, moves₁, r₁, later, hmoves, -, -, hphase, -, hvalid⟩ :=
    dispatched_only_if_unexpired Script.server (Script.sending click 1) moves Script.third click _
      (hclick.dispatched (congrArg State.handler hst)).1
  refine ⟨peer, hphase, hvalid fun e he => ?_⟩
  obtain ⟨a, call, hcall, rfl⟩ := exists_of_call_mem_answers he
  have hmem : Move.call call ∈ moves :=
    hmoves ▸ List.mem_append_right _ (List.mem_cons_of_mem _ hcall)
  cases (List.mem_append.mp hmem).resolve_left (by simp [Script.handshake]) with
  | head => exact ⟨rfl, fun h => (nomatch h), fun u hu => (Option.some.inj hu).ge⟩
  | tail _ h => exact (nomatch h)

/-- **A revoked session goes on being served.** The session of an agent is revoked, and
`ValidateSession` refuses its token; then an intent of the agent is dispatched. -/
theorem dispatched_after_revokeSession :
    let moves := Script.handshake ++ [.call (.revokeSession Script.agent.sessionToken)]
    let st := Script.server.reached (Script.sending Script.click 1) moves
    st.handler.phase = .serving Script.agent
      ∧ st.authenticator.validateSession 1 Script.agent.sessionToken = .error .invalidToken
      ∧ ∃ handled, (Script.server.turn st.authenticator st.handler Script.third).1.dispatched
        = some (Script.click, handled) := by
  have hclick := Script.controls_click
  generalize Script.click = click at hclick ⊢
  intro moves st
  have hst : st = _ := Script.reached_call click 1 (.revokeSession Script.agent.sessionToken)
  have hhandler := congrArg State.handler hst
  refine ⟨congrArg Handler.phase hhandler, ?_, _, (hclick.dispatched hhandler).1⟩
  rw [hst]
  show (Script.authenticator.revokeSession _).validateSession 1 _ = _
  unfold Authenticator.validateSession Authenticator.revokeSession
  rw [Finmap.lookup_erase]

end Server

end EipcServer
