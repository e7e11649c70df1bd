import Eipc.Handlers
import Eipc.Session

/-!
# Serving a connection

`handleConnection` (`cmd/eipc-server/main.go`) authenticates a peer and then takes
its messages one by one. It waits in three places: for the request of the peer, for
the response to the challenge, and in the message loop. What it does between two
calls of `Receive` is one turn (`EipcServer.Server.turn`), which makes at most one
call to the authenticator. The other connections, and the goroutine that removes
expired sessions, call the authenticator at any time in between, and a timer ends the
connection if the handshake takes too long. So a run is a sequence of turns, of calls
from elsewhere, and of the timer (`EipcServer.Server.machine`).

A turn of the message loop can end in four ways (`EipcServer.Server.LoopTurn`), and
it is the only kind of turn that dispatches a message. What the loop looks at is the
peer that the handshake left behind, never the session table.
-/

open Bytes MessageType Audit

namespace EipcServer

/-! ## One turn -/

/-- What a turn takes from outside: the clock, where a call or the session check
reads it and where the message that is sent is stamped, and the random source. -/
structure Reading where
  now : Instant
  stamp : Instant
  draw : Draw

/-- Where `handleConnection` waits, and what it knows there. -/
inductive Phase where
  | awaitAuth
  | awaitResponse (serviceID requestID : Bytes)
  | serving (peer : PeerIdentity)
  | closed

/-- `handleConnection` on one connection. -/
structure Handler (σ : Type) where
  endpoint : ServerEndpoint
  conn : σ
  phase : Phase

namespace Handler

variable {σ : Type}

/-- The handler of a new connection. -/
def new (codec : Codec) (hmacKey : Bytes) (conn : σ) : Handler σ :=
  ⟨ServerEndpoint.new codec hmacKey, conn, .awaitAuth⟩

/-- The handler goes on to wait elsewhere. -/
def goto (h : Handler σ) (phase : Phase) : Handler σ := { h with phase }

/-- The goroutine that waits for `authDone`: after ten seconds it closes the connection, so
that the `Receive` in which the handler waits fails and the handler returns. Once the
handshake is over it does nothing. -/
def timeout (h : Handler σ) : Handler σ :=
  match h.phase with
  | .awaitAuth | .awaitResponse _ _ => h.goto .closed
  | .serving _ | .closed => h

end Handler

/-- What can be seen of a turn. -/
structure Turn (ε : Type) where
  /-- What `Receive` returned. -/
  received : Option (Except (EndpointError ε) (Message Instant)) := none
  /-- The entries that were handed to the audit logger. If it fails to write one, the
  server prints that and goes on. -/
  audit : List Entry := []
  /-- The message that was dispatched, and what its handler did. -/
  dispatched : Option (Message Instant × Handled) := none
  /-- The message that was handed to `Send`, and what `Send` returned. -/
  sent : Option (Message Instant × Except (EndpointError ε) Unit) := none

/-- What `main` sets up for its connections: the codecs, the key for frames, the
secret and the services of the authenticator; and what it is given, the layout of
times and the transport. -/
structure Server (σ ε : Type) where
  env : Env
  codec : Codec
  hmacKey : Bytes
  secret : Bytes
  known : Finmap (fun _ : Bytes => List Bytes)
  tf : TimeFormat Instant
  conn : Connection σ ε

/-- A message of the handshake. -/
def handshakeMessage (stamp : Instant) (type : MessageType) (requestID payload : Bytes) :
    Message Instant where
  version := 1
  type
  source := ascii "eipc-server"
  timestamp := stamp
  sessionID := []
  requestID
  priority := Message.priorityP0
  capability := []
  payload

namespace Server

variable {σ ε : Type} (srv : Server σ ε)

/-- `endpoint.Receive`. -/
def receive (h : Handler σ) : Except (EndpointError ε) (Message Instant) × Handler σ :=
  let (res, endpoint, conn) := h.endpoint.receive srv.tf srv.conn h.conn
  (res, { h with endpoint, conn })

/-- `endpoint.Send`. -/
def send (h : Handler σ) (msg : Message Instant) :
    Except (EndpointError ε) Unit × Handler σ :=
  let (res, endpoint, conn) := h.endpoint.send srv.tf srv.conn h.conn msg
  (res, { h with endpoint, conn })

/-- The peer is turned away, with an entry in the log and, if it can be serialized,
an answer. -/
def deny (h : Handler σ) (stamp : Instant) (requestID serviceID result : Bytes) (err : AuthError)
    (t : Turn ε) : Turn ε × Handler σ :=
  let t := { t with
    audit := [⟨requestID, serviceID, ascii "eipc-server", ascii "authenticate", .denied, result⟩] }
  match srv.env.payloads.marshalAuthResponse ⟨ascii "denied", utf8 (err.text srv.env.quote)⟩ with
  | .error _ => (t, h.goto .closed)
  | .ok payload =>
    let msg := handshakeMessage stamp typeAuthResponse requestID payload
    let (res, h) := srv.send h msg
    ({ t with sent := some (msg, res) }, h.goto .closed)

/-- The handshake goes on: the payload is sent, and the handler waits for what comes
next. If the payload cannot be serialized or sent, the connection ends. -/
def proceed (h : Handler σ) (stamp : Instant) (type : MessageType) (requestID : Bytes)
    (payload : Except String Bytes) (next : Phase) (t : Turn ε) : Turn ε × Handler σ :=
  match payload with
  | .error _ => (t, h.goto .closed)
  | .ok payload =>
    let msg := handshakeMessage stamp type requestID payload
    match srv.send h msg with
    | (.error err, h) => ({ t with sent := some (msg, .error err) }, h.goto .closed)
    | (.ok (), h) => ({ t with sent := some (msg, .ok ()) }, h.goto next)

/-- The first message: the peer names its service, and is sent a challenge. -/
def onAuth (a : Authenticator) (h : Handler σ) (r : Reading) (authMsg : Message Instant) :
    Turn ε × Authenticator × Handler σ :=
  let t : Turn ε := { received := some (.ok authMsg) }
  if authMsg.type ≠ typeAuth then (t, a, h.goto .closed)
  else
    match srv.env.payloads.unmarshalAuthRequest authMsg.payload with
    | .error _ => (t, a, h.goto .closed)
    | .ok authReq =>
      match a.createChallenge r.now r.draw authReq.serviceID with
      | (.error err, a) =>
        let (t, h) := srv.deny h r.stamp authMsg.requestID authReq.serviceID
          (utf8 (err.text srv.env.quote)) err t
        (t, a, h)
      | (.ok challenge, a) =>
        let (t, h) := srv.proceed h r.stamp typeChallenge authMsg.requestID
          (srv.env.payloads.marshalChallenge ⟨ascii "challenge", toHex challenge.nonce⟩)
          (.awaitResponse authReq.serviceID authMsg.requestID) t
        (t, a, h)

/-- The second message: the response to the challenge. The service is the one of the
first message; the one in the response is not looked at. -/
def onResponse (a : Authenticator) (h : Handler σ) (r : Reading) (serviceID requestID : Bytes)
    (responseMsg : Message Instant) : Turn ε × Authenticator × Handler σ :=
  let t : Turn ε := { received := some (.ok responseMsg) }
  if responseMsg.type ≠ typeAuthResponse then (t, a, h.goto .closed)
  else
    match srv.env.payloads.unmarshalChallengeResponse responseMsg.payload with
    | .error _ => (t, a, h.goto .closed)
    | .ok chalResp =>
      match ofHex chalResp.response with
      | none => (t, a, h.goto .closed)
      | some responseBytes =>
        match a.verifyResponse r.now r.draw serviceID responseBytes with
        | (.error err, a) =>
          let (t, h) := srv.deny h r.stamp requestID serviceID (ascii "challenge-response failed")
            err t
          (t, a, h)
        | (.ok peer, a) =>
          let t := { t with
            audit := [⟨requestID, peer.serviceID, ascii "eipc-server", ascii "authenticate",
              .allowed, ascii "session created"⟩] }
          let h := { h with endpoint := h.endpoint.setPeerCapabilities peer.capabilities }
          let (t, h) := srv.proceed h r.stamp typeAuthResponse requestID
            (srv.env.payloads.marshalAuthResult ⟨ascii "ok", peer.sessionToken, peer.capabilities⟩)
            (.serving peer) t
          (t, a, h)

/-- The answer to a message that failed. An answer that cannot be serialized or sent
is given up. -/
def answerError (h : Handler σ) (stamp : Instant) (msg : Message Instant) (text : String)
    (t : Turn ε) : Turn ε × Handler σ :=
  match srv.env.payloads.marshalAck ⟨msg.requestID, ascii "error", utf8 text⟩ with
  | .error _ => (t, h)
  | .ok payload =>
    let ack := reply stamp msg typeAck Message.priorityP0 payload
    let (res, h) := srv.send h ack
    ({ t with sent := some (ack, res) }, h)

/-- A message in the loop. -/
def onMessage (h : Handler σ) (r : Reading) (peer : PeerIdentity) (msg : Message Instant) :
    Turn ε × Handler σ :=
  let t : Turn ε := { received := some (.ok msg) }
  if peer.isExpired r.now then
    ({ t with
        audit := [⟨[], peer.serviceID, ascii "eipc-server", ascii "session_check", .denied,
          ascii "session expired"⟩] },
      h.goto .closed)
  else
    match h.endpoint.validateCapability msg.capability with
    | .error err =>
      srv.answerError h r.stamp msg (err.text srv.env.quote) { t with
        audit := [⟨msg.requestID, peer.serviceID, ascii "eipc-server", msg.capability, .denied,
          ascii "capability violation"⟩] }
    | .ok () =>
      let handled := (router srv.env).dispatch r.stamp msg
      let t := { t with audit := handled.audit, dispatched := some (msg, handled) }
      match handled.reply with
      | .error err => srv.answerError h r.stamp msg (err.text srv.env.quote) t
      | .ok none => (t, h)
      | .ok (some resp) =>
        match srv.send h resp with
        | (.error err, h) => ({ t with sent := some (resp, .error err) }, h.goto .closed)
        | (.ok (), h) => ({ t with sent := some (resp, .ok ()) }, h)

/-- What is done with a message, depending on where the handler waited for it. -/
def onReceived (a : Authenticator) (h : Handler σ) (r : Reading) (msg : Message Instant) :
    Turn ε × Authenticator × Handler σ :=
  match h.phase with
  | .awaitAuth => srv.onAuth a h r msg
  | .awaitResponse serviceID requestID => srv.onResponse a h r serviceID requestID msg
  | .serving peer => ((srv.onMessage h r peer msg).1, a, (srv.onMessage h r peer msg).2)
  | .closed => ({}, a, h)

/-- **One turn**: a message is received and dealt with. -/
def turn (a : Authenticator) (h : Handler σ) (r : Reading) : Turn ε × Authenticator × Handler σ :=
  match h.phase with
  | .closed => ({}, a, h)
  | _ =>
    match srv.receive h with
    | (.error err, h) => ({ received := some (.error err) }, a, h.goto .closed)
    | (.ok msg, h) => srv.onReceived a h r msg

end Server

/-! ## Runs -/

/-- What happens next: a turn of the connection, a call of somebody else, or the timer. -/
inductive Move where
  | turn (r : Reading)
  | call (call : Authenticator.Call)
  | timeout

/-- What can be seen of a move. -/
inductive Event (ε : Type) where
  | turn (t : Turn ε)
  | call (e : Authenticator.Event Unit)
  | timeout

/-- A connection, and the authenticator it shares with the others. -/
structure State (σ : Type) where
  authenticator : Authenticator
  handler : Handler σ

namespace Server

variable {σ ε : Type} (srv : Server σ ε)

/-- The connection, and what else happens to the authenticator. -/
def machine : Machine (State σ) Move (Event ε) where
  step st
    | .turn r =>
      let (t, a, h) := srv.turn st.authenticator st.handler r
      (.turn t, ⟨a, h⟩)
    | .call call =>
      (.call ⟨(), call, (st.authenticator.perform call).1⟩,
        { st with authenticator := (st.authenticator.perform call).2 })
    | .timeout => (.timeout, { st with handler := st.handler.timeout })

/-! ## What a turn can do -/

variable {srv} {a : Authenticator} {h : Handler σ} {r : Reading} {msg : Message Instant}
  {peer : PeerIdentity}

@[simp] theorem phase_receive (srv : Server σ ε) (h : Handler σ) :
    (srv.receive h).2.phase = h.phase := rfl

@[simp] theorem phase_send (srv : Server σ ε) (h : Handler σ) (msg : Message Instant) :
    (srv.send h msg).2.phase = h.phase := rfl

@[simp] theorem capabilities_receive (srv : Server σ ε) (h : Handler σ) :
    (srv.receive h).2.endpoint.peerCapabilities = h.endpoint.peerCapabilities :=
  ServerEndpoint.peerCapabilities_receive srv.tf srv.conn h.endpoint h.conn

@[simp] theorem capabilities_send (srv : Server σ ε) (h : Handler σ) (msg : Message Instant) :
    (srv.send h msg).2.endpoint.peerCapabilities = h.endpoint.peerCapabilities :=
  ServerEndpoint.peerCapabilities_send srv.tf srv.conn h.endpoint h.conn msg

/-- A peer that is turned away is not served. -/
theorem deny_spec (h : Handler σ) (stamp : Instant) (requestID serviceID result : Bytes)
    (err : AuthError) (t : Turn ε) :
    (srv.deny h stamp requestID serviceID result err t).1.dispatched = t.dispatched
      ∧ (srv.deny h stamp requestID serviceID result err t).2.phase = .closed := by
  unfold deny
  dsimp only
  split <;> exact ⟨rfl, rfl⟩

/-- The handshake goes on, or ends. -/
theorem proceed_spec (h : Handler σ) (stamp : Instant) (type : MessageType) (requestID : Bytes)
    (payload : Except String Bytes) (next : Phase) (t : Turn ε) :
    let out := srv.proceed h stamp type requestID payload next t
    out.1.dispatched = t.dispatched ∧ (out.2.phase = .closed ∨ out.2.phase = next)
      ∧ out.2.endpoint.peerCapabilities = h.endpoint.peerCapabilities := by
  intro out
  dsimp only [out, proceed]
  cases payload with
  | error err => exact ⟨rfl, .inl rfl, rfl⟩
  | ok payload =>
    have hcaps := capabilities_send srv h (handshakeMessage stamp type requestID payload)
    dsimp only
    revert hcaps
    rcases srv.send h (handshakeMessage stamp type requestID payload) with ⟨err | u, h'⟩
    · exact fun hcaps => ⟨rfl, .inl rfl, hcaps⟩
    · exact fun hcaps => ⟨rfl, .inr rfl, hcaps⟩

/-- **The request of a peer** ends the connection, or it is a request for a known
service. -/
theorem onAuth_cases (srv : Server σ ε) (a : Authenticator) (h : Handler σ) (r : Reading)
    (msg : Message Instant) :
    let out := srv.onAuth a h r msg
    out.1.dispatched = none
      ∧ (out.2.1 = a ∨ ∃ s, out.2.1 = (a.perform (.createChallenge r.now r.draw s)).2)
      ∧ (out.2.2.phase = .closed
        ∨ ∃ req, msg.type = typeAuth ∧ srv.env.payloads.unmarshalAuthRequest msg.payload = .ok req
          ∧ req.serviceID ∈ a.knownServices
          ∧ out.2.2.phase = .awaitResponse req.serviceID msg.requestID) := by
  intro out
  dsimp only [out, onAuth]
  by_cases htype : msg.type = typeAuth
  · rw [if_neg (not_not.mpr htype)]
    cases hread : srv.env.payloads.unmarshalAuthRequest msg.payload with
    | error err => exact ⟨rfl, .inl rfl, .inl rfl⟩
    | ok req =>
      dsimp only
      have hcall : ∃ s, (a.createChallenge r.now r.draw req.serviceID).2
          = (a.perform (.createChallenge r.now r.draw s)).2 := ⟨req.serviceID, rfl⟩
      rcases hcreate : a.createChallenge r.now r.draw req.serviceID with ⟨err | challenge, a'⟩
      · rw [hcreate] at hcall
        obtain ⟨hdispatched, hphase⟩ := srv.deny_spec h r.stamp msg.requestID req.serviceID
          (utf8 (err.text srv.env.quote)) err { received := some (.ok msg) }
        exact ⟨hdispatched, .inr hcall, .inl hphase⟩
      · rw [hcreate] at hcall
        obtain ⟨hdispatched, hphase, -⟩ := srv.proceed_spec h r.stamp typeChallenge msg.requestID
          (srv.env.payloads.marshalChallenge ⟨ascii "challenge", toHex challenge.nonce⟩)
          (.awaitResponse req.serviceID msg.requestID) { received := some (.ok msg) }
        refine ⟨hdispatched, .inr hcall, hphase.imp_right fun hnext => ⟨req, htype, rfl, ?_, hnext⟩⟩
        exact Authenticator.mem_of_createChallenge (congrArg Prod.fst hcreate)
  · rw [if_pos htype]
    exact ⟨rfl, .inl rfl, .inl rfl⟩

/-- **The response of a peer** ends the connection, or it is accepted, and the peer
has what it was granted. -/
theorem onResponse_cases (srv : Server σ ε) (a : Authenticator) (h : Handler σ) (r : Reading)
    (s requestID : Bytes) (msg : Message Instant) :
    let out := srv.onResponse a h r s requestID msg
    out.1.dispatched = none
      ∧ (out.2.1 = a ∨
        ∃ response, out.2.1 = (a.perform (.verifyResponse r.now r.draw s response)).2)
      ∧ (out.2.2.phase = .closed
        ∨ ∃ resp response peer, msg.type = typeAuthResponse
          ∧ srv.env.payloads.unmarshalChallengeResponse msg.payload = .ok resp
          ∧ ofHex resp.response = some response
          ∧ a.verifyResponse r.now r.draw s response = (.ok peer, out.2.1)
          ∧ out.2.2.phase = .serving peer
          ∧ out.2.2.endpoint.peerCapabilities = peer.capabilities) := by
  intro out
  dsimp only [out, onResponse]
  by_cases htype : msg.type = typeAuthResponse
  · rw [if_neg (not_not.mpr htype)]
    cases hread : srv.env.payloads.unmarshalChallengeResponse msg.payload with
    | error err => exact ⟨rfl, .inl rfl, .inl rfl⟩
    | ok resp =>
      dsimp only
      cases hhex : ofHex resp.response with
      | none => exact ⟨rfl, .inl rfl, .inl rfl⟩
      | some response =>
        dsimp only
        have hcall : ∃ response', (a.verifyResponse r.now r.draw s response).2
            = (a.perform (.verifyResponse r.now r.draw s response')).2 := ⟨response, rfl⟩
        rcases hverify : a.verifyResponse r.now r.draw s response with ⟨err | peer, a'⟩
        · rw [hverify] at hcall
          obtain ⟨hdispatched, hphase⟩ := srv.deny_spec h r.stamp requestID s
            (ascii "challenge-response failed") err { received := some (.ok msg) }
          exact ⟨hdispatched, .inr hcall, .inl hphase⟩
        · rw [hverify] at hcall
          obtain ⟨hdispatched, hphase, hcaps⟩ := srv.proceed_spec
            { h with endpoint := h.endpoint.setPeerCapabilities peer.capabilities } r.stamp
            typeAuthResponse requestID
            (srv.env.payloads.marshalAuthResult ⟨ascii "ok", peer.sessionToken, peer.capabilities⟩)
            (.serving peer)
            { received := some (.ok msg)
              audit := [⟨requestID, peer.serviceID, ascii "eipc-server", ascii "authenticate",
                .allowed, ascii "session created"⟩] }
          exact ⟨hdispatched, .inr hcall, hphase.imp_right fun hnext =>
            ⟨resp, response, peer, htype, rfl, hhex, hverify, hnext, hcaps⟩⟩
  · rw [if_pos htype]
    exact ⟨rfl, .inl rfl, .inl rfl⟩

/-- The message was answered with an error, as far as it could be: the answer is
given up if it cannot be serialized, and what `Send` makes of it is not looked at. -/
def AnsweredWithError (srv : Server σ ε) (msg : Message Instant) (t : Turn ε) : Prop :=
  ∃ ack : AckEvent, ack.requestID = msg.requestID ∧ ack.status = ascii "error"
    ∧ match srv.env.payloads.marshalAck ack with
      | .error _ => t.sent = none
      | .ok payload => ∃ stamp res,
        t.sent = some (reply stamp msg typeAck Message.priorityP0 payload, res)

/-- What becomes of an answer to a message that failed. -/
theorem answerError_spec (h : Handler σ) (stamp : Instant) (msg : Message Instant) (text : String)
    (t : Turn ε) (ht : t.sent = none) :
    let out := srv.answerError h stamp msg text t
    out.1.dispatched = t.dispatched ∧ out.1.audit = t.audit ∧ out.2.phase = h.phase
      ∧ out.2.endpoint.peerCapabilities = h.endpoint.peerCapabilities
      ∧ srv.AnsweredWithError msg out.1 := by
  intro out
  dsimp only [out, answerError]
  cases hack : srv.env.payloads.marshalAck ⟨msg.requestID, ascii "error", utf8 text⟩ with
  | error err =>
    refine ⟨rfl, rfl, rfl, rfl, ⟨msg.requestID, ascii "error", utf8 text⟩, rfl, rfl, ?_⟩
    rw [hack]
    exact ht
  | ok payload =>
    refine ⟨rfl, rfl, rfl, capabilities_send srv h _,
      ⟨msg.requestID, ascii "error", utf8 text⟩, rfl,
      rfl, ?_⟩
    rw [hack]
    exact ⟨stamp, _, rfl⟩

/-! ## Where the handler waits -/

theorem turn_closed (hphase : h.phase = .closed) : srv.turn a h r = ({}, a, h) := by
  unfold turn
  rw [hphase]

/-- When the peer is gone, the connection ends. -/
theorem turn_of_error (hphase : h.phase ≠ .closed) {err : EndpointError ε}
    (hreceive : (srv.receive h).1 = .error err) :
    srv.turn a h r
      = ({ received := some (.error err) }, a, (srv.receive h).2.goto .closed) := by
  have hpair : srv.receive h = (.error err, (srv.receive h).2) := Prod.ext hreceive rfl
  unfold turn
  rw [hpair]
  cases hcase : h.phase with
  | closed => exact absurd hcase hphase
  | _ => rfl

theorem turn_of_ok (hphase : h.phase ≠ .closed) (hreceive : (srv.receive h).1 = .ok msg) :
    srv.turn a h r = srv.onReceived a (srv.receive h).2 r msg := by
  have hpair : srv.receive h = (.ok msg, (srv.receive h).2) := Prod.ext hreceive rfl
  unfold turn
  rw [hpair]
  cases hcase : h.phase with
  | closed => exact absurd hcase hphase
  | _ => rfl

/-- A frame that can be opened, with a new number, is received as a message. -/
theorem receive_of_openFrame (srv : Server σ ε) (h : Handler σ) (frame : Frame) {s : σ}
    {hdr : Header} (hconn : srv.conn.receive h.conn = (.ok frame, s))
    (hopen : Endpoint.openFrame (ε := ε) h.endpoint.codec h.endpoint.hmacKey frame = .ok hdr)
    (hseq : hdr.sequence > h.endpoint.replay.maxSeen) :
    srv.receive h
      = (.ok (Endpoint.messageOf srv.tf frame hdr),
        { h with
          endpoint := { h.endpoint with replay := (h.endpoint.replay.check hdr.sequence).2 }
          conn := s }) := by
  have hcheck : h.endpoint.replay.check hdr.sequence
      = (.ok (), (h.endpoint.replay.check hdr.sequence).2) :=
    Prod.ext (Tracker.check_of_gt hseq).1 rfl
  unfold receive ServerEndpoint.receive
  rw [hconn]
  dsimp only
  unfold ServerEndpoint.accept
  rw [hopen]
  dsimp only
  rw [hcheck]

/-- The peer asks to be admitted as the service. -/
def Requests (srv : Server σ ε) (h : Handler σ) (s : Bytes) : Prop :=
  ∃ msg, (srv.receive h).1 = .ok msg ∧ msg.type = typeAuth
    ∧ srv.env.payloads.unmarshalAuthRequest msg.payload = .ok ⟨s⟩

/-- The peer answers the challenge that is pending for the service, and is admitted:
its response is the HMAC-SHA256 of the nonce under the secret. -/
def Proves (srv : Server σ ε) (secret : Bytes) (st : State σ) (r : Reading) (s : Bytes)
    (peer : PeerIdentity) : Prop :=
  ∃ msg resp nonce, (srv.receive st.handler).1 = .ok msg ∧ msg.type = typeAuthResponse
    ∧ srv.env.payloads.unmarshalChallengeResponse msg.payload = .ok resp
    ∧ st.authenticator.pendingNonce s = some nonce
    ∧ ofHex resp.response = some (hmacSha256 secret nonce)
    ∧ (st.authenticator.verifyResponse r.now r.draw s (hmacSha256 secret nonce)).1 = .ok peer

/-- A turn that waits for the request. -/
theorem turn_awaitAuth (a : Authenticator) (r : Reading) (hphase : h.phase = .awaitAuth) :
    (srv.turn a h r).1.dispatched = none
      ∧ ((srv.turn a h r).2.1 = a
        ∨ ∃ s, (srv.turn a h r).2.1 = (a.perform (.createChallenge r.now r.draw s)).2)
      ∧ ((srv.turn a h r).2.2.phase = .closed
        ∨ ∃ s requestID, srv.Requests h s ∧ s ∈ a.knownServices
          ∧ (srv.turn a h r).2.2.phase = .awaitResponse s requestID) := by
  have hopen : h.phase ≠ .closed := by rw [hphase]; exact fun hc => (nomatch hc)
  cases hreceive : (srv.receive h).1 with
  | error err =>
    rw [turn_of_error hopen hreceive]
    exact ⟨rfl, .inl rfl, .inl rfl⟩
  | ok msg =>
    rw [turn_of_ok hopen hreceive, onReceived, phase_receive, hphase]
    obtain ⟨hdispatched, hcall, hnext⟩ := srv.onAuth_cases a (srv.receive h).2 r msg
    refine ⟨hdispatched, hcall, hnext.imp_right ?_⟩
    rintro ⟨⟨s⟩, htype, hread, hknown, hphase'⟩
    exact ⟨s, msg.requestID, ⟨msg, hreceive, htype, hread⟩, hknown, hphase'⟩

/-- A turn that waits for the response. -/
theorem turn_awaitResponse (a : Authenticator) (r : Reading) {s requestID : Bytes}
    (hphase : h.phase = .awaitResponse s requestID) :
    (srv.turn a h r).1.dispatched = none
      ∧ ((srv.turn a h r).2.1 = a
        ∨ ∃ response, (srv.turn a h r).2.1
          = (a.perform (.verifyResponse r.now r.draw s response)).2)
      ∧ ((srv.turn a h r).2.2.phase = .closed
        ∨ ∃ peer, srv.Proves a.sharedSecret ⟨a, h⟩ r s peer
          ∧ (srv.turn a h r).2.1.activeSessions.lookup peer.sessionToken = some peer
          ∧ (srv.turn a h r).2.2.phase = .serving peer
          ∧ (srv.turn a h r).2.2.endpoint.peerCapabilities = peer.capabilities) := by
  have hopen : h.phase ≠ .closed := by rw [hphase]; exact fun hc => (nomatch hc)
  cases hreceive : (srv.receive h).1 with
  | error err =>
    rw [turn_of_error hopen hreceive]
    exact ⟨rfl, .inl rfl, .inl rfl⟩
  | ok msg =>
    rw [turn_of_ok hopen hreceive, onReceived, phase_receive, hphase]
    obtain ⟨hdispatched, hcall, hnext⟩ := srv.onResponse_cases a (srv.receive h).2 r s requestID msg
    refine ⟨hdispatched, hcall, hnext.imp_right ?_⟩
    rintro ⟨resp, response, peer, htype, hread, hhex, hverify, hphase', hcaps⟩
    obtain ⟨-, nonce, hnonce, rfl⟩ := Authenticator.verifyResponse_eq_ok_iff.mp
      ⟨peer, congrArg Prod.fst hverify⟩
    exact ⟨peer, ⟨msg, resp, nonce, hreceive, htype, hread, hnonce, hhex,
      congrArg Prod.fst hverify⟩, Authenticator.lookup_of_verifyResponse hverify, hphase', hcaps⟩

/-- **What a turn of the message loop can do**: from a handler `h` that serves the
peer, the turn `t` leads to the handler `h'`. -/
inductive LoopTurn (srv : Server σ ε) (h : Handler σ) (r : Reading) (peer : PeerIdentity)
    (t : Turn ε) (h' : Handler σ) : Prop
  /-- The connection has failed, and ends. -/
  | gone (err : EndpointError ε) (hreceive : (srv.receive h).1 = .error err)
    (hdispatched : t.dispatched = none) (haudit : t.audit = []) (hphase : h'.phase = .closed)
  /-- The session has expired, and the connection ends. -/
  | expired (hexpired : peer.isExpired r.now = true) (hdispatched : t.dispatched = none)
    (haudit : t.audit = [⟨[], peer.serviceID, ascii "eipc-server", ascii "session_check", .denied,
      ascii "session expired"⟩])
    (hphase : h'.phase = .closed)
  /-- The message claims a capability that was not granted, and is answered with an
  error. -/
  | refused (msg : Message Instant) (hreceive : (srv.receive h).1 = .ok msg)
    (hcap : ¬(msg.capability = [] ∨ msg.capability ∈ h.endpoint.peerCapabilities))
    (hdispatched : t.dispatched = none)
    (haudit : t.audit = [⟨msg.requestID, peer.serviceID, ascii "eipc-server", msg.capability,
      .denied, ascii "capability violation"⟩])
    (hphase : h'.phase = .serving peer)
    (hcaps : h'.endpoint.peerCapabilities = h.endpoint.peerCapabilities)
    (hanswer : srv.AnsweredWithError msg t)
  /-- The message is dispatched. -/
  | dispatched (msg : Message Instant) (hreceive : (srv.receive h).1 = .ok msg)
    (hexpired : peer.isExpired r.now = false)
    (hcap : msg.capability = [] ∨ msg.capability ∈ h.endpoint.peerCapabilities)
    (hdispatched : t.dispatched = some (msg, (router srv.env).dispatch r.stamp msg))
    (haudit : t.audit = ((router srv.env).dispatch r.stamp msg).audit)
    (hphase : h'.phase = .closed ∨ h'.phase = .serving peer)
    (hcaps : h'.endpoint.peerCapabilities = h.endpoint.peerCapabilities)

theorem onReceived_serving (hphase : h.phase = .serving peer) :
    srv.onReceived a h r msg
      = ((srv.onMessage h r peer msg).1, a, (srv.onMessage h r peer msg).2) := by
  unfold onReceived
  rw [hphase]

/-- A capability that was not granted is refused. -/
theorem onMessage_of_lacks (srv : Server σ ε) {err : CapabilityError}
    (hexpired : peer.isExpired r.now = false)
    (hcap : h.endpoint.validateCapability msg.capability = .error err) :
    srv.onMessage h r peer msg
      = srv.answerError h r.stamp msg (err.text srv.env.quote)
        { received := some (.ok msg)
          audit := [⟨msg.requestID, peer.serviceID, ascii "eipc-server", msg.capability, .denied,
            ascii "capability violation"⟩] } := by
  unfold onMessage
  dsimp only
  rw [if_neg (Bool.eq_false_iff.mp hexpired), hcap]

/-- What becomes of a message that is dispatched: only a reply that cannot be sent ends
the connection. -/
theorem onMessage_of_granted (srv : Server σ ε) (hexpired : peer.isExpired r.now = false)
    (hcap : h.endpoint.validateCapability msg.capability = .ok ()) :
    let out := srv.onMessage h r peer msg
    out.1.dispatched = some (msg, (router srv.env).dispatch r.stamp msg)
      ∧ out.1.audit = ((router srv.env).dispatch r.stamp msg).audit
      ∧ (out.2.phase = .closed ∨ out.2.phase = h.phase)
      ∧ out.2.endpoint.peerCapabilities = h.endpoint.peerCapabilities := by
  intro out
  dsimp only [out]
  unfold onMessage
  dsimp only
  rw [if_neg (Bool.eq_false_iff.mp hexpired), hcap]
  dsimp only
  cases hreply : ((router srv.env).dispatch r.stamp msg).reply with
  | error err =>
    obtain ⟨hdispatched, haudit, hsame, hcaps, -⟩ := srv.answerError_spec h r.stamp msg
      (err.text srv.env.quote)
      { received := some (.ok msg)
        audit := ((router srv.env).dispatch r.stamp msg).audit
        dispatched := some (msg, (router srv.env).dispatch r.stamp msg) } rfl
    exact ⟨hdispatched, haudit, .inr hsame, hcaps⟩
  | ok resp =>
    cases resp with
    | none => exact ⟨rfl, rfl, .inr rfl, rfl⟩
    | some resp =>
      have hsame := phase_send srv h resp
      have hcaps := capabilities_send srv h resp
      dsimp only
      revert hsame hcaps
      rcases srv.send h resp with ⟨err | u, h'⟩
      · exact fun _ hcaps => ⟨rfl, rfl, .inl rfl, hcaps⟩
      · exact fun hsame hcaps => ⟨rfl, rfl, .inr hsame, hcaps⟩

/-- A message in the loop is dealt with in one of these ways. -/
theorem loopTurn_onMessage (hphase : h.phase = .serving peer) (r : Reading)
    (hreceive : (srv.receive h).1 = .ok msg) :
    LoopTurn srv h r peer (srv.onMessage (srv.receive h).2 r peer msg).1
      (srv.onMessage (srv.receive h).2 r peer msg).2 := by
  have hphase' : (srv.receive h).2.phase = .serving peer := hphase
  have hcaps' := capabilities_receive srv h
  -- all that is used of what was received from here on
  generalize (srv.receive h).2 = h₁ at hphase' hcaps' ⊢
  cases hexpired : peer.isExpired r.now with
  | true =>
    unfold onMessage
    rw [if_pos hexpired]
    exact .expired hexpired rfl rfl rfl
  | false =>
    cases hcap : h₁.endpoint.validateCapability msg.capability with
    | error err =>
      rw [srv.onMessage_of_lacks hexpired hcap]
      obtain ⟨hdispatched, haudit, hsame, hcaps, hanswer⟩ := srv.answerError_spec h₁ r.stamp msg
        (err.text srv.env.quote)
        { received := some (.ok msg)
          audit := [⟨msg.requestID, peer.serviceID, ascii "eipc-server", msg.capability, .denied,
            ascii "capability violation"⟩] } rfl
      refine .refused msg hreceive (fun hok => ?_) hdispatched haudit (hsame.trans hphase')
        (hcaps.trans hcaps') hanswer
      rw [← hcaps'] at hok
      exact (nomatch (ServerEndpoint.validateCapability_eq_ok_iff.mpr hok).symm.trans hcap)
    | ok u =>
      obtain ⟨hdispatched, haudit, hnext, hcaps⟩ := srv.onMessage_of_granted hexpired hcap
      have hgranted := ServerEndpoint.validateCapability_eq_ok_iff.mp hcap
      rw [hcaps'] at hgranted
      rw [hphase'] at hnext
      exact .dispatched msg hreceive hexpired hgranted hdispatched haudit hnext (hcaps.trans hcaps')

/-- **A turn of the message loop** does one of these things, and leaves the
authenticator alone. -/
theorem turn_serving (srv : Server σ ε) (a : Authenticator) (r : Reading)
    (hphase : h.phase = .serving peer) :
    (srv.turn a h r).2.1 = a ∧ LoopTurn srv h r peer (srv.turn a h r).1 (srv.turn a h r).2.2 := by
  have hopen : h.phase ≠ .closed := by rw [hphase]; exact fun hc => (nomatch hc)
  cases hreceive : (srv.receive h).1 with
  | error err =>
    rw [turn_of_error hopen hreceive]
    exact ⟨rfl, .gone err hreceive rfl rfl rfl⟩
  | ok msg =>
    rw [turn_of_ok hopen hreceive, onReceived_serving ((phase_receive srv h).trans hphase)]
    exact ⟨rfl, loopTurn_onMessage hphase r hreceive⟩

/-- A message that comes in time, with a capability that was granted or with none, is
dispatched. -/
theorem LoopTurn.dispatched_of_granted {t : Turn ε} {h' : Handler σ}
    (ht : LoopTurn srv h r peer t h') (hreceive : (srv.receive h).1 = .ok msg)
    (hexpired : peer.isExpired r.now = false)
    (hcap : msg.capability = [] ∨ msg.capability ∈ h.endpoint.peerCapabilities) :
    t.dispatched = some (msg, (router srv.env).dispatch r.stamp msg)
      ∧ t.audit = ((router srv.env).dispatch r.stamp msg).audit := by
  cases ht with
  | gone err hfail _ _ _ => exact (nomatch hfail.symm.trans hreceive)
  | expired hlate _ _ _ => exact (nomatch hlate.symm.trans hexpired)
  | refused msg' hreceive' hlacks _ _ _ _ _ =>
    cases hreceive'.symm.trans hreceive
    exact absurd hcap hlacks
  | dispatched msg' hreceive' _ _ hdispatched haudit _ _ =>
    cases hreceive'.symm.trans hreceive
    exact ⟨hdispatched, haudit⟩

/-- What a turn that dispatches has received. -/
theorem LoopTurn.of_dispatched {t : Turn ε} {h' : Handler σ} {handled : Handled}
    (ht : LoopTurn srv h r peer t h') (hd : t.dispatched = some (msg, handled)) :
    (srv.receive h).1 = .ok msg ∧ peer.isExpired r.now = false
      ∧ (msg.capability = [] ∨ msg.capability ∈ h.endpoint.peerCapabilities)
      ∧ handled = (router srv.env).dispatch r.stamp msg ∧ t.audit = handled.audit := by
  cases ht with
  | gone _ _ hnone _ _ => exact (nomatch hnone.symm.trans hd)
  | expired _ hnone _ _ => exact (nomatch hnone.symm.trans hd)
  | refused _ _ _ hnone _ _ _ _ => exact (nomatch hnone.symm.trans hd)
  | dispatched msg' hreceive hexpired hcap hsome haudit _ _ =>
    cases hsome.symm.trans hd
    exact ⟨hreceive, hexpired, hcap, rfl, haudit⟩

/-- The handler serves the peer, who has what it was granted, or is done. -/
def Loops (peer : PeerIdentity) (h : Handler σ) : Prop :=
  h.phase = .closed ∨ h.phase = .serving peer ∧ h.endpoint.peerCapabilities = peer.capabilities

/-- **The message loop goes on with the same peer**, and leaves the authenticator
alone. -/
theorem loops_turn (srv : Server σ ε) (a : Authenticator) (r : Reading) (hloops : Loops peer h) :
    (srv.turn a h r).2.1 = a ∧ Loops peer (srv.turn a h r).2.2 := by
  rcases hloops with hclosed | ⟨hserving, hcaps⟩
  · rw [turn_closed hclosed]
    exact ⟨rfl, .inl hclosed⟩
  · obtain ⟨hsame, hturn⟩ := srv.turn_serving a r hserving
    refine ⟨hsame, ?_⟩
    cases hturn with
    | gone _ _ _ _ hclosed => exact .inl hclosed
    | expired _ _ _ hclosed => exact .inl hclosed
    | refused _ _ _ _ _ hnext hkeep _ => exact .inr ⟨hnext, hkeep.trans hcaps⟩
    | dispatched _ _ _ _ _ _ hnext hkeep =>
      exact hnext.imp_right fun hnext => ⟨hnext, hkeep.trans hcaps⟩

/-- The timer leaves the message loop alone. -/
theorem Loops.timeout (hloops : Loops peer h) : Loops peer h.timeout := by
  have hsame : h.timeout = h := by
    unfold Handler.timeout
    rcases hloops with hclosed | ⟨hserving, -⟩
    · rw [hclosed]
    · rw [hserving]
  rw [hsame]
  exact hloops

/-- Only the message loop dispatches. -/
theorem exists_serving_of_dispatched {a : Authenticator}
    (h' : (srv.turn a h r).1.dispatched ≠ none) : ∃ peer, h.phase = .serving peer := by
  cases hphase : h.phase with
  | awaitAuth => exact absurd (turn_awaitAuth a r hphase).1 h'
  | awaitResponse s requestID => exact absurd (turn_awaitResponse a r hphase).1 h'
  | serving peer => exact ⟨peer, rfl⟩
  | closed =>
    rw [turn_closed hphase] at h'
    exact absurd rfl h'

end Server

end EipcServer
