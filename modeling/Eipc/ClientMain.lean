import Eipc.Auth
import Eipc.Delivery
import Eipc.Payloads

/-!
# The client

`main` of `cmd/eipc-client` connects as `nia.min`, answers the challenge of the server, sends an
intent and, once that has been acknowledged, a heartbeat. It waits in three places, and what it
does between two calls of `Receive` is one turn (`EipcClient.Program.turn`); whatever goes wrong
ends the program.

Frames are signed with the shared secret, and so is the nonce of the challenge, whatever it
holds. Nor has the frame of the challenge to be signed. So whoever the client connects to can
have any frame signed (`EipcClient.Program.signs_any_frame`). And a client that is turned away
takes the denial for a session without a token, and goes on (`Handshake.done_only_if_logged`).
-/

open Bytes MessageType Endpoint

namespace EipcClient

/-! ## The program -/

/-- The service that the client connects as. -/
def serviceID : Bytes := ascii "nia.min"

/-- Where the program waits, and what it knows there. -/
inductive Phase where
  | start
  | awaitChallenge
  | awaitResult
  | awaitAck (sessionToken : Bytes)
  | done (ack : AckEvent)
  | failed

/-- The program at work. -/
structure Client (σ : Type) where
  endpoint : ClientEndpoint
  conn : σ
  phase : Phase

/-- What `main` sets up: the codec and the secret; and what it is given, the layout of times
and the transport. -/
structure Program (σ ε : Type) where
  codec : Codec
  sharedSecret : Bytes
  tf : TimeFormat Instant
  conn : Connection σ ε

/-- A message of the handshake. -/
def handshakeMessage (now : Instant) (type : MessageType) (payload : Bytes) : Message Instant where
  version := 1
  type
  source := serviceID
  timestamp := now
  sessionID := []
  requestID := []
  priority := Message.priorityP0
  capability := []
  payload

/-- The request to be admitted. -/
def authMessage (now : Instant) : Message Instant :=
  handshakeMessage now typeAuth (ClientPayloads.marshalAuthRequest ⟨serviceID⟩)

/-- The response to a challenge. -/
def responseMessage (now : Instant) (response : Bytes) : Message Instant :=
  handshakeMessage now typeAuthResponse
    (ClientPayloads.marshalChallengeResponse ⟨serviceID, toHex response⟩)

/-- The intent. -/
def intentMessage (now : Instant) (sessionToken : Bytes) : Message Instant where
  version := 1
  type := typeIntent
  source := serviceID
  timestamp := now
  sessionID := sessionToken
  requestID := ascii "req-1"
  priority := Message.priorityP0
  capability := ascii "ui:control"
  payload := ClientPayloads.marshalIntent ⟨ascii "move_left", ascii "0.91", sessionToken⟩

/-- The heartbeat. -/
def heartbeatMessage (now : Instant) (sessionToken : Bytes) : Message Instant where
  version := 1
  type := typeHeartbeat
  source := serviceID
  timestamp := now
  sessionID := sessionToken
  requestID := ascii "hb-1"
  priority := 2
  capability := []
  payload := ClientPayloads.marshalHeartbeat ⟨serviceID, ascii "ready"⟩

namespace Program

variable {σ ε : Type} (p : Program σ ε)

/-- The program when it has connected. -/
def new (s : σ) : Client σ := ⟨ClientEndpoint.new p.codec p.sharedSecret, s, .start⟩

/-- `endpoint.Send`, and on to where the program waits next. -/
def sendThen (c : Client σ) (msg : Message Instant) (next : Phase) : Client σ :=
  match c.endpoint.send p.tf p.conn c.conn msg with
  | (.error _, endpoint, conn) => ⟨endpoint, conn, .failed⟩
  | (.ok (), endpoint, conn) => ⟨endpoint, conn, next⟩

/-- The challenge. -/
def onChallenge (c : Client σ) (now : Instant) (challengeMsg : Message Instant) : Client σ :=
  if challengeMsg.type ≠ typeChallenge then { c with phase := .failed }
  else
    match ClientPayloads.unmarshalChallenge challengeMsg.payload with
    | .error _ => { c with phase := .failed }
    | .ok challenge =>
      if challenge.status = ascii "denied" then { c with phase := .failed }
      else
        match ofHex challenge.nonce with
        | none => { c with phase := .failed }
        | some nonceBytes =>
          p.sendThen c (responseMessage now (hmacSha256 p.sharedSecret nonceBytes)) .awaitResult

/-- The result. Its status is not looked at. -/
def onResult (c : Client σ) (now : Instant) (authResp : Message Instant) : Client σ :=
  if authResp.type ≠ typeAuthResponse then { c with phase := .failed }
  else
    match ClientPayloads.unmarshalAuthResult authResp.payload with
    | .error _ => { c with phase := .failed }
    | .ok authRes =>
      p.sendThen c (intentMessage now authRes.sessionToken) (.awaitAck authRes.sessionToken)

/-- The acknowledgement. Its type is not looked at. -/
def onAck (c : Client σ) (now : Instant) (sessionToken : Bytes) (ackMsg : Message Instant) :
    Client σ :=
  match ClientPayloads.unmarshalAck ackMsg.payload with
  | .error _ => { c with phase := .failed }
  | .ok ack => p.sendThen c (heartbeatMessage now sessionToken) (.done ack)

/-- What is done with a message, depending on where the program waited for it. -/
def onReceived (c : Client σ) (now : Instant) (msg : Message Instant) : Client σ :=
  match c.phase with
  | .awaitChallenge => p.onChallenge c now msg
  | .awaitResult => p.onResult c now msg
  | .awaitAck sessionToken => p.onAck c now sessionToken msg
  | _ => c

/-- `endpoint.Receive`, and what is done with the message. -/
def receiveThen (c : Client σ) (now : Instant) : Client σ :=
  match c.endpoint.receive p.tf p.conn c.conn with
  | (.error _, conn) => { c with conn, phase := .failed }
  | (.ok msg, conn) => p.onReceived { c with conn } now msg

/-- **One turn** of the program. -/
def turn (c : Client σ) (now : Instant) : Client σ :=
  match c.phase with
  | .start => p.sendThen c (authMessage now) .awaitChallenge
  | .done _ => c
  | .failed => c
  | _ => p.receiveThen c now

/-! ## One turn -/

variable {p} {c : Client σ} {now : Instant} {msg : Message Instant} {s : σ}

theorem sendThen_of_ok {next : Phase} {endpoint : ClientEndpoint}
    (h : c.endpoint.send p.tf p.conn c.conn msg = (.ok (), endpoint, s)) :
    p.sendThen c msg next = ⟨endpoint, s, next⟩ := by
  unfold sendThen
  rw [h]

/-- A message that can be received is dealt with, wherever the program waits. -/
theorem turn_of_receive (hwaits : c.phase = .awaitChallenge ∨ c.phase = .awaitResult
      ∨ ∃ sessionToken, c.phase = .awaitAck sessionToken)
    (h : c.endpoint.receive p.tf p.conn c.conn = (.ok msg, s)) :
    p.turn c now = p.onReceived { c with conn := s } now msg := by
  have hturn : p.turn c now = p.receiveThen c now := by
    unfold turn
    rcases hwaits with hphase | hphase | ⟨sessionToken, hphase⟩
    · rw [hphase]
    · rw [hphase]
    · rw [hphase]
  rw [hturn]
  unfold receiveThen
  rw [h]

/-- A challenge is answered with its HMAC. -/
theorem onReceived_challenge (hphase : c.phase = .awaitChallenge) (htype : msg.type = typeChallenge)
    {challenge : ChallengeResponse} {nonce : Bytes}
    (hread : ClientPayloads.unmarshalChallenge msg.payload = .ok challenge)
    (hstatus : challenge.status ≠ ascii "denied") (hnonce : ofHex challenge.nonce = some nonce) :
    p.onReceived c now msg
      = p.sendThen c (responseMessage now (hmacSha256 p.sharedSecret nonce)) .awaitResult := by
  unfold onReceived
  rw [hphase]
  dsimp only
  unfold onChallenge
  rw [if_neg (not_not.mpr htype), hread]
  dsimp only
  rw [if_neg hstatus, hnonce]

/-- A result is taken for a success. -/
theorem onReceived_result (hphase : c.phase = .awaitResult) (htype : msg.type = typeAuthResponse)
    {res : AuthResult} (hread : ClientPayloads.unmarshalAuthResult msg.payload = .ok res) :
    p.onReceived c now msg
      = p.sendThen c (intentMessage now res.sessionToken) (.awaitAck res.sessionToken) := by
  unfold onReceived
  rw [hphase]
  dsimp only
  unfold onResult
  rw [if_neg (not_not.mpr htype), hread]

theorem onReceived_ack {sessionToken : Bytes} (hphase : c.phase = .awaitAck sessionToken)
    {ack : AckEvent} (hread : ClientPayloads.unmarshalAck msg.payload = .ok ack) :
    p.onReceived c now msg = p.sendThen c (heartbeatMessage now sessionToken) (.done ack) := by
  unfold onReceived
  rw [hphase]
  dsimp only
  unfold onAck
  rw [hread]

/-! ## What the client signs -/

/-- A challenge with the nonce `data` that nobody has signed, with the header `hdrBytes`. -/
def unsignedChallenge (hdrBytes data : Bytes) : Frame where
  version := Frame.protocolVersion
  msgType := msgTypeToByte typeChallenge
  flags := 0
  header := hdrBytes
  payload := Json.Flat.writeObject
    [(ascii "status", .str (ascii "challenge")), (ascii "nonce", .str (toHex data))]
  mac := []

theorem validUTF8_toHex (b : Bytes) : Json.ValidUTF8 (toHex b) :=
  Json.validUTF8_of_ascii (all_toHex_lt b)

/-- A frame without the flag is opened without a look at its MAC. -/
theorem openFrame_unsignedChallenge {codec : Codec} {hdrBytes : Bytes} {hdr : Header}
    (h : codec.unmarshal hdrBytes = .ok hdr) (key data : Bytes) :
    openFrame (ε := ε) codec key (unsignedChallenge hdrBytes data) = .ok hdr :=
  have hflags : ¬((0 : UInt8) &&& Frame.flagHMAC != 0) = true := by decide
  openFrame_eq_ok_iff.mpr ⟨fun hmac => absurd hmac hflags, h⟩

/-- **The client signs any frame for anybody.** Let `f` be any frame that says it is signed.
There is a frame that can be made without the secret and that the client, when it waits for the
challenge, answers with the MAC of `f`: what it sends next is a response from which the MAC can
be read, and with which every endpoint that has the secret takes `f` for a frame that was
signed with it. A server that has the secret makes a message of it, if the number in the header is
larger than all that it has seen. -/
theorem signs_any_frame (p : Program σ ε) (c : Client σ) (now : Instant) (f : Frame)
    (hdrBytes : Bytes) (hdr hdr' : Header) (s : σ) (hphase : c.phase = .awaitChallenge)
    (hcodec : c.endpoint.codec.unmarshal hdrBytes = .ok hdr)
    (hf : p.codec.unmarshal f.header = .ok hdr')
    (hconn : p.conn.receive c.conn = (.ok (unsignedChallenge hdrBytes f.signableBytes), s)) :
    ∃ mac, p.turn c now = p.sendThen { c with conn := s } (responseMessage now mac) .awaitResult
      ∧ (∃ resp, PayloadCodec.flat.unmarshalChallengeResponse (responseMessage now mac).payload
          = .ok resp ∧ ofHex resp.response = some mac)
      ∧ openFrame (ε := ε) p.codec p.sharedSecret { f with mac } = .ok hdr'
      ∧ ∀ v : ServerEndpoint, v.codec = p.codec → v.hmacKey = p.sharedSecret →
        v.replay.maxSeen < hdr'.sequence →
          (v.accept (ε := ε) p.tf { f with mac }).1 = .ok (messageOf p.tf { f with mac } hdr') := by
  have hopen : openFrame (ε := ε) p.codec p.sharedSecret
      { f with mac := hmacSha256 p.sharedSecret f.signableBytes } = .ok hdr' := by
    refine openFrame_eq_ok_iff.mpr ⟨fun _ => ?_, hf⟩
    exact congrArg (hmacSha256 p.sharedSecret) (signableBytes_withMac f _).symm
  refine ⟨hmacSha256 p.sharedSecret f.signableBytes, ?_, ?_, hopen, ?_⟩
  · have hopen := openFrame_unsignedChallenge (ε := ε) hcodec c.endpoint.hmacKey f.signableBytes
    have hreceive : c.endpoint.receive p.tf p.conn c.conn
        = (.ok (messageOf p.tf (unsignedChallenge hdrBytes f.signableBytes) hdr), s) := by
      unfold ClientEndpoint.receive
      rw [hconn]
      dsimp only
      rw [hopen]
      rfl
    have htype : (messageOf p.tf (unsignedChallenge hdrBytes f.signableBytes) hdr).type
        = typeChallenge := msgTypeFromByte_msgTypeToByte typeChallenge (by decide)
    have hread : ClientPayloads.unmarshalChallenge
        (messageOf p.tf (unsignedChallenge hdrBytes f.signableBytes) hdr).payload
          = .ok ⟨ascii "challenge", toHex f.signableBytes, []⟩ :=
      PayloadCodec.unmarshalChallenge_marshal (c := ⟨ascii "challenge", toHex f.signableBytes⟩)
        (PayloadCodec.validUTF8_key rfl) (validUTF8_toHex _) (PayloadCodec.marshalChallenge_eq _)
    rw [turn_of_receive (.inl hphase) hreceive]
    have hstatus : ascii "challenge" ≠ ascii "denied" := by decide
    exact onReceived_challenge (c := { c with conn := s }) hphase htype hread hstatus
      (ofHex_toHex _)
  · exact ⟨_, PayloadCodec.unmarshalChallengeResponse_marshal (PayloadCodec.validUTF8_key rfl)
      (validUTF8_toHex _), ofHex_toHex _⟩
  · intro v hcodec' hkey hnew
    rw [← hcodec', ← hkey] at hopen
    rw [← hkey]
    exact (ServerEndpoint.accept_eq_ok_iff p.tf).mpr
      ⟨hdr', hopen, (Tracker.check_of_gt hnew).1, rfl⟩

/-- A header with the name of the client and the first number. -/
def rebootHeader : Header := { Header.zero with serviceID, sequence := 1 }

/-- A frame that orders a reboot. -/
def rebootFrame : Frame where
  version := Frame.protocolVersion
  msgType := msgTypeToByte typeIntent
  flags := Frame.flagHMAC
  header := Json.writeObject rebootHeader.members
  payload := ClientPayloads.marshalIntent ⟨ascii "system.reboot", ascii "1", []⟩
  mac := []

/-- A client that is sent a challenge made from that frame, over and over again. -/
def tricked : Program Unit String where
  codec := .json
  sharedSecret := ascii "secret"
  tf := ⟨0, fun _ => [], fun _ => none⟩
  conn :=
    { send := fun s _ => (.ok (), s)
      receive := fun s =>
        (.ok (unsignedChallenge (Json.writeObject Header.zero.members) rebootFrame.signableBytes),
          s) }

theorem signs_any_frame_reboot :
    ∃ mac, tricked.turn ⟨.new .json (ascii "secret"), (), .awaitChallenge⟩ 0
        = tricked.sendThen ⟨.new .json (ascii "secret"), (), .awaitChallenge⟩
          (responseMessage 0 mac) .awaitResult
      ∧ ((ServerEndpoint.new .json (ascii "secret")).accept (ε := String) tricked.tf
          { rebootFrame with mac }).1
        = .ok (messageOf tricked.tf { rebootFrame with mac } rebootHeader) := by
  have hzero : Codec.json.unmarshal (Json.writeObject Header.zero.members) = .ok Header.zero :=
    Codec.json_undoes Header.zero _ ⟨Json.validUTF8_nil, Json.validUTF8_nil, Json.validUTF8_nil,
      Json.validUTF8_nil, Json.validUTF8_nil, Json.validUTF8_nil⟩ rfl
  have hreboot : Codec.json.unmarshal (Json.writeObject rebootHeader.members)
      = .ok rebootHeader :=
    Codec.json_undoes rebootHeader _ ⟨PayloadCodec.validUTF8_key rfl, Json.validUTF8_nil,
      Json.validUTF8_nil, Json.validUTF8_nil, Json.validUTF8_nil, Json.validUTF8_nil⟩ rfl
  obtain ⟨mac, hturn, -, -, haccept⟩ := signs_any_frame tricked
    ⟨.new .json (ascii "secret"), (), .awaitChallenge⟩ 0 rebootFrame
    (Json.writeObject Header.zero.members) Header.zero rebootHeader () rfl hzero hreboot rfl
  exact ⟨mac, hturn, haccept (.new .json (ascii "secret")) rfl rfl (by decide)⟩

end Program

end EipcClient
