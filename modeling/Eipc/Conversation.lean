import Eipc.ClientMain
import Eipc.ServerRecords

/-!
# Client and server, message by message

`cmd/eipc-client` and `cmd/eipc-server` talk over a stream: each message is a record of a signed
frame, whose header is a JSON object, and whose payload is another one. Here are the messages
that they send each other when all goes well, and the denial, as bytes on the wire; and what
each of the two does with the message that it waits for. Everything that could go wrong on the
way – the sizes, the codecs, the MAC, the replay window – is dealt with here, once for each
message, so that `Eipc.Handshake` can follow the two programs from message to message.
-/

open Bytes MessageType Endpoint Audit

namespace Handshake

open ConnWrapper (Stream)

/-! ## Messages on the wire -/

section Wire

variable (tf : TimeFormat Instant) (key : Bytes)

/-- The header of a message. -/
def headerBytes (seq : UInt64) (msg : Message Instant) : Bytes :=
  Json.writeObject (headerOf tf seq msg).members

/-- The frame of a message. -/
def frameFor (seq : UInt64) (msg : Message Instant) : Frame :=
  signFrame key (frameOf (headerBytes tf seq msg) msg)

/-- What a message is on the wire. -/
def wireOf (seq : UInt64) (msg : Message Instant) : Bytes :=
  ConnWrapper.record (frameFor tf key seq msg).wire

/-- What is received of a message: the time is read back from its text. -/
def receivedAs (msg : Message Instant) : Message Instant :=
  { msg with version := 1, timestamp := (tf.parse (tf.format msg.timestamp)).getD tf.zero }

/-- Times are written as short texts of valid UTF-8. -/
structure WritesTimes : Prop where
  valid : ∀ t, Json.ValidUTF8 (tf.format t)
  short : ∀ t, (tf.format t).length ≤ 64

/-- A message that is short. -/
structure Short (msg : Message Instant) : Prop where
  type : msg.type ∈ declared
  source : Json.ValidUTF8 msg.source ∧ msg.source.length ≤ 64
  sessionID : Json.ValidUTF8 msg.sessionID ∧ msg.sessionID.length ≤ 64
  requestID : Json.ValidUTF8 msg.requestID ∧ msg.requestID.length ≤ 64
  capability : Json.ValidUTF8 msg.capability ∧ msg.capability.length ≤ 64
  payload : msg.payload.length ≤ 1000000

variable {tf key} {seq : UInt64} {msg : Message Instant}

theorem length_writeMember_str (k s : Bytes) :
    (Json.writeMember (k, .str s)).length = (Json.quote k).length + (Json.quote s).length + 1 :=
  List.length_append.trans (Nat.add_assoc _ _ _).symm

theorem length_writeMember_num (k : Bytes) (n : ℕ) :
    (Json.writeMember (k, .num n)).length = (Json.quote k).length + (Json.decimal n).length + 1 :=
  List.length_append.trans (Nat.add_assoc _ _ _).symm

theorem length_omitEmpty_le (k s : Bytes) :
    ((Header.omitEmpty k s).map fun kv => (Json.writeMember kv).length + 1).sum
      ≤ 6 * k.length + 6 * s.length + 6 := by
  unfold Header.omitEmpty
  split
  · exact Nat.zero_le _
  · have hk := Json.length_quote_le k
    have hs := Json.length_quote_le s
    simp only [List.map_cons, List.map_nil, List.sum_cons, List.sum_nil, length_writeMember_str]
    omega

/-- The header of a short message is short. -/
theorem length_headerBytes_le (ht : WritesTimes tf) (h : Short msg) (seq : UInt64) :
    (headerBytes tf seq msg).length ≤ 4000 := by
  have hlist := Json.length_writeList_le Json.Flat.writeMember 0x7b 0x7d
    ((headerOf tf seq msg).members.map fun kv => (kv.1, Json.Flat.ofValue kv.2))
  have hobject := Json.Flat.writeObject_ofValue (headerOf tf seq msg).members
  unfold Json.Flat.writeObject at hobject
  rw [hobject] at hlist
  have hmember : ∀ kv : Bytes × Json.Value,
      (Json.Flat.writeMember (kv.1, Json.Flat.ofValue kv.2)).length
        = (Json.writeMember kv).length := by
    intro kv
    unfold Json.Flat.writeMember Json.writeMember
    rw [Json.Flat.write_ofValue]
  have hsource := Json.length_quote_le msg.source
  have hsession := Json.length_quote_le msg.sessionID
  have hrequest := Json.length_quote_le msg.requestID
  have htime := Json.length_quote_le (tf.format msg.timestamp)
  have hcap := length_omitEmpty_le (ascii "capability") msg.capability
  have hseq : (Json.decimal seq.toNat).length ≤ 20 :=
    Json.length_decimal_le _ (by decide) (Nat.lt_of_lt_of_le seq.toNat_lt (by decide))
  have hpriority : (Json.decimal msg.priority.toNat).length ≤ 3 :=
    Json.length_decimal_le _ (by decide) (Nat.lt_of_lt_of_le msg.priority.toNat_lt (by decide))
  have hkeys : (Json.quote (ascii "service_id")).length + (Json.quote (ascii "session_id")).length
      + (Json.quote (ascii "request_id")).length + (Json.quote (ascii "sequence")).length
      + (Json.quote (ascii "timestamp")).length + (Json.quote (ascii "priority")).length
      + (Json.quote (ascii "payload_format")).length + (Json.decimal payloadJSON.toNat).length
      + (ascii "capability").length ≤ 120 := by
    decide +kernel
  have := h.source.2
  have := h.sessionID.2
  have := h.requestID.2
  have := h.capability.2
  have := ht.short msg.timestamp
  refine hlist.trans ?_
  rw [List.map_map]
  show ((headerOf tf seq msg).members.map fun kv =>
    (Json.Flat.writeMember (kv.1, Json.Flat.ofValue kv.2)).length + 1).sum + 2 ≤ 4000
  simp only [hmember]
  simp only [headerOf, Header.members, List.map_append, List.sum_append, List.map_cons,
    List.map_nil, List.sum_cons, List.sum_nil, length_writeMember_str, length_writeMember_num]
  have hroute : ((Header.omitEmpty (ascii "route") []).map fun kv =>
      (Json.writeMember kv).length + 1).sum = 0 := rfl
  omega

theorem size_of_short (ht : WritesTimes tf) (h : Short msg) (seq : UInt64) :
    (headerBytes tf seq msg).length + msg.payload.length ≤ Frame.maxFrameSize - 48 := by
  have := length_headerBytes_le ht h seq
  have := h.payload
  show _ ≤ 1048576 - 48
  omega

theorem unmarshal_headerBytes (ht : WritesTimes tf) (h : Short msg) (seq : UInt64) :
    Codec.json.unmarshal (headerBytes tf seq msg) = .ok (headerOf tf seq msg) :=
  Codec.json_undoes _ _ ⟨h.source.1, h.sessionID.1, h.requestID.1, ht.valid _, h.capability.1,
    Json.validUTF8_nil⟩ rfl

theorem messageOf_frameFor (h : Short msg) (seq : UInt64) :
    messageOf tf (frameFor tf key seq msg) (headerOf tf seq msg) = receivedAs tf msg := by
  have htype := msgTypeFromByte_msgTypeToByte msg.type h.type
  unfold messageOf receivedAs
  rw [← htype]
  rfl

end Wire

/-! ## The two programs -/

section Programs

variable (tf : TimeFormat Instant) (key : Bytes)

/-- The client, with the secret `key`. -/
def program : EipcClient.Program Stream TransportError := ⟨.json, key, tf, ConnWrapper.connection⟩

/-- What `%q` makes of a name without characters that need escapes. -/
def quoted (s : Bytes) : String :=
  "\"" ++ String.ofList (s.map fun b => Char.ofNat b.toNat) ++ "\""

/-- The server, with the secret `key`. -/
def server : EipcServer.Server Stream TransportError where
  env := ⟨.flat, quoted⟩
  codec := .json
  hmacKey := key
  secret := key
  known := EipcServer.knownServices
  tf
  conn := ConnWrapper.connection

/-- The client after `n` messages, with `down` on the way to it. -/
def clientAt (n : UInt64) (down up : Bytes) (phase : EipcClient.Phase) :
    EipcClient.Client Stream :=
  ⟨⟨.json, key, n⟩, ⟨down, up⟩, phase⟩

/-- The handler after `n` messages, with `up` on the way to it. -/
def handlerAt (replay : Tracker) (n : UInt64) (caps : List Bytes) (up down : Bytes)
    (phase : EipcServer.Phase) : EipcServer.Handler Stream :=
  ⟨⟨.json, key, replay, n, caps⟩, ⟨up, down⟩, phase⟩

variable {tf key} {msg : Message Instant} {replay : Tracker} {n seq : UInt64} {caps : List Bytes}
  {up down rest : Bytes} {phase : EipcServer.Phase}

/-- The client sends a short message. -/
theorem sendThen_short (ht : WritesTimes tf) (h : Short msg) (n : UInt64) (down up : Bytes)
    {cphase : EipcClient.Phase} (next : EipcClient.Phase) :
    (program tf key).sendThen (clientAt key n down up cphase) msg next
      = clientAt key (n + 1) down (up ++ wireOf tf key (n + 1) msg) next :=
  EipcClient.Program.sendThen_of_ok
    (Delivery.send_step (e := ⟨.json, key, n⟩) rfl (size_of_short ht h (n + 1)) ⟨down, up⟩)

/-- The client receives a short message. -/
theorem receive_client (ht : WritesTimes tf) (h : Short msg) (key : Bytes) (n seq : UInt64)
    (rest up : Bytes) :
    (⟨.json, key, n⟩ : ClientEndpoint).receive tf ConnWrapper.connection
        ⟨wireOf tf key seq msg ++ rest, up⟩
      = (.ok (receivedAs tf msg), ⟨rest, up⟩) := by
  unfold ClientEndpoint.receive wireOf
  dsimp only [ConnWrapper.connection]
  have hreceive : ConnWrapper.receive (ConnWrapper.record (frameFor tf key seq msg).wire ++ rest)
      = (.ok (frameFor tf key seq msg), rest) :=
    Delivery.receive_signFrame key (size_of_short ht h seq) rest
  have hopen : openFrame (ε := TransportError) .json key (frameFor tf key seq msg)
      = .ok (headerOf tf seq msg) :=
    Delivery.openFrame_signFrame key (unmarshal_headerBytes ht h seq)
  rw [hreceive]
  dsimp only
  rw [hopen]
  show (Except.ok (messageOf tf (frameFor tf key seq msg) (headerOf tf seq msg)), _) = _
  rw [messageOf_frameFor h]

/-- The server receives a short message with a new number. -/
theorem receive_server (ht : WritesTimes tf) (h : Short msg) (hseq : seq > replay.maxSeen)
    (key : Bytes) (n : UInt64) (caps : List Bytes) (rest down : Bytes) (phase : EipcServer.Phase) :
    (server tf key).receive
        (handlerAt key replay n caps (wireOf tf key seq msg ++ rest) down phase)
      = (.ok (receivedAs tf msg), handlerAt key (replay.check seq).2 n caps rest down phase) := by
  have hunmarshal := unmarshal_headerBytes ht h seq
  have hstep := Delivery.receive_step (v := ⟨.json, key, replay, n, caps⟩) hunmarshal
    (size_of_short ht h seq) hseq rest down
  have hmsg : messageOf tf (signFrame key (frameOf (headerBytes tf seq msg) msg))
      (headerOf tf seq msg) = receivedAs tf msg := messageOf_frameFor h seq
  rw [hmsg] at hstep
  exact congrArg (fun x => (x.1, (⟨x.2.1, x.2.2, phase⟩ : EipcServer.Handler Stream))) hstep

/-- The server sends a short message. -/
theorem send_server (ht : WritesTimes tf) (h : Short msg) (key : Bytes) (replay : Tracker)
    (n : UInt64) (caps : List Bytes) (up down : Bytes) (phase : EipcServer.Phase) :
    (server tf key).send (handlerAt key replay n caps up down phase) msg
      = (.ok (), handlerAt key replay (n + 1) caps up (down ++ wireOf tf key (n + 1) msg)
        phase) := by
  have hmarshal : Codec.json.marshal (headerOf tf (n + 1) msg) = .ok (headerBytes tf (n + 1) msg) :=
    rfl
  have hsend := ServerEndpoint.send_of_marshal tf ConnWrapper.connection
    (e := ⟨.json, key, replay, n, caps⟩) (s := ⟨up, down⟩) hmarshal
  dsimp only [ConnWrapper.connection] at hsend
  rw [Delivery.send_signFrame key (size_of_short ht h (n + 1))] at hsend
  exact congrArg (fun x => (x.1, (⟨x.2.1, x.2.2, phase⟩ : EipcServer.Handler Stream))) hsend

/-- A turn of the client that waits for a short message. -/
theorem turn_client (ht : WritesTimes tf) (h : Short msg) {cphase : EipcClient.Phase}
    (hwaits : cphase = .awaitChallenge ∨ cphase = .awaitResult
      ∨ ∃ sessionToken, cphase = .awaitAck sessionToken) (now : Instant) :
    (program tf key).turn (clientAt key n (wireOf tf key seq msg) up cphase) now
      = (program tf key).onReceived (clientAt key n [] up cphase) now (receivedAs tf msg) := by
  have hreceive := receive_client ht h key n seq [] up
  rw [List.append_nil] at hreceive
  exact EipcClient.Program.turn_of_receive (c := clientAt key n (wireOf tf key seq msg) up cphase)
    hwaits hreceive

/-- A turn of the handler that waits for a short message. -/
theorem turn_server (ht : WritesTimes tf) (h : Short msg) (hseq : seq > replay.maxSeen)
    (phase : EipcServer.Phase) (hphase : phase ≠ .closed) (a : Authenticator)
    (r : EipcServer.Reading) :
    (server tf key).turn a (handlerAt key replay n caps (wireOf tf key seq msg) down phase) r
      = (server tf key).onReceived a (handlerAt key (replay.check seq).2 n caps [] down phase) r
        (receivedAs tf msg) := by
  have hreceive := receive_server ht h hseq key n caps [] down phase
  rw [List.append_nil] at hreceive
  rw [EipcServer.Server.turn_of_ok (h := handlerAt key replay n caps (wireOf tf key seq msg) down
    phase) hphase (congrArg Prod.fst hreceive), hreceive]

end Programs

/-! ## What they send -/

section Messages

open EipcClient (serviceID authMessage responseMessage intentMessage heartbeatMessage)

/-- The challenge of the server. -/
def challengeMessage (stamp : Instant) (nonce : Bytes) : Message Instant :=
  EipcServer.handshakeMessage stamp typeChallenge [] (Json.Flat.writeObject
    [(ascii "status", .str (ascii "challenge")), (ascii "nonce", .str (toHex nonce))])

/-- The result for a peer that is admitted. -/
def resultMessage (stamp : Instant) (peer : PeerIdentity) : Message Instant :=
  EipcServer.handshakeMessage stamp typeAuthResponse [] (Json.Flat.writeObject
    [(ascii "status", .str (ascii "ok")), (ascii "session_token", .str peer.sessionToken),
      (ascii "capabilities", .strs peer.capabilities)])

/-- The result for a peer that is turned away. -/
def denialMessage (stamp : Instant) (error : Bytes) : Message Instant :=
  EipcServer.handshakeMessage stamp typeAuthResponse [] (Json.writeObject
    ((ascii "status", .str (ascii "denied")) :: Header.omitEmpty (ascii "error") error))

/-- The acknowledgement of the intent. -/
def ackEvent : AckEvent := ⟨ascii "req-1", ascii "ok", []⟩

def ackMessage (stamp : Instant) (sessionToken : Bytes) : Message Instant :=
  EipcServer.reply stamp (intentMessage 0 sessionToken) typeAck Message.priorityP0
    (Json.writeObject
      [(ascii "request_id", .str (ascii "req-1")), (ascii "status", .str (ascii "ok"))])

/-- What the service is configured with. -/
def granted : List Bytes := [ascii "ui:control", ascii "device:read"]

theorem lookup_serviceID : EipcServer.knownServices.lookup serviceID = some granted := by
  decide +kernel

/-- A peer that was admitted as the service. -/
structure IsPeer (peer : PeerIdentity) : Prop where
  service : peer.serviceID = serviceID
  capabilities : peer.capabilities = granted
  token : ∃ b : Bytes, b.length = 32 ∧ peer.sessionToken = toHex b

theorem IsPeer.short {peer : PeerIdentity} (h : IsPeer peer) :
    Json.ValidUTF8 peer.sessionToken ∧ peer.sessionToken.length ≤ 64 := by
  obtain ⟨b, hlen, heq⟩ := h.token
  rw [heq, length_toHex, hlen]
  exact ⟨EipcClient.Program.validUTF8_toHex b, Nat.le_refl _⟩

theorem short_text {s : Bytes} (h : (s.all (· < 0x80) && decide (s.length ≤ 64)) = true) :
    Json.ValidUTF8 s ∧ s.length ≤ 64 := by
  rw [Bool.and_eq_true, decide_eq_true_iff] at h
  exact ⟨Json.validUTF8_of_ascii h.1, h.2⟩

theorem short_authMessage (now : Instant) : Short (authMessage now) where
  type := show typeAuth ∈ declared by decide
  source := short_text rfl
  sessionID := short_text rfl
  requestID := short_text rfl
  capability := short_text rfl
  payload := by
    show (ClientPayloads.marshalAuthRequest ⟨serviceID⟩).length ≤ 1000000
    decide +kernel

/-- The length of an object with two strings. -/
theorem length_pair_le (k₁ s₁ k₂ s₂ : Bytes) :
    (Json.Flat.writeObject [(k₁, .str s₁), (k₂, .str s₂)]).length
      ≤ 6 * (k₁.length + s₁.length + k₂.length + s₂.length) + 14 := by
  have h := Json.Flat.length_writeObject_le [(k₁, .str s₁), (k₂, .str s₂)]
  have h₁ := Json.Flat.length_writeMember_str_le k₁ s₁
  have h₂ := Json.Flat.length_writeMember_str_le k₂ s₂
  simp only [List.map_cons, List.map_nil, List.sum_cons, List.sum_nil] at h
  omega

theorem short_responseMessage (now : Instant) {response : Bytes} (h : response.length = 32) :
    Short (responseMessage now response) where
  type := show typeAuthResponse ∈ declared by decide
  source := short_text rfl
  sessionID := short_text rfl
  requestID := short_text rfl
  capability := short_text rfl
  payload := by
    refine (length_pair_le _ _ _ _).trans ?_
    have hkeys : (ascii "service_id").length + serviceID.length + (ascii "response").length
        ≤ 100 := by decide
    rw [length_toHex, h]
    show 6 * ((ascii "service_id").length + serviceID.length + (ascii "response").length + 2 * 32)
      + 14 ≤ 1000000
    omega

theorem short_challengeMessage (stamp : Instant) {nonce : Bytes} (h : nonce.length = 32) :
    Short (challengeMessage stamp nonce) where
  type := show typeChallenge ∈ declared by decide
  source := short_text rfl
  sessionID := short_text rfl
  requestID := short_text rfl
  capability := short_text rfl
  payload := by
    refine (length_pair_le _ _ _ _).trans ?_
    have hkeys : (ascii "status").length + (ascii "challenge").length + (ascii "nonce").length
        ≤ 100 := by decide
    rw [length_toHex, h]
    omega

theorem short_resultMessage (stamp : Instant) {peer : PeerIdentity} (h : IsPeer peer) :
    Short (resultMessage stamp peer) where
  type := show typeAuthResponse ∈ declared by decide
  source := short_text rfl
  sessionID := short_text rfl
  requestID := short_text rfl
  capability := short_text rfl
  payload := by
    have hlen := Json.Flat.length_writeObject_le [(ascii "status", .str (ascii "ok")),
      (ascii "session_token", .str peer.sessionToken), (ascii "capabilities", .strs granted)]
    have hstatus := Json.Flat.length_writeMember_str_le (ascii "status") (ascii "ok")
    have htoken := Json.Flat.length_writeMember_str_le (ascii "session_token") peer.sessionToken
    have hcaps : (Json.Flat.writeMember (ascii "capabilities", .strs granted)).length ≤ 100 := by
      decide +kernel
    have hkeys : (ascii "status").length + (ascii "ok").length + (ascii "session_token").length
        ≤ 100 := by decide
    have := h.short.2
    simp only [List.map_cons, List.map_nil, List.sum_cons, List.sum_nil] at hlen
    unfold resultMessage EipcServer.handshakeMessage
    dsimp only
    rw [h.capabilities]
    omega

theorem short_intentMessage (now : Instant) {sessionToken : Bytes}
    (h : Json.ValidUTF8 sessionToken ∧ sessionToken.length ≤ 64) :
    Short (intentMessage now sessionToken) where
  type := show typeIntent ∈ declared by decide
  source := short_text rfl
  sessionID := h
  requestID := short_text rfl
  capability := short_text rfl
  payload := by
    have hlen := Json.Flat.length_writeObject_le [(ascii "intent", .str (ascii "move_left")),
      (ascii "confidence", .num (ascii "0.91")), (ascii "session_id", .str sessionToken)]
    have hintent := Json.Flat.length_writeMember_str_le (ascii "intent") (ascii "move_left")
    have htoken := Json.Flat.length_writeMember_str_le (ascii "session_id") sessionToken
    have hnum : (Json.Flat.writeMember (ascii "confidence", .num (ascii "0.91"))).length ≤ 100 := by
      decide +kernel
    have hkeys : (ascii "intent").length + (ascii "move_left").length
        + (ascii "session_id").length ≤ 100 := by decide
    have := h.2
    simp only [List.map_cons, List.map_nil, List.sum_cons, List.sum_nil] at hlen
    unfold intentMessage ClientPayloads.marshalIntent
    dsimp only
    omega

theorem short_heartbeatMessage (now : Instant) {sessionToken : Bytes}
    (h : Json.ValidUTF8 sessionToken ∧ sessionToken.length ≤ 64) :
    Short (heartbeatMessage now sessionToken) where
  type := show typeHeartbeat ∈ declared by decide
  source := short_text rfl
  sessionID := h
  requestID := short_text rfl
  capability := short_text rfl
  payload := by
    show (ClientPayloads.marshalHeartbeat ⟨serviceID, ascii "ready"⟩).length ≤ 1000000
    decide +kernel

theorem short_ackMessage (stamp : Instant) {sessionToken : Bytes}
    (h : Json.ValidUTF8 sessionToken ∧ sessionToken.length ≤ 64) :
    Short (ackMessage stamp sessionToken) where
  type := show typeAck ∈ declared by decide
  source := short_text rfl
  sessionID := h
  requestID := short_text rfl
  capability := short_text rfl
  payload := by
    show (Json.writeObject [(ascii "request_id", .str (ascii "req-1")),
      (ascii "status", .str (ascii "ok"))]).length ≤ 1000000
    decide +kernel

end Messages

/-! ## The turns of the server -/

section Server

open EipcServer (Reading Turn Phase Server Handler)

variable {σ ε : Type} {srv : Server σ ε} {a a' : Authenticator} {h h' : Handler σ} {r : Reading}
  {msg : Message Instant} {payload : Bytes}

/-- The handshake goes on, if the payload can be sent. -/
theorem proceed_of_send {stamp : Instant} {type : MessageType} {requestID : Bytes} {next : Phase}
    {t : Turn ε}
    (hsend : srv.send h (EipcServer.handshakeMessage stamp type requestID payload)
      = (.ok (), h')) :
    srv.proceed h stamp type requestID (.ok payload) next t
      = ({ t with sent := some (EipcServer.handshakeMessage stamp type requestID payload, .ok ()) },
        h'.goto next) := by
  unfold EipcServer.Server.proceed
  dsimp only
  rw [hsend]

/-- A request for a service that is known is answered with a challenge. -/
theorem onAuth_of_ok (htype : msg.type = typeAuth) {req : AuthRequest} {challenge : Challenge}
    (hread : srv.env.payloads.unmarshalAuthRequest msg.payload = .ok req)
    (hcreate : a.createChallenge r.now r.draw req.serviceID = (.ok challenge, a'))
    (hmarshal : srv.env.payloads.marshalChallenge ⟨ascii "challenge", toHex challenge.nonce⟩
      = .ok payload)
    (hsend : srv.send h (EipcServer.handshakeMessage r.stamp typeChallenge msg.requestID payload)
      = (.ok (), h')) :
    (srv.onAuth a h r msg).1.audit = [] ∧ (srv.onAuth a h r msg).1.dispatched = none
      ∧ (srv.onAuth a h r msg).2 = (a', h'.goto (.awaitResponse req.serviceID msg.requestID)) := by
  unfold EipcServer.Server.onAuth
  rw [if_neg (not_not.mpr htype), hread]
  dsimp only
  rw [hcreate]
  dsimp only
  rw [hmarshal, proceed_of_send hsend]
  exact ⟨rfl, rfl, rfl⟩

/-- A response that is accepted is answered with the result. -/
theorem onResponse_of_ok {s requestID : Bytes} (htype : msg.type = typeAuthResponse)
    {resp : ChallengeResponse} {response : Bytes} {peer : PeerIdentity}
    (hread : srv.env.payloads.unmarshalChallengeResponse msg.payload = .ok resp)
    (hhex : ofHex resp.response = some response)
    (hverify : a.verifyResponse r.now r.draw s response = (.ok peer, a'))
    (hmarshal : srv.env.payloads.marshalAuthResult
      ⟨ascii "ok", peer.sessionToken, peer.capabilities⟩ = .ok payload)
    (hsend : srv.send { h with endpoint := h.endpoint.setPeerCapabilities peer.capabilities }
      (EipcServer.handshakeMessage r.stamp typeAuthResponse requestID payload) = (.ok (), h')) :
    let out := srv.onResponse a h r s requestID msg
    out.1.audit = [Server.sessionEntry requestID peer.serviceID] ∧ out.1.dispatched = none
      ∧ out.2 = (a', h'.goto (.serving peer)) := by
  intro out
  dsimp only [out]
  unfold EipcServer.Server.onResponse
  rw [if_neg (not_not.mpr htype), hread]
  dsimp only
  rw [hhex]
  dsimp only
  rw [hverify]
  dsimp only
  rw [hmarshal, proceed_of_send hsend]
  exact ⟨rfl, rfl, rfl⟩

/-- A response that is not accepted is answered with a denial. -/
theorem onResponse_of_error {s requestID : Bytes} (htype : msg.type = typeAuthResponse)
    {resp : ChallengeResponse} {response : Bytes} {err : AuthError}
    (hread : srv.env.payloads.unmarshalChallengeResponse msg.payload = .ok resp)
    (hhex : ofHex resp.response = some response)
    (hverify : a.verifyResponse r.now r.draw s response = (.error err, a'))
    (hmarshal : srv.env.payloads.marshalAuthResponse
      ⟨ascii "denied", utf8 (err.text srv.env.quote)⟩ = .ok payload)
    (hsend : srv.send h (EipcServer.handshakeMessage r.stamp typeAuthResponse requestID payload)
      = (.ok (), h')) :
    let out := srv.onResponse a h r s requestID msg
    out.1.audit = [⟨requestID, s, ascii "eipc-server", ascii "authenticate", .denied,
        ascii "challenge-response failed"⟩] ∧ out.1.dispatched = none
      ∧ out.2 = (a', h'.goto .closed) := by
  intro out
  dsimp only [out]
  unfold EipcServer.Server.onResponse
  rw [if_neg (not_not.mpr htype), hread]
  dsimp only
  rw [hhex]
  dsimp only
  rw [hverify]
  dsimp only
  unfold EipcServer.Server.deny
  rw [hmarshal]
  dsimp only
  rw [hsend]
  exact ⟨rfl, rfl, rfl⟩

/-- A message in time with a capability that was granted is dispatched, and the reply is sent. -/
theorem onMessage_of_reply {peer : PeerIdentity} (hexpired : peer.isExpired r.now = false)
    (hcap : h.endpoint.validateCapability msg.capability = .ok ()) {resp : Message Instant}
    (hreply : ((EipcServer.router srv.env).dispatch r.stamp msg).reply = .ok (some resp))
    (hsend : srv.send h resp = (.ok (), h')) :
    (srv.onMessage h r peer msg).1.audit = ((EipcServer.router srv.env).dispatch r.stamp msg).audit
      ∧ (srv.onMessage h r peer msg).1.dispatched
        = some (msg, (EipcServer.router srv.env).dispatch r.stamp msg)
      ∧ (srv.onMessage h r peer msg).2 = h' := by
  unfold EipcServer.Server.onMessage
  dsimp only
  rw [if_neg (Bool.eq_false_iff.mp hexpired), hcap]
  dsimp only
  rw [hreply]
  dsimp only
  rw [hsend]
  exact ⟨rfl, rfl, rfl⟩

/-- A message that needs no reply is dispatched. -/
theorem onMessage_of_no_reply {peer : PeerIdentity} (hexpired : peer.isExpired r.now = false)
    (hcap : h.endpoint.validateCapability msg.capability = .ok ())
    (hreply : ((EipcServer.router srv.env).dispatch r.stamp msg).reply = .ok none) :
    (srv.onMessage h r peer msg).1.audit = ((EipcServer.router srv.env).dispatch r.stamp msg).audit
      ∧ (srv.onMessage h r peer msg).1.dispatched
        = some (msg, (EipcServer.router srv.env).dispatch r.stamp msg)
      ∧ (srv.onMessage h r peer msg).2 = h := by
  unfold EipcServer.Server.onMessage
  dsimp only
  rw [if_neg (Bool.eq_false_iff.mp hexpired), hcap]
  dsimp only
  rw [hreply]
  exact ⟨rfl, rfl, rfl⟩

end Server

section Turns

open EipcClient (serviceID authMessage responseMessage intentMessage heartbeatMessage)
open EipcServer (Reading Turn Phase Server)

variable {tf : TimeFormat Instant} {key : Bytes} {replay : Tracker} {a : Authenticator}
  {r : Reading} {n : UInt64} {caps : List Bytes}

/-- **The request of the client** is answered with a challenge. -/
theorem turn_request (key : Bytes) (caps : List Bytes) (ht : WritesTimes tf)
    (hserves : a.knownServices = EipcServer.knownServices)
    {nonce : { b : Bytes // b.length = 32 }} (hdraw : r.draw = .ok nonce) (now : Instant)
    (hseen : replay.maxSeen = 0) :
    let out := (server tf key).turn a
      (handlerAt key replay 0 caps (wireOf tf key 1 (authMessage now)) [] .awaitAuth) r
    out.1.audit = [] ∧ out.1.dispatched = none
      ∧ out.2 = ((a.createChallenge r.now r.draw serviceID).2,
        handlerAt key (replay.check 1).2 1 caps []
          (wireOf tf key 1 (challengeMessage r.stamp nonce)) (.awaitResponse serviceID [])) := by
  intro out
  have hknown : serviceID ∈ a.knownServices := by
    rw [hserves]
    exact Finmap.mem_iff.mpr ⟨granted, lookup_serviceID⟩
  have hcreate : a.createChallenge r.now r.draw serviceID
      = (.ok ⟨serviceID, nonce, r.now⟩, (a.createChallenge r.now r.draw serviceID).2) := by
    rw [hdraw]
    unfold Authenticator.createChallenge
    rw [if_neg (not_not.mpr hknown)]
  have hturn : out = (server tf key).onAuth a
      (handlerAt key (replay.check 1).2 0 caps [] [] .awaitAuth) r
      (receivedAs tf (authMessage now)) :=
    turn_server ht (short_authMessage now) (by rw [hseen]; decide) .awaitAuth nofun a r
  have hread : (server tf key).env.payloads.unmarshalAuthRequest
      (receivedAs tf (authMessage now)).payload = .ok ⟨serviceID⟩ :=
    PayloadCodec.unmarshalAuthRequest_marshal (Json.validUTF8_of_ascii rfl)
  have hmarshal : (server tf key).env.payloads.marshalChallenge
      ⟨ascii "challenge", toHex nonce.1⟩ = .ok (challengeMessage r.stamp nonce).payload :=
    PayloadCodec.marshalChallenge_eq _
  have hsend := send_server ht (short_challengeMessage r.stamp nonce.2) key (replay.check 1).2 0
    caps [] [] .awaitAuth
  rw [hturn]
  exact onAuth_of_ok rfl hread hcreate hmarshal hsend

/-- The server reads the response that the client sends. -/
theorem unmarshal_responseMessage (now : Instant) (response : Bytes) :
    (server tf key).env.payloads.unmarshalChallengeResponse
      (receivedAs tf (responseMessage now response)).payload = .ok ⟨serviceID, toHex response⟩ :=
  PayloadCodec.unmarshalChallengeResponse_marshal (Json.validUTF8_of_ascii rfl)
    (EipcClient.Program.validUTF8_toHex response)

/-- The handler waits for the response, and takes it. -/
theorem turn_awaitResponse (ht : WritesTimes tf) (now : Instant) {response : Bytes}
    (hlen : response.length = 32) (hseen : replay.maxSeen = 1) (a : Authenticator) (r : Reading) :
    (server tf key).turn a (handlerAt key replay 1 [] (wireOf tf key 2 (responseMessage now
        response)) [] (.awaitResponse serviceID [])) r
      = (server tf key).onResponse a
        (handlerAt key (replay.check 2).2 1 [] [] [] (.awaitResponse serviceID [])) r serviceID []
        (receivedAs tf (responseMessage now response)) :=
  turn_server ht (short_responseMessage now hlen) (by rw [hseen]; decide)
    (.awaitResponse serviceID []) nofun a r

/-- **A response that is accepted** is answered with the result. -/
theorem turn_response (key : Bytes) (ht : WritesTimes tf) (now : Instant) {response : Bytes}
    (hlen : response.length = 32) (hseen : replay.maxSeen = 1) {peer : PeerIdentity}
    {a' : Authenticator} (hpeer : IsPeer peer)
    (hverify : a.verifyResponse r.now r.draw serviceID response = (.ok peer, a')) :
    let out := (server tf key).turn a (handlerAt key replay 1 [] (wireOf tf key 2
      (responseMessage now response)) [] (.awaitResponse serviceID [])) r
    out.1.audit = [Server.sessionEntry [] serviceID] ∧ out.1.dispatched = none
      ∧ out.2 = (a', handlerAt key (replay.check 2).2 2 granted []
        (wireOf tf key 2 (resultMessage r.stamp peer)) (.serving peer)) := by
  intro out
  have hmarshal : (server tf key).env.payloads.marshalAuthResult
      ⟨ascii "ok", peer.sessionToken, peer.capabilities⟩
        = .ok (resultMessage r.stamp peer).payload := PayloadCodec.marshalAuthResult_eq _
  have hsend := send_server ht (short_resultMessage r.stamp hpeer) key (replay.check 2).2 1
    peer.capabilities [] [] (.awaitResponse serviceID [])
  have htype : (receivedAs tf (responseMessage now response)).type = typeAuthResponse := rfl
  have hout := onResponse_of_ok
    (h := handlerAt key (replay.check 2).2 1 [] [] [] (.awaitResponse serviceID [])) htype
    (unmarshal_responseMessage now response) (ofHex_toHex response) hverify hmarshal hsend
  rw [hpeer.service, hpeer.capabilities] at hout
  have hturn : out = _ := turn_awaitResponse ht now hlen hseen a r
  rw [hturn]
  exact hout

/-- The texts of the errors that a response can be refused with. -/
theorem short_denialMessage (tf : TimeFormat Instant) (key : Bytes) (stamp : Instant)
    {err : AuthError}
    (herr : err = .noPendingChallenge serviceID ∨ err = .verificationFailed serviceID) :
    Short (denialMessage stamp (utf8 (err.text (server tf key).env.quote))) where
  type := show typeAuthResponse ∈ declared by decide
  source := short_text rfl
  sessionID := short_text rfl
  requestID := short_text rfl
  capability := short_text rfl
  payload := by
    rcases herr with rfl | rfl
    · show (Json.writeObject ((ascii "status", .str (ascii "denied")) :: Header.omitEmpty
        (ascii "error") (utf8 ((AuthError.noPendingChallenge serviceID).text quoted)))).length
          ≤ 1000000
      decide +kernel
    · show (Json.writeObject ((ascii "status", .str (ascii "denied")) :: Header.omitEmpty
        (ascii "error") (utf8 ((AuthError.verificationFailed serviceID).text quoted)))).length
          ≤ 1000000
      decide +kernel

/-- What is logged of a response that is refused. -/
def deniedEntry : Entry :=
  ⟨[], serviceID, ascii "eipc-server", ascii "authenticate", .denied,
    ascii "challenge-response failed"⟩

/-- **A response that is refused** is answered with a denial, and the handler returns. -/
theorem turn_refused (key : Bytes) (ht : WritesTimes tf) (now : Instant) {response : Bytes}
    (hlen : response.length = 32) (hseen : replay.maxSeen = 1) {err : AuthError}
    {a' : Authenticator}
    (herr : err = .noPendingChallenge serviceID ∨ err = .verificationFailed serviceID)
    (hverify : a.verifyResponse r.now r.draw serviceID response = (.error err, a')) :
    let out := (server tf key).turn a (handlerAt key replay 1 [] (wireOf tf key 2
      (responseMessage now response)) [] (.awaitResponse serviceID [])) r
    out.1.audit = [deniedEntry] ∧ out.1.dispatched = none
      ∧ out.2 = (a', handlerAt key (replay.check 2).2 2 [] []
        (wireOf tf key 2 (denialMessage r.stamp (utf8 (err.text (server tf key).env.quote))))
        .closed) := by
  intro out
  have hmarshal : (server tf key).env.payloads.marshalAuthResponse
      ⟨ascii "denied", utf8 (err.text (server tf key).env.quote)⟩
        = .ok (denialMessage r.stamp (utf8 (err.text (server tf key).env.quote))).payload := rfl
  have hsend := send_server ht (short_denialMessage tf key r.stamp herr) key (replay.check 2).2 1 []
    [] [] (.awaitResponse serviceID [])
  have hturn : out = _ := turn_awaitResponse ht now hlen hseen a r
  rw [hturn]
  exact onResponse_of_error rfl (unmarshal_responseMessage now response) (ofHex_toHex response)
    hverify hmarshal hsend

/-- What is logged of the intent. -/
def intentEntry : Entry :=
  ⟨ascii "req-1", serviceID, ascii "eipc-server", ascii "move_left", .allowed, ascii "success"⟩

/-- What the server does with the intent. -/
theorem dispatch_intentMessage (tf : TimeFormat Instant) (key : Bytes) (now stamp : Instant)
    {sessionToken : Bytes}
    (h : Json.ValidUTF8 sessionToken) :
    (EipcServer.router (server tf key).env).dispatch stamp
        (receivedAs tf (intentMessage now sessionToken))
      = ⟨.ok (some (ackMessage stamp sessionToken)), [intentEntry], []⟩ := by
  have hcheck : EipcServer.capChecker.check [ascii "ui:control"] (ascii "ui.cursor.move")
      = .ok () := by decide +kernel
  have hnumber : (Json.Flat.num (ascii "0.91")).Valid := ⟨by decide, by decide⟩
  have htype : (receivedAs tf (intentMessage now sessionToken)).type = typeIntent := rfl
  have hread : (server tf key).env.payloads.unmarshalIntent
      (receivedAs tf (intentMessage now sessionToken)).payload
        = .ok ⟨ascii "move_left", sessionToken⟩ :=
    PayloadCodec.unmarshalIntent_marshal (Json.validUTF8_of_ascii rfl) hnumber h
  have hcap : (receivedAs tf (intentMessage now sessionToken)).capability = ascii "ui:control" :=
    rfl
  rw [EipcServer.dispatch_router, if_pos htype]
  unfold EipcServer.handleIntent
  rw [hread]
  dsimp only
  unfold EipcServer.controlled
  rw [hcap, hcheck]
  rfl

/-- **The intent** is acknowledged. -/
theorem turn_intent (ht : WritesTimes tf) (now : Instant) {peer : PeerIdentity}
    (hpeer : IsPeer peer) (hexpired : peer.isExpired r.now = false) (hseen : replay.maxSeen = 2) :
    let out := (server tf key).turn a (handlerAt key replay 2 granted (wireOf tf key 3
      (intentMessage now peer.sessionToken)) [] (.serving peer)) r
    out.1.audit = [intentEntry] ∧ out.1.heartbeats = []
      ∧ out.2 = (a, handlerAt key (replay.check 3).2 3 granted []
        (wireOf tf key 3 (ackMessage r.stamp peer.sessionToken)) (.serving peer)) := by
  intro out
  have hdispatch := dispatch_intentMessage tf key now r.stamp hpeer.short.1
  have hsend := send_server ht (short_ackMessage r.stamp hpeer.short) key (replay.check 3).2 2
    granted [] [] (.serving peer)
  have hcap : (handlerAt key (replay.check 3).2 2 granted [] []
      (.serving peer)).endpoint.validateCapability
        (receivedAs tf (intentMessage now peer.sessionToken)).capability = .ok () :=
    ServerEndpoint.validateCapability_eq_ok_iff.mpr (.inr List.mem_cons_self)
  obtain ⟨haudit, hdispatched, hnext⟩ := onMessage_of_reply hexpired hcap
    (congrArg Handled.reply hdispatch) hsend
  have hturn : out = _ := (turn_server ht (short_intentMessage now hpeer.short)
    (by rw [hseen]; decide) (.serving peer) nofun a r).trans
      (EipcServer.Server.onReceived_serving rfl)
  rw [hturn]
  rw [hdispatch] at haudit hdispatched
  refine ⟨haudit, ?_, Prod.ext rfl hnext⟩
  unfold EipcServer.Turn.heartbeats
  dsimp only
  rw [hdispatched]

/-- **The heartbeat** is recorded. -/
theorem turn_heartbeat (ht : WritesTimes tf) (now : Instant) {peer : PeerIdentity}
    (hpeer : IsPeer peer) (hexpired : peer.isExpired r.now = false) (hseen : replay.maxSeen = 3) :
    let out := (server tf key).turn a (handlerAt key replay 3 granted (wireOf tf key 4
      (heartbeatMessage now peer.sessionToken)) [] (.serving peer)) r
    out.1.audit = [] ∧ out.1.heartbeats = [⟨serviceID, ascii "ready"⟩]
      ∧ out.2 = (a, handlerAt key (replay.check 4).2 3 granted [] [] (.serving peer)) := by
  intro out
  have hread : (server tf key).env.payloads.unmarshalHeartbeat
      (receivedAs tf (heartbeatMessage now peer.sessionToken)).payload
        = .ok ⟨serviceID, ascii "ready"⟩ :=
    PayloadCodec.unmarshalHeartbeat_marshal (e := ⟨serviceID, ascii "ready"⟩)
      (Json.validUTF8_of_ascii rfl) (Json.validUTF8_of_ascii rfl)
  have htype : (receivedAs tf (heartbeatMessage now peer.sessionToken)).type = typeHeartbeat := rfl
  have hdispatch : (EipcServer.router (server tf key).env).dispatch r.stamp
      (receivedAs tf (heartbeatMessage now peer.sessionToken))
        = ⟨.ok none, [], [⟨serviceID, ascii "ready"⟩]⟩ := by
    rw [EipcServer.dispatch_router, htype, if_neg (by decide), if_pos rfl]
    unfold EipcServer.handleHeartbeat
    rw [hread]
  have hcap : (handlerAt key (replay.check 4).2 3 granted [] []
      (.serving peer)).endpoint.validateCapability
        (receivedAs tf (heartbeatMessage now peer.sessionToken)).capability = .ok () :=
    ServerEndpoint.validateCapability_eq_ok_iff.mpr (.inl rfl)
  obtain ⟨haudit, hdispatched, hnext⟩ := onMessage_of_no_reply hexpired hcap
    (congrArg Handled.reply hdispatch)
  have hturn : out = _ := (turn_server ht (short_heartbeatMessage now hpeer.short)
    (by rw [hseen]; decide) (.serving peer) nofun a r).trans
      (EipcServer.Server.onReceived_serving rfl)
  rw [hturn]
  rw [hdispatch] at haudit hdispatched
  refine ⟨haudit, ?_, Prod.ext rfl hnext⟩
  unfold EipcServer.Turn.heartbeats
  dsimp only
  rw [hdispatched]

/-- What is logged of a message that comes too late. -/
def expiredEntry : Entry :=
  ⟨[], serviceID, ascii "eipc-server", ascii "session_check", .denied, ascii "session expired"⟩

/-- **A message that comes too late** ends the session. -/
theorem turn_expired {seq : UInt64} {msg : Message Instant} (ht : WritesTimes tf) (hmsg : Short msg)
    (hseq : seq > replay.maxSeen) {peer : PeerIdentity} (hpeer : IsPeer peer)
    (hexpired : peer.isExpired r.now = true) :
    let out := (server tf key).turn a
      (handlerAt key replay n caps (wireOf tf key seq msg) [] (.serving peer)) r
    out.1.audit = [expiredEntry] ∧ out.1.heartbeats = []
      ∧ out.2 = (a, handlerAt key (replay.check seq).2 n caps [] [] .closed) := by
  intro out
  have hturn : out = _ := (turn_server ht hmsg hseq (.serving peer) nofun a r).trans
    (EipcServer.Server.onReceived_serving rfl)
  rw [hturn]
  unfold EipcServer.Server.onMessage
  rw [if_pos hexpired, hpeer.service]
  exact ⟨rfl, rfl, rfl⟩

end Turns

end Handshake
