import Eipc.ConnWrapper
import Eipc.Message
import Eipc.Replay
import Eipc.Lib.Sha256

/-!
# Endpoints

The client and the server end of a connection (`core/endpoint.go`). Sending
numbers the message, serializes its header, and signs the frame with the shared
key (`security/integrity/hmac.go`); receiving checks the MAC of a frame that
announces one, reads the header back and, on the server, asks the replay tracker
about the sequence number.

The flag byte decides whether a MAC is looked at, and it is part of the frame
that arrived. So what `Receive` guarantees is conditional on it
(`Endpoint.openFrame_eq_ok_iff`): a flagged frame is opened only under the MAC
of the endpoint's own key, and an unflagged one is opened whatever the key.

An endpoint works over any `Connection`.
-/

open Frame MessageType

/-! ## Integrity -/

namespace Integrity

/-- `Sign`. -/
def sign (key data : Bytes) : Bytes := hmacSha256 key data

/-- `Verify`. -/
def verify (key data mac : Bytes) : Bool := sign key data = mac

theorem verify_iff {key data mac : Bytes} :
    verify key data mac = true ↔ mac = hmacSha256 key data := by
  rw [verify, decide_eq_true_iff, sign, eq_comm]

end Integrity

/-! ## Errors and frames -/

/-- What an endpoint's calls can fail with, over a connection that can fail
with `ε`. -/
inductive EndpointError (ε : Type) where
  | marshalHeader (err : String)
  | conn (err : ε)
  | integrity
  | unmarshalHeader (err : String)
  | replay (err : ReplayError)
  deriving DecidableEq

/-- The error's text. -/
def EndpointError.text {ε : Type} (connText : ε → String) : EndpointError ε → String
  | .marshalHeader err => "marshal header: " ++ err
  | .conn err => connText err
  | .integrity => "eipc: integrity verification failed"
  | .unmarshalHeader err => "unmarshal header: " ++ err
  | .replay err => err.text

namespace Endpoint

variable {Time σ ε : Type}

/-- `PayloadJSON`. -/
def payloadJSON : UInt8 := 0

/-- The header of a message that is sent. -/
def headerOf (tf : TimeFormat Time) (seq : UInt64) (msg : Message Time) : Header where
  serviceID := msg.source
  sessionID := msg.sessionID
  requestID := msg.requestID
  sequence := seq
  timestamp := tf.format msg.timestamp
  priority := msg.priority
  capability := msg.capability
  route := []
  payloadFormat := payloadJSON

/-- The frame of a message whose header has been serialized. -/
def frameOf (hdrBytes : Bytes) (msg : Message Time) : Frame where
  version := protocolVersion
  msgType := msgTypeToByte msg.type
  flags := flagHMAC
  header := hdrBytes
  payload := msg.payload
  mac := []

/-- The assignment of the MAC to a frame. -/
def signFrame (hmacKey : Bytes) (frame : Frame) : Frame :=
  { frame with mac := Integrity.sign hmacKey frame.signableBytes }

/-- The MAC is not among the bytes it covers. -/
theorem signableBytes_withMac (f : Frame) (mac : Bytes) :
    { f with mac := mac }.signableBytes = f.signableBytes := rfl

/-- A signed frame carries the MAC of its own signable bytes. -/
theorem mac_signFrame (hmacKey : Bytes) (f : Frame) :
    (signFrame hmacKey f).mac = hmacSha256 hmacKey (signFrame hmacKey f).signableBytes :=
  congrArg (hmacSha256 hmacKey) (signableBytes_withMac f _).symm

/-- What both `Send`s do before they hand the frame to the connection. -/
def buildFrame (codec : Codec) (hmacKey : Bytes) (tf : TimeFormat Time) (seq : UInt64)
    (msg : Message Time) : Except (EndpointError ε) Frame :=
  match codec.marshal (headerOf tf seq msg) with
  | .error err => .error (.marshalHeader err)
  | .ok hdrBytes => .ok (signFrame hmacKey (frameOf hdrBytes msg))

/-- What both `Receive`s do with a frame that arrived, up to its header. -/
def openFrame (codec : Codec) (hmacKey : Bytes) (frame : Frame) :
    Except (EndpointError ε) Header :=
  if frame.hasHMAC ∧ ¬Integrity.verify hmacKey frame.signableBytes frame.mac then
    .error .integrity
  else
    (codec.unmarshal frame.header).mapError .unmarshalHeader

/-- The message of an opened frame; a timestamp that does not parse is the
zero time. -/
def messageOf (tf : TimeFormat Time) (frame : Frame) (hdr : Header) : Message Time where
  version := frame.version
  type := msgTypeFromByte frame.msgType
  source := hdr.serviceID
  timestamp := (tf.parse hdr.timestamp).getD tf.zero
  sessionID := hdr.sessionID
  requestID := hdr.requestID
  priority := hdr.priority
  capability := hdr.capability
  payload := frame.payload

/-- **When a frame is opened**: its MAC, if its flags announce one, is the
HMAC-SHA256 of its signable bytes under the endpoint's key, and the header is
readable. -/
theorem openFrame_eq_ok_iff {codec : Codec} {hmacKey : Bytes} {frame : Frame} {hdr : Header} :
    openFrame (ε := ε) codec hmacKey frame = .ok hdr ↔
      (frame.hasHMAC = true → frame.mac = hmacSha256 hmacKey frame.signableBytes)
        ∧ codec.unmarshal frame.header = .ok hdr := by
  rw [← Integrity.verify_iff, openFrame]
  by_cases h : frame.hasHMAC = true
      ∧ ¬Integrity.verify hmacKey frame.signableBytes frame.mac = true
  · rw [if_pos h]
    exact ⟨fun hok => (nomatch hok), fun hok => absurd (hok.1 h.1) h.2⟩
  · rw [if_neg h, Except.mapError_eq_ok_iff]
    exact ⟨fun hok => ⟨fun hflag => not_not.mp fun hmac => h ⟨hflag, hmac⟩, hok⟩, And.right⟩

end Endpoint

open Endpoint

/-! ## The client -/

/-- The client end of a connection. -/
structure ClientEndpoint where
  codec : Codec
  hmacKey : Bytes
  sequence : UInt64

namespace ClientEndpoint

variable {Time σ ε : Type} (tf : TimeFormat Time) (conn : Connection σ ε)

/-- `NewClientEndpoint`. -/
def new (codec : Codec) (hmacKey : Bytes) : ClientEndpoint := ⟨codec, hmacKey, 0⟩

/-- `Send`. The number is used up even when the message is not sent. -/
def send (e : ClientEndpoint) (s : σ) (msg : Message Time) :
    Except (EndpointError ε) Unit × ClientEndpoint × σ :=
  let e := { e with sequence := e.sequence + 1 }
  match buildFrame e.codec e.hmacKey tf e.sequence msg with
  | .error err => (.error err, e, s)
  | .ok frame =>
    let (res, s) := conn.send s frame
    (res.mapError .conn, e, s)

/-- `Receive`. -/
def receive (e : ClientEndpoint) (s : σ) : Except (EndpointError ε) (Message Time) × σ :=
  match conn.receive s with
  | (.error err, s) => (.error (.conn err), s)
  | (.ok frame, s) => ((openFrame e.codec e.hmacKey frame).map (messageOf tf frame), s)

/-- **What `Send` does**: with a header that is serialized, the signed frame goes to
the connection. -/
theorem send_of_marshal {e : ClientEndpoint} {s : σ} {msg : Message Time} {hdrBytes : Bytes}
    (h : e.codec.marshal (headerOf tf (e.sequence + 1) msg) = .ok hdrBytes) :
    e.send tf conn s msg
      = (((conn.send s (signFrame e.hmacKey (frameOf hdrBytes msg))).1).mapError .conn,
        { e with sequence := e.sequence + 1 },
        (conn.send s (signFrame e.hmacKey (frameOf hdrBytes msg))).2) := by
  unfold send buildFrame
  dsimp only
  rw [h]

/-- A header that is not serialized leaves the connection alone. -/
theorem send_of_marshal_error {e : ClientEndpoint} {s : σ} {msg : Message Time} {err : String}
    (h : e.codec.marshal (headerOf tf (e.sequence + 1) msg) = .error err) :
    e.send tf conn s msg
      = (.error (.marshalHeader err), { e with sequence := e.sequence + 1 }, s) := by
  unfold send buildFrame
  dsimp only
  rw [h]

/-- What a successful `Send` has done. -/
theorem exists_of_send_ok {e : ClientEndpoint} {s : σ} {msg : Message Time}
    (h : (e.send tf conn s msg).1 = .ok ()) :
    ∃ hdrBytes, e.codec.marshal (headerOf tf (e.sequence + 1) msg) = .ok hdrBytes
      ∧ (conn.send s (signFrame e.hmacKey (frameOf hdrBytes msg))).1 = .ok ()
      ∧ (e.send tf conn s msg).2.2
        = (conn.send s (signFrame e.hmacKey (frameOf hdrBytes msg))).2 := by
  cases hmarshal : e.codec.marshal (headerOf tf (e.sequence + 1) msg) with
  | error err =>
    rw [send_of_marshal_error tf conn hmarshal] at h
    exact (nomatch h)
  | ok hdrBytes =>
    rw [send_of_marshal tf conn hmarshal] at h ⊢
    exact ⟨hdrBytes, rfl, Except.mapError_eq_ok_iff.mp h, rfl⟩

/-- What a message returned by `Receive` comes from. -/
theorem receive_eq_ok_iff {e : ClientEndpoint} {s : σ} {msg : Message Time} :
    (e.receive tf conn s).1 = .ok msg ↔
      ∃ frame hdr, (conn.receive s).1 = .ok frame
        ∧ openFrame (ε := ε) e.codec e.hmacKey frame = .ok hdr
        ∧ msg = messageOf tf frame hdr := by
  unfold receive
  rcases conn.receive s with ⟨err | frame, s⟩
  · exact ⟨fun h => (nomatch h), fun ⟨_, _, h, _⟩ => (nomatch h)⟩
  · show (openFrame e.codec e.hmacKey frame).map (messageOf tf frame) = .ok msg ↔ _
    cases hopen : openFrame (ε := ε) e.codec e.hmacKey frame with
    | error err =>
      refine ⟨fun h => (nomatch h), ?_⟩
      rintro ⟨_, hdr, ⟨⟩, h, -⟩
      exact (nomatch hopen.symm.trans h)
    | ok hdr =>
      constructor
      · rintro ⟨⟩
        exact ⟨frame, hdr, rfl, hopen, rfl⟩
      · rintro ⟨_, hdr', ⟨⟩, h, rfl⟩
        cases hopen.symm.trans h
        rfl

end ClientEndpoint

/-! ## The server -/

/-- What a check of capabilities can fail with. -/
inductive CapabilityError where
  /-- The peer has not been granted the capability. -/
  | lacks (capability : Bytes)
  /-- None of the capabilities permits the action. -/
  | notPermitted (action : Bytes)
  deriving DecidableEq

/-- The error's text. `quote` is the verb `%q`. -/
def CapabilityError.text (quote : Bytes → String) : CapabilityError → String
  | .lacks capability =>
    "eipc: capability check failed: peer lacks capability " ++ quote capability
  | .notPermitted action =>
    "eipc: capability check failed: no capability permits action " ++ quote action

/-- The server end of a connection. -/
structure ServerEndpoint where
  codec : Codec
  hmacKey : Bytes
  replay : Tracker
  seq : UInt64
  peerCapabilities : List Bytes

namespace ServerEndpoint

variable {Time σ ε : Type} (tf : TimeFormat Time) (conn : Connection σ ε)

/-- `NewServerEndpoint`. -/
def new (codec : Codec) (hmacKey : Bytes) : ServerEndpoint :=
  ⟨codec, hmacKey, Tracker.new 0, 0, []⟩

/-- `SetPeerCapabilities`. -/
def setPeerCapabilities (e : ServerEndpoint) (caps : List Bytes) : ServerEndpoint :=
  { e with peerCapabilities := caps }

/-- `ValidateCapability`. The empty capability is let through. -/
def validateCapability (e : ServerEndpoint) (msgCap : Bytes) : Except CapabilityError Unit :=
  if msgCap = [] then .ok ()
  else if msgCap ∈ e.peerCapabilities then .ok ()
  else .error (.lacks msgCap)

/-- `Send`. -/
def send (e : ServerEndpoint) (s : σ) (msg : Message Time) :
    Except (EndpointError ε) Unit × ServerEndpoint × σ :=
  let e := { e with seq := e.seq + 1 }
  match buildFrame e.codec e.hmacKey tf e.seq msg with
  | .error err => (.error err, e, s)
  | .ok frame =>
    let (res, s) := conn.send s frame
    (res.mapError .conn, e, s)

/-- What `Receive` does with a frame that arrived. -/
def accept (e : ServerEndpoint) (frame : Frame) :
    Except (EndpointError ε) (Message Time) × ServerEndpoint :=
  match openFrame e.codec e.hmacKey frame with
  | .error err => (.error err, e)
  | .ok hdr =>
    match e.replay.check hdr.sequence with
    | (.error err, replay) => (.error (.replay err), { e with replay })
    | (.ok (), replay) => (.ok (messageOf tf frame hdr), { e with replay })

/-- `Receive`. -/
def receive (e : ServerEndpoint) (s : σ) :
    Except (EndpointError ε) (Message Time) × ServerEndpoint × σ :=
  match conn.receive s with
  | (.error err, s) => (.error (.conn err), e, s)
  | (.ok frame, s) =>
    let (res, e) := e.accept tf frame
    (res, e, s)

/-- **What `Send` does**, as for a client. -/
theorem send_of_marshal {e : ServerEndpoint} {s : σ} {msg : Message Time} {hdrBytes : Bytes}
    (h : e.codec.marshal (headerOf tf (e.seq + 1) msg) = .ok hdrBytes) :
    e.send tf conn s msg
      = (((conn.send s (signFrame e.hmacKey (frameOf hdrBytes msg))).1).mapError .conn,
        { e with seq := e.seq + 1 },
        (conn.send s (signFrame e.hmacKey (frameOf hdrBytes msg))).2) := by
  unfold send buildFrame
  dsimp only
  rw [h]

theorem send_of_marshal_error {e : ServerEndpoint} {s : σ} {msg : Message Time} {err : String}
    (h : e.codec.marshal (headerOf tf (e.seq + 1) msg) = .error err) :
    e.send tf conn s msg
      = (.error (.marshalHeader err), { e with seq := e.seq + 1 }, s) := by
  unfold send buildFrame
  dsimp only
  rw [h]

theorem validateCapability_eq_ok_iff {e : ServerEndpoint} {msgCap : Bytes} :
    e.validateCapability msgCap = .ok () ↔ msgCap = [] ∨ msgCap ∈ e.peerCapabilities := by
  unfold validateCapability
  split
  · next h => exact ⟨fun _ => .inl h, fun _ => rfl⟩
  · next h =>
    split
    · next hmem => exact ⟨fun _ => .inr hmem, fun _ => rfl⟩
    · next hmem => exact ⟨fun hok => (nomatch hok), fun hok => (hok.elim h hmem).elim⟩

/-- Sending does not change what the peer was granted. -/
theorem peerCapabilities_send (e : ServerEndpoint) (s : σ) (msg : Message Time) :
    (e.send tf conn s msg).2.1.peerCapabilities = e.peerCapabilities := by
  cases hmarshal : e.codec.marshal (headerOf tf (e.seq + 1) msg) with
  | error err => rw [send_of_marshal_error tf conn hmarshal]
  | ok hdrBytes => rw [send_of_marshal tf conn hmarshal]

/-- A frame that arrives changes the tracker only. -/
theorem exists_accept_snd (e : ServerEndpoint) (frame : Frame) :
    ∃ replay, (e.accept (ε := ε) tf frame).2 = { e with replay } := by
  unfold accept
  cases openFrame (ε := ε) e.codec e.hmacKey frame with
  | error err => exact ⟨e.replay, rfl⟩
  | ok hdr =>
    dsimp only
    rcases e.replay.check hdr.sequence with ⟨err | u, replay⟩
    · exact ⟨replay, rfl⟩
    · exact ⟨replay, rfl⟩

/-- Receiving does not change what the peer was granted. -/
theorem peerCapabilities_receive (e : ServerEndpoint) (s : σ) :
    (e.receive tf conn s).2.1.peerCapabilities = e.peerCapabilities := by
  unfold receive
  rcases conn.receive s with ⟨err | frame, s⟩
  · rfl
  · obtain ⟨replay, hreplay⟩ := exists_accept_snd (ε := ε) tf e frame
    show (e.accept tf frame).2.peerCapabilities = _
    rw [hreplay]

/-- What a message made of an accepted frame comes from. -/
theorem accept_eq_ok_iff {e : ServerEndpoint} {frame : Frame} {msg : Message Time} :
    (e.accept (ε := ε) tf frame).1 = .ok msg ↔
      ∃ hdr, openFrame (ε := ε) e.codec e.hmacKey frame = .ok hdr
        ∧ (e.replay.check hdr.sequence).1 = .ok ()
        ∧ msg = messageOf tf frame hdr := by
  unfold accept
  cases hopen : openFrame (ε := ε) e.codec e.hmacKey frame with
  | error err => exact ⟨fun h => (nomatch h), fun ⟨_, h, _⟩ => (nomatch h)⟩
  | ok hdr =>
    dsimp only
    rcases hcheck : e.replay.check hdr.sequence with ⟨err | u, replay⟩
    · refine ⟨fun h => (nomatch h), ?_⟩
      rintro ⟨_, ⟨⟩, h, -⟩
      exact (nomatch (congrArg Prod.fst hcheck).symm.trans h)
    · constructor
      · rintro ⟨⟩
        exact ⟨hdr, rfl, by rw [hcheck], rfl⟩
      · rintro ⟨_, ⟨⟩, -, rfl⟩
        rfl

/-- **What a server can do with a frame**: make a message of it, whose number is
fresh and is remembered, or fail and stay as it is. -/
theorem accept_cases {w : UInt64} {v : ServerEndpoint} {A : Finset UInt64}
    (h : Tracker.Follows w v.replay A) (frame : Frame) :
    (∃ hdr, openFrame (ε := ε) v.codec v.hmacKey frame = .ok hdr ∧ History.Fresh w A hdr.sequence
        ∧ ∃ replay, v.accept (ε := ε) tf frame = (.ok (messageOf tf frame hdr), { v with replay })
          ∧ Tracker.Follows w replay (insert hdr.sequence A))
      ∨ ∃ err, v.accept (ε := ε) tf frame = (.error err, v) := by
  unfold accept
  cases openFrame (ε := ε) v.codec v.hmacKey frame with
  | error err => exact .inr ⟨err, rfl⟩
  | ok hdr =>
    dsimp only
    rcases Tracker.check_cases h hdr.sequence with ⟨hok, hfresh, hfollows⟩ | ⟨hrej, -⟩
    · have hcheck : v.replay.check hdr.sequence = (.ok (), (v.replay.check hdr.sequence).2) :=
        Prod.ext hok rfl
      rw [hcheck]
      exact .inl ⟨hdr, rfl, hfresh, _, rfl, hfollows⟩
    · rw [hrej]
      exact .inr ⟨_, rfl⟩

/-- What a message returned by `Receive` comes from. -/
theorem receive_eq_ok_iff {e : ServerEndpoint} {s : σ} {msg : Message Time} :
    (e.receive tf conn s).1 = .ok msg ↔
      ∃ frame hdr, (conn.receive s).1 = .ok frame
        ∧ openFrame (ε := ε) e.codec e.hmacKey frame = .ok hdr
        ∧ (e.replay.check hdr.sequence).1 = .ok ()
        ∧ msg = messageOf tf frame hdr := by
  unfold receive
  rcases conn.receive s with ⟨err | frame, s⟩
  · exact ⟨fun h => (nomatch h), fun ⟨_, _, h, _⟩ => (nomatch h)⟩
  · show (e.accept tf frame).1 = .ok msg ↔ _
    rw [accept_eq_ok_iff]
    constructor
    · rintro ⟨hdr, h⟩
      exact ⟨frame, hdr, rfl, h⟩
    · rintro ⟨_, hdr, ⟨⟩, h⟩
      exact ⟨hdr, h⟩

end ServerEndpoint
