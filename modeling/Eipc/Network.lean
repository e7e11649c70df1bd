import Eipc.Delivery

/-!
# Many connections under one key

Any number of connections, each with a client endpoint and a server endpoint, and
all of them with the same key. Between them is a network that records what is
sent and delivers to a server whatever it likes: frames of this connection or of
another one, of the client or of a server, in any order, again and again, and
frames of its own making. It cannot forge: a flagged frame whose MAC is right has
signable bytes that some endpoint sent (`Network.Unforged`).

The replay window belongs to a server endpoint, and the MAC says nothing about the
connection. So what holds across all runs is this: a server delivers no frame
twice, and every frame that it delivers was sent by some endpoint that has the key
(`Network.delivered_once_per_connection`). What does not hold is that it was sent
on the same connection, or towards a server, or is delivered only once in all
(`Network.delivered_elsewhere`).
-/

open Bytes Frame Endpoint

/-- An end of a connection. -/
inductive Side where
  | client
  | server
  deriving DecidableEq

/-- A frame that was sent. -/
structure SentFrame (Conn Time : Type) where
  conn : Conn
  side : Side
  msg : Message Time
  frame : Frame

/-- A message that a server endpoint returned, and the frame it came from. -/
structure DeliveredMessage (Conn Time : Type) where
  conn : Conn
  frame : Frame
  msg : Message Time

/-- The endpoints of all connections, and what has happened so far. -/
structure Network (Conn Time : Type) where
  client : Conn → ClientEndpoint
  server : Conn → ServerEndpoint
  sent : List (SentFrame Conn Time)
  delivered : List (DeliveredMessage Conn Time)

namespace Network

variable {Conn Time : Type}

/-- Fresh endpoints, all with the same codec and key. -/
def init (codec : Codec) (key : Bytes) : Network Conn Time where
  client _ := ClientEndpoint.new codec key
  server _ := ServerEndpoint.new codec key
  sent := []
  delivered := []

/-- What can happen: an endpoint sends a message, or the network delivers a frame
to a server. A client that receives changes nothing. -/
inductive Action (Conn Time : Type) where
  | clientSend (conn : Conn) (msg : Message Time)
  | serverSend (conn : Conn) (msg : Message Time)
  | deliver (conn : Conn) (frame : Frame)

/-- A connection into the network: a frame that can be sent is recorded. -/
def recorder : Connection (List Frame) TransportError where
  send s f :=
    match ConnWrapper.send f with
    | .error err => (.error err, s)
    | .ok _ => (.ok (), s ++ [f])
  receive s := (.error (.readLength .eof), s)

section Step

variable [DecidableEq Conn] (tf : TimeFormat Time)

/-- One action. -/
def step (n : Network Conn Time) : Action Conn Time → Network Conn Time
  | .clientSend c msg =>
    let (_, e, frames) := (n.client c).send tf recorder [] msg
    { n with
      client := Function.update n.client c e
      sent := n.sent ++ frames.map (⟨c, .client, msg, ·⟩) }
  | .serverSend c msg =>
    let (_, v, frames) := (n.server c).send tf recorder [] msg
    { n with
      server := Function.update n.server c v
      sent := n.sent ++ frames.map (⟨c, .server, msg, ·⟩) }
  | .deliver c frame =>
    match (n.server c).accept (ε := TransportError) tf frame with
    | (.error _, v) => { n with server := Function.update n.server c v }
    | (.ok msg, v) =>
      { n with
        server := Function.update n.server c v
        delivered := n.delivered ++ [⟨c, frame, msg⟩] }

/-- What the network can deliver: a frame that can be decoded, that announces a
MAC, and whose MAC, if it is right, was not made up. -/
structure Unforged (key : Bytes) (n : Network Conn Time) (f : Frame) : Prop where
  wellFormed : f.WellFormed
  flagged : f.hasHMAC = true
  signed : f.mac = hmacSha256 key f.signableBytes →
    ∃ s ∈ n.sent, s.frame.signableBytes = f.signableBytes

/-- The actions that are possible. -/
def Allowed (key : Bytes) (n : Network Conn Time) : Action Conn Time → Prop
  | .deliver _ frame => n.Unforged key frame
  | _ => True

/-- The states that a run leads to. -/
inductive Reachable (codec : Codec) (key : Bytes) (tf : TimeFormat Time) :
    Network Conn Time → Prop
  | init : Reachable codec key tf (init codec key)
  | step {n : Network Conn Time} {a : Action Conn Time} :
      Reachable codec key tf n → n.Allowed key a → Reachable codec key tf (n.step tf a)

end Step

/-! ## What is sent -/

variable {codec : Codec} {key : Bytes} {tf : TimeFormat Time} {msg : Message Time} {f : Frame}
  {hdrBytes : Bytes}

/-- The frame is one that an endpoint with the codec and the key makes of the
message, under some number. -/
def SignedFor (codec : Codec) (key : Bytes) (tf : TimeFormat Time) (msg : Message Time)
    (f : Frame) : Prop :=
  ∃ seq hdrBytes, codec.marshal (headerOf tf seq msg) = .ok hdrBytes
    ∧ hdrBytes.length + msg.payload.length ≤ maxFrameSize
    ∧ f = signFrame key (frameOf hdrBytes msg)

theorem SignedFor.size (h : SignedFor codec key tf msg f) :
    f.header.length + f.payload.length ≤ maxFrameSize := by
  obtain ⟨_, hdrBytes, -, hsize, rfl⟩ := h
  exact hsize

theorem SignedFor.mac (h : SignedFor codec key tf msg f) :
    f.mac = hmacSha256 key f.signableBytes := by
  obtain ⟨_, hdrBytes, -, -, rfl⟩ := h
  exact mac_signFrame key _

theorem recorder_send (hsize : hdrBytes.length + msg.payload.length ≤ maxFrameSize)
    (key : Bytes) (s : List Frame) :
    recorder.send s (signFrame key (frameOf hdrBytes msg))
      = (.ok (), s ++ [signFrame key (frameOf hdrBytes msg)]) := by
  have hsend := ConnWrapper.send_eq_ok_iff.mpr
    ⟨_, encode_of_macFits (Delivery.macFits_signFrame key) hsize, rfl⟩
  dsimp only [recorder]
  rw [hsend]

/-- What is recorded of a frame that an endpoint signed. -/
theorem mem_recorder_send
    (h : f ∈ (recorder.send [] (signFrame key (frameOf hdrBytes msg))).2) :
    hdrBytes.length + msg.payload.length ≤ maxFrameSize
      ∧ f = signFrame key (frameOf hdrBytes msg) := by
  by_cases hsize : hdrBytes.length + msg.payload.length ≤ maxFrameSize
  · rw [recorder_send hsize] at h
    exact ⟨hsize, List.mem_singleton.mp h⟩
  · have hrefused := ConnWrapper.send_of_lt (f := signFrame key (frameOf hdrBytes msg))
      (not_le.mp hsize)
    dsimp only [recorder] at h
    rw [hrefused] at h
    exact absurd h List.not_mem_nil

/-- What a client records, and how it goes on. -/
theorem clientSend_spec (e : ClientEndpoint) (tf : TimeFormat Time) (msg : Message Time) :
    (e.send tf recorder [] msg).2.1 = { e with sequence := e.sequence + 1 }
      ∧ ∀ f ∈ (e.send tf recorder [] msg).2.2, SignedFor e.codec e.hmacKey tf msg f := by
  cases hmarshal : e.codec.marshal (headerOf tf (e.sequence + 1) msg) with
  | error err =>
    rw [ClientEndpoint.send_of_marshal_error tf _ hmarshal]
    exact ⟨rfl, fun f hf => absurd hf List.not_mem_nil⟩
  | ok hdrBytes =>
    rw [ClientEndpoint.send_of_marshal tf _ hmarshal]
    exact ⟨rfl, fun f hf => ⟨_, hdrBytes, hmarshal, mem_recorder_send hf⟩⟩

/-- What a server records, and how it goes on. -/
theorem serverSend_spec (v : ServerEndpoint) (tf : TimeFormat Time) (msg : Message Time) :
    (v.send tf recorder [] msg).2.1 = { v with seq := v.seq + 1 }
      ∧ ∀ f ∈ (v.send tf recorder [] msg).2.2, SignedFor v.codec v.hmacKey tf msg f := by
  cases hmarshal : v.codec.marshal (headerOf tf (v.seq + 1) msg) with
  | error err =>
    rw [ServerEndpoint.send_of_marshal_error tf _ hmarshal]
    exact ⟨rfl, fun f hf => absurd hf List.not_mem_nil⟩
  | ok hdrBytes =>
    rw [ServerEndpoint.send_of_marshal tf _ hmarshal]
    exact ⟨rfl, fun f hf => ⟨_, hdrBytes, hmarshal, mem_recorder_send hf⟩⟩

/-! ## What a run keeps -/

variable [DecidableEq Conn] {n : Network Conn Time}

/-- **What holds in every state of a run.** Every server follows the numbers of the
messages it has delivered. -/
structure Invariant (codec : Codec) (key : Bytes) (tf : TimeFormat Time) (n : Network Conn Time) :
    Prop where
  client : ∀ c, (n.client c).codec = codec ∧ (n.client c).hmacKey = key
  server : ∀ c, (n.server c).codec = codec ∧ (n.server c).hmacKey = key
  sent : ∀ s ∈ n.sent, SignedFor codec key tf s.msg s.frame
  delivered : ∀ d ∈ n.delivered, (∃ s ∈ n.sent, s.frame = d.frame)
    ∧ ∃ hdr, codec.unmarshal d.frame.header = .ok hdr ∧ d.msg = messageOf tf d.frame hdr
  replay : ∀ c, ∃ A, Tracker.Follows (Tracker.effectiveWindow 0) (n.server c).replay A
    ∧ ∀ d ∈ n.delivered, d.conn = c →
      ∃ hdr, codec.unmarshal d.frame.header = .ok hdr ∧ hdr.sequence ∈ A
  once : ∀ c, ((n.delivered.filter (·.conn = c)).map (·.frame)).Nodup

theorem invariant_init : Invariant codec key tf (init codec key : Network Conn Time) where
  client _ := ⟨rfl, rfl⟩
  server _ := ⟨rfl, rfl⟩
  sent _ h := absurd h List.not_mem_nil
  delivered _ h := absurd h List.not_mem_nil
  replay _ := ⟨∅, Tracker.follows_new 0, fun _ h => absurd h List.not_mem_nil⟩
  once _ := List.nodup_nil

/-- More frames that are sent change nothing for what was delivered. -/
theorem Invariant.send (h : Invariant codec key tf n) {c : Conn} {side : Side}
    {frames : List Frame} (hframes : ∀ f ∈ frames, SignedFor codec key tf msg f) :
    Invariant codec key tf { n with sent := n.sent ++ frames.map (⟨c, side, msg, ·⟩) } where
  client := h.client
  server := h.server
  sent := by
    refine List.forall_mem_append.mpr ⟨h.sent, fun s hs => ?_⟩
    obtain ⟨f, hf, rfl⟩ := List.mem_map.mp hs
    exact hframes f hf
  delivered d hd := by
    obtain ⟨⟨s, hs, heq⟩, hopened⟩ := h.delivered d hd
    exact ⟨⟨s, List.mem_append_left _ hs, heq⟩, hopened⟩
  replay := h.replay
  once := h.once

/-- A client may count on. -/
theorem Invariant.updateClient (h : Invariant codec key tf n) (c : Conn) {e : ClientEndpoint}
    (he : e.codec = codec ∧ e.hmacKey = key) :
    Invariant codec key tf { n with client := Function.update n.client c e } where
  client := (Function.forall_update_iff n.client fun _ e => e.codec = codec ∧ e.hmacKey = key).mpr
    ⟨he, fun c' _ => h.client c'⟩
  server := h.server
  sent := h.sent
  delivered := h.delivered
  replay := h.replay
  once := h.once

/-- A server may count on, as long as its replay window stays. -/
theorem Invariant.updateServer (h : Invariant codec key tf n) (c : Conn) {v : ServerEndpoint}
    (hv : v.codec = codec ∧ v.hmacKey = key) (hreplay : v.replay = (n.server c).replay) :
    Invariant codec key tf { n with server := Function.update n.server c v } where
  client := h.client
  server := (Function.forall_update_iff n.server fun _ v => v.codec = codec ∧ v.hmacKey = key).mpr
    ⟨hv, fun c' _ => h.server c'⟩
  sent := h.sent
  delivered := h.delivered
  replay := (Function.forall_update_iff n.server fun c v => ∃ A,
      Tracker.Follows (Tracker.effectiveWindow 0) v.replay A ∧ ∀ d ∈ n.delivered, d.conn = c →
        ∃ hdr, codec.unmarshal d.frame.header = .ok hdr ∧ hdr.sequence ∈ A).mpr
    ⟨by rw [hreplay]; exact h.replay c, fun c' _ => h.replay c'⟩
  once := h.once

/-- A frame whose MAC is right is one that was sent. -/
theorem Invariant.exists_sent (h : Invariant codec key tf n) (hf : n.Unforged key f)
    (hmac : f.mac = hmacSha256 key f.signableBytes) : ∃ s ∈ n.sent, s.frame = f := by
  obtain ⟨s, hs, hbytes⟩ := hf.signed hmac
  have hsigned := h.sent s hs
  have hfields := signableBytes_inj hsigned.size hf.wellFormed.size hbytes
  have htag : s.frame.mac = f.mac := by rw [hsigned.mac, hbytes, hmac]
  exact ⟨s, hs, eq_of_withoutMac hfields htag⟩

/-- One more message, with a frame that is new on its connection. -/
theorem nodup_frames_append {l : List (DeliveredMessage Conn Time)}
    {d : DeliveredMessage Conn Time}
    (honce : ∀ c, ((l.filter (·.conn = c)).map (·.frame)).Nodup)
    (hnew : ∀ d' ∈ l, d'.conn = d.conn → d'.frame ≠ d.frame) (c : Conn) :
    (((l ++ [d]).filter (·.conn = c)).map (·.frame)).Nodup := by
  rw [List.filter_append, List.map_append, List.nodup_append]
  refine ⟨honce c, (List.nodup_singleton d.frame).sublist ?_, fun g hg g' hg' => ?_⟩
  · exact List.filter_sublist.map DeliveredMessage.frame
  · obtain ⟨d₁, hd₁, rfl⟩ := List.mem_map.mp hg
    obtain ⟨d₂, hd₂, rfl⟩ := List.mem_map.mp hg'
    obtain ⟨hd₁, hconn₁⟩ := List.mem_filter.mp hd₁
    obtain ⟨hd₂, hconn₂⟩ := List.mem_filter.mp hd₂
    obtain rfl := List.mem_singleton.mp hd₂
    exact hnew d₁ hd₁ ((of_decide_eq_true hconn₁).trans (of_decide_eq_true hconn₂).symm)

/-- **Accepting a frame that was sent**: a number that was not seen before goes with a frame
that was not delivered before. -/
theorem Invariant.accept (h : Invariant codec key tf n) {c : Conn} {hdr : Header}
    {A : Finset UInt64} {replay : Tracker} (hsent : ∃ s ∈ n.sent, s.frame = f)
    (hhdr : codec.unmarshal f.header = .ok hdr)
    (hseen : ∀ d ∈ n.delivered, d.conn = c →
      ∃ hdr, codec.unmarshal d.frame.header = .ok hdr ∧ hdr.sequence ∈ A)
    (hfresh : hdr.sequence ∉ A)
    (hfollows : Tracker.Follows (Tracker.effectiveWindow 0) replay (insert hdr.sequence A)) :
    Invariant codec key tf { n with
      server := Function.update n.server c { n.server c with replay }
      delivered := n.delivered ++ [⟨c, f, messageOf tf f hdr⟩] } where
  client := h.client
  server := (Function.forall_update_iff n.server fun _ v => v.codec = codec ∧ v.hmacKey = key).mpr
    ⟨h.server c, fun c' _ => h.server c'⟩
  sent := h.sent
  delivered := List.forall_mem_append.mpr
    ⟨h.delivered, List.forall_mem_singleton.mpr ⟨hsent, hdr, hhdr, rfl⟩⟩
  replay := by
    refine (Function.forall_update_iff n.server fun c' v => ∃ A,
      Tracker.Follows (Tracker.effectiveWindow 0) v.replay A ∧
        ∀ d ∈ n.delivered ++ [⟨c, f, messageOf tf f hdr⟩], d.conn = c' →
          ∃ hdr, codec.unmarshal d.frame.header = .ok hdr ∧ hdr.sequence ∈ A).mpr ⟨?_, ?_⟩
    · refine ⟨insert hdr.sequence A, hfollows, List.forall_mem_append.mpr ⟨fun d hd hconn => ?_,
        List.forall_mem_singleton.mpr fun _ => ⟨hdr, hhdr, Finset.mem_insert_self _ _⟩⟩⟩
      obtain ⟨hdr', hhdr', hmem⟩ := hseen d hd hconn
      exact ⟨hdr', hhdr', Finset.mem_insert_of_mem hmem⟩
    · intro c' hc
      obtain ⟨A', hfollows', hseen'⟩ := h.replay c'
      exact ⟨A', hfollows', List.forall_mem_append.mpr
        ⟨hseen', List.forall_mem_singleton.mpr fun hconn => absurd hconn.symm hc⟩⟩
  once := by
    refine nodup_frames_append h.once fun d hd hconn heq => ?_
    obtain ⟨hdr', hhdr', hmem⟩ := hseen d hd hconn
    rw [heq, hhdr] at hhdr'
    cases hhdr'
    exact hfresh hmem

/-- **Delivering a frame** that was not forged. -/
theorem Invariant.deliver (h : Invariant codec key tf n) {c : Conn} (hf : n.Unforged key f) :
    Invariant codec key tf (n.step tf (.deliver c f)) := by
  obtain ⟨A, hfollows, hseen⟩ := h.replay c
  obtain ⟨hcodec, hkey⟩ := h.server c
  rcases (n.server c).accept_cases (ε := TransportError) tf hfollows f with
    ⟨hdr, hopen, hfresh, replay, haccept, hfollows'⟩ | ⟨err, haccept⟩
  · have hstep : n.step tf (.deliver c f)
        = { n with
            server := Function.update n.server c { n.server c with replay }
            delivered := n.delivered ++ [⟨c, f, messageOf tf f hdr⟩] } := by
      dsimp only [step]
      rw [haccept]
    rw [hcodec, hkey, openFrame_eq_ok_iff] at hopen
    obtain ⟨hmac, hhdr⟩ := hopen
    rw [hstep]
    exact h.accept (h.exists_sent hf (hmac hf.flagged)) hhdr hseen hfresh.2.1 hfollows'
  · have hstep : n.step tf (.deliver c f) = n := by
      dsimp only [step]
      rw [haccept]
      show { n with server := Function.update n.server c (n.server c) } = n
      rw [Function.update_eq_self]
    rwa [hstep]

/-- One action keeps the invariant. -/
theorem Invariant.step (h : Invariant codec key tf n) {a : Action Conn Time}
    (ha : n.Allowed key a) : Invariant codec key tf (n.step tf a) := by
  cases a with
  | clientSend c msg =>
    obtain ⟨hendpoint, hframes⟩ := clientSend_spec (n.client c) tf msg
    have hkept : ((n.client c).send tf recorder [] msg).2.1.codec = codec
        ∧ ((n.client c).send tf recorder [] msg).2.1.hmacKey = key := by
      rw [hendpoint]
      exact h.client c
    rw [(h.client c).1, (h.client c).2] at hframes
    exact (h.updateClient c hkept).send hframes
  | serverSend c msg =>
    obtain ⟨hendpoint, hframes⟩ := serverSend_spec (n.server c) tf msg
    have hkept : ∀ v, v = { n.server c with seq := (n.server c).seq + 1 } →
        (v.codec = codec ∧ v.hmacKey = key) ∧ v.replay = (n.server c).replay := by
      rintro _ rfl
      exact ⟨h.server c, rfl⟩
    obtain ⟨hkey, hreplay⟩ := hkept _ hendpoint
    rw [(h.server c).1, (h.server c).2] at hframes
    exact (h.updateServer c hkey hreplay).send hframes
  | deliver c f => exact h.deliver ha

theorem Reachable.invariant (h : Reachable codec key tf n) : Invariant codec key tf n := by
  induction h with
  | init => exact invariant_init
  | step _ ha ih => exact ih.step ha

/-! ## Sending and delivering one frame -/

/-- A client that sends for the first time. -/
theorem Reachable.clientSend (h : Reachable codec key tf n) (c : Conn) (msg : Message Time)
    (hclient : n.client c = ClientEndpoint.new codec key)
    (hmarshal : codec.marshal (headerOf tf 1 msg) = .ok hdrBytes)
    (hsize : hdrBytes.length + msg.payload.length ≤ maxFrameSize) :
    ∃ n', Reachable codec key tf n'
      ∧ n'.sent = n.sent ++ [⟨c, .client, msg, signFrame key (frameOf hdrBytes msg)⟩]
      ∧ n'.delivered = n.delivered ∧ n'.server = n.server := by
  have hsend := ClientEndpoint.send_of_marshal tf recorder (e := ClientEndpoint.new codec key)
    (s := []) hmarshal
  refine ⟨n.step tf (.clientSend c msg), h.step trivial, ?_, rfl, rfl⟩
  dsimp only [Network.step]
  rw [hclient, hsend]
  dsimp only [ClientEndpoint.new]
  rw [recorder_send hsize]
  rfl

/-- A server that sends for the first time. -/
theorem Reachable.serverSend (h : Reachable codec key tf n) (c : Conn) (msg : Message Time)
    (hserver : n.server c = ServerEndpoint.new codec key)
    (hmarshal : codec.marshal (headerOf tf 1 msg) = .ok hdrBytes)
    (hsize : hdrBytes.length + msg.payload.length ≤ maxFrameSize) :
    ∃ n', Reachable codec key tf n'
      ∧ n'.sent = n.sent ++ [⟨c, .server, msg, signFrame key (frameOf hdrBytes msg)⟩]
      ∧ n'.delivered = n.delivered ∧ (n'.server c).replay = (n.server c).replay := by
  have hsend := ServerEndpoint.send_of_marshal tf recorder (e := ServerEndpoint.new codec key)
    (s := []) hmarshal
  refine ⟨n.step tf (.serverSend c msg), h.step trivial, ?_, rfl, ?_⟩
  · dsimp only [Network.step]
    rw [hserver, hsend]
    dsimp only [ServerEndpoint.new]
    rw [recorder_send hsize]
    rfl
  · show (Function.update n.server c ((n.server c).send tf recorder [] msg).2.1 c).replay = _
    rw [Function.update_self, (serverSend_spec (n.server c) tf msg).1]

/-- **A recorded frame is delivered wherever its number is above those seen**,
whoever sent it. -/
theorem Reachable.deliver (h : Reachable codec key tf n) (c : Conn) (msg : Message Time)
    {seq : UInt64}
    (hsize : hdrBytes.length + msg.payload.length ≤ maxFrameSize)
    (hunmarshal : codec.unmarshal hdrBytes = .ok (headerOf tf seq msg))
    (hsent : ∃ s ∈ n.sent, s.frame = signFrame key (frameOf hdrBytes msg))
    (hnew : seq > (n.server c).replay.maxSeen) :
    ∃ n' m, Reachable codec key tf n' ∧ n'.sent = n.sent
      ∧ n'.delivered = n.delivered ++ [⟨c, signFrame key (frameOf hdrBytes msg), m⟩]
      ∧ ∀ c', c' ≠ c → n'.server c' = n.server c' := by
  obtain ⟨hcodec, rfl⟩ := h.invariant.server c
  obtain ⟨s, hs, hframe⟩ := hsent
  have hunmarshal' : (n.server c).codec.unmarshal hdrBytes = .ok (headerOf tf seq msg) := by
    rw [hcodec]
    exact hunmarshal
  have haccept := Delivery.accept_signFrame (ε := TransportError) hunmarshal'
  have hcheck : (n.server c).replay.check seq = (.ok (), ((n.server c).replay.check seq).2) :=
    Prod.ext (Tracker.check_of_gt hnew).1 rfl
  rw [hcheck] at haccept
  refine ⟨n.step tf (.deliver c (signFrame (n.server c).hmacKey (frameOf hdrBytes msg))),
    messageOf tf (signFrame (n.server c).hmacKey (frameOf hdrBytes msg)) (headerOf tf seq msg),
    h.step ⟨⟨rfl, hsize, Delivery.macFits_signFrame _⟩, Delivery.hasHMAC_signFrame _,
      fun _ => ⟨s, hs, by rw [hframe]⟩⟩, ?_, ?_, ?_⟩
  all_goals
    dsimp only [Network.step]
    rw [haccept]
  intro c' hc
  exact Function.update_of_ne hc _ _

/-! ## Heartbeats -/

/-- The header of the first heartbeat that an endpoint sends. -/
def firstHeader : Bytes := Json.writeObject (headerOf .zeroOnly 1 Delivery.heartbeat).members

/-- The frame of the first heartbeat of a client. -/
def beatFrame : Frame := signFrame [0x6b] (frameOf firstHeader Delivery.heartbeat)

/-- An acknowledgement that is otherwise like a heartbeat. -/
def ack : Message Unit := { Delivery.heartbeat with type := MessageType.typeAck }

/-- The frame of the first acknowledgement of a server. -/
def ackFrame : Frame := signFrame [0x6b] (frameOf firstHeader ack)

theorem length_firstHeader : firstHeader.length + 0 ≤ maxFrameSize :=
  (Delivery.length_marshal_heartbeat 1).trans (by decide)

theorem marshal_firstHeader :
    Codec.json.marshal (headerOf .zeroOnly 1 Delivery.heartbeat) = .ok firstHeader := rfl

theorem unmarshal_firstHeader :
    Codec.json.unmarshal firstHeader = .ok (headerOf .zeroOnly 1 Delivery.heartbeat) :=
  Codec.json_undoes _ _ (Delivery.validUTF8_headerOf Delivery.validUTF8_zeroOnly
    (Delivery.deliverable_heartbeat 1)) marshal_firstHeader

/-- **A redirected frame.** A client sends a heartbeat, and the server of another
connection delivers it. -/
theorem exists_redirected : ∃ (n : Network ℕ Unit) (m : Message Unit),
    Reachable Codec.json [0x6b] .zeroOnly n
      ∧ n.sent = [⟨0, .client, Delivery.heartbeat, beatFrame⟩] ∧ n.delivered = [⟨1, beatFrame, m⟩]
      ∧ ∀ c, c ≠ 1 → n.server c = ServerEndpoint.new Codec.json [0x6b] := by
  have h₀ : Reachable Codec.json [0x6b] .zeroOnly (init Codec.json [0x6b] : Network ℕ Unit) := .init
  obtain ⟨n₁, h₁, hsent₁, hdelivered₁, hserver₁⟩ :=
    h₀.clientSend 0 Delivery.heartbeat rfl marshal_firstHeader length_firstHeader
  have hnew : ∀ c, n₁.server c = ServerEndpoint.new Codec.json [0x6b] := by
    intro c
    rw [hserver₁]
    rfl
  obtain ⟨n₂, m, h₂, hsent₂, hdelivered₂, hserver₂⟩ :=
    h₁.deliver 1 Delivery.heartbeat length_firstHeader unmarshal_firstHeader
      ⟨_, by rw [hsent₁]; exact List.mem_singleton_self _, rfl⟩ (by rw [hnew]; decide)
  refine ⟨n₂, m, h₂, by rw [hsent₂, hsent₁]; rfl, by rw [hdelivered₂, hdelivered₁]; rfl, ?_⟩
  exact fun c hc => (hserver₂ c hc).trans (hnew c)

/-! ## What is delivered -/

/-- A receiver can tell what was sent: the type is a declared one, and the strings
are valid UTF-8. -/
structure Legible (msg : Message Time) : Prop where
  type : msg.type ∈ MessageType.declared
  source : Json.ValidUTF8 msg.source
  sessionID : Json.ValidUTF8 msg.sessionID
  requestID : Json.ValidUTF8 msg.requestID
  capability : Json.ValidUTF8 msg.capability

/-- What a frame is opened to has the content of the message it was made of. -/
theorem SignedFor.sameContent (h : SignedFor codec key tf msg f) (hcodec : codec.Undoes)
    (htime : ∀ t, Json.ValidUTF8 (tf.format t)) (hmsg : Legible msg) {hdr : Header}
    (hhdr : codec.unmarshal f.header = .ok hdr) : msg.SameContent (messageOf tf f hdr) := by
  obtain ⟨seq, hdrBytes, hmarshal, -, rfl⟩ := h
  have hvalid : (headerOf tf seq msg).ValidUTF8 :=
    ⟨hmsg.source, hmsg.sessionID, hmsg.requestID, htime _, hmsg.capability, Json.validUTF8_nil⟩
  have hundone : codec.unmarshal hdrBytes = .ok (headerOf tf seq msg) := hcodec _ _ hvalid hmarshal
  cases hundone.symm.trans hhdr
  exact Delivery.sameContent_messageOf hmsg.type key

/-- **Once on each connection.** In every run, whatever a server delivers was sent by
some endpoint that has the key, with the content it is delivered with, and no server
delivers the same frame twice. -/
theorem delivered_once_per_connection (hcodec : codec.Undoes)
    (htime : ∀ t, Json.ValidUTF8 (tf.format t)) (h : Reachable codec key tf n) :
    (∀ d ∈ n.delivered, ∃ s ∈ n.sent, s.frame = d.frame
        ∧ (Legible s.msg → s.msg.SameContent d.msg))
      ∧ ∀ c, ((n.delivered.filter (·.conn = c)).map (·.frame)).Nodup := by
  refine ⟨fun d hd => ?_, h.invariant.once⟩
  obtain ⟨⟨s, hs, hframe⟩, hdr, hhdr, hmsg⟩ := h.invariant.delivered d hd
  refine ⟨s, hs, hframe, fun hlegible => ?_⟩
  rw [hmsg, ← hframe]
  rw [← hframe] at hhdr
  exact (h.invariant.sent s hs).sameContent hcodec htime hlegible hhdr

/-- The redirected heartbeat was sent, by the client of another connection. -/
theorem delivered_once_redirected : ∃ (n : Network ℕ Unit) (m : Message Unit),
    Reachable Codec.json [0x6b] .zeroOnly n ∧ n.delivered = [⟨1, beatFrame, m⟩]
      ∧ (∀ d ∈ n.delivered, ∃ s ∈ n.sent, s.frame = d.frame
        ∧ (Legible s.msg → s.msg.SameContent d.msg))
      ∧ ∀ c, ((n.delivered.filter (·.conn = c)).map (·.frame)).Nodup := by
  obtain ⟨n, m, h, -, hdelivered, -⟩ := exists_redirected
  exact ⟨n, m, h, hdelivered,
    delivered_once_per_connection Codec.json_undoes Delivery.validUTF8_zeroOnly h⟩

/-- **A frame is delivered elsewhere.** The heartbeat of client 0 is delivered on
connection 1 and then on its own, and the acknowledgement of server 2, once it is
reflected, by server 2 itself. -/
theorem delivered_elsewhere : ∃ (n : Network ℕ Unit) (m₁ m₂ m₃ : Message Unit),
    Reachable Codec.json [0x6b] .zeroOnly n
      ∧ n.sent = [⟨0, .client, Delivery.heartbeat, beatFrame⟩, ⟨2, .server, ack, ackFrame⟩]
      ∧ n.delivered = [⟨1, beatFrame, m₁⟩, ⟨0, beatFrame, m₂⟩, ⟨2, ackFrame, m₃⟩]
      ∧ beatFrame ≠ ackFrame := by
  obtain ⟨n₁, m₁, h₁, hsent₁, hdelivered₁, hserver₁⟩ := exists_redirected
  obtain ⟨n₂, m₂, h₂, hsent₂, hdelivered₂, hserver₂⟩ :=
    h₁.deliver 0 Delivery.heartbeat length_firstHeader unmarshal_firstHeader
      ⟨_, by rw [hsent₁]; exact List.mem_singleton_self _, rfl⟩
      (by rw [hserver₁ 0 (by decide)]; decide)
  have hserver : n₂.server 2 = ServerEndpoint.new Codec.json [0x6b] :=
    (hserver₂ 2 (by decide)).trans (hserver₁ 2 (by decide))
  obtain ⟨n₃, h₃, hsent₃, hdelivered₃, hreplay₃⟩ :=
    h₂.serverSend 2 ack hserver marshal_firstHeader length_firstHeader
  obtain ⟨n₄, m₃, h₄, hsent₄, hdelivered₄, -⟩ :=
    h₃.deliver 2 ack length_firstHeader unmarshal_firstHeader
      ⟨_, by rw [hsent₃]; exact List.mem_append_right _ (List.mem_singleton_self _), rfl⟩
      (by rw [hreplay₃, hserver]; decide)
  refine ⟨n₄, m₁, m₂, m₃, h₄, ?_, ?_, fun h => ?_⟩
  · rw [hsent₄, hsent₃, hsent₂, hsent₁]
    rfl
  · rw [hdelivered₄, hdelivered₃, hdelivered₂, hdelivered₁]
    rfl
  · exact absurd (congrArg Frame.msgType h) (by decide)

end Network
