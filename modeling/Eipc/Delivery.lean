import Eipc.Endpoint

/-!
# Delivery over a stream

A client that sends and a server that receives, with one key and a reliable
stream between them. Every layer has a part in it: the client numbers the
messages, the codec writes the header, the type becomes a byte, the frame is
signed, encoded and put behind its length; the server undoes all this from the
bytes alone, checks the MAC over the fields it decoded and the number against its
replay window.

`Delivery.receive_sent` says that nothing is lost on the way: what was sent is
what is received, in order, for as long as the numbers last. They are `uint64`s,
so they last for `2 ^ 64 - 1` messages; the next one is numbered zero, which the
replay window refuses (`Delivery.receive_wrapped`).
-/

open Bytes Frame Endpoint

section Machines

variable {Time σ ε : Type} (tf : TimeFormat Time) (conn : Connection σ ε)

/-- A client that sends one message after another. -/
def ClientEndpoint.sender :
    Machine (ClientEndpoint × σ) (Message Time) (Except (EndpointError ε) Unit) where
  step s msg := s.1.send tf conn s.2 msg

/-- A server that receives again and again. -/
def ServerEndpoint.receiver :
    Machine (ServerEndpoint × σ) Unit (Except (EndpointError ε) (Message Time)) where
  step s _ := s.1.receive tf conn s.2

end Machines

/-- Two messages agree in everything that a message is received with, but for
version and timestamp. -/
structure Message.SameContent {Time : Type} (m m' : Message Time) : Prop where
  type : m.type = m'.type
  source : m.source = m'.source
  sessionID : m.sessionID = m'.sessionID
  requestID : m.requestID = m'.requestID
  priority : m.priority = m'.priority
  capability : m.capability = m'.capability
  payload : m.payload = m'.payload

namespace Delivery

variable {Time : Type}

/-- The message can be sent with the number `seq`: its type is a declared one,
its strings are valid UTF-8, and its header and payload leave room for preamble
and MAC. -/
structure Deliverable (codec : Codec) (tf : TimeFormat Time) (seq : UInt64)
    (msg : Message Time) : Prop where
  type : msg.type ∈ MessageType.declared
  source : Json.ValidUTF8 msg.source
  sessionID : Json.ValidUTF8 msg.sessionID
  requestID : Json.ValidUTF8 msg.requestID
  capability : Json.ValidUTF8 msg.capability
  size : ∃ hdrBytes, codec.marshal (headerOf tf seq msg) = .ok hdrBytes
    ∧ hdrBytes.length + msg.payload.length ≤ maxFrameSize - 48

/-! ## One message -/

section OneMessage

variable {codec : Codec} {tf : TimeFormat Time} {seq : UInt64} {msg : Message Time}
  {hdrBytes : Bytes}

theorem validUTF8_headerOf (htime : ∀ t, Json.ValidUTF8 (tf.format t))
    (h : Deliverable codec tf seq msg) : (headerOf tf seq msg).ValidUTF8 :=
  ⟨h.source, h.sessionID, h.requestID, htime _, h.capability, Json.validUTF8_nil⟩

/-- What a signed frame is opened to. -/
theorem openFrame_signFrame {ε : Type} (key : Bytes) {hdr : Header}
    (h : codec.unmarshal hdrBytes = .ok hdr) :
    openFrame (ε := ε) codec key (signFrame key (frameOf hdrBytes msg)) = .ok hdr :=
  openFrame_eq_ok_iff.mpr ⟨fun _ => mac_signFrame key _, h⟩

/-- The message made of the frame has the content of the message that was
sent. -/
theorem sameContent_messageOf (htype : msg.type ∈ MessageType.declared) (key : Bytes) :
    msg.SameContent
      (messageOf tf (signFrame key (frameOf hdrBytes msg)) (headerOf tf seq msg)) :=
  ⟨(MessageType.msgTypeFromByte_msgTypeToByte msg.type htype).symm, rfl, rfl, rfl, rfl, rfl, rfl⟩

theorem hasHMAC_signFrame (key : Bytes) :
    (signFrame key (frameOf hdrBytes msg)).hasHMAC = true := by
  show (flagHMAC &&& flagHMAC != 0) = true
  decide

theorem macFits_signFrame (key : Bytes) : (signFrame key (frameOf hdrBytes msg)).MacFits := by
  unfold MacFits
  rw [if_pos (hasHMAC_signFrame key)]
  exact length_hmacSha256 _ _

theorem encodedLen_signFrame (key : Bytes) :
    ConnWrapper.encodedLen (signFrame key (frameOf hdrBytes msg))
      = 48 + hdrBytes.length + msg.payload.length := by
  unfold ConnWrapper.encodedLen
  rw [if_pos (hasHMAC_signFrame key)]
  show 16 + hdrBytes.length + msg.payload.length + 32 = _
  omega

/-- The frame of a message that leaves room is written as a record. -/
theorem send_signFrame (key : Bytes)
    (hsize : hdrBytes.length + msg.payload.length ≤ maxFrameSize - 48) :
    ConnWrapper.send (signFrame key (frameOf hdrBytes msg))
      = .ok (ConnWrapper.record (signFrame key (frameOf hdrBytes msg)).wire) :=
  ConnWrapper.send_eq_ok_iff.mpr
    ⟨_, encode_of_macFits (macFits_signFrame key) (hsize.trans (Nat.sub_le _ _)), rfl⟩

/-- That record is received as the frame. -/
theorem receive_signFrame (key : Bytes)
    (hsize : hdrBytes.length + msg.payload.length ≤ maxFrameSize - 48) (rest : Bytes) :
    ConnWrapper.receive (ConnWrapper.record (signFrame key (frameOf hdrBytes msg)).wire ++ rest)
      = (.ok (signFrame key (frameOf hdrBytes msg)), rest) := by
  have hmax : maxFrameSize = 1048576 := rfl
  refine ConnWrapper.receive_record_wire
    ⟨rfl, hsize.trans (Nat.sub_le _ _), macFits_signFrame key⟩ ?_ rest
  rw [encodedLen_signFrame]
  omega

/-- **Sending one message** appends its record to the stream. -/
theorem send_step {e : ClientEndpoint}
    (hmarshal : e.codec.marshal (headerOf tf (e.sequence + 1) msg) = .ok hdrBytes)
    (hsize : hdrBytes.length + msg.payload.length ≤ maxFrameSize - 48) (s : ConnWrapper.Stream) :
    e.send tf ConnWrapper.connection s msg
      = (.ok (), { e with sequence := e.sequence + 1 },
        { s with
          output := s.output
            ++ ConnWrapper.record (signFrame e.hmacKey (frameOf hdrBytes msg)).wire }) := by
  rw [ClientEndpoint.send_of_marshal tf _ hmarshal]
  dsimp only [ConnWrapper.connection]
  rw [send_signFrame e.hmacKey hsize]
  rfl

/-- What a server makes of a frame that was signed with its key is up to the replay
window. -/
theorem accept_signFrame {ε : Type} {v : ServerEndpoint}
    (hunmarshal : v.codec.unmarshal hdrBytes = .ok (headerOf tf seq msg)) :
    v.accept (ε := ε) tf (signFrame v.hmacKey (frameOf hdrBytes msg))
      = match v.replay.check seq with
        | (.error err, replay) => (.error (.replay err), { v with replay })
        | (.ok (), replay) =>
          (.ok (messageOf tf (signFrame v.hmacKey (frameOf hdrBytes msg)) (headerOf tf seq msg)),
            { v with replay }) := by
  have hcheck : v.replay.check (headerOf tf seq msg).sequence = v.replay.check seq := rfl
  rcases hres : v.replay.check seq with ⟨err | u, replay⟩
  all_goals
    unfold ServerEndpoint.accept
    simp only [openFrame_signFrame v.hmacKey hunmarshal, hcheck, hres]

/-- Receiving the record of a message is accepting its frame. -/
theorem receive_record (tf : TimeFormat Time) {v : ServerEndpoint}
    (hsize : hdrBytes.length + msg.payload.length ≤ maxFrameSize - 48) (rest out : Bytes) :
    v.receive tf ConnWrapper.connection
        ⟨ConnWrapper.record (signFrame v.hmacKey (frameOf hdrBytes msg)).wire ++ rest, out⟩
      = ((v.accept tf (signFrame v.hmacKey (frameOf hdrBytes msg))).1,
        (v.accept (ε := TransportError) tf (signFrame v.hmacKey (frameOf hdrBytes msg))).2,
        ⟨rest, out⟩) := by
  unfold ServerEndpoint.receive
  dsimp only [ConnWrapper.connection]
  rw [receive_signFrame v.hmacKey hsize]

/-- **Receiving one message**, whose number is above all that were seen. -/
theorem receive_step {v : ServerEndpoint}
    (hunmarshal : v.codec.unmarshal hdrBytes = .ok (headerOf tf seq msg))
    (hsize : hdrBytes.length + msg.payload.length ≤ maxFrameSize - 48)
    (hseq : seq > v.replay.maxSeen) (rest out : Bytes) :
    v.receive tf ConnWrapper.connection
        ⟨ConnWrapper.record (signFrame v.hmacKey (frameOf hdrBytes msg)).wire ++ rest, out⟩
      = (.ok (messageOf tf (signFrame v.hmacKey (frameOf hdrBytes msg)) (headerOf tf seq msg)),
        { v with replay := (v.replay.check seq).2 }, ⟨rest, out⟩) := by
  have hcheck : v.replay.check seq = (.ok (), (v.replay.check seq).2) :=
    Prod.ext (Tracker.check_of_gt hseq).1 rfl
  rw [receive_record tf hsize, accept_signFrame hunmarshal, hcheck]

end OneMessage

/-! ## A list of messages -/

/-- The messages can be sent one after another, the first with the number after
`seq`. -/
def DeliverableFrom (codec : Codec) (tf : TimeFormat Time) : UInt64 → List (Message Time) → Prop
  | _, [] => True
  | seq, msg :: msgs => Deliverable codec tf (seq + 1) msg ∧ DeliverableFrom codec tf (seq + 1) msgs

/-- The two ends belong together: they share codec and key, and the server has
seen the numbers that the client has used. -/
structure Linked (codec : Codec) (key : Bytes) (e : ClientEndpoint) (v : ServerEndpoint) :
    Prop where
  client : e.codec = codec ∧ e.hmacKey = key
  server : v.codec = codec ∧ v.hmacKey = key
  sequence : v.replay.maxSeen = e.sequence

theorem linked_new (codec : Codec) (key : Bytes) :
    Linked codec key (ClientEndpoint.new codec key) (ServerEndpoint.new codec key) :=
  ⟨⟨rfl, rfl⟩, ⟨rfl, rfl⟩, rfl⟩

section Run

variable {codec : Codec} {tf : TimeFormat Time} {key : Bytes}

/-- What a run of the two ends leaves behind: the records of the messages, which
the server turns into the messages. -/
structure Delivered (codec : Codec) (tf : TimeFormat Time) (key : Bytes) (e : ClientEndpoint)
    (v : ServerEndpoint) (msgs : List (Message Time)) (bytes : Bytes) (e' : ClientEndpoint)
    (v' : ServerEndpoint) : Prop where
  sent : ∀ s : ConnWrapper.Stream, (ClientEndpoint.sender tf ConnWrapper.connection).run (e, s) msgs
    = (List.replicate msgs.length (.ok ()), (e', { s with output := s.output ++ bytes }))
  received : ∃ msgs', List.Forall₂ Message.SameContent msgs msgs' ∧ ∀ rest out,
    (ServerEndpoint.receiver tf ConnWrapper.connection).run (v, ⟨bytes ++ rest, out⟩)
        (List.replicate msgs.length ())
      = (msgs'.map .ok, (v', ⟨rest, out⟩))
  linked : Linked codec key e' v'
  sequence : e'.sequence.toNat = e.sequence.toNat + msgs.length

/-- One message more. -/
theorem Delivered.cons {e e₁ e' : ClientEndpoint} {v v₁ v' : ServerEndpoint} {msg : Message Time}
    {msgs : List (Message Time)} {bytes₁ bytes : Bytes} {msg' : Message Time}
    (hsend : ∀ s, e.send tf ConnWrapper.connection s msg
      = (.ok (), e₁, { s with output := s.output ++ bytes₁ }))
    (hreceive : ∀ rest out, v.receive tf ConnWrapper.connection ⟨bytes₁ ++ rest, out⟩
      = (.ok msg', v₁, ⟨rest, out⟩))
    (hsame : msg.SameContent msg') (hseq : e₁.sequence.toNat = e.sequence.toNat + 1)
    (h : Delivered codec tf key e₁ v₁ msgs bytes e' v') :
    Delivered codec tf key e v (msg :: msgs) (bytes₁ ++ bytes) e' v' where
  sent s := by
    have hrest := h.sent { s with output := s.output ++ bytes₁ }
    have hstep : (ClientEndpoint.sender tf ConnWrapper.connection).step (e, s) msg
        = (.ok (), (e₁, { s with output := s.output ++ bytes₁ })) := hsend s
    rw [Machine.run, hstep]
    dsimp only
    rw [hrest, ← List.append_assoc]
    rfl
  received := by
    obtain ⟨msgs', hall, hrest⟩ := h.received
    refine ⟨msg' :: msgs', .cons hsame hall, fun rest out => ?_⟩
    have hstep : (ServerEndpoint.receiver tf ConnWrapper.connection).step
        (v, ⟨bytes₁ ++ bytes ++ rest, out⟩) () = (.ok msg', (v₁, ⟨bytes ++ rest, out⟩)) := by
      rw [List.append_assoc]
      exact hreceive (bytes ++ rest) out
    rw [List.length_cons, List.replicate_succ, Machine.run, hstep]
    dsimp only
    rw [hrest]
    rfl
  linked := h.linked
  sequence := by
    rw [h.sequence, hseq, List.length_cons]
    omega

/-- **What is sent is received**, from any point of a conversation on, for as long
as the numbers do not wrap around. -/
theorem exists_delivered (hcodec : codec.Undoes) (htime : ∀ t, Json.ValidUTF8 (tf.format t))
    {e : ClientEndpoint} {v : ServerEndpoint} (hlink : Linked codec key e v)
    {msgs : List (Message Time)} (hmsgs : DeliverableFrom codec tf e.sequence msgs)
    (hlen : e.sequence.toNat + msgs.length < 2 ^ 64) :
    ∃ bytes e' v', Delivered codec tf key e v msgs bytes e' v' := by
  induction msgs generalizing e v with
  | nil =>
    refine ⟨[], e, v, fun s => ?_, ⟨[], .nil, fun rest out => rfl⟩, hlink, rfl⟩
    rw [List.append_nil]
    rfl
  | cons msg msgs ih =>
    obtain ⟨hmsg, hmsgs⟩ := hmsgs
    obtain ⟨_, _, seq⟩ := e
    obtain ⟨_, _, replay, n, caps⟩ := v
    obtain ⟨⟨rfl, rfl⟩, ⟨rfl, rfl⟩, hmax⟩ := hlink
    obtain ⟨hdrBytes, hmarshal, hsize⟩ := hmsg.size
    have hunmarshal := hcodec _ _ (validUTF8_headerOf htime hmsg) hmarshal
    have hlen' : seq.toNat + (msgs.length + 1) < 2 ^ 64 := hlen
    have hseq : (seq + 1).toNat = seq.toNat + 1 := by
      rw [UInt64.toNat_add]
      exact Nat.mod_eq_of_lt (by show seq.toNat + 1 < 2 ^ 64; omega)
    have hgt : seq + 1 > replay.maxSeen := by
      rw [hmax, gt_iff_lt, UInt64.lt_iff_toNat_lt, hseq]
      exact Nat.lt_succ_self _
    obtain ⟨bytes, e', v', hrest⟩ := ih (e := ⟨_, _, seq + 1⟩)
      (v := ⟨_, _, (replay.check (seq + 1)).2, n, caps⟩)
      ⟨⟨rfl, rfl⟩, ⟨rfl, rfl⟩, (Tracker.check_of_gt hgt).2⟩ hmsgs (by
        show (seq + 1).toNat + msgs.length < 2 ^ 64
        omega)
    exact ⟨_, e', v', hrest.cons (send_step hmarshal hsize) (receive_step hunmarshal hsize hgt)
      (sameContent_messageOf hmsg.type _) hseq⟩

/-- A message that is numbered zero is sent, and refused as a replay. -/
theorem Delivered.replay_mem_answers {e e' : ClientEndpoint} {v v' : ServerEndpoint}
    {msg : Message Time} {msgs : List (Message Time)} {bytes : Bytes}
    (h : Delivered codec tf key e v msgs bytes e' v') (hcodec : codec.Undoes)
    (htime : ∀ t, Json.ValidUTF8 (tf.format t)) (hmsg : Deliverable codec tf 0 msg)
    (hseq : e'.sequence + 1 = 0) :
    let sent := (ClientEndpoint.sender tf ConnWrapper.connection).after (e, ⟨[], []⟩)
      (msgs ++ [msg])
    .error (.replay .replay) ∈ (ServerEndpoint.receiver tf ConnWrapper.connection).answers
      (v, ⟨sent.2.output, []⟩) (List.replicate (msgs.length + 1) ()) := by
  intro sent
  obtain ⟨hdrBytes, hmarshal, hsize⟩ := hmsg.size
  have hunmarshal := hcodec _ _ (validUTF8_headerOf htime hmsg) hmarshal
  obtain ⟨⟨hcodecE, hkeyE⟩, ⟨hcodecV, hkeyV⟩, -⟩ := h.linked
  obtain ⟨msgs', -, hreceived⟩ := h.received
  have houtput : sent.2.output
      = bytes ++ ConnWrapper.record (signFrame key (frameOf hdrBytes msg)).wire := by
    have hafter : (ClientEndpoint.sender tf ConnWrapper.connection).after (e, ⟨[], []⟩) msgs
        = (e', ⟨[], bytes⟩) := congrArg Prod.snd (h.sent ⟨[], []⟩)
    have hmarshal' : e'.codec.marshal (headerOf tf (e'.sequence + 1) msg) = .ok hdrBytes := by
      rw [hcodecE, hseq]
      exact hmarshal
    have hsend := send_step hmarshal' hsize ⟨[], bytes⟩
    rw [hkeyE] at hsend
    show ((ClientEndpoint.sender tf ConnWrapper.connection).after (e, ⟨[], []⟩)
      (msgs ++ [msg])).2.output = _
    rw [Machine.after_concat, hafter]
    exact congrArg (·.2.2.output) hsend
  have hafter : (ServerEndpoint.receiver tf ConnWrapper.connection).after
      (v, ⟨sent.2.output, []⟩) (List.replicate msgs.length ())
      = (v', ⟨ConnWrapper.record (signFrame key (frameOf hdrBytes msg)).wire ++ [], []⟩) := by
    rw [houtput, List.append_nil]
    exact congrArg Prod.snd (hreceived _ [])
  have hlast := receive_record tf (v := v') hsize [] []
  rw [accept_signFrame (v := v') (by rw [hcodecV]; exact hunmarshal), Tracker.check_zero,
    hkeyV] at hlast
  rw [List.replicate_succ', Machine.answers_concat, hafter]
  exact List.mem_append_right _ (List.mem_singleton.mpr (congrArg Prod.fst hlast).symm)

end Run

/-! ## Heartbeats -/

/-- A heartbeat with no other content. -/
def heartbeat : Message Unit :=
  ⟨1, MessageType.typeHeartbeat, ascii "eni", (), [], [], 0, [], []⟩

/-- The header of a heartbeat is short, whatever its number. -/
theorem length_marshal_heartbeat (seq : UInt64) :
    (Json.writeObject (headerOf .zeroOnly seq heartbeat).members).length ≤ 200 := by
  have hdigits : (Json.decimal seq.toNat).length ≤ 20 :=
    Json.length_decimal_le _ (by decide) (Nat.lt_of_lt_of_le seq.toNat_lt (by decide))
  have hfixed : (Json.quote (ascii "service_id")).length + (Json.quote (ascii "eni")).length
      + (Json.quote (ascii "session_id")).length + (Json.quote []).length
      + (Json.quote (ascii "request_id")).length + (Json.quote []).length
      + (Json.quote (ascii "sequence")).length + (Json.quote (ascii "timestamp")).length
      + (Json.quote (TimeFormat.zeroOnly.format ())).length
      + (Json.quote (ascii "priority")).length + (Json.decimal (UInt8.toNat 0)).length
      + (Json.quote (ascii "payload_format")).length + (Json.decimal payloadJSON.toNat).length
        ≤ 150 := by
    decide +kernel
  simp only [headerOf, heartbeat, Header.members, Header.omitEmpty, if_true, List.append_nil,
    List.cons_append, List.nil_append, Json.writeObject, Json.writeMembers, Json.writeMember,
    Json.Value.write, List.length_append, List.length_cons, List.length_nil, List.append_assoc]
  omega

theorem deliverable_heartbeat (seq : UInt64) : Deliverable Codec.json .zeroOnly seq heartbeat where
  type := by decide
  source := Json.validUTF8_of_ascii rfl
  sessionID := Json.validUTF8_nil
  requestID := Json.validUTF8_nil
  capability := Json.validUTF8_nil
  size := ⟨_, rfl, (length_marshal_heartbeat seq).trans (by decide)⟩

theorem deliverableFrom_heartbeats (seq : UInt64) (n : ℕ) :
    DeliverableFrom Codec.json .zeroOnly seq (List.replicate n heartbeat) := by
  induction n generalizing seq with
  | zero => trivial
  | succ n ih => exact ⟨deliverable_heartbeat _, ih _⟩

theorem validUTF8_zeroOnly (t : Unit) : Json.ValidUTF8 (TimeFormat.zeroOnly.format t) :=
  Json.validUTF8_of_ascii rfl

/-! ## Every message arrives -/

/-- **Every message arrives, in order.** Fewer than `2 ^ 64` messages that are sent
over a stream are all sent and all received, with their content, and nothing is
left on the stream. -/
theorem receive_sent {codec : Codec} (hcodec : codec.Undoes) {tf : TimeFormat Time}
    (htime : ∀ t, Json.ValidUTF8 (tf.format t)) (key : Bytes) (msgs : List (Message Time))
    (hmsgs : DeliverableFrom codec tf 0 msgs)
    (hlen : msgs.length < 2 ^ 64) :
    let sent := (ClientEndpoint.sender tf ConnWrapper.connection).run
      (ClientEndpoint.new codec key, ⟨[], []⟩) msgs
    let got := (ServerEndpoint.receiver tf ConnWrapper.connection).run
      (ServerEndpoint.new codec key, ⟨sent.2.2.output, []⟩) (List.replicate msgs.length ())
    sent.1 = List.replicate msgs.length (.ok ())
      ∧ (∃ msgs', got.1 = msgs'.map .ok ∧ List.Forall₂ Message.SameContent msgs msgs')
      ∧ got.2.2.input = [] := by
  intro sent got
  obtain ⟨bytes, e', v', h⟩ := exists_delivered hcodec htime (linked_new codec key) hmsgs (by
      show 0 + msgs.length < 2 ^ 64
      omega)
  have hsent : sent = _ := h.sent ⟨[], []⟩
  obtain ⟨msgs', hall, hreceived⟩ := h.received
  have hgot : got = (msgs'.map .ok, (v', ⟨[], []⟩)) := by
    rw [← hreceived [] []]
    show (ServerEndpoint.receiver tf ConnWrapper.connection).run
      (ServerEndpoint.new codec key, ⟨sent.2.2.output, []⟩) (List.replicate msgs.length ()) = _
    rw [hsent, List.append_nil]
    rfl
  exact ⟨by rw [hsent], ⟨msgs', by rw [hgot], hall⟩, by rw [hgot]⟩

/-- An intent, with all that a message can have. -/
def moveLeft : Message Unit :=
  ⟨1, MessageType.typeIntent, ascii "eni", (), ascii "s1", ascii "req-1", 0, ascii "ui:control",
    ascii "move_left"⟩

theorem deliverable_moveLeft : Deliverable Codec.json .zeroOnly 1 moveLeft where
  type := by decide
  source := Json.validUTF8_of_ascii rfl
  sessionID := Json.validUTF8_of_ascii rfl
  requestID := Json.validUTF8_of_ascii rfl
  capability := Json.validUTF8_of_ascii rfl
  size := ⟨_, rfl, by decide +kernel⟩

/-- An intent and a heartbeat arrive. -/
theorem receive_sent_two :
    let msgs := [moveLeft, heartbeat]
    let sent := (ClientEndpoint.sender .zeroOnly ConnWrapper.connection).run
      (ClientEndpoint.new Codec.json [0x6b], ⟨[], []⟩) msgs
    let got := (ServerEndpoint.receiver .zeroOnly ConnWrapper.connection).run
      (ServerEndpoint.new Codec.json [0x6b], ⟨sent.2.2.output, []⟩) [(), ()]
    sent.1 = [.ok (), .ok ()]
      ∧ (∃ msgs', got.1 = msgs'.map .ok ∧ List.Forall₂ Message.SameContent msgs msgs')
      ∧ got.2.2.input = [] :=
  receive_sent Codec.json_undoes validUTF8_zeroOnly [0x6b] [moveLeft, heartbeat]
    ⟨deliverable_moveLeft, deliverable_heartbeat 2, trivial⟩ (by decide)

/-- **More messages than numbers.** The last of `2 ^ 64` heartbeats is refused as a
replay, although each of them could be sent. -/
theorem receive_wrapped :
    let msgs := List.replicate (2 ^ 64) heartbeat
    let sent := (ClientEndpoint.sender .zeroOnly ConnWrapper.connection).after
      (ClientEndpoint.new Codec.json [0x6b], ⟨[], []⟩) msgs
    Codec.json.Undoes ∧ DeliverableFrom Codec.json .zeroOnly 0 msgs
      ∧ .error (.replay .replay)
        ∈ (ServerEndpoint.receiver .zeroOnly ConnWrapper.connection).answers
          (ServerEndpoint.new Codec.json [0x6b], ⟨sent.2.output, []⟩)
          (List.replicate (2 ^ 64) ()) := by
  obtain ⟨n, hn⟩ : ∃ n, n + 1 = 2 ^ 64 := ⟨2 ^ 64 - 1, rfl⟩
  rw [← hn]
  intro msgs sent
  refine ⟨Codec.json_undoes, deliverableFrom_heartbeats 0 (n + 1), ?_⟩
  obtain ⟨bytes, e', v', h⟩ := exists_delivered Codec.json_undoes validUTF8_zeroOnly
    (linked_new Codec.json [0x6b]) (deliverableFrom_heartbeats 0 n) (by
      show 0 + (List.replicate n heartbeat).length < 2 ^ 64
      rw [List.length_replicate]
      omega)
  have hseq : e'.sequence + 1 = 0 := by
    have hcount : e'.sequence.toNat = 0 + (List.replicate n heartbeat).length := h.sequence
    rw [List.length_replicate, Nat.zero_add] at hcount
    rw [← UInt64.toNat_inj, UInt64.toNat_add, hcount]
    show (n + 1) % 2 ^ 64 = 0
    rw [hn, Nat.mod_self]
  have hreplay := h.replay_mem_answers Codec.json_undoes validUTF8_zeroOnly
    (deliverable_heartbeat 0) hseq
  rw [List.length_replicate, ← List.replicate_succ'] at hreplay
  exact hreplay

end Delivery
