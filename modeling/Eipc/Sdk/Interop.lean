import Eipc.Sdk.Calls
import Eipc.Sdk.GoHeader
import Eipc.Delivery
import Eipc.Lib.Views

/-!
# C clients and Go servers

A client of the C SDK that sends to a `ServerEndpoint`. The record that the SDK writes is the one
that the Go side would write for the same header text and payload (`Interop.signAndSend_eq`); the
header text is read by the JSON codec as long as nothing in it needs escapes, since the SDK writes
none (`Interop.unmarshal_eipcHeaderToJson`).

Over a whole connection every call that can write its payload gets through, in order, with its type,
its name and its payload (`Interop.server_receives`). A call that fails has taken a number, and the
gap that it leaves does not bother the replay window.
-/

open Bytes CString EipcFrame JsonField MessageType

/-- A string that JSON encoders write as it is. -/
structure Json.Verbatim (s : Bytes) : Prop where
  valid : Json.ValidUTF8 s
  escape : Json.escape s = s

namespace Interop

open Endpoint (signFrame messageOf openFrame)

/-! ## The record -/

section Record

variable {F : Type} {env : SendEnv F} {header payload : Bytes}

/-- The frame that the client sends, before it is signed. -/
def unsigned (msgType : UInt8) (header payload : Bytes) : Frame where
  version := Frame.protocolVersion
  msgType
  flags := Frame.flagHMAC
  header
  payload
  mac := []

/-- The record of a signed frame. -/
def signedRecord (key : Bytes) (msgType : UInt8) (header payload : Bytes) : Bytes :=
  ConnWrapper.record (signFrame key (unsigned msgType header payload)).wire

variable (hheader : header.length ≤ eipcMaxHeader) (hpayload : payload.length ≤ eipcMaxPayload)

include hheader hpayload

theorem toFrame_frameOf (msgType : UInt8) (mac : Bytes) :
    (frameOf msgType header payload mac).toFrame
      = { unsigned msgType header payload with mac := arrayOf eipcMacSize mac } := by
  have hh : (UInt32.ofNat header.length).toNat = header.length :=
    UInt32.toNat_ofNat_of_lt' (hheader.trans_lt (by decide))
  have hp : (UInt32.ofNat payload.length).toNat = payload.length :=
    UInt32.toNat_ofNat_of_lt' (hpayload.trans_lt (by decide))
  unfold toFrame frameOf unsigned
  dsimp only
  rw [hh, hp, take_arrayOf header hheader, take_arrayOf payload hpayload,
    if_pos (show hasHmac eipcFlagHmac = true by decide)]
  rfl

/-- **The record that the SDK writes** is the one that a Go endpoint writes. -/
theorem signAndSend_eq (hsend : ∀ bytes, env.sendAll bytes = true) (key : Bytes) (msgType : UInt8) :
    signAndSend env key msgType header payload
      = .ok (signedRecord key msgType header payload) := by
  have hfits := fits_frameOf hheader hpayload msgType []
  have hsignable : (frameOf msgType header payload []).eipcFrameSignableBytes eipcFrameBufSize
      = (unsigned msgType header payload).signableBytes := by
    rw [eipcFrameSignableBytes_eq hfits, toFrame_frameOf hheader hpayload,
      Endpoint.signableBytes_withMac]
  have hstack : (unsigned msgType header payload).signableBytes.length ≤ Hmac.hmacStackData := by
    have hmax : eipcFrameFixedSize + eipcMaxHeader + eipcMaxPayload ≤ Hmac.hmacStackData := by
      decide
    rw [← hsignable, length_eipcFrameSignableBytes hfits]
    exact (Nat.add_le_add (Nat.add_le_add_left hfits.header _) hfits.payload).trans hmax
  obtain ⟨wire, hwire⟩ := exists_signAndSend env hheader hpayload hsend key msgType
  rw [hwire]
  unfold signAndSend at hwire
  dsimp only at hwire
  split at hwire
  · cases hwire
  · rw [hsignable, eipcHmacSign_eq (.inl hstack)] at hwire
    have hmac : arrayOf eipcMacSize (hmacSha256 key (unsigned msgType header payload).signableBytes)
        = hmacSha256 key (unsigned msgType header payload).signableBytes := by
      have hlen : (hmacSha256 key (unsigned msgType header payload).signableBytes).length
        = eipcMacSize := length_hmacSha256 _ _
      have htake := take_arrayOf _ hlen.le
      rwa [List.take_of_length_le (by rw [length_arrayOf, hlen])] at htake
    have hlt := length_wire_le (fits_frameOf hheader hpayload msgType
      (hmacSha256 key (unsigned msgType header payload).signableBytes))
    have hwire' := eipcTransportSendFrame_eq_ok env (fits_frameOf hheader hpayload msgType _) hwire
    rw [toFrame_frameOf hheader hpayload, hmac] at hwire' hlt
    rw [hwire', store32_eq, UInt32.toNat_ofNat_of_lt' (hlt.trans_lt (by decide))]
    rfl

end Record

/-! ## The header -/

section Header

/-- The header, as the Go side has it. -/
def goHeader (h : EipcHeader) : Header where
  serviceID := h.serviceId
  sessionID := h.sessionId
  requestID := h.requestId
  sequence := h.sequence
  timestamp := h.timestamp
  priority := h.priority
  capability := h.capability
  route := []
  payloadFormat := h.payloadFormat

/-- Nothing in the header needs escapes. -/
structure Verbatim (h : EipcHeader) : Prop where
  serviceId : Json.Verbatim h.serviceId
  sessionId : Json.Verbatim h.sessionId
  requestId : Json.Verbatim h.requestId
  timestamp : Json.Verbatim h.timestamp
  capability : Json.Verbatim h.capability

/-- The members of the object that the SDK writes. The capability is always among them. -/
def members (h : EipcHeader) : List (Bytes × Json.Value) :=
  [(ascii "service_id", .str h.serviceId), (ascii "session_id", .str h.sessionId),
    (ascii "request_id", .str h.requestId), (ascii "sequence", .num h.sequence.toNat),
    (ascii "timestamp", .str h.timestamp), (ascii "priority", .num h.priority.toNat),
    (ascii "capability", .str h.capability), (ascii "payload_format", .num h.payloadFormat.toNat)]

variable {h : EipcHeader}

theorem writeObject_members (hv : Verbatim h) :
    Json.writeObject (members h) = objectText (h.fields.map member) := by
  have hkeys : ∀ kv ∈ members h, PlainKey kv.1 := by
    have hplain : ∀ key ∈ (members h).map Prod.fst, PlainKey key := by
      show ∀ key ∈ [ascii "service_id", ascii "session_id", ascii "request_id", ascii "sequence",
        ascii "timestamp", ascii "priority", ascii "capability", ascii "payload_format"],
          PlainKey key
      have hall : [ascii "service_id", ascii "session_id", ascii "request_id", ascii "sequence",
          ascii "timestamp", ascii "priority", ascii "capability", ascii "payload_format"].all
            (fun key => !key.isEmpty && key.all isKeyByte && decide (key.length ≤ 125)) = true := by
        decide
      intro key hkey
      have hone := List.all_eq_true.mp hall key hkey
      rw [Bool.and_eq_true, Bool.and_eq_true, decide_eq_true_iff] at hone
      refine ⟨?_, hone.1.2, hone.2⟩
      rintro rfl
      exact absurd hone.1.1 (by decide)
    exact fun kv hkv => hplain kv.1 (List.mem_map_of_mem hkv)
  rw [writeObject_eq hkeys]
  unfold members EipcHeader.fields raw uint8
  simp only [List.map_cons, List.map_nil, Json.Value.written, member, hv.serviceId.escape,
    hv.sessionId.escape, hv.requestId.escape, hv.timestamp.escape, hv.capability.escape]

theorem foldlM_set_members (h : EipcHeader) :
    (members h).foldlM Header.set Header.zero = .ok (goHeader h) := by
  obtain ⟨serviceId, sessionId, requestId, seq, timestamp, priority, capability, format⟩ := h
  have hseq := seq.toNat_lt
  have hpriority := priority.toNat_lt
  have hformat := format.toNat_lt
  simp +decide [members, goHeader, Header.set, Header.setString, Header.setNumber, Header.zero,
    List.foldlM_cons, hseq, hpriority, hformat, Except.bind, bind, pure, Except.pure]

theorem valid_members (hv : Verbatim h) : ∀ kv ∈ members h, Json.ValidUTF8 kv.1 ∧ kv.2.Valid := by
  unfold members
  simp only [List.forall_mem_cons, List.not_mem_nil, false_implies, implies_true, and_true]
  exact ⟨⟨Json.validUTF8_of_ascii rfl, hv.serviceId.valid⟩,
    ⟨Json.validUTF8_of_ascii rfl, hv.sessionId.valid⟩,
    ⟨Json.validUTF8_of_ascii rfl, hv.requestId.valid⟩, ⟨Json.validUTF8_of_ascii rfl, trivial⟩,
    ⟨Json.validUTF8_of_ascii rfl, hv.timestamp.valid⟩, ⟨Json.validUTF8_of_ascii rfl, trivial⟩,
    ⟨Json.validUTF8_of_ascii rfl, hv.capability.valid⟩, Json.validUTF8_of_ascii rfl, trivial⟩

/-- **The header of the SDK, read by the JSON codec.** -/
theorem unmarshal_eipcHeaderToJson (hv : Verbatim h) {n : ℕ} {text : Bytes}
    (htext : eipcHeaderToJson h n = .ok text) : Codec.json.unmarshal text = .ok (goHeader h) := by
  rw [eipcHeaderToJson_eq_ok htext, ← writeObject_members hv]
  dsimp only [Codec.json]
  rw [Json.readObject_writeObject (valid_members hv)]
  exact foldlM_set_members h

end Header

/-! ## The strings that the SDK makes up -/

section Texts

/-- A byte that is written as it is. -/
def isVerbatimByte (b : UInt8) : Bool := b < 0x80 && Json.escapeByte b = [b]

theorem verbatim_of_all {s : Bytes} (h : ∀ b ∈ s, isVerbatimByte b = true) : Json.Verbatim s := by
  refine ⟨Json.validUTF8_of_ascii (List.all_eq_true.mpr fun b hb => ?_), ?_⟩
  · exact (Bool.and_eq_true _ _ ▸ h b hb).1
  · induction s with
    | nil => rw [Json.escape]
    | cons b s ih =>
      rw [List.forall_mem_cons] at h
      obtain ⟨hlt, hself⟩ := Bool.and_eq_true_iff.mp h.1
      rw [Json.escape, if_pos (of_decide_eq_true hlt), of_decide_eq_true hself, ih h.2,
        List.singleton_append]

theorem isVerbatimByte_hexPadded {width n : ℕ} :
    ∀ b ∈ hexPadded width n, isVerbatimByte b = true := by
  have hdigit : ∀ d < 16, isVerbatimByte (hexDigit d) = true := by decide
  unfold hexPadded
  refine List.forall_mem_append.mpr ⟨fun b hb => ?_, fun b hb => ?_⟩
  · rw [List.eq_of_mem_replicate hb]
    decide
  · obtain ⟨d, hd, rfl⟩ := List.mem_map.mp hb
    exact hdigit d (Nat.digits_lt_base (by decide) (List.mem_reverse.mp hd))

theorem verbatim_requestId (r : CallReading) : Json.Verbatim (eipcGenerateRequestId r) := by
  refine verbatim_of_all fun b hb => ?_
  have hmem := List.mem_of_mem_take hb
  simp only [List.mem_append] at hmem
  rcases hmem with ((hb | hb) | hb) | hb
  · exact List.all_eq_true.mp (show (ascii "req-").all isVerbatimByte = true by decide) b hb
  · exact isVerbatimByte_hexPadded b hb
  · exact List.all_eq_true.mp (show (ascii "-").all isVerbatimByte = true by decide) b hb
  · exact isVerbatimByte_hexPadded b hb

theorem verbatim_timestamp (r : CallReading) : Json.Verbatim (eipcTimestampNow r) := by
  have hdigit : ∀ b : UInt8, Json.isDigit b = true → isVerbatimByte b = true := by decide +kernel
  exact verbatim_of_all fun b hb =>
    hdigit b (Json.isDigit_of_mem_decimal _ b (List.mem_of_mem_take hb))

theorem verbatim_nil : Json.Verbatim [] := ⟨Json.validUTF8_nil, by rw [Json.escape]⟩

/-- A header whose strings are in their arrays fits the buffer. -/
theorem exists_eipcHeaderToJson {h : EipcHeader} (hservice : h.serviceId.length < eipcServiceIdMax)
    (hsession : h.sessionId.length < eipcSessionIdMax)
    (hrequest : h.requestId.length < eipcRequestIdMax)
    (htimestamp : h.timestamp.length < eipcTimestampMax)
    (hcapability : h.capability.length < eipcCapabilityMax) :
    ∃ text, eipcHeaderToJson h eipcMaxHeader = .ok text := by
  have hseq : (Json.decimal h.sequence.toNat).length ≤ 20 :=
    Json.length_decimal_le _ (by decide) (Nat.lt_of_lt_of_le h.sequence.toNat_lt (by decide))
  have hpriority : (Json.decimal h.priority.toNat).length ≤ 3 :=
    Json.length_decimal_le _ (by decide) (Nat.lt_of_lt_of_le h.priority.toNat_lt (by decide))
  have hformat : (Json.decimal h.payloadFormat.toNat).length ≤ 3 :=
    Json.length_decimal_le _ (by decide) (Nat.lt_of_lt_of_le h.payloadFormat.toNat_lt (by decide))
  refine ⟨_, printed_eq_ok_iff.mpr ⟨?_, rfl⟩⟩
  have hconst : (ascii "\x7b\"service_id\":\"").length + (ascii "\",").length
      + (ascii "\"session_id\":\"").length + (ascii "\",").length
      + (ascii "\"request_id\":\"").length + (ascii "\",").length
      + (ascii "\"sequence\":").length + (ascii ",").length
      + (ascii "\"timestamp\":\"").length + (ascii "\",").length
      + (ascii "\"priority\":").length + (ascii ",").length
      + (ascii "\"capability\":\"").length + (ascii "\",").length
      + (ascii "\"payload_format\":").length + (ascii "\x7d").length ≤ 160 := by decide +kernel
  have hsizes : eipcServiceIdMax = 64 ∧ eipcSessionIdMax = 64 ∧ eipcRequestIdMax = 64
    ∧ eipcTimestampMax = 40 ∧ eipcCapabilityMax = 64 ∧ eipcMaxHeader = 1024 :=
    ⟨rfl, rfl, rfl, rfl, rfl, rfl⟩
  simp only [List.length_append]
  omega

end Texts

/-! ## One call -/

section Call

variable {F : Type} {env : SendEnv F} {c : EipcSendingClient} {Time : Type}

/-- The header of the record of a call. -/
def headerOf (env : SendEnv F) (r : CallReading) (serviceId : Bytes) (sequence : UInt64)
    (call : ClientCall F) : EipcHeader :=
  call.header (env.reading r) serviceId sequence

theorem verbatim_headerOf (env : SendEnv F) {serviceId : Bytes} (hservice : Json.Verbatim serviceId)
    (hlen : serviceId.length < eipcServiceIdMax) (r : CallReading) (sequence : UInt64)
    (call : ClientCall F) : Verbatim (headerOf env r serviceId sequence call) where
  serviceId := by
    show Json.Verbatim (serviceId.take 63)
    rwa [List.take_of_length_le (Nat.le_of_lt_succ hlen)]
  sessionId := verbatim_nil
  requestId := verbatim_requestId r
  timestamp := verbatim_timestamp r
  capability := by
    cases call with
    | chat | complete =>
      exact verbatim_of_all (List.all_eq_true.mp
        (show (ascii "ai:chat").all isVerbatimByte = true by decide))
    | _ => exact verbatim_nil

theorem exists_headerText (env : SendEnv F) (r : CallReading) (serviceId : Bytes)
    (sequence : UInt64) (call : ClientCall F) :
    ∃ text, eipcHeaderToJson (headerOf env r serviceId sequence call) eipcMaxHeader = .ok text := by
  refine exists_eipcHeaderToJson ?_ (show 0 < eipcSessionIdMax by decide) ?_ ?_ ?_
  · exact (List.length_take_le 63 serviceId).trans_lt (by decide)
  · exact (List.length_take_le 63 _).trans_lt (by decide)
  · exact (List.length_take_le 39 _).trans_lt (by decide)
  · cases call with
    | chat | complete => exact (show (ascii "ai:chat").length < eipcCapabilityMax by decide)
    | _ => exact (show 0 < eipcCapabilityMax by decide)

/-- A payload that could be written fits the frame. -/
theorem length_payload_le {serviceId : Bytes} {call : ClientCall F} {payload : Bytes}
    (h : call.payload env serviceId = some (.ok payload)) : payload.length ≤ eipcMaxPayload := by
  have hstrlen : ∀ {res : Except EipcStatus Bytes},
      (∀ out, res = .ok out → out.length < eipcMaxPayload) →
        res.map strlenBytes = .ok payload → payload.length ≤ eipcMaxPayload := by
    intro res hres hmap
    cases res with
    | error e => cases hmap
    | ok out =>
      cases hmap
      exact (List.takeWhile_sublist _).length_le.trans (hres out rfl).le
  cases call with
  | intent i confidence => exact hstrlen (fun _ => length_lt_of_printed) (Option.some.inj h)
  | toolRequest tool args =>
    obtain ⟨res, hres, hmap⟩ := Option.map_eq_some_iff.mp h
    refine hstrlen (fun out hout => ?_) hmap
    rw [hout] at hres
    unfold eipcToolRequestToJson at hres
    split at hres
    · split at hres
      · cases hres
      · exact length_lt_of_printed (Option.some.inj hres)
    · cases hres
  | heartbeat => exact hstrlen (fun _ => length_lt_of_printed) (Option.some.inj h)
  | chat req => exact hstrlen (fun _ => length_lt_of_printed) (Option.some.inj h)
  | complete prompt sessionId => exact (length_lt_of_printed (Option.some.inj h)).le

theorem buildAndSend_eq (hsend : ∀ bytes, env.sendAll bytes = true) {hdr : EipcHeader}
    {header payload : Bytes} (hheader : eipcHeaderToJson hdr eipcMaxHeader = .ok header)
    (hpayload : payload.length ≤ eipcMaxPayload) (c : EipcSendingClient) (msgType : UInt8) :
    buildAndSend env c msgType hdr payload
      = .ok (signedRecord c.hmacKey msgType header payload) := by
  have hfail : Except.failIf (payload.length > 0 ∧ payload.length > eipcMaxPayload)
      EipcStatus.frameTooLarge = .ok () := if_neg fun hlong => absurd hpayload (not_le.mpr hlong.2)
  rw [buildAndSend, hheader, hfail]
  exact signAndSend_eq (length_lt_of_printed hheader).le hpayload hsend c.hmacKey msgType

/-- **What a call puts on the wire**, when the socket takes it: one record, if the payload could be
written, and nothing otherwise. -/
theorem perform_eq (hsend : ∀ bytes, env.sendAll bytes = true) (hconnected : c.connected = true)
    (r : CallReading) (call : ClientCall F) :
    ∃ header, eipcHeaderToJson (headerOf env r c.serviceId (c.sequence + 1) call) eipcMaxHeader
        = .ok header
      ∧ call.perform (env.reading r) c
        = ((call.payload (env.reading r) c.serviceId).map fun res => res.map fun payload =>
            signedRecord c.hmacKey call.msgType header payload,
          { c with sequence := c.sequence + 1 }) := by
  obtain ⟨header, hheader⟩ := exists_headerText env r c.serviceId (c.sequence + 1) call
  refine ⟨header, hheader, ?_⟩
  rw [ClientCall.perform_of_connected hconnected]
  refine Prod.ext (Option.map_congr fun res hres => ?_) rfl
  cases res with
  | error e => rfl
  | ok payload =>
    have hsend' : ∀ bytes, (env.reading r).sendAll bytes = true := hsend
    dsimp only [Except.bind, Except.map]
    exact buildAndSend_eq hsend' hheader (length_payload_le hres)
      { c with sequence := c.sequence + 1 } call.msgType

end Call

/-! ## What the server receives -/

section Receive

variable {F : Type} {env : SendEnv F} {c : EipcSendingClient} {v : ServerEndpoint} {Time : Type}
  {tf : TimeFormat Time} {header payload : Bytes} {msgType : UInt8}

theorem hasHMAC_signFrame (key : Bytes) (msgType : UInt8) (header payload : Bytes) :
    (signFrame key (unsigned msgType header payload)).hasHMAC = true := by
  show (Frame.flagHMAC &&& Frame.flagHMAC != 0) = true
  decide

theorem wellFormed_signFrame (hheader : header.length ≤ eipcMaxHeader)
    (hpayload : payload.length ≤ eipcMaxPayload) (key : Bytes) (msgType : UInt8) :
    (signFrame key (unsigned msgType header payload)).WellFormed where
  version := rfl
  size := (Nat.add_le_add hheader hpayload).trans (by decide)
  mac := by
    unfold Frame.MacFits
    rw [if_pos (hasHMAC_signFrame key msgType header payload)]
    exact length_hmacSha256 _ _

/-- A record is read as its frame. -/
theorem read_signedRecord (hheader : header.length ≤ eipcMaxHeader)
    (hpayload : payload.length ≤ eipcMaxPayload) (key : Bytes) (msgType : UInt8) (rest : Bytes) :
    ConnWrapper.receive (signedRecord key msgType header payload ++ rest)
      = (.ok (signFrame key (unsigned msgType header payload)), rest) := by
  have hlen : ConnWrapper.encodedLen (signFrame key (unsigned msgType header payload))
      ≤ Frame.maxFrameSize := by
    have hmax : Frame.frameFixedSize + eipcMaxHeader + eipcMaxPayload + Frame.macSize
        ≤ Frame.maxFrameSize := by decide
    rw [ConnWrapper.encodedLen, if_pos (hasHMAC_signFrame _ _ _ _)]
    exact (Nat.add_le_add_right (Nat.add_le_add (Nat.add_le_add_left hheader _) hpayload) _).trans
      hmax
  exact ConnWrapper.receive_record_wire (wellFormed_signFrame hheader hpayload key msgType) hlen
    rest

/-- The record that a client writes is received, if its number is a new one. -/
theorem receive_signedRecord (hcodec : v.codec = .json) (hheader : header.length ≤ eipcMaxHeader)
    (hpayload : payload.length ≤ eipcMaxPayload) {hdr : Header}
    (hread : Codec.json.unmarshal header = .ok hdr) (hseq : hdr.sequence > v.replay.maxSeen)
    (rest out : Bytes) :
    v.receive tf ConnWrapper.connection
        ⟨signedRecord v.hmacKey msgType header payload ++ rest, out⟩
      = (.ok (messageOf tf (signFrame v.hmacKey (unsigned msgType header payload)) hdr),
        { v with replay := (v.replay.check hdr.sequence).2 }, ⟨rest, out⟩) := by
  have hopen : openFrame (ε := TransportError) v.codec v.hmacKey
      (signFrame v.hmacKey (unsigned msgType header payload)) = .ok hdr := by
    rw [hcodec]
    exact Endpoint.openFrame_eq_ok_iff.mpr ⟨fun _ => Endpoint.mac_signFrame v.hmacKey _, hread⟩
  have hcheck : v.replay.check hdr.sequence = (.ok (), (v.replay.check hdr.sequence).2) :=
    Prod.ext (Tracker.check_of_gt hseq).1 rfl
  unfold ServerEndpoint.receive
  dsimp only [ConnWrapper.connection]
  rw [read_signedRecord hheader hpayload]
  dsimp only
  unfold ServerEndpoint.accept
  rw [hopen]
  dsimp only
  rw [hcheck]

/-- The message that arrives for a call that has written its payload. -/
def arrived (tf : TimeFormat Time) (serviceId : Bytes) (r : CallReading) (call : ClientCall F)
    (payload : Bytes) : Message Time where
  version := 1
  type := msgTypeFromByte call.msgType
  source := serviceId
  timestamp := (tf.parse (eipcTimestampNow r)).getD tf.zero
  sessionID := []
  requestID := eipcGenerateRequestId r
  priority := Message.priorityP1
  capability := call.capability
  payload

/-- The message of a call, if the call can write its payload. -/
def messageFor (tf : TimeFormat Time) (env : SendEnv F) (serviceId : Bytes)
    (i : CallReading × ClientCall F) : Option (Message Time) :=
  match i.2.payload (env.reading i.1) serviceId with
  | some (.ok payload) => some (arrived tf serviceId i.1 i.2 payload)
  | _ => none

/-- The two ends belong together: the server has seen no number that the client has not used. -/
structure Follows (c : EipcSendingClient) (v : ServerEndpoint) : Prop where
  connected : c.connected = true
  codec : v.codec = .json
  key : v.hmacKey = c.hmacKey
  sequence : v.replay.maxSeen ≤ c.sequence
  service : Json.Verbatim c.serviceId ∧ c.serviceId.length < eipcServiceIdMax

theorem step_snd (h : c.connected = true) (i : CallReading × ClientCall F) :
    ((ClientCall.machine env).step c i).2 = { c with sequence := c.sequence + 1 } :=
  congrArg Prod.snd (ClientCall.perform_of_connected h i.2)

theorem toNat_next {n : UInt64} (h : n.toNat + 1 < 2 ^ 64) : (n + 1).toNat = n.toNat + 1 := by
  rw [UInt64.toNat_add]
  exact Nat.mod_eq_of_lt h

/-- **One call**: what it writes is received as its message. -/
theorem Follows.step (tf : TimeFormat Time) (h : Follows c v)
    (hsend : ∀ bytes, env.sendAll bytes = true) (hseq : c.sequence.toNat + 1 < 2 ^ 64)
    (i : CallReading × ClientCall F) :
    ∃ v', Follows ((ClientCall.machine env).step c i).2 v' ∧ ∀ rest out,
      (ServerEndpoint.receiver tf ConnWrapper.connection).run
          (v, ⟨ClientCall.written ((ClientCall.machine env).step c i).1 ++ rest, out⟩)
          (List.replicate (messageFor tf env c.serviceId i).toList.length ())
        = ((messageFor tf env c.serviceId i).toList.map .ok, (v', ⟨rest, out⟩)) := by
  obtain ⟨r, call⟩ := i
  obtain ⟨header, hheader, hperform⟩ := perform_eq (c := c) hsend h.connected r call
  have hstep : (ClientCall.machine env).step c (r, call) = _ := hperform
  have hgt : c.sequence + 1 > v.replay.maxSeen := by
    have hle := UInt64.le_iff_toNat_le.mp h.sequence
    rw [gt_iff_lt, UInt64.lt_iff_toNat_lt, toNat_next hseq]
    omega
  have hunsent : Follows { c with sequence := c.sequence + 1 } v :=
    ⟨h.connected, h.codec, h.key, UInt64.le_of_lt hgt, h.service⟩
  rw [hstep]
  unfold messageFor
  dsimp only
  cases hres : call.payload (env.reading r) c.serviceId with
  | none => exact ⟨v, hunsent, fun rest out => rfl⟩
  | some res =>
    cases res with
    | error e => exact ⟨v, hunsent, fun rest out => rfl⟩
    | ok payload =>
      have hverbatim := verbatim_headerOf env h.service.1 h.service.2 r (c.sequence + 1) call
      have hread := unmarshal_eipcHeaderToJson hverbatim hheader
      refine ⟨{ v with replay := (v.replay.check (c.sequence + 1)).2 },
        ⟨h.connected, h.codec, h.key, ?_, h.service⟩, fun rest out => ?_⟩
      · exact UInt64.le_of_eq (Tracker.check_of_gt hgt).2
      · have hreceive : v.receive tf ConnWrapper.connection
            ⟨signedRecord v.hmacKey call.msgType header payload ++ rest, out⟩ = _ :=
          receive_signedRecord h.codec (length_lt_of_printed hheader).le (length_payload_le hres)
            hread hgt rest out
        have hsource : strncpy (eipcServiceIdMax - 1) c.serviceId = c.serviceId :=
          List.take_of_length_le (Nat.le_of_lt_succ h.service.2)
        have hmessage : messageOf tf (signFrame v.hmacKey (unsigned call.msgType header payload))
            (goHeader (headerOf env r c.serviceId (c.sequence + 1) call))
              = arrived tf c.serviceId r call payload := by
          show Message.mk _ _ (strncpy (eipcServiceIdMax - 1) c.serviceId) _ _ _ _ _ _ = _
          rw [hsource]
          rfl
        rw [hmessage] at hreceive
        dsimp only [Option.map, Except.map, ClientCall.written, Option.toList]
        rw [← h.key]
        exact congrArg (fun x => ([x.1], x.2)) hreceive

/-- **A whole connection**: what the calls write is received as their messages. -/
theorem Follows.run (tf : TimeFormat Time) (h : Follows c v)
    (hsend : ∀ bytes, env.sendAll bytes = true) {calls : List (CallReading × ClientCall F)}
    (hseq : c.sequence.toNat + calls.length < 2 ^ 64) :
    ∃ v', ∀ rest out,
      (ServerEndpoint.receiver tf ConnWrapper.connection).run
          (v, ⟨((ClientCall.machine env).answers c calls).flatMap ClientCall.written ++ rest, out⟩)
          (List.replicate (calls.filterMap (messageFor tf env c.serviceId)).length ())
        = ((calls.filterMap (messageFor tf env c.serviceId)).map .ok, (v', ⟨rest, out⟩)) := by
  induction calls generalizing c v with
  | nil => exact ⟨v, fun rest out => rfl⟩
  | cons i calls ih =>
    have hlen : c.sequence.toNat + (calls.length + 1) < 2 ^ 64 := hseq
    obtain ⟨v₁, h₁, hone⟩ := h.step tf hsend (by omega) i
    have hc₁ : ((ClientCall.machine env).step c i).2 = _ := step_snd h.connected i
    have hnext := toNat_next (n := c.sequence) (by omega)
    obtain ⟨v', hall⟩ := ih h₁ (by
      rw [hc₁]
      show (c.sequence + 1).toNat + calls.length < 2 ^ 64
      omega)
    refine ⟨v', fun rest out => ?_⟩
    have hservice : ((ClientCall.machine env).step c i).2.serviceId = c.serviceId := by rw [hc₁]
    have hone := hone (((ClientCall.machine env).answers ((ClientCall.machine env).step c i).2
      calls).flatMap ClientCall.written ++ rest) out
    have hall := hall rest out
    rw [hservice] at hall
    have hfilter : (i :: calls).filterMap (messageFor tf env c.serviceId)
        = (messageFor tf env c.serviceId i).toList
          ++ calls.filterMap (messageFor tf env c.serviceId) := by
      rw [List.filterMap_cons]
      cases messageFor tf env c.serviceId i with
      | none => rfl
      | some msg => rfl
    rw [Machine.answers_cons, List.flatMap_cons, List.append_assoc, hfilter, List.length_append,
      List.replicate_add, List.map_append, Machine.run_append hone]
    have hanswers : Machine.answers _ _ _ = _ := congrArg Prod.fst hall
    have hafter : Machine.after _ _ _ = _ := congrArg Prod.snd hall
    rw [hanswers, hafter]

/-- Every call returns, and succeeds exactly if there is a message for it. -/
theorem isOk_answers (tf : TimeFormat Time) (hsend : ∀ bytes, env.sendAll bytes = true)
    (hconnected : c.connected = true) {calls : List (CallReading × ClientCall F)}
    (hdefined : ∀ i ∈ calls, i.2.payload (env.reading i.1) c.serviceId ≠ none) :
    ((ClientCall.machine env).answers c calls).map (Option.map Except.isOk)
      = calls.map fun i => some (messageFor tf env c.serviceId i).isSome := by
  induction calls generalizing c with
  | nil => rfl
  | cons i calls ih =>
    rw [List.forall_mem_cons] at hdefined
    have hsnd : ((ClientCall.machine env).step c i).2 = _ := step_snd hconnected i
    have hrest := ih (c := { c with sequence := c.sequence + 1 }) hconnected hdefined.2
    obtain ⟨header, -, hperform⟩ := perform_eq (c := c) hsend hconnected i.1 i.2
    have hfst : ((ClientCall.machine env).step c i).1 = _ := congrArg Prod.fst hperform
    rw [Machine.answers_cons, hsnd, List.map_cons, List.map_cons, hrest, hfst]
    congr 1
    unfold messageFor
    cases hres : i.2.payload (env.reading i.1) c.serviceId with
    | none => exact absurd hres hdefined.1
    | some res =>
      cases res with
      | error e => rfl
      | ok payload => rfl

/-- **What a client of the C SDK sends, a Go server receives.** A client that is connected under a
name without characters that need escapes makes any calls, in any order, and the socket takes all
that it writes. Then each call succeeds exactly if it can write its payload; and a server endpoint
with the same key receives the messages of the calls that succeed, in their order, and nothing
else. -/
theorem server_receives (tf : TimeFormat Time) (env : SendEnv F)
    (hsend : ∀ bytes, env.sendAll bytes = true) (serviceId key : Bytes)
    (hservice : Json.Verbatim (serviceId.take 63)) (c : EipcSendingClient)
    (hconnect : eipcClientConnect (eipcClientInit serviceId) key (.ok ()) = (.ok (), c))
    (calls : List (CallReading × ClientCall F)) (hlen : calls.length < 2 ^ 64)
    (hdefined : ∀ i ∈ calls, i.2.payload (env.reading i.1) (serviceId.take 63) ≠ none) :
    let answers := (ClientCall.machine env).answers c calls
    let msgs := calls.filterMap (messageFor tf env (serviceId.take 63))
    answers.map (Option.map Except.isOk)
        = calls.map (fun i => some (messageFor tf env (serviceId.take 63) i).isSome)
      ∧ ∃ v', (ServerEndpoint.receiver tf ConnWrapper.connection).run
          (.new .json key, ⟨answers.flatMap ClientCall.written, []⟩)
          (List.replicate msgs.length ())
        = (msgs.map .ok, (v', ⟨[], []⟩)) := by
  intro answers msgs
  unfold eipcClientConnect at hconnect
  split at hconnect
  · cases hconnect
  · have hc := (Prod.mk.inj hconnect).2
    have hc_service : c.serviceId = serviceId.take 63 := by rw [← hc]; rfl
    have hfollows : Follows c (.new .json key) := by
      refine ⟨by rw [← hc], rfl, by rw [← hc]; rfl, by rw [← hc]; exact UInt64.le_refl _, ?_⟩
      rw [hc_service]
      exact ⟨hservice, (List.length_take_le 63 serviceId).trans_lt (by decide)⟩
    have hzero : c.sequence.toNat = 0 := by rw [← hc]; rfl
    have hseq : c.sequence.toNat + calls.length < 2 ^ 64 := by omega
    obtain ⟨v', hrun⟩ := hfollows.run tf hsend hseq
    have hrun := hrun [] []
    rw [List.append_nil, hc_service] at hrun
    refine ⟨?_, v', hrun⟩
    rw [← hc_service] at hdefined ⊢
    exact isOk_answers tf hsend hfollows.connected hdefined

/-- A heartbeat and an intent. -/
def twoCalls : List (CallReading × ClientCall Unit) :=
  [(⟨0, 0, 0⟩, .heartbeat), (⟨1, 7, 1⟩, .intent (ascii "move_left") ())]

theorem server_receives_two :
    ∃ c v', eipcClientConnect (eipcClientInit (ascii "svc")) (ascii "secret") (.ok ()) = (.ok (), c)
      ∧ (ServerEndpoint.receiver .zeroOnly ConnWrapper.connection).run
          (.new .json (ascii "secret"),
            ⟨((ClientCall.machine openSocket).answers c twoCalls).flatMap ClientCall.written, []⟩)
          [(), ()]
        = ((twoCalls.filterMap (messageFor .zeroOnly openSocket (ascii "svc"))).map .ok,
          (v', ⟨[], []⟩)) := by
  have hservice : Json.Verbatim ((ascii "svc").take 63) :=
    verbatim_of_all (List.all_eq_true.mp
      (show ((ascii "svc").take 63).all isVerbatimByte = true by decide))
  have hdefined : ∀ i ∈ twoCalls, i.2.payload (openSocket.reading i.1) ((ascii "svc").take 63)
      ≠ none := by
    intro i hi
    rcases List.mem_pair.mp hi with rfl | rfl
    · exact Option.some_ne_none _
    · exact Option.some_ne_none _
  obtain ⟨-, v', hrun⟩ := server_receives .zeroOnly openSocket (fun _ => rfl) (ascii "svc")
    (ascii "secret") hservice _ rfl twoCalls (by decide) hdefined
  have hlength : (twoCalls.filterMap
      (messageFor .zeroOnly openSocket ((ascii "svc").take 63))).length = 2 := by decide +kernel
  rw [hlength] at hrun
  exact ⟨_, v', rfl, hrun⟩

end Receive

end Interop
