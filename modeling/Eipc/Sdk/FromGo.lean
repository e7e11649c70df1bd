import Eipc.Sdk.Interop
import Eipc.Sdk.Bounds
import Eipc.Lib.JsonLines

/-!
# Go clients and C servers

The other direction: a `ClientEndpoint` sends to a server of the C SDK. The SDK has arrays where Go
has slices, so that a message may be too large for it, and its header reader looks for names in the
text, so that a name inside of a value can mislead it (`Eipc.Sdk.GoHeader`). Neither costs more than
the one message: every record is read to its end, and the next one is found
(`Interop.c_server_receives`).
-/

open Bytes CString EipcFrame JsonField MessageType

namespace Interop

open Endpoint (signFrame messageOf openFrame frameOf)
open Delivery (DeliverableFrom)

variable {Time : Type} {tf : TimeFormat Time} {seq : UInt64} {msg : Message Time} {rest : Bytes}

/-! ## The frame -/

section Frame

variable {g : Frame}

/-- A frame that is too large for the arrays is refused as such. -/
theorem eipcFrameDecode_wire_of_lt (hg : g.WellFormed)
    (h : eipcMaxHeader < g.header.length ∨ eipcMaxPayload < g.payload.length) :
    eipcFrameDecode g.wire = .error .frameTooLarge := by
  obtain ⟨hmagicG, hversionG, -⟩ := g.slice_preamble
  obtain ⟨hheaderG, hpayloadG⟩ := Frame.toNatBE_lengths_wire_append hg.size []
  have hmagic := g.slice_wire_append [] (show 4 ≤ 16 by decide) (i := 0)
  have hversion := g.slice_wire_append [] (show 6 ≤ 16 by decide) (i := 4)
  have hlen : 16 ≤ (g.wire ++ []).length := by
    rw [g.wire_append, List.length_append, Frame.length_preamble]
    exact Nat.le_add_right _ _
  rw [List.append_nil] at hheaderG hpayloadG hmagic hversion hlen
  generalize g.wire = buf at hlen hmagic hversion hheaderG hpayloadG ⊢
  have hload : load32 (buf.getD 0 0) (buf.getD 1 0) (buf.getD 2 0) (buf.getD 3 0) = eipcMagic := by
    rw [load32_getD (i := 0) (le_trans (by decide) hlen), hmagic, hmagicG]
    decide
  have hcurrent : load16 (buf.getD 4 0) (buf.getD 5 0) = eipcProtocolVer := by
    rw [load16_getD (i := 4) (le_trans (by decide) hlen), hversion, hversionG, hg.version]
    decide
  have hheaderLen : (load32 (buf.getD 8 0) (buf.getD 9 0) (buf.getD 10 0) (buf.getD 11 0)).toNat
      = g.header.length := by
    rw [toNat_load32_getD (i := 8) (le_trans (by decide) hlen), hheaderG]
  have hpayloadLen : (load32 (buf.getD 12 0) (buf.getD 13 0) (buf.getD 14 0)
      (buf.getD 15 0)).toNat = g.payload.length := by
    rw [toNat_load32_getD (i := 12) (le_trans (by decide) hlen), hpayloadG]
  unfold eipcFrameDecode
  simp only [hload, hcurrent, hheaderLen, hpayloadLen]
  rw [Except.failIf_neg (show ¬buf.length < eipcFrameFixedSize from not_lt.mpr hlen),
    Except.failIf_neg (not_not.mpr rfl), Except.failIf_neg (not_not.mpr rfl)]
  -- both lengths are checked before anything is copied, and both failures look the same
  by_cases hheader : eipcMaxHeader < g.header.length
  · rw [Except.failIf, if_pos hheader]
    rfl
  · rw [Except.failIf_neg hheader, Except.failIf, if_pos (h.resolve_left hheader)]
    rfl

end Frame

/-! ## The message -/

section Message

/-- The text of the header. -/
def headerText (tf : TimeFormat Time) (seq : UInt64) (msg : Message Time) : Bytes :=
  Json.writeObject (Endpoint.headerOf tf seq msg).members

/-- What the SDK returns for a message, if its header does not fill the array to the last byte. -/
def seen (tf : TimeFormat Time) (seq : UInt64) (msg : Message Time) :
    Except EipcStatus EipcMessage :=
  if eipcMaxHeader < (headerText tf seq msg).length ∨ eipcMaxPayload < msg.payload.length then
    .error .frameTooLarge
  else
    let hdr := eipcHeaderFromJson (headerText tf seq msg)
    .ok
      { version := Frame.protocolVersion
        msgType := msgTypeToByte msg.type
        source := strncpy (eipcServiceIdMax - 1) hdr.serviceId
        sessionId := strncpy (eipcSessionIdMax - 1) hdr.sessionId
        requestId := strncpy (eipcRequestIdMax - 1) hdr.requestId
        priority := hdr.priority
        capability := strncpy (eipcCapabilityMax - 1) hdr.capability
        payload := msg.payload }

/-- The message, as the SDK has it. -/
def contentOf (msg : Message Time) : EipcMessage where
  version := Frame.protocolVersion
  msgType := msgTypeToByte msg.type
  source := msg.source
  sessionId := msg.sessionID
  requestId := msg.requestID
  priority := msg.priority
  capability := msg.capability
  payload := msg.payload

/-- A message that the SDK can receive as it is. -/
structure Readable (tf : TimeFormat Time) (seq : UInt64) (msg : Message Time) : Prop where
  header : (headerText tf seq msg).length < eipcMaxHeader
  payload : msg.payload.length ≤ eipcMaxPayload
  fits : (Endpoint.headerOf tf seq msg).FitsArrays
  recoverable : Recoverable [] (Endpoint.headerOf tf seq msg).fields

/-- The encoder writes no NUL. -/
theorem zero_notMem_headerText (hutf : (Endpoint.headerOf tf seq msg).ValidUTF8) :
    0 ∉ headerText tf seq msg := fun hmem =>
  Json.printable_writeObject (Header.valid_members hutf) 0 hmem (by decide)

/-- **The header of a readable message is read as it was written.** -/
theorem eipcHeaderFromJson_headerText (hutf : (Endpoint.headerOf tf seq msg).ValidUTF8)
    (h : Readable tf seq msg) :
    eipcHeaderFromJson (headerText tf seq msg) = (Endpoint.headerOf tf seq msg).toEipc := by
  have hread : readBuffer eipcHeaderFromJson (headerText tf seq msg)
      = some (Endpoint.headerOf tf seq msg).toEipc :=
    (Header.readBuffer_writeObject_iff hutf h.fits).mpr h.recoverable
  rw [readBuffer_of_noNul _ (zero_notMem_headerText hutf)] at hread
  exact Option.some.inj hread

theorem seen_of_readable (hutf : (Endpoint.headerOf tf seq msg).ValidUTF8)
    (h : Readable tf seq msg) : seen tf seq msg = .ok (contentOf msg) := by
  have hlarge : ¬(eipcMaxHeader < (headerText tf seq msg).length
      ∨ eipcMaxPayload < msg.payload.length) := by
    rw [not_or, not_lt, not_lt]
    exact ⟨h.header.le, h.payload⟩
  have hcopy : ∀ {s : Bytes} {n : ℕ}, s.length < n → strncpy (n - 1) s = s := fun hlt =>
    List.take_of_length_le (Nat.le_pred_of_lt hlt)
  rw [seen, if_neg hlarge, eipcHeaderFromJson_headerText hutf h]
  dsimp only [Header.toEipc]
  rw [hcopy h.fits.serviceID, hcopy h.fits.sessionID, hcopy h.fits.requestID,
    hcopy h.fits.capability]
  rfl

end Message

/-! ## The connection -/

section Run

/-- `eipc_server_receive`, call after call. -/
def receiver : Machine (EipcConn × Bytes) Allocs (Option (Except EipcStatus EipcMessage)) where
  step s a := eipcServerReceive a s.1 s.2

variable {conn : EipcConn} {a : Allocs}

/-- **One message**: its record is read to its end. -/
theorem eipcServerReceive_record (hconn : conn.connected = true) (ha : a.record = true)
    (hutf : (Endpoint.headerOf tf seq msg).ValidUTF8)
    (hsize : (headerText tf seq msg).length + msg.payload.length ≤ Frame.maxFrameSize - 48)
    (hfull : (headerText tf seq msg).length ≠ eipcMaxHeader) (rest : Bytes) :
    eipcServerReceive a conn
        (ConnWrapper.record (signFrame conn.hmacKey (frameOf (headerText tf seq msg) msg)).wire
          ++ rest)
      = (some (seen tf seq msg), conn.countMessage (some (seen tf seq msg)), rest) := by
  have hwell : (signFrame conn.hmacKey (frameOf (headerText tf seq msg) msg)).WellFormed :=
    ⟨rfl, hsize.trans (Nat.sub_le _ _), Delivery.macFits_signFrame conn.hmacKey⟩
  have hlen : (signFrame conn.hmacKey (frameOf (headerText tf seq msg) msg)).wire.length
      ≤ eipcMaxFrame := by
    have hmax : Frame.maxFrameSize = 1048576 := rfl
    have hmax' : eipcMaxFrame = 1048576 := rfl
    rw [ConnWrapper.length_wire hwell.mac, Delivery.encodedLen_signFrame]
    omega
  unfold eipcServerReceive
  rw [if_neg (not_not.mpr hconn), ha, ConnWrapper.record, eipcTransportRecvFrame_record hlen]
  by_cases hlarge : eipcMaxHeader < (headerText tf seq msg).length
      ∨ eipcMaxPayload < msg.payload.length
  · rw [eipcFrameDecode_wire_of_lt hwell hlarge, seen, if_pos hlarge]
    rfl
  · have hheader := not_lt.mp (not_or.mp hlarge).1
    have hpayload := not_lt.mp (not_or.mp hlarge).2
    obtain ⟨f, hf⟩ := exists_eipcFrameDecode_wire hwell hheader hpayload []
    rw [List.append_nil] at hf
    have hframe := toFrame_of_decode_wire hwell hf
    have hreceive := receiveFrame_of_decode (a := a) hwell
      (fun _ => Endpoint.mac_signFrame conn.hmacKey _)
      (zero_notMem_headerText hutf) (lt_of_le_of_ne hheader hfull) hf
    have hmessage : eipcMessageOf f (eipcHeaderFromJson (headerText tf seq msg))
        = seen tf seq msg := by
      have hversion : f.version = Frame.protocolVersion := congrArg Frame.version hframe
      have hmsgType : f.msgType = msgTypeToByte msg.type := congrArg Frame.msgType hframe
      have hbody : f.payload.take f.payloadLen.toNat = msg.payload := congrArg Frame.payload hframe
      rw [seen, if_neg hlarge, eipcMessageOf, if_neg fun hlong =>
        absurd (fits_of_decode hf).payload (not_le.mpr hlong.2), hversion, hmsgType, hbody]
    have hreceive' : receiveFrame a conn.hmacKey f = some (seen tf seq msg) :=
      hreceive.trans (congrArg some hmessage)
    rw [hf]
    dsimp only
    rw [hreceive']

theorem connected_countMessage (conn : EipcConn) (res : Option (Except EipcStatus EipcMessage)) :
    (conn.countMessage res).connected = conn.connected := by
  unfold EipcConn.countMessage
  split <;> rfl

theorem hmacKey_countMessage (conn : EipcConn) (res : Option (Except EipcStatus EipcMessage)) :
    (conn.countMessage res).hmacKey = conn.hmacKey := by
  unfold EipcConn.countMessage
  split <;> rfl

/-- The messages with their numbers, if `n` were sent before. -/
def numbered (n : ℕ) (msgs : List (Message Time)) : List (UInt64 × Message Time) :=
  (msgs.zipIdx (n + 1)).map fun i => (.ofNat i.2, i.1)

theorem numbered_cons (n : ℕ) (msg : Message Time) (msgs : List (Message Time)) :
    numbered n (msg :: msgs) = (.ofNat (n + 1), msg) :: numbered (n + 1) msgs := by
  rw [numbered, List.zipIdx_cons, List.map_cons]
  rfl

theorem validUTF8_of_numbered (htime : ∀ t, Json.ValidUTF8 (tf.format t)) {n : ℕ}
    {msgs : List (Message Time)} (h : DeliverableFrom .json tf (.ofNat n) msgs) :
    ∀ i ∈ numbered n msgs, (Endpoint.headerOf tf i.1 i.2).ValidUTF8 := by
  induction msgs generalizing n with
  | nil => exact List.forall_mem_nil _
  | cons msg msgs ih =>
    have hnum : UInt64.ofNat n + 1 = .ofNat (n + 1) := by rw [UInt64.ofNat_add]; rfl
    obtain ⟨hmsg, hmsgs⟩ := h
    rw [hnum] at hmsg hmsgs
    rw [numbered_cons, List.forall_mem_cons]
    exact ⟨Delivery.validUTF8_headerOf htime hmsg, ih hmsgs⟩

/-- **A whole connection.** -/
theorem run_receiver (htime : ∀ t, Json.ValidUTF8 (tf.format t)) {conn : EipcConn}
    (hconn : conn.connected = true) {e : ClientEndpoint} (hcodec : e.codec = .json)
    (hkey : e.hmacKey = conn.hmacKey) {n : ℕ} (hseq : e.sequence = .ofNat n)
    {msgs : List (Message Time)} (hmsgs : DeliverableFrom .json tf e.sequence msgs)
    (hfull : ∀ i ∈ numbered n msgs, (headerText tf i.1 i.2).length ≠ eipcMaxHeader)
    {allocs : List Allocs} (hallocs : ∀ a ∈ allocs, a.record = true)
    (hlen : allocs.length = msgs.length) :
    ∃ bytes,
      (∀ s, (ClientEndpoint.sender tf ConnWrapper.connection).answers (e, s) msgs
          = List.replicate msgs.length (.ok ())
        ∧ ((ClientEndpoint.sender tf ConnWrapper.connection).after (e, s) msgs).2.output
          = s.output ++ bytes)
      ∧ ∀ rest, receiver.answers (conn, bytes ++ rest) allocs
          = (numbered n msgs).map (fun i => some (seen tf i.1 i.2))
        ∧ (receiver.after (conn, bytes ++ rest) allocs).2 = rest := by
  induction msgs generalizing conn e n allocs with
  | nil =>
    obtain rfl : allocs = [] := List.length_eq_zero_iff.mp hlen
    exact ⟨[], fun s => ⟨rfl, (List.append_nil _).symm⟩, fun rest => ⟨rfl, rfl⟩⟩
  | cons msg msgs ih =>
    obtain ⟨a, allocs, rfl⟩ := List.exists_cons_of_length_eq_add_one hlen
    rw [List.forall_mem_cons] at hallocs
    rw [numbered_cons, List.forall_mem_cons] at hfull
    have hnum : e.sequence + 1 = .ofNat (n + 1) := by rw [hseq, UInt64.ofNat_add]; rfl
    obtain ⟨hmsg, hmsgs⟩ := hmsgs
    obtain ⟨hdrBytes, hmarshal, hsize⟩ := hmsg.size
    have htext : headerText tf (e.sequence + 1) msg = hdrBytes := Except.ok.inj hmarshal
    rw [← htext] at hmarshal hsize
    rw [← hcodec] at hmarshal
    have hutf := Delivery.validUTF8_headerOf htime hmsg
    rw [hnum] at hmarshal hsize hutf
    have hone := eipcServerReceive_record hconn hallocs.1 hutf hsize hfull.1
    have hconn' := (connected_countMessage conn (some (seen tf (.ofNat (n + 1)) msg))).trans hconn
    obtain ⟨bytes, hsent, hgot⟩ := ih hconn' (e := { e with sequence := e.sequence + 1 })
      (n := n + 1) hcodec
      (hkey.trans (hmacKey_countMessage conn _).symm) hnum hmsgs hfull.2 hallocs.2
      (Nat.succ.inj hlen)
    refine ⟨ConnWrapper.record (signFrame conn.hmacKey
      (frameOf (headerText tf (.ofNat (n + 1)) msg) msg)).wire ++ bytes, fun s => ?_,
        fun rest => ?_⟩
    · have hstep : (ClientEndpoint.sender tf ConnWrapper.connection).step (e, s) msg = _ :=
        Delivery.send_step (hnum.symm ▸ hmarshal) hsize s
      obtain ⟨hanswers, houtput⟩ :=
        hsent ((ClientEndpoint.sender tf ConnWrapper.connection).step (e, s) msg).2.2
      rw [Machine.answers_cons, Machine.after_cons]
      rw [hstep] at hanswers houtput ⊢
      refine ⟨congrArg (List.cons _) hanswers, houtput.trans ?_⟩
      rw [← hkey, List.append_assoc]
    · have hstep : receiver.step (conn, _) a = _ := hone (bytes ++ rest)
      rw [List.append_assoc, Machine.answers_cons, Machine.after_cons, hstep, numbered_cons]
      exact ⟨congrArg (List.cons _) (hgot rest).1, (hgot rest).2⟩

/-- **What a Go client sends, a server of the C SDK receives.** The client sends any messages that
Go can deliver, and the server with the same key receives as often. Then each message is answered
for itself: one that is too large for the arrays is refused, one that is readable is returned with
its content, and nothing is left over. A header of exactly 1024 bytes is excluded, since the reader
would leave its array. -/
theorem c_server_receives (tf : TimeFormat Time) (htime : ∀ t, Json.ValidUTF8 (tf.format t))
    (conn : EipcConn) (hconn : conn.connected = true) (msgs : List (Message Time))
    (hmsgs : DeliverableFrom .json tf 0 msgs)
    (hfull : ∀ i ∈ numbered 0 msgs, (headerText tf i.1 i.2).length ≠ eipcMaxHeader)
    (allocs : List Allocs) (hallocs : ∀ a ∈ allocs, a.record = true)
    (hlen : allocs.length = msgs.length) :
    let sent := (ClientEndpoint.sender tf ConnWrapper.connection).run
      (.new .json conn.hmacKey, ⟨[], []⟩) msgs
    let got := receiver.run (conn, sent.2.2.output) allocs
    sent.1 = List.replicate msgs.length (.ok ())
      ∧ got.1 = (numbered 0 msgs).map (fun i => some (seen tf i.1 i.2)) ∧ got.2.2 = []
      ∧ ∀ i ∈ numbered 0 msgs, Readable tf i.1 i.2 → seen tf i.1 i.2 = .ok (contentOf i.2) := by
  intro sent got
  obtain ⟨bytes, hsent, hgot⟩ := run_receiver htime hconn
    (e := .new .json conn.hmacKey) rfl rfl (n := 0) rfl hmsgs hfull hallocs hlen
  have hbytes : sent.2.2.output = bytes ++ [] := (hsent ⟨[], []⟩).2.trans (List.append_nil _).symm
  have hrun : got = receiver.run (conn, bytes ++ []) allocs := by rw [← hbytes]
  refine ⟨(hsent ⟨[], []⟩).1, ?_, ?_, ?_⟩
  · rw [hrun]
    exact (hgot []).1
  · rw [hrun]
    exact (hgot []).2
  · exact fun i hi hreadable => seen_of_readable (validUTF8_of_numbered htime hmsgs i hi) hreadable

/-- A heartbeat with that payload, and a plain one behind it. -/
def afterLarge (payload : Bytes) : List (Message Unit) :=
  [{ Delivery.heartbeat with payload }, Delivery.heartbeat]

theorem readable_heartbeat : Readable .zeroOnly 2 Delivery.heartbeat where
  header := (Delivery.length_marshal_heartbeat 2).trans_lt (by decide)
  payload := Nat.zero_le _
  fits := ⟨by decide, by decide, by decide, by decide, by decide⟩
  recoverable := by
    refine recoverable_of_kept ?_ (by decide +kernel)
    refine List.forall_mem_cons.mpr ⟨.inl ?_, List.forall_mem_cons.mpr ⟨.inl ?_,
      List.forall_mem_cons.mpr ⟨.inl ?_, List.forall_mem_cons.mpr ⟨trivial,
      List.forall_mem_cons.mpr ⟨.inl ?_, List.forall_mem_cons.mpr ⟨trivial,
      List.forall_mem_cons.mpr ⟨trivial, List.forall_mem_nil _⟩⟩⟩⟩⟩⟩⟩
    all_goals decide +kernel

/-- A message of 4097 bytes is refused, and the one behind it is received. -/
theorem c_server_receives_behind_large :
    ∃ conn : EipcConn, ∃ bytes, (receiver.run (conn, bytes) [⟨true, true⟩, ⟨true, true⟩]).1
      = [some (.error .frameTooLarge), some (.ok (contentOf Delivery.heartbeat))] := by
  obtain ⟨payload, hpayload⟩ : ∃ payload : Bytes, payload.length = 4097 :=
    ⟨List.replicate 4097 0, List.length_replicate⟩
  have hheader : ∀ seq, (headerText .zeroOnly seq Delivery.heartbeat).length ≤ 200 :=
    Delivery.length_marshal_heartbeat
  have hlarge : Delivery.Deliverable .json .zeroOnly 1 { Delivery.heartbeat with payload } := by
    obtain ⟨htype, hsource, hsession, hrequest, hcapability, -⟩ := Delivery.deliverable_heartbeat 1
    refine ⟨htype, hsource, hsession, hrequest, hcapability, _, rfl, ?_⟩
    have hlen := hheader 1
    have hmax : Frame.maxFrameSize = 1048576 := rfl
    show (headerText .zeroOnly 1 Delivery.heartbeat).length + payload.length ≤ _
    omega
  have hfull : ∀ i ∈ numbered 0 (afterLarge payload),
      (headerText .zeroOnly i.1 i.2).length ≠ eipcMaxHeader := by
    refine List.forall_mem_cons.mpr ⟨?_, List.forall_mem_singleton.mpr ?_⟩
    · exact (lt_of_le_of_lt (hheader 1) (by decide)).ne
    · exact (lt_of_le_of_lt (hheader 2) (by decide)).ne
  obtain ⟨-, hgot, -, hcontent⟩ := c_server_receives .zeroOnly Delivery.validUTF8_zeroOnly
    ⟨ascii "secret", 0, true, by decide⟩ rfl (afterLarge payload)
    ⟨hlarge, Delivery.deliverable_heartbeat 2, trivial⟩ hfull [⟨true, true⟩, ⟨true, true⟩]
    (by decide) rfl
  refine ⟨_, _, hgot.trans ?_⟩
  have hsecond := hcontent (2, Delivery.heartbeat) (List.mem_cons_of_mem _ List.mem_cons_self)
    readable_heartbeat
  have hlong : eipcMaxPayload < payload.length := hpayload ▸ (by decide)
  show [some (seen _ 1 { Delivery.heartbeat with payload }), some (seen _ 2 _)] = _
  rw [hsecond, seen, if_pos (.inr hlong)]

end Run

end Interop
