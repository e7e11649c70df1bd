import Eipc.Sdk.Recover

/-!
# Sending in the C SDK

`eipc_client_send_intent` and `eipc_client_send_tool_request` (`sdk/c/src/eipc_client.c`),
`eipc_server_send_ack` (`sdk/c/src/eipc_server.c`) and what they call: the header and payload
writers, the frame codec and `eipc_transport_send_frame` (`sdk/c/src/eipc_transport.c`). The result
of a call that succeeds is what went to the socket; `sentPayload` is the payload that the SDK's own
receiver finds there.

A caller's string passes several arrays on its way. Some of them cut it, some are large enough for
all that can arrive, and at two places it is written without escapes. `sends_whole_iff` says for
each of the three calls when everything that was passed in can be recovered from the payload of
the frame that was sent.
-/

open Bytes CString EipcFrame

/-- What is decided outside of the SDK: the clock and the random numbers, the text of a `float`,
whether an allocation succeeds and whether the socket takes all bytes. -/
structure SendEnv (F : Type) where
  /-- What `eipc_generate_request_id` prints. -/
  requestId : Bytes
  /-- What `eipc_timestamp_now` prints. -/
  timestamp : Bytes
  /-- The format `%.2f`. -/
  formatFloat : F → Bytes
  noNul_formatFloat : ∀ x, 0 ∉ formatFloat x
  malloc : Bool
  sendAll : Bytes → Bool

variable {F : Type} (env : SendEnv F)

/-! ## Frames -/

/-- `eipc_transport_send_frame`: what went to the socket. -/
def eipcTransportSendFrame (f : EipcFrame) : Except EipcStatus Bytes := do
  let encoded ← f.eipcFrameEncode eipcFrameBufSize
  let lenPrefix := store32 (UInt32.ofNat encoded.length)
  Except.failIf (¬env.sendAll lenPrefix) .io
  Except.failIf (¬env.sendAll encoded) .io
  return lenPrefix ++ encoded

/-- A frame with the header, the payload and the MAC copied to its arrays. -/
def frameOf (msgType : UInt8) (header payload mac : Bytes) : EipcFrame where
  version := eipcProtocolVer
  msgType := msgType
  flags := eipcFlagHmac
  header := arrayOf eipcMaxHeader header
  headerLen := UInt32.ofNat header.length
  payload := arrayOf eipcMaxPayload payload
  payloadLen := UInt32.ofNat payload.length
  mac := arrayOf eipcMacSize mac
  length_header := length_arrayOf _ _
  length_payload := length_arrayOf _ _
  length_mac := length_arrayOf _ _

/-- What the senders do with a frame that is complete but for its MAC. -/
def signAndSend (hmacKey : Bytes) (msgType : UInt8) (header payload : Bytes) :
    Except EipcStatus Bytes :=
  let signable := (frameOf msgType header payload []).eipcFrameSignableBytes eipcFrameBufSize
  if signable.length = 0 then .error .integrity
  else eipcTransportSendFrame env
    (frameOf msgType header payload (eipcHmacSign env.malloc hmacKey signable))

/-! ## The client -/

/-- The client handle, as far as sending uses it. -/
structure EipcSendingClient extends EipcClient where
  serviceId : Bytes
  sequence : UInt64

/-- `fill_header`. -/
def fillHeader (serviceId : Bytes) (sequence : UInt64) : EipcHeader where
  serviceId := strncpy (eipcServiceIdMax - 1) serviceId
  sessionId := []
  requestId := env.requestId
  sequence := sequence
  timestamp := env.timestamp
  priority := 1
  capability := []
  payloadFormat := 0

/-- `build_and_send`. -/
def buildAndSend (c : EipcSendingClient) (msgType : UInt8) (hdr : EipcHeader) (payload : Bytes) :
    Except EipcStatus Bytes := do
  let header ← eipcHeaderToJson hdr eipcMaxHeader
  Except.failIf (payload.length > 0 ∧ payload.length > eipcMaxPayload) .frameTooLarge
  signAndSend env c.hmacKey msgType header payload

/-- The bytes of a buffer before its NUL, counted by `strlen`. -/
def strlenBytes (text : Bytes) : Bytes := text.takeWhile (· ≠ 0)

def eipcMsgIntent : UInt8 := 0x69
def eipcMsgToolRequest : UInt8 := 0x74
def eipcMsgAck : UInt8 := 0x61
def eipcIntentMax : ℕ := 64

/-- `eipc_intent_t`. -/
structure EipcIntent (F : Type) where
  intent : Bytes
  confidence : F
  sessionId : Bytes

/-- `eipc_intent_to_json`. -/
def eipcIntentToJson (intent : EipcIntent F) (bufSize : ℕ) : Except EipcStatus Bytes :=
  printed .buffer bufSize
    (ascii "\x7b\"intent\":\"" ++ jsonEscape 256 intent.intent ++ ascii "\","
      ++ ascii "\"confidence\":" ++ env.formatFloat intent.confidence ++ ascii ","
      ++ ascii "\"session_id\":\"" ++ jsonEscape 128 intent.sessionId ++ ascii "\"\x7d")

/-- `eipc_client_send_intent`: what went to the socket, and the client. -/
def eipcClientSendIntent (c : EipcSendingClient) (intent : Bytes) (confidence : F) :
    Except EipcStatus Bytes × EipcSendingClient :=
  if ¬c.connected then (.error .invalid, c)
  else
    let c := { c with sequence := c.sequence + 1 }
    let ev : EipcIntent F := ⟨strncpy (eipcIntentMax - 1) intent, confidence, []⟩
    (do
      let text ← eipcIntentToJson env ev eipcMaxPayload
      buildAndSend env c eipcMsgIntent (fillHeader env c.serviceId c.sequence)
        (strlenBytes text), c)

/-- The zeroed arguments of a request, after the caller's were copied. -/
def copyArgs (args : List EipcKv) : Vector EipcKv eipcMaxToolArgs where
  toArray := (args.take eipcMaxToolArgs
    ++ List.replicate (eipcMaxToolArgs - args.length) (EipcKv.mk [] [])).toArray
  size_toArray := by
    rw [List.size_toArray, List.length_append, List.length_take, List.length_replicate]
    omega

/-- `eipc_client_send_tool_request`, for the `arg_count` arguments at `args`; there are none when
the pointer is null or the count is not positive. The result is `none` when the writer stores
outside of its array. -/
def eipcClientSendToolRequest (c : EipcSendingClient) (tool : Bytes) (args : List EipcKv) :
    Option (Except EipcStatus Bytes) × EipcSendingClient :=
  if ¬c.connected then (some (.error .invalid), c)
  else
    let c := { c with sequence := c.sequence + 1 }
    let req : EipcToolRequest := ⟨strncpy (eipcToolNameMax - 1) tool, copyArgs args,
      Int32.ofNat (min args.length eipcMaxToolArgs), []⟩
    ((eipcToolRequestToJson req eipcMaxPayload).map fun res => do
      let text ← res
      buildAndSend env c eipcMsgToolRequest (fillHeader env c.serviceId c.sequence)
        (strlenBytes text), c)

/-! ## The server -/

/-- `eipc_server_send_ack`. A payload that does not fit its buffer is left out. -/
def eipcServerSendAck (conn : EipcConn) (requestId : Option Bytes) (status : Bytes) :
    Except EipcStatus Bytes × EipcConn :=
  let conn := { conn with sequence := conn.sequence + 1 }
  let hdr : EipcHeader :=
    { serviceId := strncpy (eipcServiceIdMax - 1) (ascii "eipc-server")
      sessionId := []
      requestId := strncpy (eipcRequestIdMax - 1) (requestId.getD [])
      sequence := conn.sequence
      timestamp := env.timestamp
      priority := 0
      capability := []
      payloadFormat := 0 }
  let text := ascii "\x7b\"request_id\":\"" ++ requestId.getD [] ++ ascii "\",\"status\":\""
    ++ status ++ ascii "\",\"error\":\"\"\x7d"
  (do
    let header ← eipcHeaderToJson hdr eipcMaxHeader
    signAndSend env conn.hmacKey eipcMsgAck header
      (if text.length < eipcMaxPayload then text else []),
    conn)

/-! ## What was sent -/

/-- The payload of the frame that was sent, as the SDK's receiver finds it. -/
def sentPayload (wire : Bytes) : Option Bytes :=
  match eipcTransportRecvFrame true wire with
  | (.ok f, _) => some f.toFrame.payload
  | (.error _, _) => none

/-- The buffer holds every frame that is within its arrays. -/
theorem eipcFrameEncode_eq {f : EipcFrame} (hfits : Fits f) :
    f.eipcFrameEncode eipcFrameBufSize = .ok f.toFrame.wire := by
  refine eipcFrameEncode_of_le hfits ?_
  have hheader := hfits.header
  have hpayload := hfits.payload
  rw [encodedLen, eipcFrameBufSize]
  split_ifs <;> omega

/-- What the transport sends: the length of the frame, and the frame. -/
theorem eipcTransportSendFrame_eq_ok {f : EipcFrame} (hfits : Fits f) {wire : Bytes}
    (h : eipcTransportSendFrame env f = .ok wire) :
    wire = store32 (UInt32.ofNat f.toFrame.wire.length) ++ f.toFrame.wire := by
  rw [eipcTransportSendFrame, eipcFrameEncode_eq hfits] at h
  obtain ⟨encoded, hencoded, hrest⟩ := Except.bind_eq_ok_iff.mp h
  obtain rfl := Except.ok.inj hencoded
  obtain ⟨_, -, hrest⟩ := Except.bind_eq_ok_iff.mp hrest
  obtain ⟨_, -, hrest⟩ := Except.bind_eq_ok_iff.mp hrest
  exact (Except.ok.inj hrest).symm

theorem length_wire_le {f : EipcFrame} (hfits : Fits f) :
    f.toFrame.wire.length ≤ eipcFrameBufSize := by
  have hheader := hfits.header
  have hpayload := hfits.payload
  have hmac : f.toFrame.mac.length ≤ eipcMacSize := by
    show (if hasHmac f.flags then f.mac else []).length ≤ _
    split
    · exact f.length_mac.le
    · exact Nat.zero_le _
  have hfixed : f.toFrame.preamble.length = eipcFrameFixedSize := Frame.length_preamble _
  rw [Frame.wire, List.length_append, List.length_append, List.length_append,
    length_toFrame_header hfits, length_toFrame_payload hfits, hfixed, eipcFrameBufSize]
  omega

/-- **What the transport sends, the transport receives.** -/
theorem sentPayload_of_send {f : EipcFrame} (hfits : Fits f)
    (hversion : f.version = eipcProtocolVer)
    {wire : Bytes} (h : eipcTransportSendFrame env f = .ok wire) :
    sentPayload wire = some f.toFrame.payload := by
  have hwell : f.toFrame.WellFormed := ⟨hversion, hfits.size, macFits_toFrame f⟩
  have hdecode : ∃ f', eipcFrameDecode f.toFrame.wire = .ok f' := by
    have hsome := exists_eipcFrameDecode_wire hwell
      ((length_toFrame_header hfits).trans_le hfits.header)
      ((length_toFrame_payload hfits).trans_le hfits.payload) []
    rwa [List.append_nil] at hsome
  obtain ⟨f', hf'⟩ := hdecode
  have hlen := length_wire_le hfits
  have hrecv := eipcTransportRecvFrame_record (hlen.trans (by decide)) []
  rw [List.append_nil, hf'] at hrecv
  rw [eipcTransportSendFrame_eq_ok env hfits h, sentPayload, store32_eq,
    UInt32.toNat_ofNat_of_lt' (hlen.trans_lt (by decide)), hrecv]
  show some f'.toFrame.payload = _
  rw [toFrame_of_decode_wire hwell hf']

section Built

variable {header payload : Bytes} (hheader : header.length ≤ eipcMaxHeader)
  (hpayload : payload.length ≤ eipcMaxPayload)

include hheader hpayload

theorem fits_frameOf (msgType : UInt8) (mac : Bytes) :
    Fits (frameOf msgType header payload mac) := by
  have hsmall : ∀ {n m : ℕ}, n ≤ m → m < UInt32.size → (UInt32.ofNat n).toNat ≤ m := by
    intro n m hn hm
    rwa [UInt32.toNat_ofNat_of_lt' (hn.trans_lt hm)]
  exact ⟨hsmall hheader (by decide), hsmall hpayload (by decide)⟩

/-- **The payload that was copied to the frame is the one that is received.** -/
theorem sentPayload_signAndSend {hmacKey : Bytes} {msgType : UInt8} {wire : Bytes}
    (h : signAndSend env hmacKey msgType header payload = .ok wire) :
    sentPayload wire = some payload := by
  unfold signAndSend at h
  dsimp only at h
  split at h
  · exact (nomatch h)
  · rw [sentPayload_of_send env (fits_frameOf hheader hpayload _ _) rfl h]
    show some ((arrayOf eipcMaxPayload payload).take (UInt32.ofNat payload.length).toNat) = _
    rw [UInt32.toNat_ofNat_of_lt' (hpayload.trans_lt (by decide)), take_arrayOf payload hpayload]

/-- With a socket that takes all bytes the frame is sent. -/
theorem exists_signAndSend (hsend : ∀ bytes, env.sendAll bytes = true) (hmacKey : Bytes)
    (msgType : UInt8) : ∃ wire, signAndSend env hmacKey msgType header payload = .ok wire := by
  have hsignable : ((frameOf msgType header payload []).eipcFrameSignableBytes
      eipcFrameBufSize).length ≠ 0 := by
    rw [length_eipcFrameSignableBytes (fits_frameOf hheader hpayload msgType []),
      eipcFrameFixedSize]
    omega
  have hfail : ∀ bytes : Bytes, Except.failIf (¬env.sendAll bytes = true) EipcStatus.io = .ok () :=
    fun bytes => if_neg (not_not.mpr (hsend bytes))
  unfold signAndSend
  dsimp only
  rw [if_neg hsignable, eipcTransportSendFrame,
    eipcFrameEncode_eq (fits_frameOf hheader hpayload _ _)]
  simp only [hfail]
  exact ⟨_, rfl⟩

end Built

/-- The payload of a frame that the client sends. -/
theorem sentPayload_buildAndSend {c : EipcSendingClient} {msgType : UInt8} {hdr : EipcHeader}
    {text wire : Bytes} (hnoNul : 0 ∉ text)
    (h : buildAndSend env c msgType hdr (strlenBytes text) = .ok wire) :
    sentPayload wire = some text := by
  obtain ⟨header, hheader, hrest⟩ := Except.bind_eq_ok_iff.mp h
  obtain ⟨_, hfail, hrest⟩ := Except.bind_eq_ok_iff.mp hrest
  rw [Except.failIf_eq_ok_iff] at hfail
  rw [strlenBytes, takeWhile_of_noNul hnoNul] at hfail hrest
  exact sentPayload_signAndSend env (length_lt_of_printed hheader).le (by omega) hrest

/-- With a socket that takes all bytes the client sends. -/
theorem exists_buildAndSend (hsend : ∀ bytes, env.sendAll bytes = true) {hdr : EipcHeader}
    {header payload : Bytes} (hheader : eipcHeaderToJson hdr eipcMaxHeader = .ok header)
    (hpayload : payload.length ≤ eipcMaxPayload) (c : EipcSendingClient) (msgType : UInt8) :
    ∃ wire, buildAndSend env c msgType hdr payload = .ok wire := by
  obtain ⟨wire, hwire⟩ := exists_signAndSend env (length_lt_of_printed hheader).le hpayload hsend
    c.hmacKey msgType
  have hfail : Except.failIf (payload.length > 0 ∧ payload.length > eipcMaxPayload)
      EipcStatus.frameTooLarge = .ok () := if_neg fun hlong => absurd hpayload (not_le.mpr hlong.2)
  refine ⟨wire, ?_⟩
  rw [buildAndSend, hheader, hfail]
  exact hwire

/-! ## Intents -/

section Calls

variable {env}

theorem eipcIntentToJson_eq_ok {intent : EipcIntent F} {n : ℕ} {text : Bytes}
    (h : eipcIntentToJson env intent n = .ok text) :
    text = ascii "\x7b\"intent\":" ++ 0x22 :: (jsonEscape 256 intent.intent ++ 0x22 ::
      (0x2c :: (ascii "\"confidence\":" ++ (env.formatFloat intent.confidence ++ (ascii ","
        ++ (ascii "\"session_id\":\"" ++ (jsonEscape 128 intent.sessionId
          ++ ascii "\"\x7d"))))))) := by
  have hopen : ascii "\x7b\"intent\":\"" = ascii "\x7b\"intent\":" ++ [0x22] := by decide
  obtain ⟨-, htext⟩ := printed_eq_ok_iff.mp h
  rw [htext]
  simp only [hopen, ascii_quote_comma, List.append_assoc, List.cons_append, List.nil_append]

/-- **What is recovered of an intent** are its first 63 bytes. -/
theorem recoverIntent_of_send {c : EipcSendingClient} {intent : Bytes}
    {confidence : F} {wire : Bytes}
    (hintent : 0 ∉ intent) (h : (eipcClientSendIntent env c intent confidence).1 = .ok wire) :
    (sentPayload wire).bind recoverIntent = some (intent.take 63) := by
  unfold eipcClientSendIntent at h
  split at h
  · exact (nomatch h)
  · obtain ⟨text, hprinted, hsend⟩ := Except.bind_eq_ok_iff.mp h
    have htext := eipcIntentToJson_eq_ok hprinted
    have hstart : 0 ∉ intent.take 63 := fun hmem => hintent (List.mem_of_mem_take hmem)
    have hnoNul : 0 ∉ text := by
      rw [htext]
      simp only [List.mem_append, List.mem_cons, not_or]
      exact ⟨by decide, by decide, zero_notMem_jsonEscape 256 hstart, by decide, by decide,
        by decide, env.noNul_formatFloat confidence, by decide, by decide,
        zero_notMem_jsonEscape 128 List.not_mem_nil, by decide⟩
    have hescape : jsonEscape 256 (strncpy (eipcIntentMax - 1) intent)
        = jsonEscaped (intent.take 63) := by
      have hlen := length_jsonEscaped_le (intent.take 63)
      have hmax := List.length_take_le 63 intent
      have hfits : 0 + (jsonEscaped (intent.take 63)).length < 256 := by omega
      exact jsonEscapeFrom_of_lt hfits
    rw [sentPayload_buildAndSend env hnoNul hsend, Option.bind_some, recoverIntent, htext,
      expect_append]
    simp only [hescape, Option.bind_eq_bind, Option.bind_some, readLiteral_jsonEscaped,
      Option.pure_def]

theorem exists_sendIntent (hsend : ∀ bytes, env.sendAll bytes = true) {c : EipcSendingClient}
    (hconnected : c.connected = true) {intent : Bytes} {confidence : F} {text header : Bytes}
    (htext : eipcIntentToJson env ⟨strncpy (eipcIntentMax - 1) intent, confidence, []⟩
      eipcMaxPayload
      = .ok text)
    (hheader : eipcHeaderToJson (fillHeader env c.serviceId (c.sequence + 1)) eipcMaxHeader
      = .ok header) : ∃ wire, (eipcClientSendIntent env c intent confidence).1 = .ok wire := by
  have hpayload : (strlenBytes text).length ≤ eipcMaxPayload :=
    (List.takeWhile_sublist _).length_le.trans (length_lt_of_printed htext).le
  obtain ⟨wire, hwire⟩ := exists_buildAndSend env hsend hheader hpayload
    { c with sequence := c.sequence + 1 } eipcMsgIntent
  have hcall : (eipcClientSendIntent env c intent confidence).1
      = (eipcIntentToJson env ⟨strncpy (eipcIntentMax - 1) intent, confidence, []⟩
          eipcMaxPayload).bind fun text => buildAndSend env { c with sequence := c.sequence + 1 }
            eipcMsgIntent (fillHeader env c.serviceId (c.sequence + 1)) (strlenBytes text) := by
    unfold eipcClientSendIntent
    rw [if_neg (not_not.mpr hconnected)]
    rfl
  exact ⟨wire, hcall.trans (Except.bind_eq_ok_iff.mpr ⟨text, htext, hwire⟩)⟩

/-! ## Tool requests -/

/-- The arguments that are printed are the caller's, as far as the request has room for them. -/
theorem used_copyArgs {tool permission : Bytes} {args : List EipcKv}
    (h : args.length ≤ eipcMaxToolArgs) :
    (EipcToolRequest.mk tool (copyArgs args) (Int32.ofNat (min args.length eipcMaxToolArgs))
      permission).used = args := by
  have hcount : (Int32.ofNat (min args.length eipcMaxToolArgs)).toInt.toNat = args.length := by
    rw [Nat.min_eq_left h, Int32.toInt_ofNat_of_lt (h.trans_lt (by decide)), Int.toNat_natCast]
  show List.take _ (_ ++ _) = _
  rw [hcount, List.take_of_length_le h, List.take_left]

theorem eipcToolRequestToJson_eq_ok {req : EipcToolRequest} {n : ℕ} {text : Bytes}
    (h : eipcToolRequestToJson req n = some (.ok text)) :
    text = ascii "\x7b\"tool\":" ++ 0x22 :: (req.tool ++ 0x22 :: (ascii ",\"args\":\x7b"
      ++ (argsText req.used ++ 0x7d :: (ascii ",\"permission\":\"" ++ (req.permission
        ++ ascii "\"\x7d"))))) := by
  have hopen : ascii "\x7b\"tool\":\"" = ascii "\x7b\"tool\":" ++ [0x22] := by decide
  have hargs : ascii ",\"args\":\x7b" = 0x2c :: ascii "\"args\":" ++ [0x7b] := by decide
  have hpermission : ascii ",\"permission\":\"" = 0x2c :: ascii "\"permission\":\"" := by decide
  unfold eipcToolRequestToJson at h
  split at h
  · cases ha : argsJson req with
    | error a =>
      rw [ha] at h
      exact (nomatch h)
    | ok a =>
      rw [ha] at h
      obtain ⟨-, htext⟩ := printed_eq_ok_iff.mp (Option.some.inj h)
      rw [htext, text_of_argsJson ha]
      simp only [hopen, hargs, hpermission, ascii_quote_comma, ascii_comma, List.append_assoc,
        List.cons_append, List.nil_append]
  · exact (nomatch h)

/-- What is recovered of a tool request is the whole of it exactly when the name fits and needs no
escapes, and every argument fits. -/
theorem recoverToolRequest_iff {tool p : Bytes} (hp : p <+: tool) (args : List EipcKv) (t : Bytes) :
    recoverToolRequest (ascii "\x7b\"tool\":" ++ 0x22 :: (p ++ 0x22 :: (ascii ",\"args\":\x7b"
        ++ (argsText args ++ 0x7d :: t)))) = some (tool, args)
      ↔ (p = tool ∧ Unmarked tool) ∧ ∀ arg ∈ args, arg.Fits := by
  obtain ⟨args', hread, hargs⟩ := readArgs_argsText args t
  have hwhole : Unmarked tool →
      recoverToolRequest (ascii "\x7b\"tool\":" ++ 0x22 :: (tool ++ 0x22 ::
      (ascii ",\"args\":\x7b" ++ (argsText args ++ 0x7d :: t)))) = some (tool, args') := by
    intro htool
    rw [recoverToolRequest, expect_append]
    simp only [Option.bind_eq_bind, Option.bind_some, readLiteral_of_unmarked htool, expect_append,
      hread, Option.pure_def]
  constructor
  · intro h
    have hliteral : ∃ rest, readLiteral (0x22 :: (p ++ 0x22 :: (ascii ",\"args\":\x7b"
        ++ (argsText args ++ 0x7d :: t)))) = some (tool, rest) := by
      have hall := h
      rw [recoverToolRequest, expect_append, Option.bind_eq_bind, Option.bind_some] at hall
      obtain ⟨⟨tool', rest⟩, hlit, hrest⟩ := Option.bind_eq_some_iff.mp hall
      obtain ⟨t', -, hrest⟩ := Option.bind_eq_some_iff.mp hrest
      obtain ⟨args'', -, hpair⟩ := Option.bind_eq_some_iff.mp hrest
      exact ⟨rest, (Prod.mk.inj (Option.some.inj hpair)).1 ▸ hlit⟩
    obtain ⟨rfl, htool⟩ := (readLiteral_raw_iff hp _).mp hliteral
    rw [hwhole htool] at h
    exact ⟨⟨rfl, htool⟩, hargs.mp (Prod.mk.inj (Option.some.inj h)).2⟩
  · rintro ⟨⟨rfl, htool⟩, hfits⟩
    rw [hwhole htool, hargs.mpr hfits]

theorem zero_notMem_argText {arg : EipcKv} (hkey : 0 ∉ arg.key) (hvalue : 0 ∉ arg.value) :
    0 ∉ argText arg := by
  simp only [argText, List.mem_append, not_or]
  exact ⟨⟨⟨⟨by decide, zero_notMem_jsonEscape 128 hkey⟩, by decide⟩,
    zero_notMem_jsonEscape 256 hvalue⟩, by decide⟩

theorem zero_notMem_argsText {args : List EipcKv} (h : ∀ arg ∈ args, 0 ∉ arg.key ∧ 0 ∉ arg.value) :
    0 ∉ argsText args := by
  have htail : ∀ {args : List EipcKv}, (∀ arg ∈ args, 0 ∉ arg.key ∧ 0 ∉ arg.value) →
      0 ∉ argsTail args := by
    intro args h hmem
    obtain ⟨arg, harg, hmem⟩ := List.mem_flatMap.mp hmem
    rw [List.mem_cons] at hmem
    exact hmem.elim (by decide) (zero_notMem_argText (h arg harg).1 (h arg harg).2)
  cases args with
  | nil => exact List.not_mem_nil
  | cons arg args =>
    rw [List.forall_mem_cons] at h
    rw [argsText, List.mem_append, not_or]
    exact ⟨zero_notMem_argText h.1.1 h.1.2, htail h.2⟩

/-- **What is recovered of a tool request.** -/
theorem recoverToolRequest_of_send {c : EipcSendingClient} {tool : Bytes} {args : List EipcKv}
    {wire : Bytes} (htool : 0 ∉ tool)
    (hargs : ∀ arg ∈ args, StoredIn eipcKvKeyMax arg.key ∧ StoredIn eipcKvValueMax arg.value)
    (hcount : args.length ≤ eipcMaxToolArgs)
    (h : (eipcClientSendToolRequest env c tool args).1 = some (.ok wire)) :
    (sentPayload wire).bind recoverToolRequest = some (tool, args)
      ↔ (tool.length ≤ 63 ∧ Unmarked tool) ∧
        ∀ arg ∈ args, (jsonEscaped arg.value).length ≤ 255 := by
  unfold eipcClientSendToolRequest at h
  split at h
  · exact (nomatch h)
  · dsimp only at h
    obtain ⟨res, hres, hbind⟩ := Option.map_eq_some_iff.mp h
    obtain ⟨text, rfl, hsend⟩ := Except.bind_eq_ok_iff.mp hbind
    have htext := eipcToolRequestToJson_eq_ok hres
    rw [used_copyArgs hcount] at htext
    have hnoNul : 0 ∉ text := by
      rw [htext]
      simp only [List.mem_append, List.mem_cons, not_or]
      exact ⟨by decide, by decide, fun hmem => htool (List.mem_of_mem_take hmem), by decide,
        by decide, zero_notMem_argsText fun arg harg =>
          ⟨(hargs arg harg).1.noNul, (hargs arg harg).2.noNul⟩,
        by decide, by decide, List.not_mem_nil, by decide⟩
    have hpayload : sentPayload wire = some text := sentPayload_buildAndSend env hnoNul hsend
    rw [hpayload, Option.bind_some, htext]
    refine (recoverToolRequest_iff (List.take_prefix 63 tool) args _).trans ?_
    refine and_congr (and_congr_left fun _ => List.take_eq_self_iff tool) ?_
    refine forall₂_congr fun arg harg => and_iff_right ?_
    have hlen := length_jsonEscaped_le arg.key
    have hkey := (hargs arg harg).1.length_lt
    have hmax : eipcKvKeyMax = 64 := rfl
    omega

theorem exists_sendToolRequest (hsend : ∀ bytes, env.sendAll bytes = true)
    {c : EipcSendingClient} (hconnected : c.connected = true) {tool : Bytes} {args : List EipcKv}
    {text header : Bytes}
    (htext : eipcToolRequestToJson ⟨strncpy (eipcToolNameMax - 1) tool, copyArgs args,
      Int32.ofNat (min args.length eipcMaxToolArgs), []⟩ eipcMaxPayload = some (.ok text))
    (hlen : (strlenBytes text).length ≤ eipcMaxPayload)
    (hheader : eipcHeaderToJson (fillHeader env c.serviceId (c.sequence + 1)) eipcMaxHeader
      = .ok header) :
    ∃ wire, (eipcClientSendToolRequest env c tool args).1 = some (.ok wire) := by
  obtain ⟨wire, hwire⟩ := exists_buildAndSend env hsend hheader hlen
    { c with sequence := c.sequence + 1 } eipcMsgToolRequest
  refine ⟨wire, ?_⟩
  unfold eipcClientSendToolRequest
  rw [if_neg (not_not.mpr hconnected)]
  dsimp only
  rw [htext, Option.map_some, Option.some_inj]
  exact Except.bind_eq_ok_iff.mpr ⟨text, rfl, hwire⟩

/-! ## Acknowledgements -/

theorem recoverAck_iff (requestId status t : Bytes) :
    recoverAck (ascii "\x7b\"request_id\":" ++ 0x22 :: (requestId ++ 0x22 :: (ascii ",\"status\":"
        ++ 0x22 :: (status ++ 0x22 :: t)))) = some (requestId, status)
      ↔ Unmarked requestId ∧ Unmarked status := by
  have hsecond : Unmarked requestId → recoverAck (ascii "\x7b\"request_id\":" ++ 0x22 :: (requestId
      ++ 0x22 :: (ascii ",\"status\":" ++ 0x22 :: (status ++ 0x22 :: t))))
      = (readLiteral (0x22 :: (status ++ 0x22 :: t))).bind fun r => some (requestId, r.1) := by
    intro hid
    rw [recoverAck, expect_append]
    simp only [Option.bind_eq_bind, Option.bind_some, readLiteral_of_unmarked hid, expect_append,
      Option.pure_def]
  constructor
  · intro h
    have hliteral : ∃ rest, readLiteral (0x22 :: (requestId ++ 0x22 :: (ascii ",\"status\":"
        ++ 0x22 :: (status ++ 0x22 :: t)))) = some (requestId, rest) := by
      have hall := h
      rw [recoverAck, expect_append, Option.bind_eq_bind, Option.bind_some] at hall
      obtain ⟨⟨requestId', rest⟩, hlit, hrest⟩ := Option.bind_eq_some_iff.mp hall
      obtain ⟨t', -, hrest⟩ := Option.bind_eq_some_iff.mp hrest
      obtain ⟨⟨status', rest'⟩, -, hpair⟩ := Option.bind_eq_some_iff.mp hrest
      exact ⟨rest, (Prod.mk.inj (Option.some.inj hpair)).1 ▸ hlit⟩
    obtain ⟨-, hid⟩ := (readLiteral_raw_iff List.prefix_rfl _).mp hliteral
    rw [hsecond hid] at h
    obtain ⟨⟨status', rest'⟩, hlit, hpair⟩ := Option.bind_eq_some_iff.mp h
    have hstatus : ∃ rest, readLiteral (0x22 :: (status ++ 0x22 :: t)) = some (status, rest) :=
      ⟨rest', (Prod.mk.inj (Option.some.inj hpair)).2 ▸ hlit⟩
    exact ⟨hid, ((readLiteral_raw_iff List.prefix_rfl t).mp hstatus).2⟩
  · rintro ⟨hid, hstatus⟩
    rw [hsecond hid, readLiteral_of_unmarked hstatus]
    rfl

/-- **What is recovered of an acknowledgement.** Around the two strings there are 40 bytes. -/
theorem recoverAck_of_send {conn : EipcConn} {requestId : Option Bytes} {status wire : Bytes}
    (h : (eipcServerSendAck env conn requestId status).1 = .ok wire) :
    (sentPayload wire).bind recoverAck = some (requestId.getD [], status)
      ↔ (Unmarked (requestId.getD []) ∧ Unmarked status)
        ∧ (requestId.getD []).length + status.length + 40 < 4096 := by
  unfold eipcServerSendAck at h
  dsimp only at h
  obtain ⟨header, hheader, hsend⟩ := Except.bind_eq_ok_iff.mp h
  have hlt := length_lt_of_printed hheader
  generalize requestId.getD [] = requestId at hsend ⊢
  have hlength : (ascii "\x7b\"request_id\":\"" ++ requestId ++ ascii "\",\"status\":\"" ++ status
      ++ ascii "\",\"error\":\"\"\x7d").length = requestId.length + status.length + 40 := by
    have h₁ : (ascii "\x7b\"request_id\":\"").length = 15 := rfl
    have h₂ : (ascii "\",\"status\":\"").length = 12 := rfl
    have h₃ : (ascii "\",\"error\":\"\"\x7d").length = 13 := rfl
    rw [List.length_append, List.length_append, List.length_append, List.length_append, h₁, h₂, h₃]
    omega
  have hmax : eipcMaxPayload = 4096 := rfl
  rw [hlength, hmax] at hsend
  by_cases hfits : requestId.length + status.length + 40 < 4096
  · rw [if_pos hfits] at hsend
    have htext : ascii "\x7b\"request_id\":\"" ++ requestId ++ ascii "\",\"status\":\"" ++ status
        ++ ascii "\",\"error\":\"\"\x7d" = ascii "\x7b\"request_id\":" ++
          0x22 :: (requestId ++ 0x22 ::
          (ascii ",\"status\":" ++ 0x22 :: (status ++ 0x22 :: ascii ",\"error\":\"\"\x7d"))) := by
      have hopen : ascii "\x7b\"request_id\":\"" = ascii "\x7b\"request_id\":" ++ [0x22] :=
        by decide
      have hstatus : ascii "\",\"status\":\"" = 0x22 :: (ascii ",\"status\":" ++ [0x22]) :=
        by decide
      have herror : ascii "\",\"error\":\"\"\x7d" = 0x22 :: ascii ",\"error\":\"\"\x7d" := by decide
      simp only [hopen, hstatus, herror, List.append_assoc, List.cons_append, List.nil_append]
    rw [sentPayload_signAndSend env hlt.le (by omega) hsend, Option.bind_some, htext,
      recoverAck_iff,
      and_iff_left hfits]
  · rw [if_neg hfits] at hsend
    rw [sentPayload_signAndSend env hlt.le (Nat.zero_le _) hsend, Option.bind_some]
    have hnone : recoverAck [] = none := by decide
    rw [hnone]
    exact iff_of_false (fun hsome => (nomatch hsome)) fun hall => hfits hall.2

end Calls

/-- **Sends are whole.** When a call returns `EIPC_OK`, the frame that was sent holds all that was
passed in, up to escapes that are undone: an intent of 63 bytes at most; a tool name of 63 bytes at
most without quotes and backslashes, with values whose escapes fit 255 bytes; a request id and a
status without quotes and backslashes, that fit the payload with the 40 bytes around them. -/
theorem sends_whole_iff (env : SendEnv F) :
    (∀ (c : EipcSendingClient) (intent : Bytes) (confidence : F) (wire : Bytes), 0 ∉ intent →
      (eipcClientSendIntent env c intent confidence).1 = .ok wire →
      ((sentPayload wire).bind recoverIntent = some intent ↔ intent.length ≤ 63))
    ∧ (∀ (c : EipcSendingClient) (tool : Bytes) (args : List EipcKv) (wire : Bytes), 0 ∉ tool →
      (∀ arg ∈ args, StoredIn eipcKvKeyMax arg.key ∧ StoredIn eipcKvValueMax arg.value) →
      args.length ≤ eipcMaxToolArgs →
      (eipcClientSendToolRequest env c tool args).1 = some (.ok wire) →
      ((sentPayload wire).bind recoverToolRequest = some (tool, args)
        ↔ (tool.length ≤ 63 ∧ Unmarked tool)
          ∧ ∀ arg ∈ args, (jsonEscaped arg.value).length ≤ 255))
    ∧ ∀ (conn : EipcConn) (requestId : Option Bytes) (status wire : Bytes),
      (eipcServerSendAck env conn requestId status).1 = .ok wire →
      ((sentPayload wire).bind recoverAck = some (requestId.getD [], status)
        ↔ (Unmarked (requestId.getD []) ∧ Unmarked status)
          ∧ (requestId.getD []).length + status.length + 40 < 4096) := by
  refine ⟨fun c intent confidence wire hintent h => ?_,
    fun c tool args wire htool hargs hcount h => recoverToolRequest_of_send htool hargs hcount h,
    fun conn requestId status wire h => recoverAck_of_send h⟩
  rw [recoverIntent_of_send hintent h, Option.some.injEq]
  exact List.take_eq_self_iff intent

/-- A socket that takes all bytes. -/
def openSocket : SendEnv Unit where
  requestId := ascii "req-00000000-0000"
  timestamp := ascii "0"
  formatFloat _ := ascii "0.90"
  noNul_formatFloat _ := by decide
  malloc := true
  sendAll _ := true

/-- A client that is connected. -/
def openClient : EipcSendingClient where
  hmacKey := ascii "secret"
  connected := true
  length_hmacKey := by decide
  serviceId := ascii "svc"
  sequence := 0

/-- A connection that is open. -/
def openConn : EipcConn := ⟨ascii "secret", 0, true, by decide⟩

/-- An intent, a tool request with an argument that needs an escape, and an acknowledgement. -/
theorem sends_whole_short :
    (∃ wire, (eipcClientSendIntent openSocket openClient (ascii "move_left") ()).1 = .ok wire
      ∧ (sentPayload wire).bind recoverIntent = some (ascii "move_left"))
    ∧ (∃ wire, (eipcClientSendToolRequest openSocket openClient (ascii "say")
          [⟨ascii "text", ascii "\"hi\""⟩]).1 = some (.ok wire)
      ∧ (sentPayload wire).bind recoverToolRequest
        = some (ascii "say", [⟨ascii "text", ascii "\"hi\""⟩]))
    ∧ ∃ wire, (eipcServerSendAck openSocket openConn (some (ascii "req-1")) (ascii "ok")).1
        = .ok wire
      ∧ (sentPayload wire).bind recoverAck = some (ascii "req-1", ascii "ok") := by
  obtain ⟨hintent, htool, hack⟩ := sends_whole_iff openSocket
  refine ⟨?_, ?_, ?_⟩
  · obtain ⟨wire, hwire⟩ : ∃ wire,
        (eipcClientSendIntent openSocket openClient (ascii "move_left") ()).1 = .ok wire :=
      exists_sendIntent (fun _ => rfl) rfl (printed_eq_ok_iff.mpr ⟨by decide +kernel, rfl⟩)
        (printed_eq_ok_iff.mpr ⟨by decide +kernel, rfl⟩)
    exact ⟨wire, hwire, (hintent openClient _ () wire (by decide) hwire).mpr (by decide)⟩
  · obtain ⟨wire, hwire⟩ : ∃ wire, (eipcClientSendToolRequest openSocket openClient (ascii "say")
        [⟨ascii "text", ascii "\"hi\""⟩]).1 = some (.ok wire) := by
      have htext : eipcToolRequestToJson ⟨ascii "say",
          copyArgs [⟨ascii "text", ascii "\"hi\""⟩], 1, []⟩ eipcMaxPayload
            = some (.ok (ascii "\x7b\"tool\":\"say\",\"args\":\x7b\"text\":\"\\\"hi\\\"\"\x7d,"
              ++ ascii "\"permission\":\"\"\x7d")) := by decide +kernel
      exact exists_sendToolRequest (fun _ => rfl) rfl htext (by decide)
        (printed_eq_ok_iff.mpr ⟨by decide +kernel, rfl⟩)
    refine ⟨wire, hwire, (htool openClient _ _ wire (by decide) ?_ (by decide) hwire).mpr ?_⟩
    · exact List.forall_mem_singleton.mpr ⟨⟨by decide, by decide⟩, ⟨by decide, by decide⟩⟩
    · exact ⟨⟨by decide, by decide⟩, List.forall_mem_singleton.mpr (by decide)⟩
  · have hheader : eipcHeaderToJson ⟨ascii "eipc-server", [], ascii "req-1", 1, ascii "0", 0, [], 0⟩
        eipcMaxHeader = .ok _ := printed_eq_ok_iff.mpr ⟨by decide +kernel, rfl⟩
    obtain ⟨wire, hwire⟩ := exists_signAndSend openSocket (length_lt_of_printed hheader).le
      (show (ascii "\x7b\"request_id\":\"req-1\",\"status\":\"ok\",\"error\":\"\"\x7d").length
        ≤ eipcMaxPayload by decide) (fun _ => rfl) (ascii "secret") eipcMsgAck
    have hsent : (eipcServerSendAck openSocket openConn (some (ascii "req-1")) (ascii "ok")).1
        = .ok wire := Except.bind_eq_ok_iff.mpr ⟨_, hheader, hwire⟩
    exact ⟨wire, hsent, (hack openConn _ _ wire hsent).mpr ⟨⟨by decide, by decide⟩, by decide⟩⟩

/-- An intent of 64 bytes is sent without its last one. -/
theorem sends_cut_intent :
    ∃ wire, (eipcClientSendIntent openSocket openClient (List.replicate 64 0x78) ()).1 = .ok wire
      ∧ (sentPayload wire).bind recoverIntent = some (List.replicate 63 0x78) := by
  obtain ⟨wire, hwire⟩ : ∃ wire,
      (eipcClientSendIntent openSocket openClient (List.replicate 64 0x78) ()).1 = .ok wire :=
    exists_sendIntent (fun _ => rfl) rfl (printed_eq_ok_iff.mpr ⟨by decide +kernel, rfl⟩)
      (printed_eq_ok_iff.mpr ⟨by decide +kernel, rfl⟩)
  exact ⟨wire, hwire, recoverIntent_of_send (by decide) hwire⟩
