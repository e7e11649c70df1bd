import Eipc.Sdk.Send
import Eipc.Lib.Machine

/-!
# The client of the C SDK, call by call

The life of an `eipc_client_t` (`sdk/c/src/eipc_client.c`): `eipc_client_init`,
`eipc_client_connect`, the five calls that send, and `eipc_client_close`; and
`eipc_server_send_message` (`sdk/c/src/eipc_server.c`). The intent and the tool request are those of
`Eipc.Sdk.Send`.

The calls that send differ in their payload, in the byte for their type, and in the capability. For
the rest they do the same (`ClientCall.perform_of_connected`): they take the next number, whether or
not the message can be sent after that, fill in a header, and send one record.
-/

open Bytes CString EipcFrame

/-! ## Names and times -/

/-- The format `%0…lx`: the number in hexadecimal, with zeros in front up to the width. -/
def hexPadded (width n : ℕ) : Bytes :=
  let digits := (Nat.digits 16 n).reverse.map hexDigit
  List.replicate (width - digits.length) 0x30 ++ digits

/-- What a call reads: the clock for the request id, `rand`, and the clock for the timestamp. -/
structure CallReading where
  idTime : UInt64
  rand : UInt32
  time : UInt64

/-- `eipc_generate_request_id`. -/
def eipcGenerateRequestId (r : CallReading) : Bytes :=
  (ascii "req-" ++ hexPadded 8 r.idTime.toNat ++ ascii "-"
    ++ hexPadded 4 (r.rand &&& 0xffff).toNat).take (eipcRequestIdMax - 1)

/-- `eipc_timestamp_now`: the seconds, in decimal. -/
def eipcTimestampNow (r : CallReading) : Bytes :=
  (Json.decimal r.time.toNat).take (eipcTimestampMax - 1)

variable {F : Type}

/-- The environment of a call. -/
def SendEnv.reading (env : SendEnv F) (r : CallReading) : SendEnv F :=
  { env with requestId := eipcGenerateRequestId r, timestamp := eipcTimestampNow r }

/-! ## The life of a client -/

/-- `eipc_client_init`. -/
def eipcClientInit (serviceId : Bytes) : EipcSendingClient where
  hmacKey := []
  connected := false
  length_hmacKey := Nat.zero_le _
  serviceId := strncpy (eipcServiceIdMax - 1) serviceId
  sequence := 0

/-- `eipc_client_connect`, where `transport` is what `eipc_transport_connect` returns. The key is
kept even if that fails. -/
def eipcClientConnect (c : EipcSendingClient) (hmacKey : Bytes)
    (transport : Except EipcStatus Unit) : Except EipcStatus Unit × EipcSendingClient :=
  if h : hmacKey.length > eipcMacSize then (.error .invalid, c)
  else
    let c := { c with hmacKey, length_hmacKey := Nat.le_of_not_lt h }
    match transport with
    | .error rc => (.error rc, c)
    | .ok () => (.ok (), { c with connected := true, sequence := 0 })

/-- `eipc_client_close`. -/
def eipcClientClose (c : EipcSendingClient) : EipcSendingClient :=
  { c with connected := false, sequence := 0 }

/-! ## The other calls -/

section Calls

variable (env : SendEnv F)

def eipcMsgHeartbeat : UInt8 := 0x68
def eipcMsgChat : UInt8 := 0x63
def eipcMsgComplete : UInt8 := 0x43

/-- `eipc_heartbeat_t`. -/
structure EipcHeartbeat where
  service : Bytes
  status : Bytes

/-- `eipc_heartbeat_to_json`. -/
def eipcHeartbeatToJson (hb : EipcHeartbeat) (bufSize : ℕ) : Except EipcStatus Bytes :=
  printed .buffer bufSize
    (ascii "\x7b\"service\":\"" ++ hb.service ++ ascii "\","
      ++ ascii "\"status\":\"" ++ hb.status ++ ascii "\"\x7d")

/-- `eipc_client_send_heartbeat`. -/
def eipcClientSendHeartbeat (c : EipcSendingClient) :
    Except EipcStatus Bytes × EipcSendingClient :=
  if ¬c.connected then (.error .invalid, c)
  else
    let c := { c with sequence := c.sequence + 1 }
    let hb : EipcHeartbeat :=
      ⟨strncpy (eipcServiceIdMax - 1) c.serviceId, strncpy (eipcStatusMax - 1) (ascii "alive")⟩
    (do
      let text ← eipcHeartbeatToJson hb eipcMaxPayload
      buildAndSend env c eipcMsgHeartbeat (fillHeader env c.serviceId c.sequence)
        (strlenBytes text), c)

/-- The header of the two calls to the model. -/
def chatHeader (c : EipcSendingClient) : EipcHeader :=
  { fillHeader env c.serviceId c.sequence with
    capability := strncpy (eipcCapabilityMax - 1) (ascii "ai:chat") }

/-- `eipc_client_send_chat`. -/
def eipcClientSendChat (c : EipcSendingClient) (req : EipcChatRequest) :
    Except EipcStatus Bytes × EipcSendingClient :=
  if ¬c.connected then (.error .invalid, c)
  else
    let c := { c with sequence := c.sequence + 1 }
    (do
      let text ← eipcChatRequestToJson req eipcMaxPayload
      buildAndSend env c eipcMsgChat (chatHeader env c) (strlenBytes text), c)

/-- What `eipc_client_send_complete` prints, without escapes. -/
def completeText (sessionId prompt : Bytes) : Bytes :=
  ascii "\x7b\"session_id\":\"" ++ sessionId ++ ascii "\",\"prompt\":\"" ++ prompt
    ++ ascii "\",\"model\":\"\",\"max_tokens\":0\x7d"

/-- `eipc_client_send_complete`. -/
def eipcClientSendComplete (c : EipcSendingClient) (prompt : Bytes) (sessionId : Option Bytes) :
    Except EipcStatus Bytes × EipcSendingClient :=
  if ¬c.connected then (.error .invalid, c)
  else
    let c := { c with sequence := c.sequence + 1 }
    (do
      let text ← printed .frameTooLarge eipcMaxPayload (completeText (sessionId.getD []) prompt)
      buildAndSend env c eipcMsgComplete (chatHeader env c) text, c)

/-- `eipc_server_send_message`. -/
def eipcServerSendMessage (conn : EipcConn) (msg : EipcMessage) :
    Except EipcStatus Bytes × EipcConn :=
  let conn := { conn with sequence := conn.sequence + 1 }
  let hdr : EipcHeader :=
    { serviceId := strncpy (eipcServiceIdMax - 1) msg.source
      sessionId := strncpy (eipcSessionIdMax - 1) msg.sessionId
      requestId := strncpy (eipcRequestIdMax - 1) msg.requestId
      sequence := conn.sequence
      timestamp := env.timestamp
      priority := msg.priority
      capability := strncpy (eipcCapabilityMax - 1) msg.capability
      payloadFormat := 0 }
  (do
    let header ← eipcHeaderToJson hdr eipcMaxHeader
    Except.failIf (msg.payload.length > 0 ∧ msg.payload.length > eipcMaxPayload) .frameTooLarge
    signAndSend env conn.hmacKey msg.msgType header msg.payload, conn)

end Calls

/-! ## One call -/

/-- A call that sends. -/
inductive ClientCall (F : Type) where
  | intent (intent : Bytes) (confidence : F)
  | toolRequest (tool : Bytes) (args : List EipcKv)
  | heartbeat
  | chat (req : EipcChatRequest)
  | complete (prompt : Bytes) (sessionId : Option Bytes)

namespace ClientCall

variable (env : SendEnv F)

/-- The outcome of a call, and the client; `none` when it stores outside of an array. -/
def perform (c : EipcSendingClient) :
    ClientCall F → Option (Except EipcStatus Bytes) × EipcSendingClient
  | intent i confidence => (eipcClientSendIntent env c i confidence).map some id
  | toolRequest tool args => eipcClientSendToolRequest env c tool args
  | heartbeat => (eipcClientSendHeartbeat env c).map some id
  | chat req => (eipcClientSendChat env c req).map some id
  | complete prompt sessionId => (eipcClientSendComplete env c prompt sessionId).map some id

/-- The byte for the type of the message. -/
def msgType : ClientCall F → UInt8
  | intent _ _ => eipcMsgIntent
  | toolRequest _ _ => eipcMsgToolRequest
  | heartbeat => eipcMsgHeartbeat
  | chat _ => eipcMsgChat
  | complete _ _ => eipcMsgComplete

/-- The capability in the header. -/
def capability : ClientCall F → Bytes
  | chat _ => ascii "ai:chat"
  | complete _ _ => ascii "ai:chat"
  | _ => []

/-- The payload that the call writes for a client of that name. -/
def payload (serviceId : Bytes) : ClientCall F → Option (Except EipcStatus Bytes)
  | intent i confidence =>
    some ((eipcIntentToJson env ⟨strncpy (eipcIntentMax - 1) i, confidence, []⟩
      eipcMaxPayload).map strlenBytes)
  | toolRequest tool args =>
    (eipcToolRequestToJson ⟨strncpy (eipcToolNameMax - 1) tool, copyArgs args,
      Int32.ofNat (min args.length eipcMaxToolArgs), []⟩ eipcMaxPayload).map (·.map strlenBytes)
  | heartbeat =>
    some ((eipcHeartbeatToJson ⟨strncpy (eipcServiceIdMax - 1) serviceId,
      strncpy (eipcStatusMax - 1) (ascii "alive")⟩ eipcMaxPayload).map strlenBytes)
  | chat req => some ((eipcChatRequestToJson req eipcMaxPayload).map strlenBytes)
  | complete prompt sessionId =>
    some (printed .frameTooLarge eipcMaxPayload (completeText (sessionId.getD []) prompt))

/-- The header of the record. -/
def header (serviceId : Bytes) (sequence : UInt64) (call : ClientCall F) : EipcHeader :=
  { fillHeader env serviceId sequence with capability := call.capability }

variable {env} {c : EipcSendingClient}

theorem bind_map {α β γ ε : Type} (x : Except ε α) (f : α → β) (g : β → Except ε γ) :
    (x.map f).bind g = x.bind fun a => g (f a) := by
  cases x with
  | error e => rfl
  | ok a => rfl

/-- **What the calls have in common**: the next number is taken, and the payload is sent in one
record. -/
theorem perform_of_connected (h : c.connected = true) (call : ClientCall F) :
    call.perform env c
      = ((call.payload env c.serviceId).map fun res => res.bind fun payload =>
          buildAndSend env { c with sequence := c.sequence + 1 } call.msgType
            (call.header env c.serviceId (c.sequence + 1)) payload,
        { c with sequence := c.sequence + 1 }) := by
  have hconnected : ¬¬c.connected = true := not_not.mpr h
  cases call with
  | intent i confidence =>
    dsimp only [perform, eipcClientSendIntent]
    rw [if_neg hconnected]
    show (some (Except.bind _ _), _) = (some (Except.bind (Except.map _ _) _), _)
    rw [bind_map]
    rfl
  | toolRequest tool args =>
    dsimp only [perform, eipcClientSendToolRequest, payload]
    rw [if_neg hconnected, Option.map_map]
    refine Prod.ext (congrArg (Option.map · _) (funext fun res => ?_)) rfl
    show Except.bind _ _ = Except.bind (Except.map _ _) _
    rw [bind_map]
    rfl
  | heartbeat =>
    dsimp only [perform, eipcClientSendHeartbeat]
    rw [if_neg hconnected]
    show (some (Except.bind _ _), _) = (some (Except.bind (Except.map _ _) _), _)
    rw [bind_map]
    rfl
  | chat req =>
    dsimp only [perform, eipcClientSendChat]
    rw [if_neg hconnected]
    show (some (Except.bind _ _), _) = (some (Except.bind (Except.map _ _) _), _)
    rw [bind_map]
    rfl
  | complete prompt sessionId =>
    dsimp only [perform, eipcClientSendComplete]
    rw [if_neg hconnected]
    rfl

/-- The client as a machine over its calls. -/
def machine (env : SendEnv F) :
    Machine EipcSendingClient (CallReading × ClientCall F) (Option (Except EipcStatus Bytes)) where
  step c i := i.2.perform (env.reading i.1) c

/-- What a call has written to the socket. -/
def written : Option (Except EipcStatus Bytes) → Bytes
  | some (.ok wire) => wire
  | _ => []

end ClientCall
