import Eipc.Message

/-!
# Events

The payloads that the server reads and writes: the events of `core/events.go`, and
the structures of the handshake that `handleConnection` declares. How they are
serialized is a parameter (`PayloadCodec`), since nothing the server guarantees
depends on it.

`PayloadCodec.json` is `encoding/json` on them. Like the header codec, its reader
takes compact texts of flat objects, with the members in any order.
-/

open Bytes

/-! ## Events -/

/-- `IntentEvent`: a decoded neural intent. -/
structure IntentEvent where
  intent : Bytes
  sessionID : Bytes
  deriving DecidableEq

/-- `HeartbeatEvent`: a sign of life. -/
structure HeartbeatEvent where
  service : Bytes
  status : Bytes
  deriving DecidableEq

/-- `AckEvent`: the outcome of a request. -/
structure AckEvent where
  requestID : Bytes
  status : Bytes
  error : Bytes
  deriving DecidableEq

/-- `ChatRequestEvent`. -/
structure ChatRequestEvent where
  sessionID : Bytes
  userPrompt : Bytes
  model : Bytes
  deriving DecidableEq

/-- `ChatResponseEvent`. -/
structure ChatResponseEvent where
  sessionID : Bytes
  response : Bytes
  model : Bytes
  tokensUsed : ℕ
  deriving DecidableEq

/-- `CompleteRequestEvent`. -/
structure CompleteRequestEvent where
  sessionID : Bytes
  prompt : Bytes
  model : Bytes
  deriving DecidableEq

/-- `CompleteResponseEvent`. -/
structure CompleteResponseEvent where
  sessionID : Bytes
  completion : Bytes
  model : Bytes
  tokensUsed : ℕ
  deriving DecidableEq

/-! ## The handshake -/

/-- `authRequest`. -/
structure AuthRequest where
  serviceID : Bytes
  deriving DecidableEq

/-- `challengeMessage`. -/
structure ChallengeMessage where
  status : Bytes
  nonce : Bytes
  deriving DecidableEq

/-- `challengeResponse`. The response is in hexadecimal. -/
structure ChallengeResponse where
  serviceID : Bytes
  response : Bytes
  deriving DecidableEq

/-- `authResponse`, for a peer that is turned away. -/
structure AuthResponse where
  status : Bytes
  error : Bytes
  deriving DecidableEq

/-- `authResult`, for a peer that is admitted. -/
structure AuthResult where
  status : Bytes
  sessionToken : Bytes
  capabilities : List Bytes
  deriving DecidableEq

/-! ## Serialization -/

/-- `Codec` on the payloads, as far as the server uses it. -/
structure PayloadCodec where
  unmarshalAuthRequest : Bytes → Except String AuthRequest
  unmarshalChallengeResponse : Bytes → Except String ChallengeResponse
  unmarshalIntent : Bytes → Except String IntentEvent
  unmarshalHeartbeat : Bytes → Except String HeartbeatEvent
  unmarshalChatRequest : Bytes → Except String ChatRequestEvent
  unmarshalCompleteRequest : Bytes → Except String CompleteRequestEvent
  marshalChallenge : ChallengeMessage → Except String Bytes
  marshalAuthResponse : AuthResponse → Except String Bytes
  marshalAuthResult : AuthResult → Except String Bytes
  marshalAck : AckEvent → Except String Bytes
  marshalChatResponse : ChatResponseEvent → Except String Bytes
  marshalCompleteResponse : CompleteResponseEvent → Except String Bytes

namespace PayloadCodec

/-- The members of an object, which are given to `f`. -/
def readStruct {α : Type} (f : List (Bytes × Json.Value) → Except String α) (data : Bytes) :
    Except String α :=
  match Json.readObject data with
  | none => .error "json: invalid payload"
  | some kvs => f kvs

/-- The string under a key: the empty one if there is none, the last one if there
are several. -/
def stringMember (kvs : List (Bytes × Json.Value)) (key : Bytes) : Except String Bytes :=
  kvs.foldlM (fun s kv =>
    if kv.1 = key then
      match kv.2 with
      | .str v => .ok v
      | .num _ => .error "json: cannot unmarshal number into Go struct field"
    else .ok s) []

/-- A number with the option `omitempty`. -/
def omitZero (key : Bytes) (n : ℕ) : List (Bytes × Json.Value) :=
  if n = 0 then [] else [(key, .num n)]

/-- A list of strings. -/
def writeStrings : List Bytes → Bytes
  | [] => ascii "[]"
  | s :: ss => ascii "[" ++ Json.quote s ++ ss.flatMap (fun s => ascii "," ++ Json.quote s)
    ++ ascii "]"

/-- `JSONCodec` on the payloads. -/
def json : PayloadCodec where
  unmarshalAuthRequest := readStruct fun kvs => do
    return ⟨← stringMember kvs (ascii "service_id")⟩
  unmarshalChallengeResponse := readStruct fun kvs => do
    return ⟨← stringMember kvs (ascii "service_id"), ← stringMember kvs (ascii "response")⟩
  unmarshalIntent := readStruct fun kvs => do
    return ⟨← stringMember kvs (ascii "intent"), ← stringMember kvs (ascii "session_id")⟩
  unmarshalHeartbeat := readStruct fun kvs => do
    return ⟨← stringMember kvs (ascii "service"), ← stringMember kvs (ascii "status")⟩
  unmarshalChatRequest := readStruct fun kvs => do
    return ⟨← stringMember kvs (ascii "session_id"), ← stringMember kvs (ascii "user_prompt"),
      ← stringMember kvs (ascii "model")⟩
  unmarshalCompleteRequest := readStruct fun kvs => do
    return ⟨← stringMember kvs (ascii "session_id"), ← stringMember kvs (ascii "prompt"),
      ← stringMember kvs (ascii "model")⟩
  marshalChallenge c :=
    .ok (Json.writeObject [(ascii "status", .str c.status), (ascii "nonce", .str c.nonce)])
  marshalAuthResponse r :=
    .ok (Json.writeObject ((ascii "status", .str r.status)
      :: Header.omitEmpty (ascii "error") r.error))
  marshalAuthResult r :=
    .ok (ascii "\x7b\"status\":" ++ Json.quote r.status
      ++ ascii ",\"session_token\":" ++ Json.quote r.sessionToken
      ++ ascii ",\"capabilities\":" ++ writeStrings r.capabilities ++ ascii "\x7d")
  marshalAck a :=
    .ok (Json.writeObject ([(ascii "request_id", .str a.requestID), (ascii "status", .str a.status)]
      ++ Header.omitEmpty (ascii "error") a.error))
  marshalChatResponse r :=
    .ok (Json.writeObject ([(ascii "session_id", .str r.sessionID),
      (ascii "response", .str r.response)]
      ++ Header.omitEmpty (ascii "model") r.model ++ omitZero (ascii "tokens_used") r.tokensUsed))
  marshalCompleteResponse r :=
    .ok (Json.writeObject
      ([(ascii "session_id", .str r.sessionID), (ascii "completion", .str r.completion)]
        ++ Header.omitEmpty (ascii "model") r.model ++ omitZero (ascii "tokens_used") r.tokensUsed))

/-! What a client writes is read back, if the strings are valid UTF-8. -/

theorem readStruct_writeObject {α : Type} {f : List (Bytes × Json.Value) → Except String α}
    {kvs : List (Bytes × Json.Value)} (h : ∀ kv ∈ kvs, Json.ValidUTF8 kv.1 ∧ kv.2.Valid) :
    readStruct f (Json.writeObject kvs) = f kvs := by
  unfold readStruct
  rw [Json.readObject_writeObject h]

theorem unmarshalAuthRequest_writeObject {s : Bytes} (hs : Json.ValidUTF8 s) :
    json.unmarshalAuthRequest (Json.writeObject [(ascii "service_id", .str s)]) = .ok ⟨s⟩ := by
  refine (readStruct_writeObject ?_).trans rfl
  exact List.forall_mem_singleton.mpr ⟨Json.validUTF8_of_ascii rfl, hs⟩

theorem unmarshalChallengeResponse_writeObject {s response : Bytes} (hs : Json.ValidUTF8 s)
    (hresponse : Json.ValidUTF8 response) :
    json.unmarshalChallengeResponse
        (Json.writeObject [(ascii "service_id", .str s), (ascii "response", .str response)])
      = .ok ⟨s, response⟩ := by
  refine (readStruct_writeObject ?_).trans rfl
  exact List.forall_mem_cons.mpr ⟨⟨Json.validUTF8_of_ascii rfl, hs⟩,
    List.forall_mem_singleton.mpr ⟨Json.validUTF8_of_ascii rfl, hresponse⟩⟩

theorem unmarshalIntent_writeObject {intent sessionID : Bytes} (hintent : Json.ValidUTF8 intent)
    (hsession : Json.ValidUTF8 sessionID) :
    json.unmarshalIntent
        (Json.writeObject [(ascii "intent", .str intent), (ascii "session_id", .str sessionID)])
      = .ok ⟨intent, sessionID⟩ := by
  refine (readStruct_writeObject ?_).trans rfl
  exact List.forall_mem_cons.mpr ⟨⟨Json.validUTF8_of_ascii rfl, hintent⟩,
    List.forall_mem_singleton.mpr ⟨Json.validUTF8_of_ascii rfl, hsession⟩⟩

end PayloadCodec
