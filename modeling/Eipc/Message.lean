import Eipc.Lib.Json

/-!
# Messages, headers and the header codec

The message envelope of `core/message.go`, its type and the byte that stands
for the type on the wire (`core/endpoint.go`), the per-message header of
`protocol/header.go` and the codecs that serialize it (`protocol/codec.go`).

A codec is a parameter of the endpoints. The default one is `encoding/json`,
`Codec.json` here: it writes the fields in the order of the structure, leaves out
an empty capability and an empty route, and reads back the headers whose strings
are valid UTF-8 (`Codec.json_undoes`).
-/

open Bytes

/-- A message type, which is a string in the source. -/
abbrev MessageType := Bytes

namespace MessageType

def typeIntent : MessageType := ascii "intent"
def typeFeatures : MessageType := ascii "features"
def typeToolRequest : MessageType := ascii "tool_request"
def typeAuth : MessageType := ascii "auth"
def typeChallenge : MessageType := ascii "challenge"
def typeAuthResponse : MessageType := ascii "auth_response"
def typeAck : MessageType := ascii "ack"
def typePolicyResult : MessageType := ascii "policy_result"
def typeHeartbeat : MessageType := ascii "heartbeat"
def typeAudit : MessageType := ascii "audit"
def typeChat : MessageType := ascii "chat"
def typeComplete : MessageType := ascii "complete"

/-- The declared message types. -/
def declared : List MessageType :=
  [typeIntent, typeFeatures, typeToolRequest, typeAuth, typeChallenge, typeAuthResponse, typeAck,
    typePolicyResult, typeHeartbeat, typeAudit, typeChat, typeComplete]

/-- `MsgTypeToByte`: an undeclared type is sent as its first byte. -/
def msgTypeToByte (mt : MessageType) : UInt8 :=
  if mt = typeIntent then 'i'.toUInt8
  else if mt = typeFeatures then 'f'.toUInt8
  else if mt = typeToolRequest then 't'.toUInt8
  else if mt = typeAck then 'a'.toUInt8
  else if mt = typeAuth then 'A'.toUInt8
  else if mt = typeChallenge then 'H'.toUInt8
  else if mt = typeAuthResponse then 'R'.toUInt8
  else if mt = typePolicyResult then 'p'.toUInt8
  else if mt = typeHeartbeat then 'h'.toUInt8
  else if mt = typeAudit then 'u'.toUInt8
  else if mt = typeChat then 'c'.toUInt8
  else if mt = typeComplete then 'C'.toUInt8
  else mt.headD 0

/-- `msgTypeFromByte`: an unknown byte becomes the character with that code. -/
def msgTypeFromByte (b : UInt8) : MessageType :=
  if b = 'i'.toUInt8 then typeIntent
  else if b = 'f'.toUInt8 then typeFeatures
  else if b = 't'.toUInt8 then typeToolRequest
  else if b = 'a'.toUInt8 then typeAck
  else if b = 'A'.toUInt8 then typeAuth
  else if b = 'H'.toUInt8 then typeChallenge
  else if b = 'R'.toUInt8 then typeAuthResponse
  else if b = 'p'.toUInt8 then typePolicyResult
  else if b = 'h'.toUInt8 then typeHeartbeat
  else if b = 'u'.toUInt8 then typeAudit
  else if b = 'c'.toUInt8 then typeChat
  else if b = 'C'.toUInt8 then typeComplete
  else String.utf8EncodeChar (Char.ofNat b.toNat)

/-- A declared type survives the wire. -/
theorem msgTypeFromByte_msgTypeToByte :
    ∀ mt ∈ declared, msgTypeFromByte (msgTypeToByte mt) = mt := by
  decide

end MessageType

/-- The per-message routing and metadata (`protocol.Header`). -/
structure Header where
  serviceID : Bytes
  sessionID : Bytes
  requestID : Bytes
  sequence : UInt64
  timestamp : Bytes
  priority : UInt8
  capability : Bytes
  route : Bytes
  payloadFormat : UInt8
  deriving DecidableEq

namespace Header

/-- The zero value of the structure. -/
def zero : Header := ⟨[], [], [], 0, [], 0, [], [], 0⟩

/-- Every string of the header is valid UTF-8. -/
structure ValidUTF8 (h : Header) : Prop where
  serviceID : Json.ValidUTF8 h.serviceID
  sessionID : Json.ValidUTF8 h.sessionID
  requestID : Json.ValidUTF8 h.requestID
  timestamp : Json.ValidUTF8 h.timestamp
  capability : Json.ValidUTF8 h.capability
  route : Json.ValidUTF8 h.route

/-- A member with the option `omitempty`. -/
def omitEmpty (key s : Bytes) : List (Bytes × Json.Value) := if s = [] then [] else [(key, .str s)]

/-- The members of the header's JSON object, in the order of the structure. -/
def members (h : Header) : List (Bytes × Json.Value) :=
  [(ascii "service_id", .str h.serviceID),
    (ascii "session_id", .str h.sessionID),
    (ascii "request_id", .str h.requestID),
    (ascii "sequence", .num h.sequence.toNat),
    (ascii "timestamp", .str h.timestamp),
    (ascii "priority", .num h.priority.toNat)]
  ++ omitEmpty (ascii "capability") h.capability
  ++ omitEmpty (ascii "route") h.route
  ++ [(ascii "payload_format", .num h.payloadFormat.toNat)]

/-- A string member sets the field with its key; a key without a field is
ignored. -/
def setString (h : Header) (key s : Bytes) : Except String Header :=
  if key = ascii "service_id" then .ok { h with serviceID := s }
  else if key = ascii "session_id" then .ok { h with sessionID := s }
  else if key = ascii "request_id" then .ok { h with requestID := s }
  else if key = ascii "timestamp" then .ok { h with timestamp := s }
  else if key = ascii "capability" then .ok { h with capability := s }
  else if key = ascii "route" then .ok { h with route := s }
  else if key = ascii "sequence" ∨ key = ascii "priority" ∨ key = ascii "payload_format" then
    .error "json: cannot unmarshal string into Go struct field"
  else .ok h

/-- A number member sets the field with its key, when it fits. -/
def setNumber (h : Header) (key : Bytes) (n : ℕ) : Except String Header :=
  if key = ascii "sequence" ∧ n < 2 ^ 64 then .ok { h with sequence := UInt64.ofNat n }
  else if key = ascii "priority" ∧ n < 2 ^ 8 then .ok { h with priority := UInt8.ofNat n }
  else if key = ascii "payload_format" ∧ n < 2 ^ 8 then
    .ok { h with payloadFormat := UInt8.ofNat n }
  else if key ∈ [ascii "service_id", ascii "session_id", ascii "request_id", ascii "sequence",
      ascii "timestamp", ascii "priority", ascii "capability", ascii "route",
      ascii "payload_format"] then
    .error "json: cannot unmarshal number into Go struct field"
  else .ok h

/-- A member of the object sets a field. -/
def set (h : Header) : Bytes × Json.Value → Except String Header
  | (key, .str s) => h.setString key s
  | (key, .num n) => h.setNumber key n

end Header

/-- `Codec`: how headers are serialized. -/
structure Codec where
  marshal : Header → Except String Bytes
  unmarshal : Bytes → Except String Header

namespace Codec

/-- What the endpoints rely on: `Unmarshal` undoes `Marshal` on headers with
valid UTF-8 strings. -/
def Undoes (c : Codec) : Prop :=
  ∀ h bs, h.ValidUTF8 → c.marshal h = .ok bs → c.unmarshal bs = .ok h

/-- `JSONCodec` on headers. The reader takes the compact text that the writer
makes, with its members in any order. -/
def json : Codec where
  marshal h := .ok (Json.writeObject h.members)
  unmarshal bs :=
    match Json.readObject bs with
    | none => .error "json: invalid header"
    | some kvs => kvs.foldlM Header.set Header.zero

end Codec

namespace Header

theorem valid_members {h : Header} (hv : h.ValidUTF8) :
    ∀ kv ∈ h.members, Json.ValidUTF8 kv.1 ∧ kv.2.Valid := by
  have hopt : ∀ {key s : Bytes}, Json.ValidUTF8 key → Json.ValidUTF8 s →
      ∀ kv ∈ omitEmpty key s, Json.ValidUTF8 kv.1 ∧ kv.2.Valid := by
    intro key s hkey hs kv hkv
    unfold omitEmpty at hkv
    split at hkv
    · exact absurd hkv List.not_mem_nil
    · rw [List.mem_singleton.mp hkv]
      exact ⟨hkey, hs⟩
  unfold members
  refine List.forall_mem_append.mpr ⟨List.forall_mem_append.mpr ⟨List.forall_mem_append.mpr
    ⟨?_, hopt (Json.validUTF8_of_ascii rfl) hv.capability⟩,
      hopt (Json.validUTF8_of_ascii rfl) hv.route⟩, ?_⟩
  · simp only [List.forall_mem_cons, List.not_mem_nil, false_implies, implies_true, and_true]
    exact ⟨⟨Json.validUTF8_of_ascii rfl, hv.serviceID⟩, ⟨Json.validUTF8_of_ascii rfl, hv.sessionID⟩,
      ⟨Json.validUTF8_of_ascii rfl, hv.requestID⟩, ⟨Json.validUTF8_of_ascii rfl, trivial⟩,
      ⟨Json.validUTF8_of_ascii rfl, hv.timestamp⟩, Json.validUTF8_of_ascii rfl, trivial⟩
  · exact List.forall_mem_singleton.mpr ⟨Json.validUTF8_of_ascii rfl, trivial⟩

/-- The members of a header set every field of the zero header to its own. -/
theorem foldlM_set_members (h : Header) : h.members.foldlM set zero = .ok h := by
  obtain ⟨serviceID, sessionID, requestID, seq, timestamp, priority, capability, route, format⟩ := h
  have hseq := seq.toNat_lt
  have hpriority := priority.toNat_lt
  have hformat := format.toNat_lt
  by_cases hcapability : capability = [] <;> by_cases hroute : route = [] <;>
    simp +decide [members, omitEmpty, set, setString, setNumber, zero, List.foldlM_cons,
      hcapability, hroute, hseq, hpriority, hformat, Except.bind, bind, pure, Except.pure]

end Header

/-- **The JSON codec undoes itself** on headers with valid UTF-8 strings. -/
theorem Codec.json_undoes : Codec.json.Undoes := by
  intro h bs hv hbs
  cases hbs
  show (match Json.readObject (Json.writeObject h.members) with | none => _ | some kvs => _) = _
  rw [Json.readObject_writeObject (Header.valid_members hv)]
  exact h.foldlM_set_members

/-- How times are written into headers and read back: `Format` and `Parse`
with the layout `RFC3339Nano`. -/
structure TimeFormat (Time : Type) where
  /-- The zero time. -/
  zero : Time
  format : Time → Bytes
  parse : Bytes → Option Time

namespace TimeFormat

/-- The text of the zero time. -/
def zeroText : Bytes := ascii "0001-01-01T00:00:00Z"

/-- The layout, for programs in which every time is the zero time. -/
def zeroOnly : TimeFormat Unit where
  zero := ()
  format _ := zeroText
  parse b := if b = zeroText then some () else none

end TimeFormat

/-- The message envelope (`core.Message`). -/
structure Message (Time : Type) where
  version : UInt16
  type : MessageType
  source : Bytes
  timestamp : Time
  sessionID : Bytes
  requestID : Bytes
  priority : UInt8
  capability : Bytes
  payload : Bytes
  deriving DecidableEq

namespace Message

/-- Control-critical traffic. -/
def priorityP0 : UInt8 := 0

/-- Interactive traffic. -/
def priorityP1 : UInt8 := 1

/-- `NewMessage`: a message with the defaults filled in. -/
def newMessage {Time : Type} (now : Time) (msgType : MessageType) (source payload : Bytes) :
    Message Time where
  version := 1
  type := msgType
  source
  timestamp := now
  sessionID := []
  requestID := []
  priority := priorityP1
  capability := []
  payload

end Message
