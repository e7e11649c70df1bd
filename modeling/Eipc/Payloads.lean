import Eipc.Events
import Eipc.Lib.JsonFlat

/-!
# The payloads of the two programs

`cmd/eipc-client` and `cmd/eipc-server` declare the structures of the handshake each on its
own, and serialize them with `encoding/json`. What one of them writes, the other one reads:
the client's intent holds a number with a fraction, and the server's result a list of
capabilities, so the reader here takes the objects of `Eipc.Lib.JsonFlat`.
-/

open Bytes

namespace PayloadCodec

/-! ## Reading members -/

/-- The members of an object, which are given to `f`. -/
def readFlat {α : Type} (f : List (Bytes × Json.Flat) → Except String α) (data : Bytes) :
    Except String α :=
  match Json.Flat.readObject data with
  | none => .error "json: invalid payload"
  | some kvs => f kvs

/-- The value under a key, read by `f`: the value `zero` if there is none, the last one if there
are several. -/
def memberWith {α : Type} (f : Json.Flat → Except String α) (zero : α)
    (kvs : List (Bytes × Json.Flat)) (key : Bytes) : Except String α :=
  kvs.foldlM (fun a kv => if kv.1 = key then f kv.2 else .ok a) zero

/-- A string under a key. -/
def flatString : List (Bytes × Json.Flat) → Bytes → Except String Bytes :=
  memberWith (fun v =>
    match v with
    | .str s => .ok s
    | .num _ => .error "json: cannot unmarshal number into Go struct field"
    | .strs _ => .error "json: cannot unmarshal array into Go struct field") []

/-- A list of strings under a key. -/
def flatStrings : List (Bytes × Json.Flat) → Bytes → Except String (List Bytes) :=
  memberWith (fun v =>
    match v with
    | .str _ => .error "json: cannot unmarshal string into Go struct field"
    | .num _ => .error "json: cannot unmarshal number into Go struct field"
    | .strs ss => .ok ss) []

/-- A number of type `float64` under a key, as the text that it is written with. -/
def flatFloat : List (Bytes × Json.Flat) → Bytes → Except String Bytes :=
  memberWith (fun v =>
    match v with
    | .str _ => .error "json: cannot unmarshal string into Go struct field"
    | .num text => .ok text
    | .strs _ => .error "json: cannot unmarshal array into Go struct field") (ascii "0")

/-- A number of type `int` under a key. -/
def flatInt : List (Bytes × Json.Flat) → Bytes → Except String ℤ :=
  memberWith (fun v =>
    match v with
    | .str _ => .error "json: cannot unmarshal string into Go struct field"
    | .num text =>
      let n : ℤ := if text.head? = some 0x2d then -Json.ofDecimal text.tail else Json.ofDecimal text
      if (text.dropWhile (· == 0x2d)).all Json.isDigit ∧ -2 ^ 63 ≤ n ∧ n < 2 ^ 63 then .ok n
      else .error "json: cannot unmarshal number into Go struct field"
    | .strs _ => .error "json: cannot unmarshal array into Go struct field") 0

/-! ## The server -/

/-- `JSONCodec` on the payloads, as far as the server uses it. -/
def flat : PayloadCodec :=
  { json with
    unmarshalAuthRequest := readFlat fun kvs => do
      return ⟨← flatString kvs (ascii "service_id")⟩
    unmarshalChallengeResponse := readFlat fun kvs => do
      return ⟨← flatString kvs (ascii "service_id"), ← flatString kvs (ascii "response")⟩
    unmarshalIntent := readFlat fun kvs => do
      let _ ← flatFloat kvs (ascii "confidence")
      return ⟨← flatString kvs (ascii "intent"), ← flatString kvs (ascii "session_id")⟩
    unmarshalHeartbeat := readFlat fun kvs => do
      return ⟨← flatString kvs (ascii "service"), ← flatString kvs (ascii "status")⟩
    unmarshalChatRequest := readFlat fun kvs => do
      let _ ← flatInt kvs (ascii "max_tokens")
      return ⟨← flatString kvs (ascii "session_id"), ← flatString kvs (ascii "user_prompt"),
        ← flatString kvs (ascii "model")⟩
    unmarshalCompleteRequest := readFlat fun kvs => do
      let _ ← flatInt kvs (ascii "max_tokens")
      return ⟨← flatString kvs (ascii "session_id"), ← flatString kvs (ascii "prompt"),
        ← flatString kvs (ascii "model")⟩ }

end PayloadCodec

/-! ## The client -/

namespace EipcClient

/-- `challengeResponse`: what the client reads as a challenge. -/
structure ChallengeResponse where
  status : Bytes
  nonce : Bytes
  error : Bytes
  deriving DecidableEq

/-- `authResult`: what the client reads as the outcome. -/
structure AuthResult where
  status : Bytes
  sessionToken : Bytes
  capabilities : List Bytes
  error : Bytes
  deriving DecidableEq

/-- `core.IntentEvent`, with the number as it is written. -/
structure IntentEvent where
  intent : Bytes
  confidence : Bytes
  sessionID : Bytes
  deriving DecidableEq

end EipcClient

namespace ClientPayloads

open PayloadCodec

def marshalAuthRequest (r : AuthRequest) : Bytes :=
  Json.Flat.writeObject [(ascii "service_id", .str r.serviceID)]

def unmarshalChallenge : Bytes → Except String EipcClient.ChallengeResponse :=
  readFlat fun kvs => do
    return ⟨← flatString kvs (ascii "status"), ← flatString kvs (ascii "nonce"),
      ← flatString kvs (ascii "error")⟩

/-- `authChallengeResponse`. -/
def marshalChallengeResponse (r : ChallengeResponse) : Bytes :=
  Json.Flat.writeObject
    [(ascii "service_id", .str r.serviceID), (ascii "response", .str r.response)]

def unmarshalAuthResult : Bytes → Except String EipcClient.AuthResult :=
  readFlat fun kvs => do
    return ⟨← flatString kvs (ascii "status"), ← flatString kvs (ascii "session_token"),
      ← flatStrings kvs (ascii "capabilities"), ← flatString kvs (ascii "error")⟩

def marshalIntent (e : EipcClient.IntentEvent) : Bytes :=
  Json.Flat.writeObject [(ascii "intent", .str e.intent), (ascii "confidence", .num e.confidence),
    (ascii "session_id", .str e.sessionID)]

def unmarshalAck : Bytes → Except String AckEvent :=
  readFlat fun kvs => do
    return ⟨← flatString kvs (ascii "request_id"), ← flatString kvs (ascii "status"),
      ← flatString kvs (ascii "error")⟩

def marshalHeartbeat (e : HeartbeatEvent) : Bytes :=
  Json.Flat.writeObject [(ascii "service", .str e.service), (ascii "status", .str e.status)]

end ClientPayloads

/-! ## What one writes the other reads -/

namespace PayloadCodec

open ClientPayloads

theorem readFlat_writeObject {α : Type} {f : List (Bytes × Json.Flat) → Except String α}
    {kvs : List (Bytes × Json.Flat)} (h : ∀ kv ∈ kvs, Json.ValidUTF8 kv.1 ∧ kv.2.Valid) :
    readFlat f (Json.Flat.writeObject kvs) = f kvs := by
  unfold readFlat
  rw [Json.Flat.readObject_writeObject h]

/-- A key of the structures is a string of letters. -/
theorem validUTF8_key {key : Bytes} (h : key.all (· < 0x80) = true) : Json.ValidUTF8 key :=
  Json.validUTF8_of_ascii h

theorem unmarshalAuthRequest_marshal {s : Bytes} (hs : Json.ValidUTF8 s) :
    flat.unmarshalAuthRequest (marshalAuthRequest ⟨s⟩) = .ok ⟨s⟩ := by
  refine (readFlat_writeObject ?_).trans rfl
  exact List.forall_mem_singleton.mpr ⟨validUTF8_key rfl, hs⟩

theorem unmarshalChallengeResponse_marshal {s response : Bytes} (hs : Json.ValidUTF8 s)
    (hresponse : Json.ValidUTF8 response) :
    flat.unmarshalChallengeResponse (marshalChallengeResponse ⟨s, response⟩)
      = .ok ⟨s, response⟩ := by
  refine (readFlat_writeObject ?_).trans rfl
  exact List.forall_mem_cons.mpr ⟨⟨validUTF8_key rfl, hs⟩,
    List.forall_mem_singleton.mpr ⟨validUTF8_key rfl, hresponse⟩⟩

theorem unmarshalIntent_marshal {e : EipcClient.IntentEvent} (hintent : Json.ValidUTF8 e.intent)
    (hconfidence : (Json.Flat.num e.confidence).Valid) (hsession : Json.ValidUTF8 e.sessionID) :
    flat.unmarshalIntent (marshalIntent e) = .ok ⟨e.intent, e.sessionID⟩ := by
  refine (readFlat_writeObject ?_).trans rfl
  exact List.forall_mem_cons.mpr ⟨⟨validUTF8_key rfl, hintent⟩,
    List.forall_mem_cons.mpr ⟨⟨validUTF8_key rfl, hconfidence⟩,
      List.forall_mem_singleton.mpr ⟨validUTF8_key rfl, hsession⟩⟩⟩

theorem unmarshalHeartbeat_marshal {e : HeartbeatEvent} (hservice : Json.ValidUTF8 e.service)
    (hstatus : Json.ValidUTF8 e.status) :
    flat.unmarshalHeartbeat (marshalHeartbeat e) = .ok e := by
  refine (readFlat_writeObject ?_).trans rfl
  exact List.forall_mem_cons.mpr ⟨⟨validUTF8_key rfl, hservice⟩,
    List.forall_mem_singleton.mpr ⟨validUTF8_key rfl, hstatus⟩⟩

/-- The challenge of the server, as an object. -/
theorem marshalChallenge_eq (c : ChallengeMessage) :
    flat.marshalChallenge c = .ok (Json.Flat.writeObject
      [(ascii "status", .str c.status), (ascii "nonce", .str c.nonce)]) :=
  congrArg Except.ok (Json.Flat.writeObject_ofValue _).symm

theorem unmarshalChallenge_marshal {c : ChallengeMessage} {b : Bytes}
    (hstatus : Json.ValidUTF8 c.status) (hnonce : Json.ValidUTF8 c.nonce)
    (h : flat.marshalChallenge c = .ok b) :
    unmarshalChallenge b = .ok ⟨c.status, c.nonce, []⟩ := by
  rw [marshalChallenge_eq] at h
  cases h
  refine (readFlat_writeObject ?_).trans rfl
  exact List.forall_mem_cons.mpr ⟨⟨validUTF8_key rfl, hstatus⟩,
    List.forall_mem_singleton.mpr ⟨validUTF8_key rfl, hnonce⟩⟩

/-- The capabilities are written as a list. -/
theorem writeStrings_eq (ss : List Bytes) :
    writeStrings ss = Json.writeList Json.quote 0x5b 0x5d ss := by
  have hitems : ∀ ss : List Bytes, ss.flatMap (fun s => ascii "," ++ Json.quote s) ++ ascii "]"
      = Json.writeItems Json.quote 0x5d ss := by
    intro ss
    induction ss with
    | nil => rfl
    | cons s ss ih =>
      rw [List.flatMap_cons, List.append_assoc, ih]
      rfl
  cases ss with
  | nil => rfl
  | cons s ss =>
    show ascii "[" ++ Json.quote s ++ _ ++ ascii "]" = _
    rw [List.append_assoc, hitems]
    rfl

/-- The result for a peer that is admitted, as an object. -/
theorem marshalAuthResult_eq (r : AuthResult) :
    flat.marshalAuthResult r = .ok (Json.Flat.writeObject [(ascii "status", .str r.status),
      (ascii "session_token", .str r.sessionToken),
      (ascii "capabilities", .strs r.capabilities)]) := by
  have hstatus : Json.quote (ascii "status") = ascii "\"status\"" := by decide +kernel
  have htoken : Json.quote (ascii "session_token") = ascii "\"session_token\"" := by
    decide +kernel
  have hcaps : Json.quote (ascii "capabilities") = ascii "\"capabilities\"" := by decide +kernel
  refine congrArg Except.ok ?_
  show _ = 0x7b :: (Json.quote (ascii "status") ++ 0x3a :: Json.quote r.status)
    ++ (0x2c :: (Json.quote (ascii "session_token") ++ 0x3a :: Json.quote r.sessionToken)
      ++ (0x2c :: (Json.quote (ascii "capabilities")
        ++ 0x3a :: Json.writeList Json.quote 0x5b 0x5d r.capabilities) ++ [0x7d]))
  rw [hstatus, htoken, hcaps, writeStrings_eq]
  simp only [List.append_assoc, List.cons_append]
  rfl

theorem unmarshalAuthResult_marshal {r : AuthResult} {b : Bytes}
    (hstatus : Json.ValidUTF8 r.status) (htoken : Json.ValidUTF8 r.sessionToken)
    (hcaps : ∀ c ∈ r.capabilities, Json.ValidUTF8 c) (h : flat.marshalAuthResult r = .ok b) :
    unmarshalAuthResult b = .ok ⟨r.status, r.sessionToken, r.capabilities, []⟩ := by
  rw [marshalAuthResult_eq] at h
  cases h
  refine (readFlat_writeObject ?_).trans rfl
  exact List.forall_mem_cons.mpr ⟨⟨validUTF8_key rfl, hstatus⟩,
    List.forall_mem_cons.mpr ⟨⟨validUTF8_key rfl, htoken⟩,
      List.forall_mem_singleton.mpr ⟨validUTF8_key rfl, hcaps⟩⟩⟩

/-- A member that is left out if it is empty. -/
theorem map_omitEmpty (key s : Bytes) :
    (Header.omitEmpty key s).map (fun kv => (kv.1, Json.Flat.ofValue kv.2))
      = if s = [] then [] else [(key, .str s)] := by
  unfold Header.omitEmpty
  split
  · rfl
  · rfl

theorem unmarshalAck_marshal {a : AckEvent} {b : Bytes} (hrequest : Json.ValidUTF8 a.requestID)
    (hstatus : Json.ValidUTF8 a.status) (herror : Json.ValidUTF8 a.error)
    (h : flat.marshalAck a = .ok b) : unmarshalAck b = .ok a := by
  have htext : flat.marshalAck a = .ok (Json.Flat.writeObject
      ([(ascii "request_id", .str a.requestID), (ascii "status", .str a.status)]
        ++ if a.error = [] then [] else [(ascii "error", .str a.error)])) := by
    rw [← map_omitEmpty]
    exact congrArg Except.ok (Json.Flat.writeObject_ofValue _).symm
  rw [htext] at h
  cases h
  obtain ⟨requestID, status, error⟩ := a
  refine (readFlat_writeObject ?_).trans ?_
  · refine List.forall_mem_append.mpr ⟨List.forall_mem_cons.mpr ⟨⟨validUTF8_key rfl, hrequest⟩,
      List.forall_mem_singleton.mpr ⟨validUTF8_key rfl, hstatus⟩⟩, ?_⟩
    split
    · exact fun kv hkv => absurd hkv List.not_mem_nil
    · exact List.forall_mem_singleton.mpr ⟨validUTF8_key rfl, herror⟩
  · dsimp only
    split
    · next hnil =>
      subst hnil
      rfl
    · rfl

/-- What the client makes of a denial: a result like any other, without a token. -/
theorem unmarshalAuthResult_denied {r : AuthResponse} {b : Bytes}
    (hstatus : Json.ValidUTF8 r.status)
    (herror : Json.ValidUTF8 r.error) (h : flat.marshalAuthResponse r = .ok b) :
    unmarshalAuthResult b = .ok ⟨r.status, [], [], r.error⟩ := by
  have htext : flat.marshalAuthResponse r = .ok (Json.Flat.writeObject
      ((ascii "status", .str r.status)
        :: if r.error = [] then [] else [(ascii "error", .str r.error)])) := by
    rw [← map_omitEmpty]
    exact congrArg Except.ok (Json.Flat.writeObject_ofValue _).symm
  rw [htext] at h
  cases h
  obtain ⟨status, error⟩ := r
  refine (readFlat_writeObject ?_).trans ?_
  · refine List.forall_mem_cons.mpr ⟨⟨validUTF8_key rfl, hstatus⟩, ?_⟩
    split
    · exact fun kv hkv => absurd hkv List.not_mem_nil
    · exact List.forall_mem_singleton.mpr ⟨validUTF8_key rfl, herror⟩
  · dsimp only
    split
    · next hnil =>
      subst hnil
      rfl
    · rfl

end PayloadCodec
