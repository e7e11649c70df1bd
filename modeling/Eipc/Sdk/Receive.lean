import Eipc.Sdk.Frame
import Eipc.Sdk.Hmac
import Eipc.Lib.Json

/-!
# Receiving in the C SDK

`eipc_client_receive` and `eipc_server_receive` (`sdk/c/src/eipc_client.c`,
`sdk/c/src/eipc_server.c`) with the header reader they call
(`sdk/c/src/eipc_json.c`). The reader does not parse JSON: it looks for the first
occurrence of a quoted key and takes what follows. It works on C strings, and the
header array of a frame is one only if it holds a NUL; a scan that runs out of the
array is undefined, and the models below return `none` for it.

Both functions check the MAC when the frame announces one, and only then
(`verifyFrame_eq_ok_iff`).
-/

open Bytes EipcFrame

/-! ## C strings -/

namespace CString

/-- The string in an array, up to its NUL; undefined without one. -/
def ofArray (a : Bytes) : Option Bytes :=
  if 0 ∈ a then some (a.takeWhile (· ≠ 0)) else none

theorem ofArray_append {s : Bytes} (h : 0 ∉ s) (t : Bytes) : ofArray (s ++ 0 :: t) = some s := by
  have hall : ∀ b ∈ s, decide (b ≠ 0) = true := fun b hb => decide_eq_true fun hzero =>
    h (hzero ▸ hb)
  rw [ofArray, if_pos (List.mem_append_right s List.mem_cons_self),
    List.takeWhile_append_of_pos hall, List.takeWhile_cons_of_neg (by simp), List.append_nil]

/-- The string in an array is what stands before its first NUL. -/
theorem ofArray_eq_some_iff {a s : Bytes} :
    ofArray a = some s ↔ 0 ∉ s ∧ ∃ t, a = s ++ 0 :: t := by
  constructor
  · intro h
    have hmem : 0 ∈ a := by
      by_contra hnone
      exact (nomatch (if_neg hnone).symm.trans h)
    obtain ⟨s', t, rfl, hs'⟩ := List.eq_append_cons_of_mem hmem
    obtain rfl : s' = s := Option.some.inj ((ofArray_append hs' t).symm.trans h)
    exact ⟨hs', t, rfl⟩
  · rintro ⟨hs, t, rfl⟩
    exact ofArray_append hs t

/-- `strstr`: the string from the first occurrence of `pat` on. -/
def strstr (pat : Bytes) : Bytes → Option Bytes
  | [] => if pat = [] then some [] else none
  | b :: rest => if pat.isPrefixOf (b :: rest) then some (b :: rest) else strstr pat rest

def isSpace (b : UInt8) : Bool := b = 0x20 || (0x09 ≤ b && b ≤ 0x0d)

/-- `strtoull` in base ten: white space, a sign, digits. A value that does not
fit is the largest one, and a negated one wraps. -/
def strtoull (s : Bytes) : UInt64 :=
  let s := s.dropWhile isSpace
  let neg := s.head? = some 0x2d
  let digits := if neg ∨ s.head? = some 0x2b then s.tail else s
  let n := Json.ofDecimal (digits.takeWhile Json.isDigit)
  if n ≥ 2 ^ 64 then ~~~0 else if neg then 0 - UInt64.ofNat n else UInt64.ofNat n

/-- `strncpy` of `n` characters into an array with room for the NUL. -/
def strncpy (n : ℕ) (s : Bytes) : Bytes := s.take n

end CString

open CString

/-! ## The header reader -/

/-- The quoted key that the reader looks for; `pattern` has room for 127
characters. -/
def jsonPattern (key : Bytes) : Bytes := (0x22 :: key ++ [0x22]).take 127

/-- Where the value of a key starts: after the first occurrence of the quoted
key, and after blanks and colons. -/
def jsonValueStart (json key : Bytes) : Option Bytes :=
  (strstr (jsonPattern key) json).map fun start =>
    (start.drop (jsonPattern key).length).dropWhile
      (fun b => b = 0x20 || b = 0x3a || b = 0x09 || b = 0x0a)

/-- The inside of a string literal, up to a quote without a backslash before
it. Escapes are kept as they are. -/
def jsonScanString : Bytes → Bytes
  | [] => []
  | b :: rest =>
    if b = 0x22 then []
    else if b = 0x5c then
      match rest with
      | [] => [b]
      | e :: rest => b :: e :: jsonScanString rest
    else b :: jsonScanString rest

/-- `json_find_string`, for an output array of `outSize` bytes. -/
def jsonFindString (json key : Bytes) (outSize : ℕ) : Option Bytes :=
  (jsonValueStart json key).bind fun start =>
    if start.head? = some 0x22 then some ((jsonScanString start.tail).take (outSize - 1)) else none

/-- `json_find_uint64`. -/
def jsonFindUint64 (json key : Bytes) : Option UInt64 :=
  (jsonValueStart json key).map fun start =>
    strtoull (if start.head? = some 0x22 then start.tail else start)

/-- `json_find_int`: the low bits of the number. -/
def jsonFindInt (json key : Bytes) : Option Int32 :=
  (jsonFindUint64 json key).map fun val => val.toUInt32.toInt32

/-- `eipc_header_t`, its strings without their NULs. The `route` is never read. -/
structure EipcHeader where
  serviceId : Bytes
  sessionId : Bytes
  requestId : Bytes
  sequence : UInt64
  timestamp : Bytes
  priority : UInt8
  capability : Bytes
  payloadFormat : UInt8
  deriving DecidableEq

def eipcServiceIdMax : ℕ := 64
def eipcSessionIdMax : ℕ := 64
def eipcRequestIdMax : ℕ := 64
def eipcCapabilityMax : ℕ := 64
def eipcTimestampMax : ℕ := 40

/-- `eipc_header_from_json`, which never fails: a field that is not found stays
zero. -/
def eipcHeaderFromJson (json : Bytes) : EipcHeader where
  serviceId := (jsonFindString json (ascii "service_id") eipcServiceIdMax).getD []
  sessionId := (jsonFindString json (ascii "session_id") eipcSessionIdMax).getD []
  requestId := (jsonFindString json (ascii "request_id") eipcRequestIdMax).getD []
  sequence := (jsonFindUint64 json (ascii "sequence")).getD 0
  timestamp := (jsonFindString json (ascii "timestamp") eipcTimestampMax).getD []
  priority := ((jsonFindInt json (ascii "priority")).getD 0).toUInt32.toUInt8
  capability := (jsonFindString json (ascii "capability") eipcCapabilityMax).getD []
  payloadFormat := ((jsonFindInt json (ascii "payload_format")).getD 0).toUInt32.toUInt8

/-! ## Receiving -/

/-- `eipc_message_t`: its strings without their NULs, its payload the
`payload_len` bytes in use. -/
structure EipcMessage where
  version : UInt16
  msgType : UInt8
  source : Bytes
  sessionId : Bytes
  requestId : Bytes
  priority : UInt8
  capability : Bytes
  payload : Bytes
  deriving DecidableEq

/-- The client handle, as far as receiving uses it. The key is the
`hmac_key_len` bytes in use of an array of thirty-two. -/
structure EipcClient where
  hmacKey : Bytes
  connected : Bool
  length_hmacKey : hmacKey.length ≤ eipcMacSize

/-- The server's connection handle, as far as receiving uses it. -/
structure EipcConn where
  hmacKey : Bytes
  sequence : UInt64
  /-- The socket is not `EIPC_INVALID_SOCKET`. -/
  connected : Bool
  length_hmacKey : hmacKey.length ≤ eipcMacSize

/-- The outcomes of the two allocations a receive may make: for the record, and
inside `eipc_hmac_sign`. -/
structure Allocs where
  record : Bool
  hmac : Bool

/-- The check of the MAC, which both functions make when the flag is set. -/
def verifyFrame (a : Allocs) (hmacKey : Bytes) (f : EipcFrame) : Except EipcStatus Unit :=
  if hasHmac f.flags then
    let signable := f.eipcFrameSignableBytes eipcFrameBufSize
    if signable.length = 0 then .error .integrity
    else if ¬eipcHmacVerify a.hmac hmacKey signable f.mac then .error .auth
    else .ok ()
  else .ok ()

/-- The message of a frame with its header. A payload that is longer than the
message's array is refused; the arrays have the same size. -/
def eipcMessageOf (f : EipcFrame) (hdr : EipcHeader) : Except EipcStatus EipcMessage :=
  if f.payloadLen > 0 ∧ f.payloadLen.toNat > eipcMaxPayload then .error .frameTooLarge
  else
    .ok
      { version := f.version
        msgType := f.msgType
        source := strncpy (eipcServiceIdMax - 1) hdr.serviceId
        sessionId := strncpy (eipcSessionIdMax - 1) hdr.sessionId
        requestId := strncpy (eipcRequestIdMax - 1) hdr.requestId
        priority := hdr.priority
        capability := strncpy (eipcCapabilityMax - 1) hdr.capability
        payload := f.payload.take f.payloadLen.toNat }

/-- What both functions do with a frame that arrived; `none` when the header
reader runs out of the header array. -/
def receiveFrame (a : Allocs) (hmacKey : Bytes) (f : EipcFrame) :
    Option (Except EipcStatus EipcMessage) :=
  match verifyFrame a hmacKey f with
  | .error rc => some (.error rc)
  | .ok () => (CString.ofArray f.header).map fun json => eipcMessageOf f (eipcHeaderFromJson json)

/-- `eipc_client_receive` on the bytes that arrived: the outcome, and what is
left to read. -/
def eipcClientReceive (a : Allocs) (c : EipcClient) (s : Bytes) :
    Option (Except EipcStatus EipcMessage) × Bytes :=
  if ¬c.connected then (some (.error .invalid), s)
  else
    match eipcTransportRecvFrame a.record s with
    | (.error rc, s) => (some (.error rc), s)
    | (.ok f, s) => (receiveFrame a c.hmacKey f, s)

/-- The count `conn->sequence++` of the messages that are returned. -/
def EipcConn.countMessage (conn : EipcConn) : Option (Except EipcStatus EipcMessage) → EipcConn
  | some (.ok _) => { conn with sequence := conn.sequence + 1 }
  | _ => conn

/-- `eipc_server_receive`. -/
def eipcServerReceive (a : Allocs) (conn : EipcConn) (s : Bytes) :
    Option (Except EipcStatus EipcMessage) × EipcConn × Bytes :=
  if ¬conn.connected then (some (.error .invalid), conn, s)
  else
    match eipcTransportRecvFrame a.record s with
    | (.error rc, s) => (some (.error rc), conn, s)
    | (.ok f, s) =>
      let res := receiveFrame a conn.hmacKey f
      (res, conn.countMessage res, s)

/-! ## What a received message guarantees -/

/-- A frame that the transport returns was decoded. -/
theorem fits_of_recvFrame {malloc : Bool} {s : Bytes} {f : EipcFrame}
    (h : (eipcTransportRecvFrame malloc s).1 = .ok f) : Fits f := by
  unfold eipcTransportRecvFrame at h
  split at h
  · exact (nomatch h)
  · dsimp only at h
    split at h
    · exact (nomatch h)
    · split at h
      · exact (nomatch h)
      · split at h
        · exact (nomatch h)
        · exact fits_of_decode h

/-- **When the check passes**: the flag is clear, or the MAC is HMAC-SHA256 of
the frame's signable bytes under the key. -/
theorem verifyFrame_eq_ok_iff {a : Allocs} {hmacKey : Bytes} {f : EipcFrame} (h : Fits f) :
    verifyFrame a hmacKey f = .ok () ↔
      (f.toFrame.hasHMAC = true → f.toFrame.mac = hmacSha256 hmacKey f.toFrame.signableBytes) := by
  have hlen := length_eipcFrameSignableBytes h
  have hheader := h.header
  have hpayload := h.payload
  have hmaxHeader : eipcMaxHeader = 1024 := rfl
  have hmaxPayload : eipcMaxPayload = 4096 := rfl
  have hfixed : eipcFrameFixedSize = 16 := rfl
  have hstack : Hmac.hmacStackData = 65536 := rfl
  have hverify := @eipcHmacVerify_iff a.hmac hmacKey
    (f.eipcFrameSignableBytes eipcFrameBufSize) f.mac (by omega) f.length_mac
  rw [eipcFrameSignableBytes_eq h] at hverify
  rw [toFrame_hasHMAC, verifyFrame]
  by_cases hflag : hasHmac f.flags = true
  · have hmac : f.toFrame.mac = f.mac := if_pos hflag
    rw [if_pos hflag, if_neg (by omega), eipcFrameSignableBytes_eq h, hmac]
    by_cases hok : eipcHmacVerify a.hmac hmacKey f.toFrame.signableBytes f.mac = true
    · rw [if_neg (not_not.mpr hok)]
      exact ⟨fun _ _ => hverify.mp hok, fun _ => rfl⟩
    · rw [if_pos hok]
      exact ⟨fun herr => (nomatch herr), fun heq => absurd (hverify.mpr (heq hflag)) hok⟩
  · rw [if_neg hflag]
    exact ⟨fun _ htrue => absurd htrue hflag, fun _ => rfl⟩

/-- Without the flag the outcome is the same for every key. -/
theorem receiveFrame_of_unflagged {f : EipcFrame} (h : f.toFrame.hasHMAC = false) (a : Allocs)
    (hmacKey hmacKey' : Bytes) : receiveFrame a hmacKey f = receiveFrame a hmacKey' f := by
  have hflag : ¬hasHmac f.flags = true := by
    rw [← toFrame_hasHMAC, h]
    decide
  unfold receiveFrame verifyFrame
  rw [if_neg hflag, if_neg hflag]

/-- A message comes from a frame whose check passed. -/
theorem verifyFrame_of_receiveFrame {a : Allocs} {hmacKey : Bytes} {f : EipcFrame}
    {msg : EipcMessage} (h : receiveFrame a hmacKey f = some (.ok msg)) :
    verifyFrame a hmacKey f = .ok () := by
  unfold receiveFrame at h
  cases hv : verifyFrame a hmacKey f with
  | error rc =>
    rw [hv] at h
    cases h
  | ok u => rfl

/-- **A frame that was rightly signed, or not at all, is read**, if its header leaves room for a NUL
and has none. -/
theorem receiveFrame_of_decode {g : Frame} {key : Bytes} {f : EipcFrame} {a : Allocs}
    (hg : g.WellFormed)
    (hmac : g.hasHMAC = true → g.mac = hmacSha256 key g.signableBytes)
    (hnul : 0 ∉ g.header) (hheader : g.header.length < eipcMaxHeader)
    (h : eipcFrameDecode g.wire = .ok f) :
    receiveFrame a key f = some (eipcMessageOf f (eipcHeaderFromJson g.header)) := by
  have hframe := toFrame_of_decode_wire hg h
  have hverify : verifyFrame a key f = .ok () := by
    refine (verifyFrame_eq_ok_iff (fits_of_decode h)).mpr ?_
    rwa [hframe]
  have harray : f.header
      = g.header ++ 0 :: List.replicate (eipcMaxHeader - g.header.length - 1) 0 := by
    rw [header_of_decode h, hframe, arrayOf, List.take_of_length_le hheader.le, overwrite,
      List.drop_replicate, ← List.replicate_succ]
    congr 2
    omega
  rw [receiveFrame, hverify]
  dsimp only
  rw [harray, CString.ofArray_append hnul]
  rfl

/-- What a message returned by `eipc_client_receive` comes from. -/
theorem eipcClientReceive_eq_ok_iff {a : Allocs} {c : EipcClient} {s : Bytes}
    {msg : EipcMessage} :
    (eipcClientReceive a c s).1 = some (.ok msg) ↔
      c.connected = true ∧ ∃ f, (eipcTransportRecvFrame a.record s).1 = .ok f
        ∧ receiveFrame a c.hmacKey f = some (.ok msg) := by
  unfold eipcClientReceive
  by_cases hconn : c.connected = true
  · rw [if_neg (not_not.mpr hconn)]
    rcases eipcTransportRecvFrame a.record s with ⟨rc | f, s⟩
    · exact ⟨fun h => (nomatch h), fun ⟨_, _, h, _⟩ => (nomatch h)⟩
    · exact ⟨fun h => ⟨hconn, f, rfl, h⟩, fun ⟨_, _, hf, h⟩ => by cases hf; exact h⟩
  · rw [if_pos hconn]
    exact ⟨fun h => (nomatch h), fun h => absurd h.1 hconn⟩

/-- The server answers as a client with its key would. -/
theorem eipcServerReceive_fst (a : Allocs) (conn : EipcConn) (s : Bytes) :
    (eipcServerReceive a conn s).1
      = (eipcClientReceive a ⟨conn.hmacKey, conn.connected, conn.length_hmacKey⟩ s).1 := by
  unfold eipcServerReceive eipcClientReceive
  split
  · rfl
  · rcases eipcTransportRecvFrame a.record s with ⟨rc | f, s⟩ <;> rfl

/-- What a message returned by `eipc_server_receive` comes from. -/
theorem eipcServerReceive_eq_ok_iff {a : Allocs} {conn : EipcConn} {s : Bytes}
    {msg : EipcMessage} :
    (eipcServerReceive a conn s).1 = some (.ok msg) ↔
      conn.connected = true ∧ ∃ f, (eipcTransportRecvFrame a.record s).1 = .ok f
        ∧ receiveFrame a conn.hmacKey f = some (.ok msg) := by
  rw [eipcServerReceive_fst]
  exact eipcClientReceive_eq_ok_iff
