import Eipc.Lib.Escape
import Eipc.Sdk.JsonText

/-!
# The C SDK's JSON pairs

The writers and readers of `sdk/c/src/eipc_json.c` for headers, acknowledgements and chat
messages. A writer prints its structure with one format, with the strings as they are – only the
error text of an acknowledgement is escaped – and a reader looks for each key and undoes no
escape. So a pair is not an inverse pair for all strings: a quote in a string ends it early, an
escape stays in the error text, and a string that is or ends in the name of a later field hides
that field. `json_roundTrip_iff` says, for each of the four structures, exactly which values come
back.

Texts are byte strings without their NUL. The formatted text is cut when the buffer is too small,
and the writers report that.
-/

open Bytes CString

/-! ## Formats -/

/-- `%d`. -/
def formatInt (m : Int32) : Bytes :=
  if m.toInt < 0 then 0x2d :: Json.decimal m.toInt.natAbs else Json.decimal m.toInt.natAbs

/-- What a writer returns for its formatted text: the text, if the buffer has room for it and a
NUL. -/
def printed (tooLong : EipcStatus) (bufSize : ℕ) (text : Bytes) : Except EipcStatus Bytes :=
  if text.length ≥ bufSize then .error tooLong else .ok text

theorem printed_eq_ok_iff {tooLong : EipcStatus} {bufSize : ℕ} {text out : Bytes} :
    printed tooLong bufSize text = .ok out ↔ text.length < bufSize ∧ out = text := by
  unfold printed
  split
  · next h => exact ⟨fun herr => (nomatch herr), fun hok => absurd hok.1 (not_lt.mpr h)⟩
  · next h =>
    rw [Except.ok.injEq, eq_comm]
    exact ⟨fun heq => ⟨not_le.mp h, heq⟩, fun hok => hok.2⟩

theorem length_lt_of_printed {tooLong : EipcStatus} {bufSize : ℕ} {text out : Bytes}
    (h : printed tooLong bufSize text = .ok out) : out.length < bufSize := by
  obtain ⟨hlt, rfl⟩ := printed_eq_ok_iff.mp h
  exact hlt

/-! ## Escapes -/

/-- The letter that stands for a byte after a backslash, for the bytes that `json_escape`
escapes. -/
def jsonEscapeLetter (b : UInt8) : Option UInt8 :=
  if b = 0x22 ∨ b = 0x5c then some b
  else if b = 0x0a then some 0x6e
  else if b = 0x0d then some 0x72
  else if b = 0x09 then some 0x74
  else none

/-- The loop of `json_escape`, with `di` bytes written to a buffer of `dstSize`. It stops when the
buffer is full, or has no room for both bytes of an escape. -/
def jsonEscapeFrom (dstSize di : ℕ) : Bytes → Bytes
  | [] => []
  | c :: src =>
    if di < dstSize - 1 then
      match jsonEscapeLetter c with
      | some e => if di + 2 ≥ dstSize then [] else 0x5c :: e :: jsonEscapeFrom dstSize (di + 2) src
      | none => c :: jsonEscapeFrom dstSize (di + 1) src
    else []

/-- `json_escape`: what is written before the NUL. -/
def jsonEscape (dstSize : ℕ) (src : Bytes) : Bytes := jsonEscapeFrom dstSize 0 src

/-- How a byte is written. -/
def jsonEscapeByte (b : UInt8) : Bytes :=
  match jsonEscapeLetter b with
  | some e => [0x5c, e]
  | none => [b]

/-- The whole text, escaped. -/
def jsonEscaped (s : Bytes) : Bytes := s.flatMap jsonEscapeByte

theorem jsonEscapeByte_of_none {b : UInt8} (h : jsonEscapeLetter b = none) :
    jsonEscapeByte b = [b] := by
  rw [jsonEscapeByte, h]

theorem jsonEscapeByte_of_some {b e : UInt8} (h : jsonEscapeLetter b = some e) :
    jsonEscapeByte b = [0x5c, e] := by
  rw [jsonEscapeByte, h]

/-- What is not escaped is neither a quote nor a backslash. -/
theorem ne_of_jsonEscapeLetter {b : UInt8} (h : jsonEscapeLetter b = none) :
    b ≠ 0x22 ∧ b ≠ 0x5c := by
  unfold jsonEscapeLetter at h
  split at h
  · exact (nomatch h)
  · next hne => exact not_or.mp hne

theorem jsonEscaped_cons (b : UInt8) (s : Bytes) :
    jsonEscaped (b :: s) = jsonEscapeByte b ++ jsonEscaped s := List.flatMap_cons

/-- One byte: it is written when its escape fits, and nothing is written from there on when it does
not. -/
theorem jsonEscapeFrom_cons (dstSize di : ℕ) (b : UInt8) (s : Bytes) :
    jsonEscapeFrom dstSize di (b :: s)
      = if di + (jsonEscapeByte b).length ≤ dstSize - 1 then
          jsonEscapeByte b ++ jsonEscapeFrom dstSize (di + (jsonEscapeByte b).length) s
        else [] := by
  rw [jsonEscapeFrom]
  cases hletter : jsonEscapeLetter b with
  | none =>
    rw [jsonEscapeByte_of_none hletter]
    rfl
  | some e =>
    rw [jsonEscapeByte_of_some hletter]
    show (if di < dstSize - 1 then if di + 2 ≥ dstSize then [] else _ else [])
      = if di + 2 ≤ _ then _ else _
    by_cases hfits : di + 2 ≤ dstSize - 1
    · rw [if_pos (by omega), if_neg (by omega), if_pos hfits]
      rfl
    · rw [if_neg hfits]
      split_ifs
      · rfl
      · omega
      · rfl

/-- A text whose escapes fit is escaped as a whole. -/
theorem jsonEscapeFrom_of_lt {dstSize di : ℕ} {s : Bytes}
    (h : di + (jsonEscaped s).length < dstSize) : jsonEscapeFrom dstSize di s = jsonEscaped s := by
  induction s generalizing di with
  | nil => rfl
  | cons b s ih =>
    rw [jsonEscaped_cons, List.length_append] at h
    rw [jsonEscapeFrom_cons, if_pos (by omega), ih (by omega), jsonEscaped_cons]

/-- Escaping doubles a text at most. -/
theorem length_jsonEscaped_le (s : Bytes) : (jsonEscaped s).length ≤ 2 * s.length := by
  induction s with
  | nil => exact le_rfl
  | cons b s ih =>
    have hbyte : (jsonEscapeByte b).length ≤ 2 := by
      unfold jsonEscapeByte
      split <;> simp
    rw [jsonEscaped_cons, List.length_append, List.length_cons]
    omega

/-- An escaped text has no quote of its own, and no backslash on its own. -/
theorem literalEnd_jsonEscaped (s : Bytes) : literalEnd (jsonEscaped s) = .closed := by
  induction s with
  | nil => exact literalEnd_nil
  | cons b s ih =>
    rw [jsonEscaped_cons]
    cases hletter : jsonEscapeLetter b with
    | none =>
      obtain ⟨hquote, hslash⟩ := ne_of_jsonEscapeLetter hletter
      rw [jsonEscapeByte_of_none hletter, List.singleton_append, literalEnd_plain hquote hslash, ih]
    | some e =>
      rw [jsonEscapeByte_of_some hletter]
      exact (literalEnd_escape e _).trans ih

/-- An escape is never undone, so that an escaped string comes back when nothing in it was escaped
– or when it fills its array of `size` bytes and what was escaped are the backslashes it ends
in. -/
def EscapedKept (size : ℕ) (s : Bytes) : Prop :=
  (∀ b ∈ s, jsonEscapeLetter b = none)
    ∨ s.length = size - 1
      ∧ ∃ u n, s = u ++ List.replicate n 0x5c ∧ ∀ b ∈ u, jsonEscapeLetter b = none

theorem marked_jsonEscapeByte : Escape.Marked (fun b => [b]) jsonEscapeByte 0x5c where
  ne_nil b := List.cons_ne_nil b []
  plain_or_marked b := by
    cases hletter : jsonEscapeLetter b with
    | none => exact .inl (jsonEscapeByte_of_none hletter)
    | some e => exact .inr ⟨[e], jsonEscapeByte_of_some hletter⟩
  mark_twice b t h := by
    obtain ⟨rfl, rfl⟩ := List.cons.inj h
    exact ⟨rfl, rfl⟩

theorem jsonEscapeByte_eq_self_iff (b : UInt8) :
    jsonEscapeByte b = [b] ↔ jsonEscapeLetter b = none := by
  cases hletter : jsonEscapeLetter b with
  | none => exact iff_of_true (jsonEscapeByte_of_none hletter) rfl
  | some e =>
    rw [jsonEscapeByte_of_some hletter]
    simp

theorem take_jsonEscaped_eq_iff {size : ℕ} {s : Bytes} (h : s.length ≤ size - 1) :
    (jsonEscaped s).take (size - 1) = s ↔ EscapedKept size s := by
  have hraw : ∀ t : Bytes, t.flatMap (fun b => [b]) = t := List.flatMap_singleton'
  have hlen : (s.flatMap fun b => [b]).length ≤ size - 1 := by
    rwa [hraw]
  have hiff := Escape.take_eq_iff marked_jsonEscapeByte hlen
  simp only [hraw, jsonEscapeByte_eq_self_iff] at hiff
  rw [jsonEscaped, hiff]
  refine or_congr Iff.rfl (and_congr Iff.rfl ?_)
  constructor
  · rintro ⟨vs, ws, rfl, hvs, hws⟩
    refine ⟨vs, ws.length, congrArg (vs ++ ·) ?_, hvs⟩
    exact List.eq_replicate_iff.mpr ⟨rfl, fun b hb => List.head_eq_of_cons_eq (hws b hb)⟩
  · rintro ⟨u, n, rfl, hu⟩
    exact ⟨u, _, rfl, hu, fun b hb => congrArg (fun b => [b]) (List.eq_of_mem_replicate hb)⟩

/-! ## Numbers -/

theorem not_isSpace_of_isDigit {b : UInt8} (h : Json.isDigit b = true) : isSpace b = false := by
  rw [Json.isDigit, Bool.and_eq_true, decide_eq_true_iff, decide_eq_true_iff,
    UInt8.le_iff_toNat_le, UInt8.le_iff_toNat_le] at h
  have h₁ : 48 ≤ b.toNat := h.1
  have h₂ : ¬b ≤ 0x0d := by
    rw [UInt8.le_iff_toNat_le]
    show ¬b.toNat ≤ 13
    omega
  have h₃ : b ≠ 0x20 := by
    rintro rfl
    exact absurd h₁ (by decide)
  simp [isSpace, h₂, h₃]

/-- The digits of a number are read up to what follows the value. -/
theorem takeWhile_decimal (n : ℕ) {t : Bytes} (ht : Separated t) :
    (Json.decimal n ++ t).takeWhile Json.isDigit = Json.decimal n := by
  obtain ⟨b, t, rfl, hb⟩ := ht
  have hdigit : Json.isDigit b = false := by
    rcases hb with rfl | rfl <;> rfl
  rw [List.takeWhile_append_of_pos (Json.isDigit_of_mem_decimal n),
    List.takeWhile_cons_of_neg (by simp [hdigit]), List.append_nil]

theorem quote_notMem_decimal (n : ℕ) : 0x22 ∉ Json.decimal n := fun hmem =>
  absurd (Json.isDigit_of_mem_decimal n _ hmem) (by decide)

theorem exists_decimal (n : ℕ) :
    ∃ d ds, Json.decimal n = d :: ds ∧ Json.isDigit d = true := by
  obtain ⟨d, ds, hds⟩ := List.exists_cons_of_ne_nil (Json.decimal_ne_nil n)
  exact ⟨d, ds, hds, Json.isDigit_of_mem_decimal n d (hds ▸ List.mem_cons_self)⟩

/-- A digit is none of the other bytes that are looked for. -/
theorem ne_of_isDigit {b c : UInt8} (h : Json.isDigit b = true) (hc : Json.isDigit c = false) :
    b ≠ c := by
  rintro rfl
  rw [h] at hc
  exact (nomatch hc)

theorem numeral_decimal {n : ℕ} (h : n < 2 ^ 64) : Numeral (Json.decimal n) (UInt64.ofNat n) := by
  obtain ⟨d, ds, hds, hd⟩ := exists_decimal n
  refine ⟨⟨d, ds, hds, ?_⟩, quote_notMem_decimal n, fun t ht => ?_⟩
  · have hne : ∀ {c : UInt8}, Json.isDigit c = false → d ≠ c := ne_of_isDigit hd
    simp [isBlank, hne (c := 0x20) rfl, hne (c := 0x3a) rfl, hne (c := 0x09) rfl,
      hne (c := 0x0a) rfl]
  · have hdigits := takeWhile_decimal n ht
    have hdrop : (Json.decimal n ++ t).dropWhile isSpace = Json.decimal n ++ t := by
      rw [hds, List.cons_append]
      exact List.dropWhile_cons_of_neg (by simp [not_isSpace_of_isDigit hd])
    have hhead : ∀ {c : UInt8}, Json.isDigit c = false → (Json.decimal n ++ t).head? ≠ some c := by
      intro c hc
      rw [hds, List.cons_append, List.head?_cons, Ne, Option.some.injEq]
      exact ne_of_isDigit hd hc
    rw [strtoull, hdrop, if_neg (not_or.mpr ⟨hhead rfl, hhead rfl⟩), hdigits,
      Json.ofDecimal_decimal,
      if_neg (not_le.mpr h), if_neg (hhead rfl)]

theorem numeral_neg_decimal {n : ℕ} (h : n < 2 ^ 64) :
    Numeral (0x2d :: Json.decimal n) (0 - UInt64.ofNat n) := by
  refine ⟨⟨0x2d, _, rfl, rfl⟩, ?_, fun t ht => ?_⟩
  · rw [List.mem_cons, not_or]
    exact ⟨by decide, quote_notMem_decimal n⟩
  · have hdrop : (0x2d :: Json.decimal n ++ t).dropWhile isSpace = 0x2d :: Json.decimal n ++ t :=
      List.dropWhile_cons_of_neg (by decide)
    have hhead : (0x2d :: Json.decimal n ++ t).head? = some 0x2d := rfl
    have hsign : (0x2d :: Json.decimal n ++ t).head? = some 0x2d
        ∨ (0x2d :: Json.decimal n ++ t).head? = some 0x2b := .inl hhead
    have htail : (0x2d :: Json.decimal n ++ t).tail = Json.decimal n ++ t := rfl
    rw [strtoull, hdrop, if_pos hsign, htail, takeWhile_decimal n ht, Json.ofDecimal_decimal,
      if_neg (not_le.mpr h), if_pos hhead]

/-- A printed `int` reads as a number with the same low bits. -/
theorem numeral_formatInt (m : Int32) :
    ∃ n : UInt64, Numeral (formatInt m) n ∧ n.toUInt32 = m.toUInt32 := by
  have hlt : m.toUInt32.toNat < 2 ^ 32 := m.toUInt32.toNat_lt
  have hint : m.toInt = if 2 * m.toUInt32.toNat < 2 ^ 32 then (m.toUInt32.toNat : ℤ)
      else (m.toUInt32.toNat : ℤ) - 2 ^ 32 := BitVec.toInt_eq_toNat_cond m.toBitVec
  have habs : m.toInt.natAbs < 2 ^ 64 := by
    rw [hint]
    split <;> omega
  unfold formatInt
  split
  · next hneg =>
    refine ⟨_, numeral_neg_decimal habs, UInt32.toNat_inj.mp ?_⟩
    rw [UInt64.toNat_toUInt32, UInt64.toNat_sub, UInt64.toNat_ofNat_of_lt' habs, hint]
    rw [hint] at hneg
    split at hneg
    · omega
    · next hlarge =>
      rw [if_neg hlarge]
      show (2 ^ 64 - _ + 0) % 2 ^ 64 % 2 ^ 32 = _
      omega
  · next hpos =>
    refine ⟨_, numeral_decimal habs, UInt32.toNat_inj.mp ?_⟩
    rw [UInt64.toNat_toUInt32, UInt64.toNat_ofNat_of_lt' habs, hint]
    rw [hint] at hpos
    split at hpos
    · next hsmall =>
      rw [if_pos hsmall]
      omega
    · omega

/-! ## Writers and readers -/

/-- The string in an array of `size` bytes that holds a NUL. -/
structure CString.StoredIn (size : ℕ) (s : Bytes) : Prop where
  length_lt : s.length < size
  noNul : 0 ∉ s

/-- What a reader makes of a buffer that holds a text and its NUL. -/
def readBuffer {α : Type} (fromJson : Bytes → α) (text : Bytes) : Option α :=
  (CString.ofArray (text ++ [0])).map fromJson

theorem takeWhile_of_noNul {text : Bytes} (h : 0 ∉ text) : text.takeWhile (· ≠ 0) = text :=
  List.takeWhile_eq_self_iff.mpr fun _ hb => decide_eq_true fun heq => h (heq ▸ hb)

theorem readBuffer_of_noNul {α : Type} (fromJson : Bytes → α) {text : Bytes} (h : 0 ∉ text) :
    readBuffer fromJson text = some (fromJson text) := by
  rw [readBuffer, CString.ofArray_append h]
  rfl

/-- `eipc_header_to_json`. -/
def eipcHeaderToJson (hdr : EipcHeader) (bufSize : ℕ) : Except EipcStatus Bytes :=
  printed .buffer bufSize
    (ascii "\x7b\"service_id\":\"" ++ hdr.serviceId ++ ascii "\","
      ++ ascii "\"session_id\":\"" ++ hdr.sessionId ++ ascii "\","
      ++ ascii "\"request_id\":\"" ++ hdr.requestId ++ ascii "\","
      ++ ascii "\"sequence\":" ++ Json.decimal hdr.sequence.toNat ++ ascii ","
      ++ ascii "\"timestamp\":\"" ++ hdr.timestamp ++ ascii "\","
      ++ ascii "\"priority\":" ++ Json.decimal hdr.priority.toNat ++ ascii ","
      ++ ascii "\"capability\":\"" ++ hdr.capability ++ ascii "\","
      ++ ascii "\"payload_format\":" ++ Json.decimal hdr.payloadFormat.toNat ++ ascii "\x7d")

/-- `eipc_ack_t`, its strings without their NULs. -/
structure EipcAck where
  requestId : Bytes
  status : Bytes
  error : Bytes
  deriving DecidableEq

/-- `eipc_chat_request_t`. -/
structure EipcChatRequest where
  sessionId : Bytes
  userPrompt : Bytes
  model : Bytes
  maxTokens : Int32
  deriving DecidableEq

/-- `eipc_chat_response_t`. -/
structure EipcChatResponse where
  sessionId : Bytes
  response : Bytes
  model : Bytes
  tokensUsed : Int32
  deriving DecidableEq

/-! The sizes of arrays without a name of their own. -/

def eipcStatusMax : ℕ := 32
def eipcErrorMax : ℕ := 256
def eipcModelMax : ℕ := 64

/-- `eipc_ack_to_json`. The escaped error goes through a buffer of 512 bytes. -/
def eipcAckToJson (ack : EipcAck) (bufSize : ℕ) : Except EipcStatus Bytes :=
  printed .buffer bufSize
    (ascii "\x7b\"request_id\":\"" ++ ack.requestId ++ ascii "\","
      ++ ascii "\"status\":\"" ++ ack.status ++ ascii "\","
      ++ ascii "\"error\":\"" ++ jsonEscape 512 ack.error ++ ascii "\"\x7d")

/-- `eipc_ack_from_json`. -/
def eipcAckFromJson (json : Bytes) : EipcAck where
  requestId := (jsonFindString json (ascii "request_id") eipcRequestIdMax).getD []
  status := (jsonFindString json (ascii "status") eipcStatusMax).getD []
  error := (jsonFindString json (ascii "error") eipcErrorMax).getD []

/-- The format that both chat messages are printed with: a session, a text, a model and a number
of tokens. -/
def chatText (textKey tokensKey sessionId text model : Bytes) (tokens : Int32) : Bytes :=
  ascii "\x7b\"session_id\":\"" ++ sessionId ++ ascii "\","
    ++ ascii "\"" ++ textKey ++ ascii "\":\"" ++ text ++ ascii "\","
    ++ ascii "\"model\":\"" ++ model ++ ascii "\","
    ++ ascii "\"" ++ tokensKey ++ ascii "\":" ++ formatInt tokens ++ ascii "\x7d"

/-- `eipc_chat_request_to_json`. -/
def eipcChatRequestToJson (req : EipcChatRequest) (bufSize : ℕ) : Except EipcStatus Bytes :=
  printed .frameTooLarge bufSize (chatText (ascii "user_prompt") (ascii "max_tokens") req.sessionId
    req.userPrompt req.model req.maxTokens)

/-- `eipc_chat_request_from_json`. -/
def eipcChatRequestFromJson (json : Bytes) : EipcChatRequest where
  sessionId := (jsonFindString json (ascii "session_id") eipcSessionIdMax).getD []
  userPrompt := (jsonFindString json (ascii "user_prompt") EipcFrame.eipcMaxPayload).getD []
  model := (jsonFindString json (ascii "model") eipcModelMax).getD []
  maxTokens := (jsonFindInt json (ascii "max_tokens")).getD 0

/-- `eipc_chat_response_to_json`. -/
def eipcChatResponseToJson (resp : EipcChatResponse) (bufSize : ℕ) : Except EipcStatus Bytes :=
  printed .frameTooLarge bufSize (chatText (ascii "response") (ascii "tokens_used") resp.sessionId
    resp.response resp.model resp.tokensUsed)

/-- `eipc_chat_response_from_json`. -/
def eipcChatResponseFromJson (json : Bytes) : EipcChatResponse where
  sessionId := (jsonFindString json (ascii "session_id") eipcSessionIdMax).getD []
  response := (jsonFindString json (ascii "response") EipcFrame.eipcMaxPayload).getD []
  model := (jsonFindString json (ascii "model") eipcModelMax).getD []
  tokensUsed := (jsonFindInt json (ascii "tokens_used")).getD 0

/-! ## The fields of the four structures -/

/-- A number that is printed from and stored to a byte. -/
def JsonField.uint8 (key : Bytes) (value : UInt8) : JsonField :=
  .num key (Json.decimal value.toNat) (fun v => v.toUInt32.toInt32.toUInt32.toUInt8.toUInt64)
    value.toUInt64

/-- A number that is printed from and stored to an `int`; the value is its bit pattern. -/
def JsonField.int (key : Bytes) (value : Int32) : JsonField :=
  .num key (formatInt value) (fun v => v.toUInt32.toUInt64) value.toUInt32.toUInt64

/-- A string that is escaped when it is written. -/
def JsonField.escaped (key : Bytes) (size : ℕ) (value : Bytes) : JsonField :=
  .str key size value (jsonEscaped value) (EscapedKept size value)

open JsonField

namespace EipcHeader

/-- Every string is in its array. -/
structure WellFormed (h : EipcHeader) : Prop where
  serviceId : StoredIn eipcServiceIdMax h.serviceId
  sessionId : StoredIn eipcSessionIdMax h.sessionId
  requestId : StoredIn eipcRequestIdMax h.requestId
  timestamp : StoredIn eipcTimestampMax h.timestamp
  capability : StoredIn eipcCapabilityMax h.capability

/-- The fields, in the order in which they are written. -/
def fields (h : EipcHeader) : List JsonField :=
  [raw (ascii "service_id") eipcServiceIdMax h.serviceId,
    raw (ascii "session_id") eipcSessionIdMax h.sessionId,
    raw (ascii "request_id") eipcRequestIdMax h.requestId,
    .num (ascii "sequence") (Json.decimal h.sequence.toNat) id h.sequence,
    raw (ascii "timestamp") eipcTimestampMax h.timestamp,
    uint8 (ascii "priority") h.priority,
    raw (ascii "capability") eipcCapabilityMax h.capability,
    uint8 (ascii "payload_format") h.payloadFormat]

end EipcHeader

namespace EipcAck

/-- Every string is in its array. -/
structure WellFormed (a : EipcAck) : Prop where
  requestId : StoredIn eipcRequestIdMax a.requestId
  status : StoredIn eipcStatusMax a.status
  error : StoredIn eipcErrorMax a.error

/-- The fields, in the order in which they are written. -/
def fields (a : EipcAck) : List JsonField :=
  [raw (ascii "request_id") eipcRequestIdMax a.requestId,
    raw (ascii "status") eipcStatusMax a.status,
    JsonField.escaped (ascii "error") eipcErrorMax a.error]

end EipcAck

namespace EipcChatRequest

/-- Every string is in its array. -/
structure WellFormed (r : EipcChatRequest) : Prop where
  sessionId : StoredIn eipcSessionIdMax r.sessionId
  userPrompt : StoredIn EipcFrame.eipcMaxPayload r.userPrompt
  model : StoredIn eipcModelMax r.model

/-- The fields, in the order in which they are written. -/
def fields (r : EipcChatRequest) : List JsonField :=
  [raw (ascii "session_id") eipcSessionIdMax r.sessionId,
    raw (ascii "user_prompt") EipcFrame.eipcMaxPayload r.userPrompt,
    raw (ascii "model") eipcModelMax r.model, int (ascii "max_tokens") r.maxTokens]

end EipcChatRequest

namespace EipcChatResponse

/-- Every string is in its array. -/
structure WellFormed (r : EipcChatResponse) : Prop where
  sessionId : StoredIn eipcSessionIdMax r.sessionId
  response : StoredIn EipcFrame.eipcMaxPayload r.response
  model : StoredIn eipcModelMax r.model

/-- The fields, in the order in which they are written. -/
def fields (r : EipcChatResponse) : List JsonField :=
  [raw (ascii "session_id") eipcSessionIdMax r.sessionId,
    raw (ascii "response") EipcFrame.eipcMaxPayload r.response,
    raw (ascii "model") eipcModelMax r.model, int (ascii "tokens_used") r.tokensUsed]

end EipcChatResponse

/-! ## Round trips -/

/-- A field that is as assumed, with a key that the search takes as it is and without NULs. -/
structure JsonField.Writable (f : JsonField) : Prop where
  plain : PlainKey f.member.1
  regular : f.Regular
  noNul : 0 ∉ f.member.2.text

theorem notMem_tailText {ms : List Member} (h : ∀ m ∈ ms, 0 ∉ Member.text m) : 0 ∉ tailText ms := by
  induction ms with
  | nil => decide
  | cons m ms ih =>
    rw [List.forall_mem_cons] at h
    rw [tailText, List.mem_append, List.mem_cons, not_or, not_or]
    exact ⟨⟨by decide, h.1⟩, ih h.2⟩

theorem notMem_objectText {ms : List Member} (h : ∀ m ∈ ms, 0 ∉ Member.text m) :
    0 ∉ objectText ms := by
  cases ms with
  | nil => decide
  | cons m ms =>
    rw [List.forall_mem_cons] at h
    rw [objectText, List.mem_append, List.mem_cons, not_or, not_or]
    exact ⟨⟨by decide, h.1⟩, notMem_tailText h.2⟩

theorem Member.notMem_text {m : Member} (hkey : PlainKey m.1) (htext : 0 ∉ m.2.text) :
    0 ∉ Member.text m := by
  simp only [Member.text, List.cons_append, List.mem_cons, List.mem_append, not_or]
  exact ⟨by decide, hkey.notMem rfl, by decide, by decide, htext⟩

/-- **The round trip of a structure**, for a reader that gives a value back exactly when it gives
every one of its fields back. -/
theorem readBuffer_eq_iff {α : Type} {fs : List JsonField} {fromJson : Bytes → α} {v : α}
    (hfs : ∀ f ∈ fs, f.Writable) (hnodup : (fs.map fun f => f.member.1).Nodup)
    (hread : fromJson (objectText (fs.map member)) = v
      ↔ ∀ f ∈ fs, f.ReadsBack (objectText (fs.map member))) :
    readBuffer fromJson (objectText (fs.map member)) = some v ↔ Recoverable [] fs := by
  have hplain : ∀ m ∈ fs.map member, PlainKey m.1 :=
    List.forall_mem_map.mpr fun f hf => (hfs f hf).plain
  have htexts : ∀ m ∈ fs.map member, 0 ∉ Member.text m :=
    List.forall_mem_map.mpr fun f hf => Member.notMem_text (hfs f hf).plain (hfs f hf).noNul
  have hkeys : ((fs.map member).map Prod.fst).Nodup := by
    rwa [List.map_map]
  rw [readBuffer_of_noNul fromJson (notMem_objectText htexts), Option.some.injEq, hread]
  exact readsBack_iff (fun f hf => (hfs f hf).regular) hplain hkeys (List.forall_mem_nil _)

/-! One kind of field after the other. -/

theorem notMem_quoted {body : Bytes} (h : 0 ∉ body) : 0 ∉ (Written.quoted body).text := by
  simp only [Written.text, List.cons_append, List.mem_cons, List.mem_append, not_or,
    List.not_mem_nil, not_false_iff, and_true]
  exact ⟨by decide, h, by decide⟩

theorem notMem_decimal (n : ℕ) : 0 ∉ Json.decimal n := fun hmem =>
  absurd (Json.isDigit_of_mem_decimal n _ hmem) (by decide)

theorem notMem_formatInt (m : Int32) : 0 ∉ formatInt m := by
  unfold formatInt
  split
  · rw [List.mem_cons, not_or]
    exact ⟨by decide, notMem_decimal _⟩
  · exact notMem_decimal _

theorem ne_zero_of_jsonEscapeLetter {b e : UInt8} (h : jsonEscapeLetter b = some e) : e ≠ 0 := by
  unfold jsonEscapeLetter at h
  split_ifs at h with hself
  · rw [← Option.some.inj h]
    rcases hself with rfl | rfl <;> decide
  all_goals
    rw [← Option.some.inj h]
    decide

theorem notMem_jsonEscaped {s : Bytes} (h : 0 ∉ s) : 0 ∉ jsonEscaped s := by
  intro hmem
  obtain ⟨b, hb, hmem⟩ := List.mem_flatMap.mp hmem
  cases hletter : jsonEscapeLetter b with
  | none =>
    rw [jsonEscapeByte_of_none hletter, List.mem_singleton] at hmem
    exact h (hmem ▸ hb)
  | some e =>
    rw [jsonEscapeByte_of_some hletter] at hmem
    rcases List.mem_pair.mp hmem with heq | heq
    · exact absurd heq (by decide)
    · exact ne_zero_of_jsonEscapeLetter hletter heq.symm

theorem CString.StoredIn.le {size : ℕ} {s : Bytes} (h : StoredIn size s) : s.length ≤ size - 1 :=
  Nat.le_sub_one_of_lt h.length_lt

namespace JsonField

variable {key : Bytes} (hkey : PlainKey key)

include hkey

theorem Writable.raw {size : ℕ} {value : Bytes} (h : StoredIn size value) :
    (raw key size value).Writable :=
  ⟨hkey, regular_raw h.le, notMem_quoted h.noNul⟩

theorem Writable.escaped {size : ℕ} {value : Bytes} (h : StoredIn size value) :
    (escaped key size value).Writable := by
  refine ⟨hkey, ⟨fun t => ?_, fun _ => ?_, ?_⟩, notMem_quoted (notMem_jsonEscaped h.noNul)⟩
  · rw [jsonScanString_of_closed (literalEnd_jsonEscaped value)]
    exact take_jsonEscaped_eq_iff h.le
  · rw [literalEnd_jsonEscaped]
    decide
  · rintro rfl
    exact .inl (List.forall_mem_nil _)

theorem Writable.uint64 (n : UInt64) : (num key (Json.decimal n.toNat) id n).Writable :=
  ⟨hkey, ⟨rfl, _, numeral_decimal n.toNat_lt, UInt64.ofNat_toNat⟩, notMem_decimal _⟩

theorem Writable.uint8 (value : UInt8) : (uint8 key value).Writable := by
  have hvalue := value.toNat_lt
  have hlt : value.toNat < 2 ^ 64 := hvalue.trans (by decide)
  refine ⟨hkey, ⟨rfl, _, numeral_decimal hlt, UInt64.toNat_inj.mp ?_⟩, notMem_decimal _⟩
  show UInt64.toNat (UInt64.ofNat value.toNat) % 2 ^ 32 % 2 ^ 8 = value.toNat
  rw [UInt64.toNat_ofNat_of_lt' hlt]
  omega

theorem Writable.int (value : Int32) : (int key value).Writable := by
  obtain ⟨n, hn, heq⟩ := numeral_formatInt value
  exact ⟨hkey, ⟨rfl, n, hn, congrArg UInt32.toUInt64 heq⟩, notMem_formatInt value⟩

end JsonField

theorem getD_jsonFindInt (json key : Bytes) :
    (jsonFindInt json key).getD 0 = ((jsonFindUint64 json key).getD 0).toUInt32.toInt32 := by
  rw [jsonFindInt]
  cases jsonFindUint64 json key <;> rfl

theorem uint8_readsBack_iff {json key : Bytes} {value : UInt8} :
    ((jsonFindInt json key).getD 0).toUInt32.toUInt8 = value
      ↔ (uint8 key value).ReadsBack json := by
  rw [getD_jsonFindInt]
  exact UInt8.toUInt64_inj.symm

theorem int_readsBack_iff {json key : Bytes} {value : Int32} :
    (jsonFindInt json key).getD 0 = value ↔ (int key value).ReadsBack json := by
  have hsigned : ∀ n : UInt32, n.toInt32 = value ↔ n = value.toUInt32 :=
    fun n => ⟨fun h => congrArg Int32.toUInt32 h, fun h => congrArg UInt32.toInt32 h⟩
  rw [getD_jsonFindInt, hsigned]
  exact UInt32.toUInt64_inj.symm

/-- An escaped error always fits its buffer. -/
theorem jsonEscape_error {s : Bytes} (h : s.length < eipcErrorMax) :
    jsonEscape 512 s = jsonEscaped s := by
  have hlen := length_jsonEscaped_le s
  refine jsonEscapeFrom_of_lt ?_
  have : eipcErrorMax = 256 := rfl
  omega

theorem EipcHeader.writable_fields {h : EipcHeader} (hw : h.WellFormed) :
    ∀ f ∈ h.fields, f.Writable := by
  simp only [EipcHeader.fields, List.forall_mem_cons]
  refine ⟨.raw ?_ hw.serviceId, .raw ?_ hw.sessionId, .raw ?_ hw.requestId, .uint64 ?_ _,
    .raw ?_ hw.timestamp, .uint8 ?_ _, .raw ?_ hw.capability, .uint8 ?_ _, List.forall_mem_nil _⟩
  all_goals exact ⟨by decide, by decide, by decide⟩

theorem EipcAck.writable_fields {a : EipcAck} (hw : a.WellFormed) : ∀ f ∈ a.fields, f.Writable := by
  simp only [EipcAck.fields, List.forall_mem_cons]
  refine ⟨.raw ?_ hw.requestId, .raw ?_ hw.status, .escaped ?_ hw.error, List.forall_mem_nil _⟩
  all_goals exact ⟨by decide, by decide, by decide⟩

theorem EipcChatRequest.writable_fields {r : EipcChatRequest} (hw : r.WellFormed) :
    ∀ f ∈ r.fields, f.Writable := by
  simp only [EipcChatRequest.fields, List.forall_mem_cons]
  refine ⟨.raw ?_ hw.sessionId, .raw ?_ hw.userPrompt, .raw ?_ hw.model, .int ?_ _,
    List.forall_mem_nil _⟩
  all_goals exact ⟨by decide, by decide, by decide⟩

theorem EipcChatResponse.writable_fields {r : EipcChatResponse} (hw : r.WellFormed) :
    ∀ f ∈ r.fields, f.Writable := by
  simp only [EipcChatResponse.fields, List.forall_mem_cons]
  refine ⟨.raw ?_ hw.sessionId, .raw ?_ hw.response, .raw ?_ hw.model, .int ?_ _,
    List.forall_mem_nil _⟩
  all_goals exact ⟨by decide, by decide, by decide⟩

theorem eipcHeaderFromJson_eq_iff (h : EipcHeader) (json : Bytes) :
    eipcHeaderFromJson json = h ↔ ∀ f ∈ h.fields, f.ReadsBack json := by
  obtain ⟨serviceId, sessionId, requestId, sequence, timestamp, priority, capability, format⟩ := h
  simp only [eipcHeaderFromJson, EipcHeader.mk.injEq, EipcHeader.fields, List.forall_mem_cons,
    uint8_readsBack_iff, List.not_mem_nil, false_imp_iff, implies_true, and_true]
  rfl

theorem eipcAckFromJson_eq_iff (a : EipcAck) (json : Bytes) :
    eipcAckFromJson json = a ↔ ∀ f ∈ a.fields, f.ReadsBack json := by
  obtain ⟨requestId, status, error⟩ := a
  simp only [eipcAckFromJson, EipcAck.mk.injEq, EipcAck.fields, List.forall_mem_cons,
    List.not_mem_nil, false_imp_iff, implies_true, and_true]
  rfl

theorem eipcChatRequestFromJson_eq_iff (r : EipcChatRequest) (json : Bytes) :
    eipcChatRequestFromJson json = r ↔ ∀ f ∈ r.fields, f.ReadsBack json := by
  obtain ⟨sessionId, userPrompt, model, maxTokens⟩ := r
  simp only [eipcChatRequestFromJson, EipcChatRequest.mk.injEq, EipcChatRequest.fields,
    List.forall_mem_cons, int_readsBack_iff, List.not_mem_nil, false_imp_iff, implies_true,
    and_true]
  rfl

theorem eipcChatResponseFromJson_eq_iff (r : EipcChatResponse) (json : Bytes) :
    eipcChatResponseFromJson json = r ↔ ∀ f ∈ r.fields, f.ReadsBack json := by
  obtain ⟨sessionId, response, model, tokensUsed⟩ := r
  simp only [eipcChatResponseFromJson, EipcChatResponse.mk.injEq, EipcChatResponse.fields,
    List.forall_mem_cons, int_readsBack_iff, List.not_mem_nil, false_imp_iff, implies_true,
    and_true]
  rfl

/-! The pieces of the formats, split at the keys. -/

theorem ascii_comma : ascii "," = [0x2c] := by decide

theorem ascii_quote_comma : ascii "\"," = [0x22, 0x2c] := by decide

theorem ascii_close : ascii "\x7d" = [0x7d] := by decide

theorem ascii_quote_close : ascii "\"\x7d" = [0x22, 0x7d] := by decide

theorem eipcHeaderToJson_eq_ok {h : EipcHeader} {n : ℕ} {out : Bytes}
    (hok : eipcHeaderToJson h n = .ok out) : out = objectText (h.fields.map member) := by
  have hservice : ascii "\x7b\"service_id\":\""
      = 0x7b :: 0x22 :: ascii "service_id" ++ [0x22, 0x3a, 0x22] := by decide
  have hsession : ascii "\"session_id\":\""
      = 0x22 :: ascii "session_id" ++ [0x22, 0x3a, 0x22] := by decide
  have hrequest : ascii "\"request_id\":\""
      = 0x22 :: ascii "request_id" ++ [0x22, 0x3a, 0x22] := by decide
  have hsequence : ascii "\"sequence\":" = 0x22 :: ascii "sequence" ++ [0x22, 0x3a] := by decide
  have htimestamp : ascii "\"timestamp\":\""
      = 0x22 :: ascii "timestamp" ++ [0x22, 0x3a, 0x22] := by decide
  have hpriority : ascii "\"priority\":" = 0x22 :: ascii "priority" ++ [0x22, 0x3a] := by decide
  have hcapability : ascii "\"capability\":\""
      = 0x22 :: ascii "capability" ++ [0x22, 0x3a, 0x22] := by decide
  have hformat : ascii "\"payload_format\":"
      = 0x22 :: ascii "payload_format" ++ [0x22, 0x3a] := by decide
  obtain ⟨-, heq⟩ := printed_eq_ok_iff.mp hok
  rw [heq]
  simp only [hservice, hsession, hrequest, hsequence, htimestamp, hpriority, hcapability, hformat,
    ascii_comma, ascii_quote_comma, ascii_close, EipcHeader.fields, raw, uint8, List.map_cons,
    List.map_nil, member, objectText, tailText, Member.text, Written.text, List.append_assoc,
    List.cons_append, List.nil_append]

theorem eipcAckToJson_eq_ok {a : EipcAck} (ha : a.WellFormed) {n : ℕ} {out : Bytes}
    (hok : eipcAckToJson a n = .ok out) : out = objectText (a.fields.map member) := by
  have hrequest : ascii "\x7b\"request_id\":\""
      = 0x7b :: 0x22 :: ascii "request_id" ++ [0x22, 0x3a, 0x22] := by decide
  have hstatus : ascii "\"status\":\"" = 0x22 :: ascii "status" ++ [0x22, 0x3a, 0x22] := by decide
  have herror : ascii "\"error\":\"" = 0x22 :: ascii "error" ++ [0x22, 0x3a, 0x22] := by decide
  rw [eipcAckToJson, jsonEscape_error ha.error.length_lt] at hok
  obtain ⟨-, heq⟩ := printed_eq_ok_iff.mp hok
  rw [heq]
  simp only [hrequest, hstatus, herror, ascii_quote_comma, ascii_quote_close, EipcAck.fields, raw,
    JsonField.escaped, List.map_cons, List.map_nil, member, objectText, tailText, Member.text,
    Written.text, List.append_assoc, List.cons_append, List.nil_append]

theorem chatText_eq (textKey tokensKey sessionId text model : Bytes) (tokens : Int32) :
    chatText textKey tokensKey sessionId text model tokens
      = objectText [(ascii "session_id", .quoted sessionId), (textKey, .quoted text),
        (ascii "model", .quoted model), (tokensKey, .bare (formatInt tokens))] := by
  have hsession : ascii "\x7b\"session_id\":\""
      = 0x7b :: 0x22 :: ascii "session_id" ++ [0x22, 0x3a, 0x22] := by decide
  have hmodel : ascii "\"model\":\"" = 0x22 :: ascii "model" ++ [0x22, 0x3a, 0x22] := by decide
  have hquote : ascii "\"" = [0x22] := by decide
  have hopen : ascii "\":\"" = [0x22, 0x3a, 0x22] := by decide
  have hcolon : ascii "\":" = [0x22, 0x3a] := by decide
  simp only [chatText, hsession, hmodel, hquote, hopen, hcolon, ascii_quote_comma, ascii_close,
    objectText, tailText, Member.text, Written.text, List.append_assoc, List.cons_append,
    List.nil_append]

theorem EipcHeader.readBuffer_iff {h : EipcHeader} (hw : h.WellFormed) {n : ℕ} {out : Bytes}
    (hok : eipcHeaderToJson h n = .ok out) :
    readBuffer eipcHeaderFromJson out = some h ↔ Recoverable [] h.fields := by
  rw [eipcHeaderToJson_eq_ok hok]
  refine readBuffer_eq_iff (writable_fields hw) ?_ (eipcHeaderFromJson_eq_iff h _)
  show [ascii "service_id", ascii "session_id", ascii "request_id", ascii "sequence",
    ascii "timestamp", ascii "priority", ascii "capability", ascii "payload_format"].Nodup
  decide

theorem EipcAck.readBuffer_iff {a : EipcAck} (hw : a.WellFormed) {n : ℕ} {out : Bytes}
    (hok : eipcAckToJson a n = .ok out) :
    readBuffer eipcAckFromJson out = some a ↔ Recoverable [] a.fields := by
  rw [eipcAckToJson_eq_ok hw hok]
  refine readBuffer_eq_iff (writable_fields hw) ?_ (eipcAckFromJson_eq_iff a _)
  show [ascii "request_id", ascii "status", ascii "error"].Nodup
  decide

theorem EipcChatRequest.readBuffer_iff {r : EipcChatRequest} (hw : r.WellFormed) {n : ℕ}
    {out : Bytes} (hok : eipcChatRequestToJson r n = .ok out) :
    readBuffer eipcChatRequestFromJson out = some r ↔ Recoverable [] r.fields := by
  obtain ⟨-, heq⟩ := printed_eq_ok_iff.mp hok
  rw [heq, chatText_eq]
  refine readBuffer_eq_iff (writable_fields hw) ?_ (eipcChatRequestFromJson_eq_iff r _)
  show [ascii "session_id", ascii "user_prompt", ascii "model", ascii "max_tokens"].Nodup
  decide

theorem EipcChatResponse.readBuffer_iff {r : EipcChatResponse} (hw : r.WellFormed) {n : ℕ}
    {out : Bytes} (hok : eipcChatResponseToJson r n = .ok out) :
    readBuffer eipcChatResponseFromJson out = some r ↔ Recoverable [] r.fields := by
  obtain ⟨-, heq⟩ := printed_eq_ok_iff.mp hok
  rw [heq, chatText_eq]
  refine readBuffer_eq_iff (writable_fields hw) ?_ (eipcChatResponseFromJson_eq_iff r _)
  show [ascii "session_id", ascii "response", ascii "model", ascii "tokens_used"].Nodup
  decide

/-- **Round trips of the C SDK's JSON.** For each of the four structures, with its strings in their
arrays, what was written is read back exactly when every string that is written as it is has no
quote of its own and no backslash that takes the closing quote with it (unless it fills its
array), the error of an acknowledgement needs no escape (or fills its array and needs them for
backslashes at its end only), and a field whose name an earlier string ends in is empty or zero. -/
theorem json_roundTrip_iff (bufSize : ℕ) (out : Bytes) :
    (∀ hdr : EipcHeader, hdr.WellFormed → eipcHeaderToJson hdr bufSize = .ok out →
      (readBuffer eipcHeaderFromJson out = some hdr ↔ Recoverable [] hdr.fields))
    ∧ (∀ ack : EipcAck, ack.WellFormed → eipcAckToJson ack bufSize = .ok out →
      (readBuffer eipcAckFromJson out = some ack ↔ Recoverable [] ack.fields))
    ∧ (∀ req : EipcChatRequest, req.WellFormed → eipcChatRequestToJson req bufSize = .ok out →
      (readBuffer eipcChatRequestFromJson out = some req ↔ Recoverable [] req.fields))
    ∧ (∀ resp : EipcChatResponse, resp.WellFormed → eipcChatResponseToJson resp bufSize = .ok out →
      (readBuffer eipcChatResponseFromJson out = some resp ↔ Recoverable [] resp.fields)) :=
  ⟨fun _ hw hok => EipcHeader.readBuffer_iff hw hok,
    fun _ hw hok => EipcAck.readBuffer_iff hw hok,
    fun _ hw hok => EipcChatRequest.readBuffer_iff hw hok,
    fun _ hw hok => EipcChatResponse.readBuffer_iff hw hok⟩

/-- One of each, without anything that needs an escape. -/
theorem json_roundTrip_plain :
    (∃ out, eipcHeaderToJson
        ⟨ascii "svc", ascii "s1", ascii "r1", 7, ascii "t", 1, ascii "ui:control", 0⟩ 1024 = .ok out
      ∧ readBuffer eipcHeaderFromJson out
        = some ⟨ascii "svc", ascii "s1", ascii "r1", 7, ascii "t", 1, ascii "ui:control", 0⟩)
    ∧ (∃ out, eipcAckToJson ⟨ascii "r1", ascii "failed", ascii "no such tool"⟩ 4096 = .ok out
      ∧ readBuffer eipcAckFromJson out = some ⟨ascii "r1", ascii "failed", ascii "no such tool"⟩)
    ∧ (∃ out, eipcChatRequestToJson
        ⟨ascii "sess-123", ascii "hello world", ascii "llama3", 512⟩ 4096 = .ok out
      ∧ readBuffer eipcChatRequestFromJson out
        = some ⟨ascii "sess-123", ascii "hello world", ascii "llama3", 512⟩)
    ∧ ∃ out, eipcChatResponseToJson
        ⟨ascii "sess-123", ascii "hi", ascii "llama3", -1⟩ 4096 = .ok out
      ∧ readBuffer eipcChatResponseFromJson out
        = some ⟨ascii "sess-123", ascii "hi", ascii "llama3", -1⟩ := by
  refine ⟨⟨_, printed_eq_ok_iff.mpr ⟨by decide +kernel, rfl⟩, ?_⟩,
    ⟨_, printed_eq_ok_iff.mpr ⟨by decide +kernel, rfl⟩, ?_⟩,
    ⟨_, printed_eq_ok_iff.mpr ⟨by decide +kernel, rfl⟩, ?_⟩,
    _, printed_eq_ok_iff.mpr ⟨by decide +kernel, rfl⟩, ?_⟩
  · refine ((json_roundTrip_iff 1024 _).1 _ ⟨⟨by decide, by decide⟩, ⟨by decide, by decide⟩,
      ⟨by decide, by decide⟩, ⟨by decide, by decide⟩, ⟨by decide, by decide⟩⟩
      (printed_eq_ok_iff.mpr ⟨by decide +kernel, rfl⟩)).mpr
        (recoverable_of_kept ?_ (by decide +kernel))
    refine List.forall_mem_cons.mpr ⟨.inl ?_, List.forall_mem_cons.mpr ⟨.inl ?_,
      List.forall_mem_cons.mpr ⟨.inl ?_, List.forall_mem_cons.mpr ⟨trivial,
      List.forall_mem_cons.mpr ⟨.inl ?_, List.forall_mem_cons.mpr ⟨trivial,
      List.forall_mem_cons.mpr ⟨.inl ?_, List.forall_mem_singleton.mpr trivial⟩⟩⟩⟩⟩⟩⟩
    all_goals decide +kernel
  · refine ((json_roundTrip_iff 4096 _).2.1 _ ⟨⟨by decide, by decide⟩, ⟨by decide, by decide⟩,
      ⟨by decide, by decide⟩⟩ (printed_eq_ok_iff.mpr ⟨by decide +kernel, rfl⟩)).mpr
        (recoverable_of_kept ?_ (by decide +kernel))
    refine List.forall_mem_cons.mpr ⟨.inl ?_, List.forall_mem_cons.mpr ⟨.inl ?_,
      List.forall_mem_singleton.mpr (.inl ?_)⟩⟩
    all_goals decide +kernel
  · refine ((json_roundTrip_iff 4096 _).2.2.1 _ ⟨⟨by decide, by decide⟩, ⟨by decide, by decide⟩,
      ⟨by decide, by decide⟩⟩ (printed_eq_ok_iff.mpr ⟨by decide +kernel, rfl⟩)).mpr
        (recoverable_of_kept ?_ (by decide +kernel))
    refine List.forall_mem_cons.mpr ⟨.inl ?_, List.forall_mem_cons.mpr ⟨.inl ?_,
      List.forall_mem_cons.mpr ⟨.inl ?_, List.forall_mem_singleton.mpr trivial⟩⟩⟩
    all_goals decide +kernel
  · refine ((json_roundTrip_iff 4096 _).2.2.2 _ ⟨⟨by decide, by decide⟩, ⟨by decide, by decide⟩,
      ⟨by decide, by decide⟩⟩ (printed_eq_ok_iff.mpr ⟨by decide +kernel, rfl⟩)).mpr
        (recoverable_of_kept ?_ (by decide +kernel))
    refine List.forall_mem_cons.mpr ⟨.inl ?_, List.forall_mem_cons.mpr ⟨.inl ?_,
      List.forall_mem_cons.mpr ⟨.inl ?_, List.forall_mem_singleton.mpr trivial⟩⟩⟩
    all_goals decide +kernel

/-- A prompt with a quote in it puts a model of its own before the request's. -/
theorem json_roundTrip_injects :
    (EipcChatRequest.mk (ascii "s1") (ascii "hi\",\"model\":\"other") (ascii "small") 64).WellFormed
    ∧ eipcChatRequestToJson ⟨ascii "s1", ascii "hi\",\"model\":\"other", ascii "small", 64⟩ 4096
      = .ok (ascii "\x7b\"session_id\":\"s1\",\"user_prompt\":\"hi\","
        ++ ascii "\"model\":\"other\",\"model\":\"small\",\"max_tokens\":64\x7d")
    ∧ readBuffer eipcChatRequestFromJson (ascii "\x7b\"session_id\":\"s1\",\"user_prompt\":\"hi\","
        ++ ascii "\"model\":\"other\",\"model\":\"small\",\"max_tokens\":64\x7d")
      = some ⟨ascii "s1", ascii "hi", ascii "other", 64⟩ := by
  refine ⟨⟨⟨by decide, by decide⟩, ⟨by decide, by decide⟩, ⟨by decide, by decide⟩⟩, ?_, ?_⟩
  all_goals decide +kernel
