import Eipc.Message
import Eipc.Sdk.Json

/-!
# A Go header, read by the C SDK

The Go endpoints put `json.Marshal` of a header on the wire, and `eipc_header_from_json` takes its
fields from it. The encoder escapes quotes, backslashes, control characters, the characters that
mean something in HTML and the two line separators; the reader steps over an escape but never
undoes one. So a string comes back when none of its characters is escaped – or when it fills its
array and what is escaped are the backslashes it ends in (`EncodedKept`).

`eipcHeaderFromJson_marshal_iff` says when the whole header comes back. The route, which the reader
does not look at, takes part as well: it can hide the key of the field behind it.
-/

open Bytes CString JsonField

/-! ## Characters and their escapes -/

/-- Neither what ends a literal or starts an escape, nor a NUL. -/
def IsPlain (b : UInt8) : Prop := b ≠ 0x22 ∧ b ≠ 0x5c ∧ b ≠ 0

instance : DecidablePred IsPlain := fun _ => inferInstanceAs (Decidable (_ ∧ _ ∧ _))

/-- A character is written as it is, in plain bytes, or as a backslash, a letter and plain
bytes. -/
def Escaped (raw text : Bytes) : Prop :=
  (text = raw ∧ ∀ b ∈ raw, IsPlain b)
    ∨ ∃ e u, text = 0x5c :: e :: u ∧ e ≠ 0 ∧ ∀ b ∈ u, IsPlain b

theorem forall_isPlain {u : Bytes} (h : u.all (fun b => decide (IsPlain b)) = true) :
    ∀ b ∈ u, IsPlain b := fun b hb => of_decide_eq_true (List.all_eq_true.mp h b hb)

theorem isPlain_hexDigit : ∀ n < 16, IsPlain (hexDigit n) := by decide

theorem escaped_escapeByte (b : UInt8) : Escaped [b] (Json.escapeByte b) := by
  unfold Json.escapeByte
  split_ifs with hself hb hf hn hr ht hhex
  · refine .inr ⟨b, [], rfl, ?_, List.forall_mem_nil _⟩
    rcases hself with rfl | rfl <;> decide
  · exact .inr ⟨0x62, [], rfl, by decide, List.forall_mem_nil _⟩
  · exact .inr ⟨0x66, [], rfl, by decide, List.forall_mem_nil _⟩
  · exact .inr ⟨0x6e, [], rfl, by decide, List.forall_mem_nil _⟩
  · exact .inr ⟨0x72, [], rfl, by decide, List.forall_mem_nil _⟩
  · exact .inr ⟨0x74, [], rfl, by decide, List.forall_mem_nil _⟩
  · refine .inr ⟨0x75, [0x30, 0x30, hexDigit (b.toNat / 16), hexDigit (b.toNat % 16)], rfl,
      by decide, ?_⟩
    simp only [List.forall_mem_cons]
    have hlt := b.toNat_lt
    exact ⟨by decide, by decide, isPlain_hexDigit _ (by omega), isPlain_hexDigit _ (by omega),
      List.forall_mem_nil _⟩
  · refine .inl ⟨rfl, List.forall_mem_singleton.mpr
      ⟨fun h => hself (.inr h), fun h => hself (.inl h), ?_⟩⟩
    rintro rfl
    exact hhex (.inl (by decide))

theorem isPlain_of_not_lt {b : UInt8} (h : ¬b < 0x80) : IsPlain b := by
  refine ⟨?_, ?_, ?_⟩ <;> rintro rfl <;> exact h (by decide)

theorem escaped_escapeChar (c : Char) : Escaped (String.utf8EncodeChar c) (Json.escapeChar c) := by
  unfold Json.escapeChar
  split
  · next hone =>
    rw [(Json.utf8EncodeChar_of_ascii hone).1]
    exact escaped_escapeByte c.toUInt8
  · next hmore =>
    unfold Json.escapeRune
    split_ifs
    · exact .inr ⟨0x75, ascii "2028", rfl, by decide, forall_isPlain rfl⟩
    · exact .inr ⟨0x75, ascii "2029", rfl, by decide, forall_isPlain rfl⟩
    · exact .inl ⟨rfl, fun b hb => isPlain_of_not_lt (Json.not_lt_of_mem_utf8EncodeChar hmore b hb)⟩

theorem literalEnd_escaped_append {raw text : Bytes} (h : Escaped raw text) (t : Bytes) :
    literalEnd (text ++ t) = literalEnd t := by
  have hplain : ∀ {u : Bytes}, (∀ b ∈ u, IsPlain b) → literalEnd (u ++ t) = literalEnd t :=
    fun hu => literalEnd_append_of_plain (fun b hb => ⟨(hu b hb).1, (hu b hb).2.1⟩) t
  rcases h with ⟨rfl, hraw⟩ | ⟨e, u, rfl, -, hu⟩
  · exact hplain hraw
  · rw [List.cons_append, List.cons_append, literalEnd_escape, hplain hu]

theorem zero_notMem_escaped {raw text : Bytes} (h : Escaped raw text) : 0 ∉ text := by
  rcases h with ⟨rfl, hraw⟩ | ⟨e, u, rfl, he, hu⟩
  · exact fun hmem => (hraw 0 hmem).2.2 rfl
  · rw [List.mem_cons, List.mem_cons, not_or, not_or]
    exact ⟨by decide, he.symm, fun hmem => (hu 0 hmem).2.2 rfl⟩

/-- The inside of an encoded string ends where it should. -/
theorem literalEnd_escape_eq {s : Bytes} (h : Json.ValidUTF8 s) :
    literalEnd (Json.escape s) = .closed := by
  obtain ⟨cs, rfl⟩ := h
  rw [Json.escape_flatMap]
  induction cs with
  | nil => exact literalEnd_nil
  | cons c cs ih => rw [List.flatMap_cons, literalEnd_escaped_append (escaped_escapeChar c), ih]

theorem zero_notMem_escape {s : Bytes} (h : Json.ValidUTF8 s) : 0 ∉ Json.escape s := by
  obtain ⟨cs, rfl⟩ := h
  rw [Json.escape_flatMap, List.mem_flatMap]
  rintro ⟨c, -, hmem⟩
  exact zero_notMem_escaped (escaped_escapeChar c) hmem

/-- A key is encoded as it is. -/
theorem PlainKey.escape_eq {key : Bytes} (h : PlainKey key) : Json.escape key = key := by
  have hbyte : ∀ b : UInt8, isKeyByte b = true → b < 0x80 ∧ Json.escapeByte b = [b] := by
    decide +kernel
  have hall : ∀ {s : Bytes}, s.all isKeyByte = true → Json.escape s = s := by
    intro s hs
    induction s with
    | nil => rw [Json.escape]
    | cons b s ih =>
      rw [List.all_cons, Bool.and_eq_true] at hs
      obtain ⟨hlt, hself⟩ := hbyte b hs.1
      rw [Json.escape, if_pos hlt, hself, ih hs.2, List.singleton_append]
  exact hall h.all

/-! ## Strings that come back -/

/-- An encoded string comes back: none of its characters is escaped, or it fills its array of
`size` bytes and what is escaped are the backslashes it ends in. -/
def EncodedKept (size : ℕ) (s : Bytes) : Prop :=
  Json.escape s = s
    ∨ s.length = size - 1
      ∧ ∃ u n, Json.ValidUTF8 u ∧ Json.escape u = u ∧ s = u ++ List.replicate n 0x5c

theorem marked_escapeChar : Escape.Marked String.utf8EncodeChar Json.escapeChar 0x5c where
  ne_nil c := by
    intro hnil
    have hlen := String.length_utf8EncodeChar c
    rw [hnil] at hlen
    exact absurd hlen c.utf8Size_pos.ne
  plain_or_marked c := (escaped_escapeChar c).imp And.left fun ⟨e, u, heq, _⟩ => ⟨e :: u, heq⟩
  mark_twice c t h := by
    have hone : c.utf8Size = 1 := by
      by_contra hmore
      exact Json.not_lt_of_mem_utf8EncodeChar hmore 0x5c (h ▸ List.mem_cons_self) (by decide)
    rw [(Json.utf8EncodeChar_of_ascii hone).1] at h
    obtain ⟨hbyte, rfl⟩ := List.cons.inj h
    refine ⟨rfl, ?_⟩
    rw [Json.escapeChar, if_pos hone, hbyte]
    rfl

/-- A text has its characters only. -/
theorem flatMap_utf8EncodeChar_injective :
    Function.Injective fun cs : List Char => cs.flatMap String.utf8EncodeChar := fun _ _ h =>
  String.ofList_injective (String.toByteArray_inj.mp (congrArg List.toByteArray h))

theorem utf8EncodeChar_slash : String.utf8EncodeChar (Char.ofNat 0x5c) = [0x5c] :=
  Json.utf8EncodeChar_ofNat 0x5c (by decide)

theorem take_escape_eq_iff {size : ℕ} {s : Bytes} (hs : Json.ValidUTF8 s)
    (hlen : s.length ≤ size - 1) : (Json.escape s).take (size - 1) = s ↔ EncodedKept size s := by
  obtain ⟨cs, rfl⟩ := hs
  have hself : ∀ cs : List Char, Json.escape (cs.flatMap String.utf8EncodeChar)
      = cs.flatMap String.utf8EncodeChar
        ↔ ∀ c ∈ cs, Json.escapeChar c = String.utf8EncodeChar c := by
    intro cs
    rw [Json.escape_flatMap, Escape.flatMap_eq_iff marked_escapeChar]
  rw [EncodedKept, hself, Json.escape_flatMap, Escape.take_eq_iff marked_escapeChar hlen]
  refine or_congr Iff.rfl (and_congr Iff.rfl ?_)
  constructor
  · rintro ⟨vs, ws, rfl, hvs, hws⟩
    refine ⟨vs.flatMap String.utf8EncodeChar, ws.length, ⟨vs, rfl⟩, (hself vs).mpr hvs, ?_⟩
    rw [List.flatMap_append, (marked_escapeChar.flatMap_marks hws).1]
  · rintro ⟨u, n, ⟨vs, rfl⟩, hvs, heq⟩
    have hmarks : List.replicate n 0x5c
        = (List.replicate n (Char.ofNat 0x5c)).flatMap String.utf8EncodeChar := by
      rw [List.flatMap_replicate, utf8EncodeChar_slash, List.flatten_replicate_singleton]
    rw [hmarks, ← List.flatMap_append] at heq
    refine ⟨vs, _, flatMap_utf8EncodeChar_injective heq, (hself vs).mp hvs, fun c hc => ?_⟩
    rw [List.eq_of_mem_replicate hc, utf8EncodeChar_slash]

/-- A string that is encoded for the wire. -/
def JsonField.encoded (key : Bytes) (size : ℕ) (value : Bytes) : JsonField :=
  .str key size value (Json.escape value) (EncodedKept size value)

theorem JsonField.Writable.encoded {key : Bytes} (hkey : PlainKey key) {size : ℕ} {value : Bytes}
    (hvalue : Json.ValidUTF8 value) (hlen : value.length < size) :
    (encoded key size value).Writable := by
  refine ⟨hkey, ⟨fun t => ?_, fun _ => ?_, ?_⟩, notMem_quoted (zero_notMem_escape hvalue)⟩
  · rw [jsonScanString_of_closed (literalEnd_escape_eq hvalue)]
    exact take_escape_eq_iff hvalue (Nat.le_sub_one_of_lt hlen)
  · rw [literalEnd_escape_eq hvalue]
    decide
  · rintro rfl
    exact .inl (by rw [Json.escape])

/-! ## The header -/

/-- A member of the Go encoder's object, as the C reader sees it. -/
def Json.Value.written : Json.Value → Written
  | .str s => .quoted (Json.escape s)
  | .num n => .bare (Json.decimal n)

theorem writeMember_eq {kv : Bytes × Json.Value} (h : PlainKey kv.1) :
    Json.writeMember kv = Member.text (kv.1, kv.2.written) := by
  rw [Json.writeMember, Json.quote, h.escape_eq, Member.text]
  have hvalue : kv.2.write = kv.2.written.text := by
    cases kv.2 <;> rfl
  rw [hvalue, List.append_assoc, List.singleton_append]

theorem writeObject_eq {kvs : List (Bytes × Json.Value)} (h : ∀ kv ∈ kvs, PlainKey kv.1) :
    Json.writeObject kvs = objectText (kvs.map fun kv => (kv.1, kv.2.written)) := by
  have htail : ∀ {kvs : List (Bytes × Json.Value)}, (∀ kv ∈ kvs, PlainKey kv.1) →
      Json.writeMembers kvs = tailText (kvs.map fun kv => (kv.1, kv.2.written)) := by
    intro kvs h
    induction kvs with
    | nil => rfl
    | cons kv kvs ih =>
      rw [List.forall_mem_cons] at h
      rw [Json.writeMembers, writeMember_eq h.1, ih h.2, List.map_cons, tailText]
  cases kvs with
  | nil => rfl
  | cons kv kvs =>
    rw [List.forall_mem_cons] at h
    rw [Json.writeObject, writeMember_eq h.1, htail h.2, List.map_cons, objectText]

namespace Header

/-- The header that the C SDK has for it. The route is not among what it reads. -/
def toEipc (h : Header) : EipcHeader where
  serviceId := h.serviceID
  sessionId := h.sessionID
  requestId := h.requestID
  sequence := h.sequence
  timestamp := h.timestamp
  priority := h.priority
  capability := h.capability
  payloadFormat := h.payloadFormat

/-- Every string leaves room for the NUL in the array that it goes to. -/
structure FitsArrays (h : Header) : Prop where
  serviceID : h.serviceID.length < eipcServiceIdMax
  sessionID : h.sessionID.length < eipcSessionIdMax
  requestID : h.requestID.length < eipcRequestIdMax
  timestamp : h.timestamp.length < eipcTimestampMax
  capability : h.capability.length < eipcCapabilityMax

/-- The fields that the encoder writes, in its order. -/
def fields (h : Header) : List JsonField :=
  [encoded (ascii "service_id") eipcServiceIdMax h.serviceID,
    encoded (ascii "session_id") eipcSessionIdMax h.sessionID,
    encoded (ascii "request_id") eipcRequestIdMax h.requestID,
    .num (ascii "sequence") (Json.decimal h.sequence.toNat) id h.sequence,
    encoded (ascii "timestamp") eipcTimestampMax h.timestamp,
    JsonField.uint8 (ascii "priority") h.priority]
  ++ (if h.capability = [] then []
    else [encoded (ascii "capability") eipcCapabilityMax h.capability])
  ++ (if h.route = [] then [] else [.unread (ascii "route") (.quoted (Json.escape h.route))])
  ++ [JsonField.uint8 (ascii "payload_format") h.payloadFormat]

theorem map_members (h : Header) :
    h.members.map (fun kv => (kv.1, kv.2.written)) = h.fields.map member := by
  unfold members fields omitEmpty
  split_ifs <;> rfl

theorem writable_fields {h : Header} (hutf : h.ValidUTF8) (hfit : h.FitsArrays) :
    ∀ f ∈ h.fields, f.Writable := by
  have hcapability : ∀ f ∈ (if h.capability = [] then []
      else [encoded (ascii "capability") eipcCapabilityMax h.capability]), f.Writable := by
    split
    · exact List.forall_mem_nil _
    · refine List.forall_mem_singleton.mpr (.encoded ?_ hutf.capability hfit.capability)
      exact ⟨by decide, by decide, by decide⟩
  have hroute : ∀ f ∈ (if h.route = [] then []
      else [JsonField.unread (ascii "route") (.quoted (Json.escape h.route))]), f.Writable := by
    split
    · exact List.forall_mem_nil _
    · have hkey : PlainKey (ascii "route") := ⟨by decide, by decide, by decide⟩
      refine List.forall_mem_singleton.mpr ⟨hkey, ?_, notMem_quoted (zero_notMem_escape hutf.route)⟩
      show literalEnd (Json.escape h.route) ≠ .stopped
      rw [literalEnd_escape_eq hutf.route]
      decide
  simp only [fields, List.forall_mem_append, List.forall_mem_cons]
  refine ⟨⟨⟨⟨.encoded ?_ hutf.serviceID hfit.serviceID, .encoded ?_ hutf.sessionID hfit.sessionID,
    .encoded ?_ hutf.requestID hfit.requestID, .uint64 ?_ _,
    .encoded ?_ hutf.timestamp hfit.timestamp, .uint8 ?_ _, List.forall_mem_nil _⟩,
    hcapability⟩, hroute⟩, .uint8 ?_ _, List.forall_mem_nil _⟩
  all_goals exact ⟨by decide, by decide, by decide⟩

/-- The keys that the encoder writes. -/
theorem keys_fields (h : Header) : h.fields.map (fun f => f.member.1)
    = [ascii "service_id", ascii "session_id", ascii "request_id", ascii "sequence",
        ascii "timestamp", ascii "priority"]
      ++ (if h.capability = [] then [] else [ascii "capability"])
      ++ (if h.route = [] then [] else [ascii "route"]) ++ [ascii "payload_format"] := by
  unfold fields
  split_ifs <;> rfl

theorem nodup_fields (h : Header) : (h.fields.map fun f => f.member.1).Nodup := by
  rw [keys_fields]
  split_ifs <;> decide

/-- Without a capability there is no member with its key. -/
theorem capability_notMem (h : Header) (hnil : h.capability = []) :
    ∀ m ∈ h.fields.map member, m.1 ≠ ascii "capability" := by
  intro m hm heq
  obtain ⟨f, hf, rfl⟩ := List.mem_map.mp hm
  have hmem : ascii "capability" ∈ h.fields.map (fun f => f.member.1) :=
    List.mem_map.mpr ⟨f, hf, heq⟩
  rw [keys_fields, if_pos hnil] at hmem
  split_ifs at hmem <;> exact absurd hmem (by decide)

/-- No member ends the scan of its own string. -/
theorem quiet_fields {h : Header} (hutf : h.ValidUTF8) : ∀ m ∈ h.fields.map member, m.2.Quiet := by
  rw [← map_members]
  refine List.forall_mem_map.mpr fun kv hkv => ?_
  have hvalid := (valid_members hutf kv hkv).2
  obtain ⟨key, s | n⟩ := kv
  · show literalEnd (Json.escape s) ≠ .stopped
    rw [literalEnd_escape_eq hvalid]
    decide
  · intro hmem
    exact absurd (Json.isDigit_of_mem_decimal n _ hmem) (by decide)

/-- The reader gives the header when it gives every field that was written, and the empty
capability when none was. -/
theorem eipcHeaderFromJson_eq_iff (h : Header) (json : Bytes) :
    eipcHeaderFromJson json = h.toEipc ↔ (∀ f ∈ h.fields, f.ReadsBack json)
      ∧ (h.capability = [] →
        (jsonFindString json (ascii "capability") eipcCapabilityMax).getD [] = []) := by
  have hroute : ∀ f ∈ (if h.route = [] then []
      else [JsonField.unread (ascii "route") (.quoted (Json.escape h.route))]),
      f.ReadsBack json := by
    split
    · exact List.forall_mem_nil _
    · exact List.forall_mem_singleton.mpr trivial
  have hcapability : (jsonFindString json (ascii "capability") eipcCapabilityMax).getD []
      = h.capability ↔ (∀ f ∈ (if h.capability = [] then []
        else [encoded (ascii "capability") eipcCapabilityMax h.capability]), f.ReadsBack json)
      ∧ (h.capability = [] →
        (jsonFindString json (ascii "capability") eipcCapabilityMax).getD [] = []) := by
    split
    · next hnil =>
      rw [hnil]
      exact ⟨fun hfind => ⟨List.forall_mem_nil _, fun _ => hfind⟩, fun hboth => hboth.2 rfl⟩
    · next hne =>
      rw [List.forall_mem_singleton]
      exact ⟨fun hfind => ⟨hfind, fun hnil => absurd hnil hne⟩, fun hboth => hboth.1⟩
  rw [eipcHeaderFromJson, toEipc, EipcHeader.mk.injEq, hcapability]
  simp only [fields, List.forall_mem_append, List.forall_mem_cons, uint8_readsBack_iff]
  constructor
  · rintro ⟨h₁, h₂, h₃, h₄, h₅, h₆, ⟨h₇, habsent⟩, h₈⟩
    exact ⟨⟨⟨⟨⟨h₁, h₂, h₃, h₄, h₅, h₆, List.forall_mem_nil _⟩, h₇⟩, hroute⟩, h₈,
      List.forall_mem_nil _⟩, habsent⟩
  · rintro ⟨⟨⟨⟨⟨h₁, h₂, h₃, h₄, h₅, h₆, -⟩, h₇⟩, -⟩, h₈, -⟩, habsent⟩
    exact ⟨h₁, h₂, h₃, h₄, h₅, h₆, ⟨h₇, habsent⟩, h₈⟩

/-- What Go writes, read by the C SDK. -/
theorem readBuffer_writeObject_iff {h : Header} (hutf : h.ValidUTF8) (hfit : h.FitsArrays) :
    readBuffer eipcHeaderFromJson (Json.writeObject h.members) = some h.toEipc ↔
      Recoverable [] h.fields := by
  have hwritable := writable_fields hutf hfit
  have hplain : ∀ m ∈ h.fields.map member, PlainKey m.1 :=
    List.forall_mem_map.mpr fun f hf => (hwritable f hf).plain
  have hobject : Json.writeObject h.members = objectText (h.fields.map member) := by
    rw [← map_members, ← writeObject_eq]
    rw [← map_members] at hplain
    exact fun kv hkv => hplain _ (List.mem_map_of_mem hkv)
  have hnil : h.fields.map member ≠ [] := by
    unfold fields
    simp
  have habsent : h.capability = [] → (jsonFindString (objectText (h.fields.map member))
      (ascii "capability") eipcCapabilityMax).getD [] = [] := by
    intro hempty
    have hkey : PlainKey (ascii "capability") := ⟨by decide, by decide, by decide⟩
    rw [jsonFindString_of_absent hkey hplain (h.capability_notMem hempty) (quiet_fields hutf) hnil]
    rfl
  rw [hobject]
  refine readBuffer_eq_iff hwritable h.nodup_fields ?_
  rw [eipcHeaderFromJson_eq_iff, and_iff_left habsent]

end Header

/-- **A Go header, read by the C SDK.** For a header with valid strings that fit the arrays, the C
reader gives every field that it has exactly when none of the five strings has a character that
the encoder escapes (or fills its array and has only backslashes at its end escaped), and a field
whose name an earlier string ends in – the route included – is empty or zero. -/
theorem eipcHeaderFromJson_marshal_iff (h : Header) (text : Bytes) (hutf : h.ValidUTF8)
    (hfit : h.FitsArrays) (htext : Codec.json.marshal h = .ok text) :
    readBuffer eipcHeaderFromJson text = some h.toEipc ↔ Recoverable [] h.fields := by
  rw [← Except.ok.inj htext]
  exact Header.readBuffer_writeObject_iff hutf hfit

/-- A plain header, with a capability and without a route. -/
theorem eipcHeaderFromJson_marshal_plain :
    readBuffer eipcHeaderFromJson (Json.writeObject (Header.members ⟨ascii "svc", ascii "s1",
        ascii "r1", 7, ascii "t", 1, ascii "ui:control", [], 0⟩))
      = some ⟨ascii "svc", ascii "s1", ascii "r1", 7, ascii "t", 1, ascii "ui:control", 0⟩ := by
  refine (eipcHeaderFromJson_marshal_iff ⟨ascii "svc", ascii "s1", ascii "r1", 7, ascii "t", 1,
    ascii "ui:control", [], 0⟩ _ ⟨?_, ?_, ?_, ?_, ?_, ?_⟩ ⟨?_, ?_, ?_, ?_, ?_⟩ rfl).mpr ?_
  · exact Json.validUTF8_of_ascii (by decide)
  · exact Json.validUTF8_of_ascii (by decide)
  · exact Json.validUTF8_of_ascii (by decide)
  · exact Json.validUTF8_of_ascii (by decide)
  · exact Json.validUTF8_of_ascii (by decide)
  · exact Json.validUTF8_nil
  · decide
  · decide
  · decide
  · decide
  · decide
  · refine recoverable_of_kept ?_ (by decide +kernel)
    refine List.forall_mem_cons.mpr ⟨.inl ?_, List.forall_mem_cons.mpr ⟨.inl ?_,
      List.forall_mem_cons.mpr ⟨.inl ?_, List.forall_mem_cons.mpr ⟨trivial,
      List.forall_mem_cons.mpr ⟨.inl ?_, List.forall_mem_cons.mpr ⟨trivial,
      List.forall_mem_cons.mpr ⟨.inl ?_, List.forall_mem_cons.mpr ⟨trivial,
      List.forall_mem_nil _⟩⟩⟩⟩⟩⟩⟩⟩
    all_goals decide +kernel

/-- An ampersand comes back as its escape. -/
theorem eipcHeaderFromJson_marshal_ampersand :
    ∃ h : Header, h.ValidUTF8 ∧ h.FitsArrays ∧ ∃ text, Codec.json.marshal h = .ok text
      ∧ h.toEipc = ⟨ascii "svc", ascii "s1", ascii "a&b", 7, ascii "t", 1, [], 0⟩
      ∧ readBuffer eipcHeaderFromJson text
        = some ⟨ascii "svc", ascii "s1", ascii "a\\u0026b", 7, ascii "t", 1, [], 0⟩ := by
  refine ⟨⟨ascii "svc", ascii "s1", ascii "a&b", 7, ascii "t", 1, [], [], 0⟩,
    ⟨?_, ?_, ?_, ?_, ?_, ?_⟩, ⟨?_, ?_, ?_, ?_, ?_⟩, _, rfl, rfl, ?_⟩
  · exact Json.validUTF8_of_ascii (by decide)
  · exact Json.validUTF8_of_ascii (by decide)
  · exact Json.validUTF8_of_ascii (by decide)
  · exact Json.validUTF8_of_ascii (by decide)
  · exact Json.validUTF8_nil
  · exact Json.validUTF8_nil
  all_goals decide +kernel
