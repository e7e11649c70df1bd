import Eipc.Sdk.Send

/-!
# Where the C SDK's JSON readers look

The readers of `sdk/c/src/eipc_json.c` are given an array and its length, ignore the length and
scan for a NUL. The model keeps the index of every byte that is examined: by the loops of the
source, step by step, and by the library's `strstr`, `strtoull` and `strtod`, which may examine a
string up to its NUL and no further.

Behind the array there is other memory. As every reader starts with a `strstr` over the whole
string, and nothing that follows gets past the NUL, the indices are in the array exactly when the
array has a NUL (`examined_lt_iff`). A frame that was decoded has its arrays filled up with zeros,
but the decoder accepts a length that leaves no room for one (`readers_inBounds_iff`).
-/

open Bytes CString EipcFrame

/-! ## Loops -/

/-- The indices that the loop over blanks and colons examines, in the rest of a string that starts
at the index `i`. -/
def blanksExamined (i : ℕ) : Bytes → List ℕ
  | [] => [i]
  | b :: t => i :: if isBlank b then blanksExamined (i + 1) t else []

/-- The indices that the scan for the closing quote examines: the byte at `end`, and the one behind
it after a backslash. -/
def scanExamined (i : ℕ) : Bytes → List ℕ
  | [] => [i]
  | b :: s =>
    if b = 0x22 then [i]
    else if b = 0x5c then
      match s with
      | [] => [i, i + 1, i + 1]
      | _ :: s => i :: (i + 1) :: scanExamined (i + 2) s
    else i :: scanExamined (i + 1) s

/-- The indices of a string that starts at `i`, with its NUL. -/
def stringIndices (i : ℕ) (s : Bytes) : List ℕ := (List.range (s.length + 1)).map (i + ·)

/-! ## Lookups -/

/-- A call of `json_find_string` for an array of `outSize` bytes, or of `json_find_uint64`,
`json_find_int` or `json_find_float`, which differ in what they make of the number. -/
inductive Lookup where
  | string (key : Bytes) (outSize : ℕ)
  | number (key : Bytes)

namespace Lookup

def key : Lookup → Bytes
  | string key _ => key
  | number key => key

/-- What is examined behind the blanks, where the value `start` is at the index `i`. -/
def valueExamined (i : ℕ) (start : Bytes) : Lookup → List ℕ
  | string _ outSize =>
    i :: if start.head? = some 0x22 then
      scanExamined (i + 1) start.tail
        ++ (List.range (min (jsonScanString start.tail).length (outSize - 1))).map (i + 1 + ·)
    else []
  | number _ =>
    i :: if start.head? = some 0x22 then stringIndices (i + 1) start.tail else stringIndices i start

/-- The indices that a lookup examines in a string: those of the search, of the blanks behind the
key, and of the value. -/
def examined (json : Bytes) (l : Lookup) : List ℕ :=
  stringIndices 0 json ++
    match strstr (jsonPattern l.key) json with
    | none => []
    | some found =>
      let t := found.drop (jsonPattern l.key).length
      let start := t.dropWhile isBlank
      blanksExamined (json.length - t.length) t
        ++ l.valueExamined (json.length - start.length) start

end Lookup

/-- The lookups of `eipc_header_from_json`. -/
def headerLookups : List Lookup :=
  [.string (ascii "service_id") eipcServiceIdMax, .string (ascii "session_id") eipcSessionIdMax,
    .string (ascii "request_id") eipcRequestIdMax, .number (ascii "sequence"),
    .string (ascii "timestamp") eipcTimestampMax, .number (ascii "priority"),
    .string (ascii "capability") eipcCapabilityMax, .number (ascii "payload_format")]

/-- The lookups of `eipc_ack_from_json`. -/
def ackLookups : List Lookup :=
  [.string (ascii "request_id") eipcRequestIdMax, .string (ascii "status") eipcStatusMax,
    .string (ascii "error") eipcErrorMax]

/-- The lookups of `eipc_intent_from_json`. -/
def intentLookups : List Lookup :=
  [.string (ascii "intent") eipcIntentMax, .number (ascii "confidence"),
    .string (ascii "session_id") eipcSessionIdMax]

/-- The lookups of `eipc_chat_request_from_json`. -/
def chatRequestLookups : List Lookup :=
  [.string (ascii "session_id") eipcSessionIdMax, .string (ascii "user_prompt") eipcMaxPayload,
    .string (ascii "model") eipcModelMax, .number (ascii "max_tokens")]

/-- The indices that a reader examines in the memory it is pointed to. Without a NUL already the
first search goes on behind all of it. -/
def examined (lookups : List Lookup) (mem : Bytes) : List ℕ :=
  match CString.ofArray mem with
  | none => List.range (mem.length + 1)
  | some json => lookups.flatMap (Lookup.examined json)

/-! ## Nothing gets past the NUL -/

theorem le_of_mem_stringIndices {i j : ℕ} {s : Bytes} (h : j ∈ stringIndices i s) :
    j ≤ i + s.length := by
  obtain ⟨k, hk, rfl⟩ := List.mem_map.mp h
  exact Nat.add_le_add_left (Nat.lt_succ_iff.mp (List.mem_range.mp hk)) i

theorem le_of_mem_blanksExamined {i j : ℕ} {t : Bytes} (h : j ∈ blanksExamined i t) :
    j ≤ i + t.length := by
  induction t generalizing i with
  | nil => exact (List.mem_singleton.mp h).le
  | cons b t ih =>
    rw [blanksExamined, List.mem_cons] at h
    rw [List.length_cons]
    rcases h with rfl | h
    · exact Nat.le_add_right _ _
    · split at h
      · have hle := ih h
        omega
      · exact (nomatch h)

theorem scanExamined_quote (i : ℕ) (s : Bytes) : scanExamined i (0x22 :: s) = [i] := by
  rw [scanExamined.eq_def]
  rfl

theorem scanExamined_slash (i : ℕ) : scanExamined i [0x5c] = [i, i + 1, i + 1] := by
  rw [scanExamined.eq_def]
  rfl

theorem scanExamined_escape (i : ℕ) (e : UInt8) (s : Bytes) :
    scanExamined i (0x5c :: e :: s) = i :: (i + 1) :: scanExamined (i + 2) s := by
  rw [scanExamined.eq_def]
  rfl

theorem scanExamined_plain {b : UInt8} (hquote : b ≠ 0x22) (hslash : b ≠ 0x5c) (i : ℕ) (s : Bytes) :
    scanExamined i (b :: s) = i :: scanExamined (i + 1) s := by
  rw [scanExamined.eq_def]
  show (if b = 0x22 then _ else if b = 0x5c then _ else _) = _
  rw [if_neg hquote, if_neg hslash]

/-- The scan stays in the string: the two-byte step is only made over a byte that is there. -/
theorem le_of_mem_scanExamined {i j : ℕ} {s : Bytes} (h : j ∈ scanExamined i s) :
    j ≤ i + s.length := by
  induction s using literal_induction generalizing i with
  | nil =>
    rw [scanExamined, List.mem_singleton] at h
    exact h.le
  | quote s =>
    rw [scanExamined_quote, List.mem_singleton] at h
    omega
  | slash =>
    rw [scanExamined_slash] at h
    simp only [List.mem_cons, List.not_mem_nil, or_false] at h
    rw [List.length_singleton]
    omega
  | escape e s ih =>
    rw [scanExamined_escape, List.mem_cons, List.mem_cons] at h
    rw [List.length_cons, List.length_cons]
    rcases h with rfl | rfl | h
    · omega
    · omega
    · have hle := ih h
      omega
  | plain b s hquote hslash ih =>
    rw [scanExamined_plain hquote hslash, List.mem_cons] at h
    rw [List.length_cons]
    rcases h with rfl | h
    · omega
    · have hle := ih h
      omega

/-- The scan ends where the literal does. -/
theorem getLast_scanExamined (i : ℕ) (s : Bytes) :
    (scanExamined i s).getLast? = some (i + (jsonScanString s).length) := by
  induction s using literal_induction generalizing i with
  | nil =>
    rw [scanExamined, jsonScanString]
    rfl
  | quote s =>
    rw [scanExamined_quote, jsonScanString_quote]
    rfl
  | slash =>
    rw [scanExamined_slash, jsonScanString.eq_def]
    rfl
  | escape e s ih =>
    rw [scanExamined_escape, jsonScanString_escape, List.getLast?_cons, List.getLast?_cons, ih]
    show some (i + 2 + _) = some (i + (_ + 2))
    rw [Nat.add_assoc, Nat.add_comm 2]
  | plain b s hquote hslash ih =>
    rw [scanExamined_plain hquote hslash, jsonScanString_plain hquote hslash,
      List.getLast?_cons, ih]
    show some (i + 1 + _) = some (i + (_ + 1))
    rw [Nat.add_assoc, Nat.add_comm 1]

/-- So the literal ends in the string. -/
theorem length_jsonScanString_le (s : Bytes) : (jsonScanString s).length ≤ s.length := by
  have hlast := List.mem_of_getLast? (getLast_scanExamined 0 s)
  have hle := le_of_mem_scanExamined hlast
  omega

theorem isSuffix_of_strstr {pat s t : Bytes} (h : strstr pat s = some t) : t <:+ s := by
  induction s with
  | nil =>
    rw [strstr] at h
    split at h
    · rw [← Option.some.inj h]
    · cases h
  | cons b s ih =>
    rw [strstr] at h
    split at h
    · rw [← Option.some.inj h]
    · exact (ih h).trans (List.suffix_cons b s)

namespace Lookup

theorem le_of_mem_valueExamined {l : Lookup} {i j : ℕ} {start : Bytes}
    (h : j ∈ l.valueExamined i start) : j ≤ i + start.length := by
  -- behind an opening quote the rest of the string is one shorter
  have hquote : start.head? = some 0x22 → i + 1 + start.tail.length = i + start.length := by
    intro hhead
    obtain ⟨t, rfl⟩ := List.head?_eq_some_iff.mp hhead
    rw [List.tail_cons, List.length_cons]
    omega
  cases l with
  | string key outSize =>
    rw [valueExamined, List.mem_cons] at h
    rcases h with rfl | h
    · exact Nat.le_add_right _ _
    · split at h
      · next hhead =>
        rw [← hquote hhead]
        rcases List.mem_append.mp h with hscan | hcopy
        · exact le_of_mem_scanExamined hscan
        · obtain ⟨k, hk, rfl⟩ := List.mem_map.mp hcopy
          have hlt := lt_of_lt_of_le (List.mem_range.mp hk) (Nat.min_le_left _ _)
          exact Nat.add_le_add_left (hlt.le.trans (length_jsonScanString_le _)) _
      · exact (nomatch h)
  | number key =>
    rw [valueExamined, List.mem_cons] at h
    rcases h with rfl | h
    · exact Nat.le_add_right _ _
    · split at h
      · next hhead =>
        rw [← hquote hhead]
        exact le_of_mem_stringIndices h
      · exact le_of_mem_stringIndices h

/-- **A lookup examines nothing behind the NUL.** -/
theorem le_of_mem_examined {l : Lookup} {json : Bytes} {j : ℕ} (h : j ∈ l.examined json) :
    j ≤ json.length := by
  rcases List.mem_append.mp h with hsearch | hvalue
  · exact (le_of_mem_stringIndices hsearch).trans (Nat.zero_add _).le
  · split at hvalue
    · exact (nomatch hvalue)
    · next found hfound =>
      have hsuffix := isSuffix_of_strstr hfound
      have hrest := (List.drop_suffix (jsonPattern l.key).length found).trans hsuffix
      have hstart := (List.dropWhile_suffix isBlank).trans hrest
      rcases List.mem_append.mp hvalue with hblanks | hstarts
      · have hle := le_of_mem_blanksExamined hblanks
        have hlen := hrest.length_le
        omega
      · have hle := le_of_mem_valueExamined hstarts
        have hlen := hstart.length_le
        omega

end Lookup

/-! ## Arrays -/

/-- The string in an array with a NUL ends in the array. -/
theorem ofArray_append_of_mem {a : Bytes} (h : 0 ∈ a) (beyond : Bytes) :
    ∃ json, CString.ofArray (a ++ beyond) = some json ∧ json.length < a.length := by
  obtain ⟨json, t, rfl, hjson⟩ := List.eq_append_cons_of_mem h
  refine ⟨json, ?_, ?_⟩
  · rw [List.append_assoc]
    exact CString.ofArray_append hjson _
  · rw [List.length_append, List.length_cons]
    omega

/-- The string in an array without one does not. -/
theorem length_le_of_ofArray_append {a beyond json : Bytes} (h : 0 ∉ a)
    (hjson : CString.ofArray (a ++ beyond) = some json) : a.length ≤ json.length := by
  unfold CString.ofArray at hjson
  split at hjson
  · rw [← Option.some.inj hjson, List.takeWhile_append, takeWhile_of_noNul h, if_pos rfl,
      List.length_append]
    exact Nat.le_add_right _ _
  · exact (nomatch hjson)

/-- **A reader stays in its array exactly when the array has a NUL**, whatever is behind it. -/
theorem examined_lt_iff {lookups : List Lookup} (hne : lookups ≠ []) (a beyond : Bytes) :
    (∀ i ∈ examined lookups (a ++ beyond), i < a.length) ↔ 0 ∈ a := by
  constructor
  · intro h
    by_contra hnone
    suffices hmem : a.length ∈ examined lookups (a ++ beyond) from absurd (h _ hmem) (lt_irrefl _)
    cases hjson : CString.ofArray (a ++ beyond) with
    | none =>
      rw [examined, hjson, List.mem_range, List.length_append]
      omega
    | some json =>
      obtain ⟨l, hl⟩ := List.exists_mem_of_ne_nil lookups hne
      rw [examined, hjson]
      refine List.mem_flatMap.mpr ⟨l, hl,
        List.mem_append_left _ (List.mem_map.mpr ⟨a.length, ?_, ?_⟩)⟩
      · exact List.mem_range.mpr (Nat.lt_succ_of_le (length_le_of_ofArray_append hnone hjson))
      · exact Nat.zero_add _
  · intro hzero i hi
    obtain ⟨json, hjson, hlt⟩ := ofArray_append_of_mem hzero beyond
    rw [examined, hjson] at hi
    obtain ⟨l, -, hi⟩ := List.mem_flatMap.mp hi
    exact (Lookup.le_of_mem_examined hi).trans_lt hlt

/-- A zeroed array keeps a NUL unless what was copied to it fills it without one. -/
theorem zero_mem_arrayOf_iff {n : ℕ} {src : Bytes} (h : src.length ≤ n) :
    0 ∈ arrayOf n src ↔ src.length < n ∨ 0 ∈ src := by
  have htext : arrayOf n src = src ++ List.replicate (n - src.length) 0 := by
    rw [arrayOf, List.take_of_length_le h, overwrite, List.drop_replicate]
  rw [htext, List.mem_append, List.mem_replicate, or_comm]
  refine or_congr ⟨fun hpos => ?_, fun hlt => ⟨?_, rfl⟩⟩ Iff.rfl <;> omega

/-- The payload array of a message that was received: `eipc_client_receive` copies the payload to a
zeroed array. -/
def receivedPayload (f : EipcFrame) : Bytes :=
  arrayOf eipcMaxPayload (f.payload.take f.payloadLen.toNat)

/-- **The bounds of the JSON readers.** For every byte string that `eipc_frame_decode` accepts, the
header reader stays in the header array exactly when the header is shorter than the array or has a
NUL in it, and the payload readers stay in the payload array exactly when the payload does. -/
theorem readers_inBounds_iff {buf : Bytes} {f : EipcFrame} (h : eipcFrameDecode buf = .ok f)
    (beyond : Bytes) :
    ((∀ i ∈ examined headerLookups (f.header ++ beyond), i < 1024)
      ↔ f.headerLen.toNat < 1024 ∨ 0 ∈ f.toFrame.header)
    ∧ ∀ lookups ∈ [ackLookups, intentLookups, chatRequestLookups],
      ((∀ i ∈ examined lookups (receivedPayload f ++ beyond), i < 4096)
        ↔ f.payloadLen.toNat < 4096 ∨ 0 ∈ f.toFrame.payload) := by
  have hfits := fits_of_decode h
  have hheaderLen : f.toFrame.header.length ≤ eipcMaxHeader :=
    (length_toFrame_header hfits).trans_le hfits.header
  have hpayloadLen : f.toFrame.payload.length ≤ eipcMaxPayload :=
    (length_toFrame_payload hfits).trans_le hfits.payload
  constructor
  · have hne : headerLookups ≠ [] := List.cons_ne_nil _ _
    have hiff := examined_lt_iff hne f.header beyond
    rw [f.length_header] at hiff
    refine hiff.trans ?_
    rw [header_of_decode h, zero_mem_arrayOf_iff hheaderLen, length_toFrame_header hfits]
    rfl
  · intro lookups hlookups
    have hne : lookups ≠ [] := by
      simp only [List.mem_cons, List.not_mem_nil, or_false] at hlookups
      rcases hlookups with rfl | rfl | rfl <;> exact List.cons_ne_nil _ _
    have hiff := examined_lt_iff hne (receivedPayload f) beyond
    rw [receivedPayload, length_arrayOf] at hiff
    refine hiff.trans ((zero_mem_arrayOf_iff hpayloadLen).trans ?_)
    rw [length_toFrame_payload hfits]
    rfl

/-- An acknowledgement, with a header and a payload. -/
def ackFrame : Frame where
  version := 1
  msgType := 0x61
  flags := 0
  header := ascii "\x7b\"service_id\":\"eni\",\"request_id\":\"r1\",\"sequence\":1\x7d"
  payload := ascii "\x7b\"request_id\":\"r1\",\"status\":\"ok\",\"error\":\"\"\x7d"
  mac := []

theorem readers_inBounds_short :
    ∃ buf f, eipcFrameDecode buf = .ok f ∧ f.toFrame = ackFrame
      ∧ (∀ i ∈ examined headerLookups (f.header ++ []), i < 1024)
      ∧ ∀ i ∈ examined ackLookups (receivedPayload f ++ []), i < 4096 := by
  have hwell : ackFrame.WellFormed := ⟨rfl, by decide, rfl⟩
  obtain ⟨f, hf⟩ := exists_eipcFrameDecode_wire hwell (by decide) (by decide) []
  have hframe : f.toFrame = ackFrame := by
    rw [List.append_nil] at hf
    exact toFrame_of_decode_wire hwell hf
  have hheader := length_toFrame_header (fits_of_decode hf)
  have hpayload := length_toFrame_payload (fits_of_decode hf)
  rw [hframe] at hheader hpayload
  obtain ⟨hiff, hiffs⟩ := readers_inBounds_iff hf []
  refine ⟨_, f, hf, hframe, hiff.mpr (.inl (hheader ▸ by decide)), ?_⟩
  exact (hiffs ackLookups List.mem_cons_self).mpr (.inl (hpayload ▸ by decide))

/-- A frame of exactly 1024 header bytes, none of them zero, is accepted, and the search for the
first key runs into the byte behind the array. -/
theorem readers_outOfBounds :
    ∃ buf f, eipcFrameDecode buf = .ok f ∧ 1024 ∈ examined headerLookups (f.header ++ [0]) := by
  have hwell : Frame.WellFormed ⟨1, 0x61, 0, List.replicate 1024 0x78, [], []⟩ :=
    ⟨rfl, by decide +kernel, rfl⟩
  obtain ⟨f, hf⟩ := exists_eipcFrameDecode_wire hwell (by decide +kernel) (by decide) []
  refine ⟨_, f, hf, ?_⟩
  rw [List.append_nil] at hf
  have hheader : f.header = arrayOf eipcMaxHeader (List.replicate 1024 0x78) := by
    rw [header_of_decode hf, toFrame_of_decode_wire hwell hf]
  rw [hheader]
  decide +kernel
