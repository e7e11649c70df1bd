import Eipc.Frame

/-!
# Frames in the C SDK

The SDK's own frame codec (`sdk/c/src/eipc_frame.c`) and the length-prefixed
receive above it (`sdk/c/src/eipc_transport.c`). A frame is a C structure with
fixed arrays for header, payload and MAC and the two lengths in use, so what the
SDK accepts is bounded by these arrays, not by the frame size of the protocol.

`EipcFrame.toFrame` reads the structure as the frame it stands for. Within the
sizes of the arrays the SDK's codec is then the codec of the protocol
(`EipcFrame.same_codec`): it writes the same bytes for a frame, authenticates the
same bytes of it, and accepts the same byte strings, as the same frames.
-/

open Bytes

/-- `eipc_status_t`, without `EIPC_OK`. -/
inductive EipcStatus where
  | nomem
  | invalid
  | io
  | timeout
  | auth
  | capability
  | integrity
  | replay
  | backpressure
  | connect
  | protocol
  | frameTooLarge
  | badMagic
  | badVersion
  | notFound
  | buffer
  deriving DecidableEq, Repr

namespace EipcFrame

def eipcMagic : UInt32 := 0x45495043
def eipcProtocolVer : UInt16 := 1
def eipcMacSize : ℕ := 32
/-- `EIPC_MAX_FRAME`, 1 MB. -/
def eipcMaxFrame : ℕ := 1 <<< 20
def eipcMaxPayload : ℕ := 4096
def eipcMaxHeader : ℕ := 1024
def eipcFlagHmac : UInt8 := 1 <<< (0 : UInt8)
def eipcFrameFixedSize : ℕ := 16
/-- The largest byte string `eipc_frame_encode` can produce. -/
def eipcFrameBufSize : ℕ := eipcFrameFixedSize + eipcMaxHeader + eipcMaxPayload + eipcMacSize

end EipcFrame

open EipcFrame

/-- `eipc_frame_t`: arrays of fixed size, and how much of them is in use. -/
structure EipcFrame where
  version : UInt16
  msgType : UInt8
  flags : UInt8
  header : Bytes
  headerLen : UInt32
  payload : Bytes
  payloadLen : UInt32
  mac : Bytes
  length_header : header.length = eipcMaxHeader
  length_payload : payload.length = eipcMaxPayload
  length_mac : mac.length = eipcMacSize

/-- A zeroed array of `n` bytes after `src` was copied to its start. No more
than the array has room for is kept. -/
def arrayOf (n : ℕ) (src : Bytes) : Bytes := overwrite (List.replicate n 0) (src.take n)

theorem length_arrayOf (n : ℕ) (src : Bytes) : (arrayOf n src).length = n := by
  rw [arrayOf, length_overwrite, List.length_replicate]
  rw [List.length_replicate]
  exact List.length_take_le n src

/-- What was copied is at the start of the array, if it fits. -/
theorem take_arrayOf {n : ℕ} (src : Bytes) (h : src.length ≤ n) :
    (arrayOf n src).take src.length = src := by
  rw [arrayOf, List.take_of_length_le h, overwrite, List.take_left]

namespace EipcFrame

/-- The test `frame->flags & EIPC_FLAG_HMAC`. -/
def hasHmac (flags : UInt8) : Bool := flags &&& eipcFlagHmac != 0

/-- `eipc_frame_encode`: what is written to a buffer of `bufSize` bytes. -/
def eipcFrameEncode (f : EipcFrame) (bufSize : ℕ) : Except EipcStatus Bytes :=
  if f.headerLen.toNat > eipcMaxHeader ∨ f.payloadLen.toNat > eipcMaxPayload then
    .error .frameTooLarge
  else
    let total := eipcFrameFixedSize + f.headerLen.toNat + f.payloadLen.toNat
    let total := if hasHmac f.flags then total + eipcMacSize else total
    if total > bufSize ∨ total > eipcMaxFrame then .error .frameTooLarge
    else
      .ok (store32 eipcMagic ++ store16 f.version ++ [f.msgType] ++ [f.flags]
        ++ store32 f.headerLen ++ store32 f.payloadLen ++ f.header.take f.headerLen.toNat
        ++ f.payload.take f.payloadLen.toNat ++ if hasHmac f.flags then f.mac else [])

/-- `eipc_frame_decode`. -/
def eipcFrameDecode (buf : Bytes) : Except EipcStatus EipcFrame := do
  Except.failIf (buf.length < eipcFrameFixedSize) .protocol
  let byte (i : ℕ) : UInt8 := buf.getD i 0
  Except.failIf (load32 (byte 0) (byte 1) (byte 2) (byte 3) ≠ eipcMagic) .badMagic
  let version := load16 (byte 4) (byte 5)
  Except.failIf (version ≠ eipcProtocolVer) .badVersion
  let flags := byte 7
  let headerLen := load32 (byte 8) (byte 9) (byte 10) (byte 11)
  let payloadLen := load32 (byte 12) (byte 13) (byte 14) (byte 15)
  Except.failIf (headerLen.toNat > eipcMaxHeader) .frameTooLarge
  Except.failIf (payloadLen.toNat > eipcMaxPayload) .frameTooLarge
  let pos := eipcFrameFixedSize
  Except.failIf (headerLen > 0 ∧ pos + headerLen.toNat > buf.length) .protocol
  let header := buf.slice pos (pos + headerLen.toNat)
  let pos := pos + headerLen.toNat
  Except.failIf (payloadLen > 0 ∧ pos + payloadLen.toNat > buf.length) .protocol
  let payload := buf.slice pos (pos + payloadLen.toNat)
  let pos := pos + payloadLen.toNat
  Except.failIf (hasHmac flags ∧ pos + eipcMacSize > buf.length) .protocol
  let mac := if hasHmac flags then buf.slice pos (pos + eipcMacSize) else []
  return {
    version, msgType := byte 6, flags, headerLen, payloadLen
    header := arrayOf eipcMaxHeader header
    payload := arrayOf eipcMaxPayload payload
    mac := arrayOf eipcMacSize mac
    length_header := length_arrayOf _ _
    length_payload := length_arrayOf _ _
    length_mac := length_arrayOf _ _ }

/-- `eipc_frame_signable_bytes`: what is written to a buffer of `bufSize` bytes,
nothing on a frame that does not fit. -/
def eipcFrameSignableBytes (f : EipcFrame) (bufSize : ℕ) : Bytes :=
  if f.headerLen.toNat > eipcMaxHeader ∨ f.payloadLen.toNat > eipcMaxPayload then []
  else if eipcFrameFixedSize + f.headerLen.toNat + f.payloadLen.toNat > bufSize then []
  else
    store32 eipcMagic ++ store16 f.version ++ [f.msgType] ++ [f.flags] ++ store32 f.headerLen
      ++ store32 f.payloadLen ++ f.header.take f.headerLen.toNat
      ++ f.payload.take f.payloadLen.toNat

/-- `recv_all` on the bytes that arrived: all or nothing. -/
def recvAll (n : ℕ) (s : Bytes) : Option (Bytes × Bytes) :=
  if n ≤ s.length then some (s.take n, s.drop n) else none

/-- `eipc_transport_recv_frame` on the bytes that arrived: the outcome, and what
is left to read. `malloc` says whether the allocation succeeds. -/
def eipcTransportRecvFrame (malloc : Bool) (s : Bytes) : Except EipcStatus EipcFrame × Bytes :=
  match recvAll 4 s with
  | none => (.error .io, [])
  | some (lenPrefix, s) =>
    let frameLen := load32 (lenPrefix.getD 0 0) (lenPrefix.getD 1 0) (lenPrefix.getD 2 0)
      (lenPrefix.getD 3 0)
    if frameLen.toNat > eipcMaxFrame then (.error .frameTooLarge, s)
    else if ¬malloc then (.error .nomem, s)
    else
      match recvAll frameLen.toNat s with
      | none => (.error .io, [])
      | some (buf, s) => (eipcFrameDecode buf, s)

/-! ## The frame a structure stands for -/

/-- The frame, as the protocol knows it. -/
def toFrame (f : EipcFrame) : Frame where
  version := f.version
  msgType := f.msgType
  flags := f.flags
  header := f.header.take f.headerLen.toNat
  payload := f.payload.take f.payloadLen.toNat
  mac := if hasHmac f.flags then f.mac else []

/-- The lengths are within the arrays. -/
structure Fits (f : EipcFrame) : Prop where
  header : f.headerLen.toNat ≤ eipcMaxHeader
  payload : f.payloadLen.toNat ≤ eipcMaxPayload

theorem toFrame_hasHMAC (f : EipcFrame) : f.toFrame.hasHMAC = hasHmac f.flags := rfl

theorem length_toFrame_header {f : EipcFrame} (h : Fits f) :
    f.toFrame.header.length = f.headerLen.toNat := by
  show (f.header.take f.headerLen.toNat).length = _
  rw [List.length_take, f.length_header, Nat.min_eq_left h.header]

theorem length_toFrame_payload {f : EipcFrame} (h : Fits f) :
    f.toFrame.payload.length = f.payloadLen.toNat := by
  show (f.payload.take f.payloadLen.toNat).length = _
  rw [List.length_take, f.length_payload, Nat.min_eq_left h.payload]

/-- What the array bounds say of the frame. -/
theorem Fits.size {f : EipcFrame} (h : Fits f) :
    f.toFrame.header.length + f.toFrame.payload.length ≤ Frame.maxFrameSize := by
  rw [length_toFrame_header h, length_toFrame_payload h]
  exact (Nat.add_le_add h.header h.payload).trans (by decide)

theorem macFits_toFrame (f : EipcFrame) : f.toFrame.MacFits := by
  show if hasHmac f.flags then (if hasHmac f.flags then f.mac else []).length = Frame.macSize
    else (if hasHmac f.flags then f.mac else []) = []
  split
  · exact f.length_mac
  · rfl

/-- The preamble by shifts is the frame's preamble. -/
theorem preamble_toFrame {f : EipcFrame} (h : Fits f) :
    store32 eipcMagic ++ store16 f.version ++ [f.msgType] ++ [f.flags] ++ store32 f.headerLen
      ++ store32 f.payloadLen = f.toFrame.preamble := by
  rw [Frame.preamble, length_toFrame_header h, length_toFrame_payload h, store32_eq, store32_eq,
    store32_eq, store16_eq]
  simp only [List.append_assoc]
  rfl

/-- **What the SDK authenticates are the frame's signable bytes**, in every buffer
that has room for them. -/
theorem eipcFrameSignableBytes_of_le {f : EipcFrame} (h : Fits f) {bufSize : ℕ}
    (hbuf : eipcFrameFixedSize + f.headerLen.toNat + f.payloadLen.toNat ≤ bufSize) :
    f.eipcFrameSignableBytes bufSize = f.toFrame.signableBytes := by
  rw [eipcFrameSignableBytes, if_neg (not_or.mpr ⟨not_lt.mpr h.header, not_lt.mpr h.payload⟩),
    if_neg (not_lt.mpr hbuf), Frame.signableBytes, if_neg (not_lt.mpr h.size),
    preamble_toFrame h, List.append_assoc]
  rfl

/-- The callers' buffer has room for every frame within its arrays. -/
theorem eipcFrameSignableBytes_eq {f : EipcFrame} (h : Fits f) :
    f.eipcFrameSignableBytes eipcFrameBufSize = f.toFrame.signableBytes := by
  refine eipcFrameSignableBytes_of_le h ?_
  have hheader := h.header
  have hpayload := h.payload
  rw [eipcFrameBufSize]
  omega

theorem length_eipcFrameSignableBytes {f : EipcFrame} (h : Fits f) :
    (f.eipcFrameSignableBytes eipcFrameBufSize).length
      = eipcFrameFixedSize + f.headerLen.toNat + f.payloadLen.toNat := by
  rw [eipcFrameSignableBytes_eq h, Frame.signableBytes, if_neg (not_lt.mpr h.size),
    List.length_append, List.length_append, Frame.length_preamble, length_toFrame_header h,
    length_toFrame_payload h, ← Nat.add_assoc]
  rfl

/-- A decoded frame is within its arrays. -/
theorem fits_of_decode {buf : Bytes} {f : EipcFrame} (h : eipcFrameDecode buf = .ok f) :
    Fits f := by
  unfold eipcFrameDecode at h
  simp only [Except.bind_eq_ok_iff, Except.failIf_eq_ok_iff] at h
  obtain ⟨_, -, _, -, _, -, _, hheader, _, hpayload, _, -, _, -, _, -, h⟩ := h
  cases h
  exact ⟨not_lt.mp hheader, not_lt.mp hpayload⟩

/-! ## Records -/

/-- The length in front of a record. -/
theorem toNat_load32_length {n : ℕ} (h : n < 256 ^ 4) :
    (load32 ((ofNatBE 4 n).getD 0 0) ((ofNatBE 4 n).getD 1 0) ((ofNatBE 4 n).getD 2 0)
      ((ofNatBE 4 n).getD 3 0)).toNat = n := by
  have hlen : (ofNatBE 4 n).length = 4 := length_ofNatBE 4 _
  have hslice : (ofNatBE 4 n).slice 0 4 = ofNatBE 4 n := slice_eq_self hlen
  refine (toNat_load32_getD (b := ofNatBE 4 n) (i := 0) hlen.ge).trans ?_
  rw [hslice]
  exact toNatBE_ofNatBE h

/-- A record is read to its end, whatever is in it. -/
theorem eipcTransportRecvFrame_record {b : Bytes} (h : b.length ≤ eipcMaxFrame) (rest : Bytes) :
    eipcTransportRecvFrame true (ofNatBE 4 b.length ++ b ++ rest) = (eipcFrameDecode b, rest) := by
  have hlen : (ofNatBE 4 b.length).length = 4 := length_ofNatBE 4 _
  have hprefix : recvAll 4 (ofNatBE 4 b.length ++ b ++ rest)
      = some (ofNatBE 4 b.length, b ++ rest) := by
    rw [recvAll, List.append_assoc, if_pos (by
      rw [List.length_append, hlen]
      exact Nat.le_add_right _ _), List.take_left' hlen, List.drop_left' hlen]
  have hwhole : recvAll b.length (b ++ rest) = some (b, rest) := by
    rw [recvAll, if_pos (by rw [List.length_append]; exact Nat.le_add_right _ _), List.take_left,
      List.drop_left]
  rw [eipcTransportRecvFrame, hprefix]
  simp only [toNat_load32_length (h.trans_lt (by decide)), hwhole]
  rw [if_neg (not_lt.mpr h)]
  rfl

/-! ## One codec in two languages -/

/-- The length of the encoding: what `eipc_frame_encode` compares with the size of
the buffer. -/
def encodedLen (f : EipcFrame) : ℕ :=
  eipcFrameFixedSize + f.headerLen.toNat + f.payloadLen.toNat
    + if hasHmac f.flags then eipcMacSize else 0

/-- **The SDK writes the bytes of the frame.** -/
theorem eipcFrameEncode_of_le {f : EipcFrame} (h : Fits f) {bufSize : ℕ}
    (hbuf : encodedLen f ≤ bufSize) : f.eipcFrameEncode bufSize = .ok f.toFrame.wire := by
  have hheader := h.header
  have hpayload := h.payload
  have hmaxHeader : eipcMaxHeader = 1024 := rfl
  have hmaxPayload : eipcMaxPayload = 4096 := rfl
  have hmaxFrame : eipcMaxFrame = 1048576 := rfl
  have hfixed : eipcFrameFixedSize = 16 := rfl
  have hmac : eipcMacSize = 32 := rfl
  have htotal : (if hasHmac f.flags then
        eipcFrameFixedSize + f.headerLen.toNat + f.payloadLen.toNat + eipcMacSize
      else eipcFrameFixedSize + f.headerLen.toNat + f.payloadLen.toNat) = encodedLen f := by
    unfold encodedLen
    split <;> rfl
  have hmax : encodedLen f ≤ eipcMaxFrame := by
    unfold encodedLen
    split <;> omega
  unfold eipcFrameEncode
  dsimp only
  rw [if_neg (not_or.mpr ⟨not_lt.mpr h.header, not_lt.mpr h.payload⟩), htotal,
    if_neg (not_or.mpr ⟨not_lt.mpr hbuf, not_lt.mpr hmax⟩), preamble_toFrame h, Frame.wire]
  simp only [List.append_assoc]
  rfl

/-- A field that is checked only when it is not empty ends within the buffer
anyway, if it starts there. -/
theorem le_of_not_short {n : UInt32} {pos len : ℕ} (hpos : pos ≤ len)
    (h : ¬(n > 0 ∧ pos + n.toNat > len)) : pos + n.toNat ≤ len := by
  by_cases hn : n > 0
  · exact not_lt.mp fun hlt => h ⟨hn, hlt⟩
  · rw [show n = 0 from UInt32.le_zero_iff.mp (UInt32.not_lt.mp hn)]
    exact hpos

/-- A slice that was copied into an array is what is in use of it. -/
theorem take_arrayOf_slice {n i k : ℕ} {buf : Bytes} (hk : k ≤ n) (h : i + k ≤ buf.length) :
    (arrayOf n (buf.slice i (i + k))).take k = buf.slice i (i + k) := by
  have hlen : (buf.slice i (i + k)).length = k := by
    rw [length_slice h, Nat.add_sub_cancel_left]
  have htake := take_arrayOf (n := n) (buf.slice i (i + k)) (by rwa [hlen])
  rwa [hlen] at htake

/-- Where the decoder finds the fields of the frame it returns. -/
structure Layout (buf : Bytes) (f : EipcFrame) : Prop where
  magic : toNatBE (buf.slice 0 4) = Frame.magicBytes
  version : UInt16.ofNat (toNatBE (buf.slice 4 6)) = f.version
  current : f.version = eipcProtocolVer
  msgType : buf.getD 6 0 = f.msgType
  flags : buf.getD 7 0 = f.flags
  headerLen : toNatBE (buf.slice 8 12) = f.headerLen.toNat
  payloadLen : toNatBE (buf.slice 12 16) = f.payloadLen.toNat
  header : f.header.take f.headerLen.toNat = buf.slice 16 (16 + f.headerLen.toNat)
  payload : f.payload.take f.payloadLen.toNat
    = buf.slice (16 + f.headerLen.toNat) (16 + f.headerLen.toNat + f.payloadLen.toNat)
  mac : hasHmac f.flags → f.mac
    = buf.slice (16 + f.headerLen.toNat + f.payloadLen.toNat)
      (16 + f.headerLen.toNat + f.payloadLen.toNat + 32)
  size : encodedLen f ≤ buf.length

theorem layout_of_eipcFrameDecode {buf : Bytes} {f : EipcFrame}
    (h : eipcFrameDecode buf = .ok f) : Layout buf f := by
  have hfits := fits_of_decode h
  unfold eipcFrameDecode at h
  simp only [Except.bind_eq_ok_iff, Except.failIf_eq_ok_iff] at h
  obtain ⟨_, hlen, _, hmagic, _, hversion, _, -, _, -, _, hheader, _, hpayload, _, hmac, h⟩ := h
  have hf := Except.ok.inj h
  have hversionEq : load16 (buf.getD 4 0) (buf.getD 5 0) = f.version :=
    congrArg EipcFrame.version hf
  have hflagsEq : buf.getD 7 0 = f.flags := congrArg EipcFrame.flags hf
  have hheaderEq : load32 (buf.getD 8 0) (buf.getD 9 0) (buf.getD 10 0) (buf.getD 11 0)
      = f.headerLen := congrArg EipcFrame.headerLen hf
  have hpayloadEq : load32 (buf.getD 12 0) (buf.getD 13 0) (buf.getD 14 0) (buf.getD 15 0)
      = f.payloadLen := congrArg EipcFrame.payloadLen hf
  have hlen : 16 ≤ buf.length := not_lt.mp hlen
  rw [not_not, hversionEq] at hversion
  rw [not_not] at hmagic
  rw [hheaderEq] at hheader hpayload hmac
  rw [hpayloadEq] at hpayload hmac
  rw [hflagsEq] at hmac
  have hheader : 16 + f.headerLen.toNat ≤ buf.length := le_of_not_short hlen hheader
  have hpayload : 16 + f.headerLen.toNat + f.payloadLen.toNat ≤ buf.length :=
    le_of_not_short hheader hpayload
  have hmac : hasHmac f.flags → 16 + f.headerLen.toNat + f.payloadLen.toNat + 32 ≤ buf.length :=
    fun hflag => not_lt.mp fun hlt => hmac ⟨hflag, hlt⟩
  refine ⟨?_, ?_, hversion, congrArg EipcFrame.msgType hf, hflagsEq, ?_, ?_, ?_, ?_, ?_, ?_⟩
  · rw [← toNat_load32_getD (i := 0) (by omega), hmagic]
    decide
  · rw [← hversionEq, load16_getD (i := 4) (by omega)]
  · rw [← hheaderEq, toNat_load32_getD (i := 8) (by omega)]
  · rw [← hpayloadEq, toNat_load32_getD (i := 12) (by omega)]
  · have harray : arrayOf eipcMaxHeader (buf.slice eipcFrameFixedSize _) = f.header :=
      congrArg EipcFrame.header hf
    rw [hheaderEq] at harray
    rw [← harray]
    exact take_arrayOf_slice hfits.header hheader
  · have harray : arrayOf eipcMaxPayload (buf.slice _ _) = f.payload :=
      congrArg EipcFrame.payload hf
    rw [hheaderEq, hpayloadEq] at harray
    rw [← harray]
    exact take_arrayOf_slice hfits.payload hpayload
  · intro hflag
    have harray : arrayOf eipcMacSize (if hasHmac (buf.getD 7 0) then buf.slice _ _ else [])
        = f.mac := congrArg EipcFrame.mac hf
    rw [hheaderEq, hpayloadEq, hflagsEq, if_pos hflag] at harray
    rw [← harray, ← List.take_of_length_le (length_arrayOf eipcMacSize _).le]
    exact take_arrayOf_slice le_rfl (hmac hflag)
  · unfold encodedLen
    split
    · next hflag => exact hmac hflag
    · exact hpayload

/-- The bytes of the preamble are the preamble of the frame. -/
theorem Layout.preamble {buf : Bytes} {f : EipcFrame} (h : Layout buf f) (hfits : Fits f) :
    buf.slice 0 16 = f.toFrame.preamble := by
  have hlen : 16 ≤ buf.length := by
    have hsize := h.size
    rw [encodedLen, eipcFrameFixedSize] at hsize
    omega
  refine Frame.eq_preamble (length_slice hlen) ?_ ?_ ?_ ?_ ?_ ?_
  · rw [slice_slice_zero (by decide) hlen, h.magic]
  · rw [slice_slice_zero (by decide) hlen, h.version]
    rfl
  · rw [getD_slice_zero (by decide), h.msgType]
    rfl
  · rw [getD_slice_zero (by decide), h.flags]
    rfl
  · rw [slice_slice_zero (by decide) hlen, h.headerLen, length_toFrame_header hfits]
  · rw [slice_slice_zero (by decide) hlen, h.payloadLen, length_toFrame_payload hfits]

/-- **What the SDK accepts is the encoding of the frame it returns**, which is a
frame of the protocol's format. -/
theorem wire_of_eipcFrameDecode {buf : Bytes} {f : EipcFrame} (h : eipcFrameDecode buf = .ok f) :
    f.toFrame.WellFormed ∧ ∃ rest, buf = f.toFrame.wire ++ rest := by
  have hfits := fits_of_decode h
  have hlayout := layout_of_eipcFrameDecode h
  refine ⟨⟨hlayout.current, hfits.size, macFits_toFrame f⟩, ?_⟩
  let pos := 16 + f.headerLen.toNat + f.payloadLen.toNat
  obtain ⟨rest, hrest⟩ : ∃ rest, buf.drop pos = f.toFrame.mac ++ rest := by
    show ∃ rest, buf.drop pos = (if hasHmac f.flags then f.mac else []) ++ rest
    split
    · next hflag =>
      exact ⟨buf.drop (pos + 32), by rw [hlayout.mac hflag, slice_append_drop buf (by omega)]⟩
    · exact ⟨_, rfl⟩
  refine ⟨rest, ?_⟩
  calc buf = buf.slice 0 16 ++ (buf.slice 16 (16 + f.headerLen.toNat)
        ++ (buf.slice (16 + f.headerLen.toNat) pos ++ buf.drop pos)) := by
        rw [slice_append_drop buf (Nat.le_add_right _ _), slice_append_drop buf (by omega),
          slice_append_drop buf (by decide), List.drop_zero]
    _ = f.toFrame.preamble ++ (f.toFrame.header ++ (f.toFrame.payload
          ++ (f.toFrame.mac ++ rest))) := by
        rw [hlayout.preamble hfits, ← hlayout.header, ← hlayout.payload, hrest]
        rfl
    _ = f.toFrame.wire ++ rest := (f.toFrame.wire_append rest).symm

/-- **The SDK accepts every frame of the format that is within its arrays.** -/
theorem exists_eipcFrameDecode_wire {g : Frame} (hg : g.WellFormed)
    (hheader : g.header.length ≤ eipcMaxHeader) (hpayload : g.payload.length ≤ eipcMaxPayload)
    (rest : Bytes) : ∃ f, eipcFrameDecode (g.wire ++ rest) = .ok f := by
  obtain ⟨hmagicG, hversionG, -, hflagsG, -, -⟩ := g.slice_preamble
  obtain ⟨hheaderG, hpayloadG⟩ := Frame.toNatBE_lengths_wire_append hg.size rest
  have hmagic := g.slice_wire_append rest (show 4 ≤ 16 by decide) (i := 0)
  have hversion := g.slice_wire_append rest (show 6 ≤ 16 by decide) (i := 4)
  have hflags : (g.wire ++ rest).getD 7 0 = g.flags :=
    (g.getD_wire_append rest (by decide)).trans hflagsG
  have hlen : (g.wire ++ rest).length
      = 16 + g.header.length + g.payload.length + g.mac.length + rest.length := by
    rw [g.wire_append]
    simp only [List.length_append, Frame.length_preamble]
    rw [Frame.frameFixedSize]
    omega
  have hmac : hasHmac g.flags → g.mac.length = 32 := by
    intro hflag
    have hfits := hg.mac
    rw [Frame.MacFits, if_pos (show g.hasHMAC = true from hflag)] at hfits
    exact hfits
  generalize g.wire ++ rest = buf at hlen hmagic hversion hflags hheaderG hpayloadG ⊢
  have hheaderLen : (load32 (buf.getD 8 0) (buf.getD 9 0) (buf.getD 10 0) (buf.getD 11 0)).toNat
      = g.header.length := by
    rw [toNat_load32_getD (i := 8) (by omega), hheaderG]
  have hpayloadLen : (load32 (buf.getD 12 0) (buf.getD 13 0) (buf.getD 14 0)
      (buf.getD 15 0)).toNat = g.payload.length := by
    rw [toNat_load32_getD (i := 12) (by omega), hpayloadG]
  have hfixed : eipcFrameFixedSize = 16 := rfl
  have hmacSize : eipcMacSize = 32 := rfl
  unfold eipcFrameDecode
  simp only [Except.bind_eq_ok_iff, Except.failIf_eq_ok_iff, hheaderLen, hpayloadLen, hflags]
  refine ⟨_, (), by omega, (), ?_, (), ?_, (), not_lt.mpr hheader, (), not_lt.mpr hpayload,
    (), ?_, (), ?_, (), ?_, rfl⟩
  · rw [not_not, load32_getD (i := 0) (by omega), hmagic, hmagicG]
    decide
  · rw [not_not, load16_getD (i := 4) (by omega), hversion, hversionG, hg.version]
    decide
  · rintro ⟨-, hlt⟩
    omega
  · rintro ⟨-, hlt⟩
    omega
  · rintro ⟨hflag, hlt⟩
    have hmacLen := hmac hflag
    omega

/-- A frame that is decoded from the bytes of a frame is that frame. -/
theorem toFrame_of_decode_wire {g : Frame} (hg : g.WellFormed) {f : EipcFrame}
    (h : eipcFrameDecode g.wire = .ok f) : f.toFrame = g := by
  obtain ⟨hwell, rest, hwire⟩ := wire_of_eipcFrameDecode h
  have hone := Frame.decode_wire hg []
  rw [List.append_nil, hwire, Frame.decode_wire hwell] at hone
  exact (Prod.mk.inj (Except.ok.inj hone)).1

/-- The header array of a decoded frame: the header, and zeros. -/
theorem header_of_decode {buf : Bytes} {f : EipcFrame} (h : eipcFrameDecode buf = .ok f) :
    f.header = arrayOf eipcMaxHeader f.toFrame.header := by
  have hslice : f.toFrame.header = buf.slice 16 (16 + f.headerLen.toNat) :=
    (layout_of_eipcFrameDecode h).header
  rw [hslice]
  unfold eipcFrameDecode at h
  simp only [Except.bind_eq_ok_iff, Except.failIf_eq_ok_iff] at h
  obtain ⟨_, -, _, -, _, -, _, -, _, -, _, -, _, -, _, -, hf⟩ := h
  rw [← Except.ok.inj hf]
  rfl

/-- **One codec up to the sizes of the arrays.** In a buffer that is large enough
the SDK writes the bytes that `Encode` writes for the same frame, and the bytes
`SignableBytes` returns for it; and it accepts a byte string exactly when `Decode`
accepts it with header and payload within the arrays, as the same frame. -/
theorem same_codec :
    (∀ (f : EipcFrame) (bufSize : ℕ), Fits f → encodedLen f ≤ bufSize →
        ∃ b, f.eipcFrameEncode bufSize = .ok b ∧ f.toFrame.encode = .ok b)
      ∧ (∀ (f : EipcFrame) (bufSize : ℕ), Fits f →
        eipcFrameFixedSize + f.headerLen.toNat + f.payloadLen.toNat ≤ bufSize →
          f.eipcFrameSignableBytes bufSize = f.toFrame.signableBytes)
      ∧ ∀ (b : Bytes) (g : Frame),
        (∃ f, eipcFrameDecode b = .ok f ∧ f.toFrame = g)
          ↔ (∃ rest, Frame.decode b = .ok (g, rest)) ∧ g.header.length ≤ eipcMaxHeader
            ∧ g.payload.length ≤ eipcMaxPayload := by
  refine ⟨fun f bufSize h hbuf => ?_, fun f bufSize h hbuf => eipcFrameSignableBytes_of_le h hbuf,
    fun b g => ⟨?_, ?_⟩⟩
  · exact ⟨_, eipcFrameEncode_of_le h hbuf, Frame.encode_of_macFits (macFits_toFrame f) h.size⟩
  · rintro ⟨f, hf, rfl⟩
    obtain ⟨hwell, rest, rfl⟩ := wire_of_eipcFrameDecode hf
    have hfits := fits_of_decode hf
    refine ⟨⟨rest, Frame.decode_wire hwell rest⟩, ?_, ?_⟩
    · rw [length_toFrame_header hfits]
      exact hfits.header
    · rw [length_toFrame_payload hfits]
      exact hfits.payload
  · rintro ⟨⟨rest, hdecode⟩, hheader, hpayload⟩
    obtain ⟨hwell, rfl⟩ := Frame.wire_of_decode hdecode
    obtain ⟨f, hf⟩ := exists_eipcFrameDecode_wire hwell hheader hpayload rest
    -- both decoders read the same bytes, so they found the same frame
    obtain ⟨hwell', rest', hwire⟩ := wire_of_eipcFrameDecode hf
    have hsame := Frame.decode_wire hwell' rest'
    rw [← hwire, hdecode] at hsame
    exact ⟨f, hf, (Prod.mk.inj (Except.ok.inj hsame)).1.symm⟩

/-- A signed heartbeat with an empty object for its header. -/
def signedHeartbeat : EipcFrame where
  version := 1
  msgType := 0x68
  flags := eipcFlagHmac
  header := arrayOf eipcMaxHeader [0x7b, 0x7d]
  headerLen := 2
  payload := arrayOf eipcMaxPayload []
  payloadLen := 0
  mac := arrayOf eipcMacSize [0xaa]
  length_header := length_arrayOf _ _
  length_payload := length_arrayOf _ _
  length_mac := length_arrayOf _ _

/-- Both encoders write the same fifty bytes for it. -/
theorem same_codec_heartbeat : ∃ b, signedHeartbeat.eipcFrameEncode 50 = .ok b
    ∧ signedHeartbeat.toFrame.encode = .ok b :=
  same_codec.1 signedHeartbeat 50 ⟨by decide, by decide⟩ (by decide)

end EipcFrame
