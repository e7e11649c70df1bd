import Eipc.Lib.Wire

/-!
# The frame format

The on-the-wire representation of a message (`protocol/frame.go`):

    [magic:4][version:2][msg_type:1][flags:1][header_len:4][payload_len:4]
    [header][payload][mac:32?]

Three functions of the source know this layout: `Encode` writes it, `Decode`
reads it, and `SignableBytes` rebuilds the part a MAC covers. They are
embedded separately, as the source writes them, and the main result is that
they describe *one* format: on the frames the endpoints build, encoding and
decoding form a self-delimiting format (`Frame.selfDelimiting`), and what a
decoder consumed is the signable bytes followed by the MAC.

On other frames they do not. `Encode` writes a MAC of the right size if the flags
announce one, `Decode` reads one whenever the flags announce it, and a frame on
which the two conditions differ is written without complaint
(`Frame.decode_encode_iff`).

A frame's slices are byte lists, so a nil slice and an empty one are the same
frame here. The writer of `Encode` is a buffer, which never fails.
-/

open Bytes

/-- The on-the-wire representation of a message. -/
structure Frame where
  version : UInt16
  msgType : UInt8
  flags : UInt8
  header : Bytes
  payload : Bytes
  /-- Present only when `flagHMAC` is set. -/
  mac : Bytes
  deriving DecidableEq, Repr

/-- What `Encode` and `Decode` can fail with. -/
inductive FrameError where
  | badMagic
  | badVersion
  | frameTooLarge
  | readPreamble (e : ReadError)
  | readHeader (e : ReadError)
  | readPayload (e : ReadError)
  | readMAC (e : ReadError)
  deriving DecidableEq, Repr

/-- The text of a short read, as the `io` package words it. -/
def Bytes.ReadError.text : ReadError → String
  | .eof => "EOF"
  | .unexpectedEOF => "unexpected EOF"

/-- The error's text. -/
def FrameError.text : FrameError → String
  | .badMagic => "eipc: invalid magic bytes"
  | .badVersion => "eipc: unsupported protocol version"
  | .frameTooLarge => "eipc: frame exceeds maximum size"
  | .readPreamble e => "read preamble: " ++ e.text
  | .readHeader e => "read header: " ++ e.text
  | .readPayload e => "read payload: " ++ e.text
  | .readMAC e => "read mac: " ++ e.text

namespace Frame

/-- `"EIPC"`. -/
def magicBytes : ℕ := 0x45495043

/-- 1 MB. -/
def maxFrameSize : ℕ := 1 <<< 20

/-- The size of an HMAC-SHA256. -/
def macSize : ℕ := 32

def protocolVersion : UInt16 := 1

/-- The byte count of the fixed-width preamble. -/
def frameFixedSize : ℕ := 4 + 2 + 1 + 1 + 4 + 4

/-- Frame carries an HMAC. -/
def flagHMAC : UInt8 := 1 <<< (0 : UInt8)

/-- `Flags & FlagHMAC != 0`. -/
def hasHMAC (f : Frame) : Bool := f.flags &&& flagHMAC != 0

/-- The fixed-width preamble. Both serialisers of the source build it the
same way; the two lengths are truncated to 32 bits. -/
def preamble (f : Frame) : Bytes :=
  ofNatBE 4 magicBytes ++ (ofNatBE 2 f.version.toNat ++ ([f.msgType] ++ ([f.flags]
    ++ (ofNatBE 4 f.header.length ++ ofNatBE 4 f.payload.length))))

/-- `Encode`: the bytes written, unless header and payload are too large. The
MAC is written only if the flag announces one and it has the right size. -/
def encode (f : Frame) : Except FrameError Bytes :=
  if f.header.length + f.payload.length > maxFrameSize then
    .error .frameTooLarge
  else
    .ok (f.preamble ++ (f.header ++ (f.payload
      ++ if f.hasHMAC ∧ f.mac.length = macSize then f.mac else [])))

/-- `SignableBytes`: the portion of the frame the MAC covers, and no byte at
all for a frame that is too large. -/
def signableBytes (f : Frame) : Bytes :=
  if f.header.length + f.payload.length > maxFrameSize then []
  else f.preamble ++ (f.header ++ f.payload)

/-- A variable-length field of `Decode`: a zero length is not read at all. -/
def readField (wrap : ReadError → FrameError) (n : ℕ) (r : Bytes) :
    Except FrameError (Bytes × Bytes) :=
  if n > 0 then readFullAs wrap n r else .ok ([], r)

/-- The MAC of `Decode`, there only if the flags announce it. -/
def readMac (flags : UInt8) (r : Bytes) : Except FrameError (Bytes × Bytes) :=
  if flags &&& flagHMAC != 0 then readFullAs .readMAC macSize r else .ok ([], r)

/-- `Decode`: one frame off the front of `r`, and what is left of `r`. -/
def decode (r : Bytes) : Except FrameError (Frame × Bytes) := do
  let (preamble, r) ← readFullAs .readPreamble frameFixedSize r
  let magic := toNatBE (preamble.slice 0 4)
  Except.failIf (magic ≠ magicBytes) .badMagic
  let version := UInt16.ofNat (toNatBE (preamble.slice 4 6))
  Except.failIf (version ≠ protocolVersion) .badVersion
  let msgType := preamble.getD 6 0
  let flags := preamble.getD 7 0
  let headerLen := toNatBE (preamble.slice 8 12)
  let payloadLen := toNatBE (preamble.slice 12 16)
  Except.failIf (headerLen + payloadLen > maxFrameSize) .frameTooLarge
  let (header, r) ← readField .readHeader headerLen r
  let (payload, r) ← readField .readPayload payloadLen r
  let (mac, r) ← readMac flags r
  return ({ version, msgType, flags, header, payload, mac }, r)

/-! ## The preamble -/

@[simp] theorem length_preamble (f : Frame) : f.preamble.length = frameFixedSize := by
  simp [preamble, frameFixedSize]

/-- The fields of a preamble are where the decoder looks for them. -/
theorem slice_preamble (f : Frame) :
    f.preamble.slice 0 4 = ofNatBE 4 magicBytes
      ∧ f.preamble.slice 4 6 = ofNatBE 2 f.version.toNat
      ∧ f.preamble.getD 6 0 = f.msgType ∧ f.preamble.getD 7 0 = f.flags
      ∧ f.preamble.slice 8 12 = ofNatBE 4 f.header.length
      ∧ f.preamble.slice 12 16 = ofNatBE 4 f.payload.length := by
  refine ⟨rfl, ?_, rfl, rfl, ?_, ?_⟩
  · exact slice_append_middle (ofNatBE 4 magicBytes) _ _ rfl rfl
  · exact slice_append_middle (ofNatBE 4 magicBytes ++ (ofNatBE 2 f.version.toNat
      ++ ([f.msgType] ++ [f.flags]))) _ _ (by simp) (by simp)
  · have h := slice_append_middle (ofNatBE 4 magicBytes ++ (ofNatBE 2 f.version.toNat
      ++ ([f.msgType] ++ ([f.flags] ++ ofNatBE 4 f.header.length))))
      (ofNatBE 4 f.payload.length) [] (i := 12) (j := 16) (by simp) (by simp)
    simpa only [preamble, List.append_assoc, List.append_nil] using h

/-- A 16-byte string whose fields are those of `f` is the preamble of `f`. -/
theorem eq_preamble {f : Frame} {p : Bytes} (hlen : p.length = frameFixedSize)
    (hmagic : toNatBE (p.slice 0 4) = magicBytes)
    (hversion : UInt16.ofNat (toNatBE (p.slice 4 6)) = f.version)
    (htype : p.getD 6 0 = f.msgType) (hflags : p.getD 7 0 = f.flags)
    (hheader : toNatBE (p.slice 8 12) = f.header.length)
    (hpayload : toNatBE (p.slice 12 16) = f.payload.length) : p = f.preamble := by
  have hlen' : p.length = 16 := hlen
  have word : ∀ i j n, j ≤ 16 → toNatBE (p.slice i j) = n →
      p.slice i j = ofNatBE (j - i) n := by
    intro i j n hj hn
    rw [← hn, ← length_slice (b := p) (i := i) (j := j) (by omega), ofNatBE_toNatBE]
  have hv : toNatBE (p.slice 4 6) = f.version.toNat := by
    have hlt := toNatBE_lt (p.slice 4 6)
    rw [length_slice (by omega)] at hlt
    rw [← hversion, UInt16.toNat_ofNat']
    exact (Nat.mod_eq_of_lt hlt).symm
  have hsix : p.slice 6 7 = [f.msgType] := by
    rw [← htype, slice, List.getD_eq_getElem _ _ (by omega),
      List.drop_eq_getElem_cons (by omega)]
    rfl
  have hseven : p.slice 7 8 = [f.flags] := by
    rw [← hflags, slice, List.getD_eq_getElem _ _ (by omega),
      List.drop_eq_getElem_cons (by omega)]
    rfl
  -- the fields tile the preamble
  calc p = p.slice 0 16 := (slice_eq_self hlen').symm
    _ = p.slice 0 4 ++ (p.slice 4 6 ++ (p.slice 6 7 ++ (p.slice 7 8
          ++ (p.slice 8 12 ++ p.slice 12 16)))) := by
        rw [slice_append_slice p (by decide) (by decide),
          slice_append_slice p (by decide) (by decide),
          slice_append_slice p (by decide) (by decide),
          slice_append_slice p (by decide) (by decide),
          slice_append_slice p (by decide) (by decide)]
    _ = f.preamble := by
        rw [word 0 4 _ (by decide) hmagic, word 4 6 _ (by decide) hv, hsix, hseven,
          word 8 12 _ (by decide) hheader, word 12 16 _ (by decide) hpayload]
        rfl

/-! ## One format -/

theorem readField_eq_ok_iff {wrap : ReadError → FrameError} {n : ℕ} {r a r' : Bytes} :
    readField wrap n r = .ok (a, r') ↔ r = a ++ r' ∧ a.length = n := by
  unfold readField
  split
  · exact readFullAs_eq_ok_iff
  · next hn =>
    constructor
    · intro h
      obtain ⟨rfl, rfl⟩ := Prod.mk.inj (Except.ok.inj h)
      exact ⟨rfl, by simp; omega⟩
    · rintro ⟨rfl, rfl⟩
      rw [List.length_eq_zero_iff.mp (by omega : a.length = 0)]
      rfl

/-- A MAC of exactly 32 bytes when the flags announce one, none otherwise:
what the endpoints always build. -/
def MacFits (f : Frame) : Prop := if f.hasHMAC then f.mac.length = macSize else f.mac = []

instance (f : Frame) : Decidable f.MacFits := inferInstanceAs (Decidable (ite _ _ _))

theorem readMac_eq_ok_iff {flags : UInt8} {r a r' : Bytes} :
    readMac flags r = .ok (a, r') ↔
      r = a ++ r' ∧ if flags &&& flagHMAC != 0 then a.length = macSize else a = [] := by
  unfold readMac
  split
  · exact readFullAs_eq_ok_iff
  · constructor
    · intro h
      obtain ⟨rfl, rfl⟩ := Prod.mk.inj (Except.ok.inj h)
      exact ⟨rfl, rfl⟩
    · rintro ⟨rfl, rfl⟩
      rfl

/-- **The frames of the format**: the current version, header and payload
within the limit, and a MAC that fits the flags. -/
structure WellFormed (f : Frame) : Prop where
  version : f.version = protocolVersion
  size : f.header.length + f.payload.length ≤ maxFrameSize
  mac : f.MacFits

/-- The bytes of a frame on the wire. -/
def wire (f : Frame) : Bytes := f.preamble ++ (f.header ++ (f.payload ++ f.mac))

theorem wire_append (f : Frame) (rest : Bytes) :
    f.wire ++ rest = f.preamble ++ (f.header ++ (f.payload ++ (f.mac ++ rest))) := by
  simp only [wire, List.append_assoc]

/-- A length within the limit fits its 32-bit field. -/
theorem toNatBE_length_field {n : ℕ} (h : n ≤ maxFrameSize) : toNatBE (ofNatBE 4 n) = n :=
  toNatBE_ofNatBE (lt_of_le_of_lt h (by decide))

/-- A stream that begins with a frame begins with its preamble. -/
theorem slice_wire_append (f : Frame) (rest : Bytes) {i j : ℕ} (hj : j ≤ 16) :
    (f.wire ++ rest).slice i j = f.preamble.slice i j := by
  rw [wire_append]
  exact slice_append_left _ _ (by rw [length_preamble]; exact hj)

theorem getD_wire_append (f : Frame) (rest : Bytes) {i : ℕ} (hi : i < 16) :
    (f.wire ++ rest).getD i 0 = f.preamble.getD i 0 := by
  rw [wire_append]
  exact List.getD_append _ _ _ _ (by rw [length_preamble]; exact hi)

/-- The two lengths in it are those of the header and of the payload. -/
theorem toNatBE_lengths_wire_append {f : Frame}
    (hsize : f.header.length + f.payload.length ≤ maxFrameSize) (rest : Bytes) :
    toNatBE ((f.wire ++ rest).slice 8 12) = f.header.length ∧
      toNatBE ((f.wire ++ rest).slice 12 16) = f.payload.length := by
  obtain ⟨-, -, -, -, hheader, hpayload⟩ := f.slice_preamble
  rw [slice_wire_append f rest (by decide), slice_wire_append f rest le_rfl, hheader, hpayload]
  exact ⟨toNatBE_length_field (by omega), toNatBE_length_field (by omega)⟩

theorem decode_wire {f : Frame} (hf : f.WellFormed) (rest : Bytes) :
    decode (f.wire ++ rest) = .ok (f, rest) := by
  obtain ⟨hmagic, hversion, htype, hflags, hheader, hpayload⟩ := f.slice_preamble
  have hsize := hf.size
  unfold decode
  simp only [Except.bind_eq_ok_iff]
  refine ⟨(f.preamble, f.header ++ (f.payload ++ (f.mac ++ rest))), ?_, (), ?_, (), ?_,
    (), ?_, (f.header, f.payload ++ (f.mac ++ rest)), ?_, (f.payload, f.mac ++ rest), ?_,
    (f.mac, rest), ?_, ?_⟩
  · rw [readFullAs_eq_ok_iff]
    exact ⟨f.wire_append rest, f.length_preamble⟩
  · rw [Except.failIf_eq_ok_iff, not_not, hmagic]
    decide
  · rw [Except.failIf_eq_ok_iff, not_not, hversion, hf.version]
    decide
  · rw [Except.failIf_eq_ok_iff, hheader, hpayload, toNatBE_length_field (by omega),
      toNatBE_length_field (by omega)]
    omega
  · rw [readField_eq_ok_iff, hheader, toNatBE_length_field (by omega)]
    exact ⟨rfl, rfl⟩
  · rw [readField_eq_ok_iff, hpayload, toNatBE_length_field (by omega)]
    exact ⟨rfl, rfl⟩
  · rw [readMac_eq_ok_iff, hflags]
    exact ⟨rfl, hf.mac⟩
  · have hv : UInt16.ofNat (toNatBE (f.preamble.slice 4 6)) = f.version := by
      rw [hversion, hf.version]
      decide
    show Except.ok _ = Except.ok _
    rw [htype, hflags, hv]

theorem wire_of_decode {s rest : Bytes} {f : Frame} (h : decode s = .ok (f, rest)) :
    f.WellFormed ∧ s = f.wire ++ rest := by
  unfold decode at h
  simp only [Except.bind_eq_ok_iff] at h
  obtain ⟨⟨p, r₁⟩, hp, _, hmagic, _, hversion, _, hsize, ⟨header, r₂⟩, hheader,
    ⟨payload, r₃⟩, hpayload, ⟨mac, r₄⟩, hmac, hret⟩ := h
  rw [readFullAs_eq_ok_iff] at hp
  rw [Except.failIf_eq_ok_iff, not_not] at hmagic hversion
  rw [Except.failIf_eq_ok_iff, not_lt] at hsize
  rw [readField_eq_ok_iff] at hheader hpayload
  rw [readMac_eq_ok_iff] at hmac
  obtain ⟨hf, rfl⟩ := Prod.mk.inj (Except.ok.inj hret)
  dsimp only at hmagic hversion hsize hheader hpayload hmac hf
  obtain ⟨rfl, hlen⟩ := hp
  obtain ⟨rfl, hheader⟩ := hheader
  obtain ⟨rfl, hpayload⟩ := hpayload
  obtain ⟨rfl, hmac⟩ := hmac
  have hpre : p = f.preamble := by
    refine eq_preamble hlen hmagic ?_ ?_ ?_ ?_ ?_ <;> rw [← hf]
    · exact hheader.symm
    · exact hpayload.symm
  constructor
  · subst hf
    exact ⟨hversion, by rw [hheader, hpayload]; exact hsize, hmac⟩
  · rw [wire, ← hpre, ← hf]
    simp only [List.append_assoc]

/-- **Encoding and decoding are one self-delimiting format.** -/
theorem selfDelimiting : SelfDelimiting wire decode WellFormed where
  dec_enc _ hf rest := decode_wire hf rest
  enc_dec _ _ _ h := wire_of_decode h

/-- On a frame whose MAC fits its flags `Encode` writes the frame's bytes,
as soon as header and payload are within the limit. -/
theorem encode_of_macFits {f : Frame} (hmac : f.MacFits)
    (hsize : f.header.length + f.payload.length ≤ maxFrameSize) :
    f.encode = .ok f.wire := by
  rw [encode, if_neg (by omega), wire]
  unfold MacFits at hmac
  split at hmac
  · next h => rw [if_pos ⟨h, hmac⟩]
  · next h => rw [if_neg (fun hc => h hc.1), hmac]

/-- The bytes on the wire are the signable bytes followed by the MAC. -/
theorem wire_eq_signableBytes_append {f : Frame}
    (hsize : f.header.length + f.payload.length ≤ maxFrameSize) :
    f.wire = f.signableBytes ++ f.mac := by
  rw [signableBytes, if_neg (by omega), wire]
  simp only [List.append_assoc]

/-! ## What the MAC covers -/

theorem length_signableBytes {f : Frame}
    (hsize : f.header.length + f.payload.length ≤ maxFrameSize) :
    f.signableBytes.length = frameFixedSize + f.header.length + f.payload.length := by
  rw [signableBytes, if_neg (not_lt.mpr hsize), List.length_append, List.length_append,
    length_preamble, Nat.add_assoc]

/-- The frame without its MAC. -/
def withoutMac (f : Frame) : Frame := { f with mac := [] }

theorem eq_of_withoutMac {f g : Frame} (h : f.withoutMac = g.withoutMac) (hmac : f.mac = g.mac) :
    f = g := by
  obtain ⟨version, msgType, flags, header, payload, mac⟩ := f
  cases hmac
  cases h
  rfl

/-- **The signable bytes determine the frame**, but for its MAC. -/
theorem signableBytes_inj {f g : Frame} (hf : f.header.length + f.payload.length ≤ maxFrameSize)
    (hg : g.header.length + g.payload.length ≤ maxFrameSize)
    (h : f.signableBytes = g.signableBytes) : f.withoutMac = g.withoutMac := by
  rw [signableBytes, signableBytes, if_neg (by omega), if_neg (by omega)] at h
  obtain ⟨hpre, hbody⟩ := List.append_inj h (by rw [length_preamble, length_preamble])
  obtain ⟨-, hversion, htype, hflags, hheader, -⟩ := f.slice_preamble
  obtain ⟨-, hversion', htype', hflags', hheader', -⟩ := g.slice_preamble
  rw [hpre] at hversion htype hflags hheader
  have hlen : f.header.length = g.header.length := by
    rw [← toNatBE_length_field (n := f.header.length) (by omega),
      ← toNatBE_length_field (n := g.header.length) (by omega), ← hheader, ← hheader']
  have hver : f.version = g.version := by
    rw [← UInt16.toNat_inj, ← toNatBE_ofNatBE (k := 2) f.version.toNat_lt,
      ← toNatBE_ofNatBE (k := 2) g.version.toNat_lt, ← hversion, ← hversion']
  obtain ⟨hhead, hpay⟩ := List.append_inj hbody hlen
  unfold withoutMac
  rw [hver, htype.symm.trans htype', hflags.symm.trans hflags', hhead, hpay]

/-- The frame without its MAC is its other five fields. -/
theorem withoutMac_eq_iff {f g : Frame} :
    f.withoutMac = g.withoutMac ↔ f.version = g.version ∧ f.msgType = g.msgType
      ∧ f.flags = g.flags ∧ f.header = g.header ∧ f.payload = g.payload := by
  simp only [withoutMac, Frame.mk.injEq, and_true]

/-! ## Streams of frames -/

/-- The frames of the format encode to their bytes on the wire. -/
theorem mapM_encode {fs : List Frame} (hfs : ∀ f ∈ fs, f.WellFormed) :
    fs.mapM encode = .ok (fs.map wire) := by
  induction fs with
  | nil => rfl
  | cons f fs ih =>
    have hf : f.WellFormed := hfs f List.mem_cons_self
    rw [List.mapM_cons, encode_of_macFits hf.mac hf.size,
      ih (fun g hg => hfs g (List.mem_cons_of_mem f hg))]
    rfl

/-- **A stream of frames is read back frame by frame.** Every frame encodes,
and decoding the concatenation as often as there are frames returns them in
order and leaves the appended bytes unread. -/
theorem decodeMany_encode (fs : List Frame) (hfs : ∀ f ∈ fs, f.WellFormed) (rest : Bytes) :
    ∃ outs, fs.mapM encode = .ok outs
      ∧ decodeMany decode fs.length (outs.flatten ++ rest) = .ok (fs, rest) := by
  refine ⟨fs.map wire, mapM_encode hfs, ?_⟩
  rw [← List.flatMap_def]
  exact selfDelimiting.decodeMany_flatMap fs hfs rest

/-- A signed frame without header followed by an unsigned one with both
fields, then a stray byte. -/
theorem decodeMany_encode_signed_unsigned :
    ∃ outs, [(⟨1, 0x69, 1, [], [7], List.replicate 32 5⟩ : Frame),
        ⟨1, 0x61, 2, [1, 2], [3], []⟩].mapM encode = .ok outs
      ∧ decodeMany decode 2 (outs.flatten ++ [0xFF])
        = .ok ([⟨1, 0x69, 1, [], [7], List.replicate 32 5⟩, ⟨1, 0x61, 2, [1, 2], [3], []⟩],
          [0xFF]) := by
  refine decodeMany_encode [_, _] (fun f hf => ?_) [0xFF]
  rcases List.mem_pair.mp hf with rfl | rfl
  · exact ⟨rfl, by decide, by decide⟩
  · exact ⟨rfl, by decide, by decide⟩

/-- **The format is canonical and fully covered by the MAC.** Where a decode
of `s` succeeds after consuming `p`, encoding the frame writes `p` again, `p`
is the signable bytes followed by the MAC, every strict prefix of `p` is
refused, and no other bytes decode to this frame. -/
theorem decode_canonical {s p rest : Bytes} {f : Frame} (hs : s = p ++ rest)
    (h : decode s = .ok (f, rest)) :
    f.encode = .ok p ∧ p = f.signableBytes ++ f.mac
      ∧ (∀ q, q <+: p → q ≠ p → ∃ e, decode q = .error e)
      ∧ ∀ s' p' rest', s' = p' ++ rest' → decode s' = .ok (f, rest') → p' = p := by
  obtain ⟨hf, -⟩ := wire_of_decode h
  have hp : p = f.wire := selfDelimiting.consumed_eq h hs
  subst hp
  refine ⟨encode_of_macFits hf.mac hf.size, wire_eq_signableBytes_append hf.size, ?_, ?_⟩
  · intro q hq hne
    exact selfDelimiting.strict_prefix_fails hf hq hne
  · intro s' p' rest' hs' h'
    exact selfDelimiting.consumed_eq h' hs'

/-- A frame with a header, a payload and a MAC, followed by two bytes. -/
theorem decode_canonical_signed :
    let f : Frame := ⟨1, 0x69, flagHMAC, [0x7b, 0x7d], [5, 6, 7], List.replicate 32 0xaa⟩
    let p : Bytes := [0x45, 0x49, 0x50, 0x43, 0, 1, 0x69, 1, 0, 0, 0, 2, 0, 0, 0, 3,
      0x7b, 0x7d, 5, 6, 7] ++ List.replicate 32 0xaa
    f.encode = .ok p ∧ p = f.signableBytes ++ f.mac
      ∧ ∀ q, q <+: p → q ≠ p → ∃ e, decode q = .error e := by
  intro f p
  have hwire : f.wire = p := by decide
  have hdecode : decode (p ++ [8, 9]) = .ok (f, [8, 9]) := by
    rw [← hwire]
    exact decode_wire ⟨rfl, by decide, by decide⟩ [8, 9]
  obtain ⟨hencode, hcovered, hprefix, -⟩ := decode_canonical rfl hdecode
  exact ⟨hencode, hcovered, hprefix⟩

/-! ## Flags and MAC that disagree -/

/-- Within the limit `Encode` writes something. -/
theorem exists_encode {f : Frame} (hsize : f.header.length + f.payload.length ≤ maxFrameSize) :
    ∃ b, f.encode = .ok b := by
  rw [encode, if_neg (not_lt.mpr hsize)]
  exact ⟨_, rfl⟩

/-- **Which frames survive the wire.** A frame of the current version that is written is read
back as it was, with nothing taken from the bytes that follow, exactly when it is too large
to be written or its MAC fits its flags; and of the frames whose MAC does not fit, `Encode`
refuses only those that are too large. -/
theorem decode_encode_iff (f : Frame) (hversion : f.version = protocolVersion) :
    ((∀ b rest, f.encode = .ok b → ∃ g, decode (b ++ rest) = .ok (g, rest)
        ∧ g.flags = f.flags ∧ g.header = f.header ∧ g.payload = f.payload ∧ g.mac = f.mac)
      ↔ maxFrameSize < f.header.length + f.payload.length ∨ f.MacFits)
    ∧ ((¬f.MacFits → ∃ e, f.encode = .error e)
      ↔ maxFrameSize < f.header.length + f.payload.length ∨ f.MacFits) := by
  by_cases hsize : f.header.length + f.payload.length ≤ maxFrameSize
  · obtain ⟨b, hb⟩ := exists_encode hsize
    rw [or_iff_right (not_lt.mpr hsize)]
    refine ⟨⟨fun h => ?_, fun hmac b' rest hb' => ?_⟩, fun h => ?_, fun hmac hno => absurd hmac hno⟩
    · -- what was read fits its flags, and flags and MAC are those of `f`
      obtain ⟨g, hg, hflags, -, -, hmac⟩ := h b [] hb
      have hfits := (wire_of_decode hg).1.mac
      unfold MacFits hasHMAC at hfits ⊢
      rwa [hflags, hmac] at hfits
    · cases (encode_of_macFits hmac hsize).symm.trans hb'
      exact ⟨f, decode_wire ⟨hversion, hsize, hmac⟩ rest, rfl, rfl, rfl, rfl⟩
    · by_contra hno
      obtain ⟨e, he⟩ := h hno
      exact (nomatch hb.symm.trans he)
  · have hrefused : f.encode = .error .frameTooLarge := by rw [encode, if_pos (not_le.mp hsize)]
    have hlarge : maxFrameSize < f.header.length + f.payload.length ∨ f.MacFits :=
      .inl (not_le.mp hsize)
    exact ⟨iff_of_true (fun b rest hb => (nomatch hrefused.symm.trans hb)) hlarge,
      iff_of_true (fun _ => ⟨_, hrefused⟩) hlarge⟩

/-- A signed frame with a payload of one byte. -/
theorem decode_encode_signed :
    (⟨1, 0x69, 1, [], [7], List.replicate 32 5⟩ : Frame).version = 1 ∧
    ∀ b rest, (⟨1, 0x69, 1, [], [7], List.replicate 32 5⟩ : Frame).encode = .ok b →
      ∃ g, decode (b ++ rest) = .ok (g, rest) ∧ g.flags = 1 ∧ g.header = [] ∧ g.payload = [7]
        ∧ g.mac = List.replicate 32 5 :=
  ⟨rfl, (decode_encode_iff ⟨1, 0x69, 1, [], [7], List.replicate 32 5⟩ rfl).1.mpr
    (.inr (by decide))⟩

/-- **A frame that announces a MAC and has none swallows the frame behind it**: the next 32
bytes are read as its MAC, and nothing is left. -/
theorem decode_encode_swallows :
    ∃ b b', (⟨1, 0x68, 1, [], [], []⟩ : Frame).encode = .ok b
      ∧ (⟨1, 0x69, 0, List.replicate 8 1, List.replicate 8 2, []⟩ : Frame).encode = .ok b'
      ∧ decode (b ++ b') = .ok (⟨1, 0x68, 1, [], [], b'⟩, []) := by
  refine ⟨_, _, rfl, rfl, ?_⟩
  decide

end Frame
