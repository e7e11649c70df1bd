import Eipc.Frame

/-!
# Length-prefixed frames over a byte stream

`ConnWrapper` (`transport/transport.go`) carries frames over a stream
connection: `Send` encodes the frame into a buffer and writes the buffer's
length, four bytes big-endian, and then the buffer; `Receive` reads a length,
reads that many bytes, and decodes a frame from them.

The stream is reliable and in order, so sending is the bytes written and
receiving is a function of the bytes that arrived. Whatever it returns,
`Receive` also says how far it has read: a record that does not decode is
consumed all the same, and the next call starts at the next record
(`ConnWrapper.receive_record`).

The two sides do not enforce the same limit. `Encode` bounds header plus
payload, `Receive` bounds the whole record – the preamble and the MAC
included – by the same constant. `ConnWrapper.receive_send_iff` says which
frames fall in between: they are sent and never received.
-/

open Bytes

/-- `transport.Connection` as the endpoints use it: what a call returns, and
the state of the connection after it. -/
structure Connection (σ ε : Type) where
  send : σ → Frame → Except ε Unit × σ
  receive : σ → Except ε Frame × σ

/-- What the stream transport can fail with. -/
inductive TransportError where
  | encodeFrame (e : FrameError)
  | readLength (e : ReadError)
  | frameTooLarge (frameLen : ℕ)
  | readFrame (e : ReadError)
  | decode (e : FrameError)
  deriving DecidableEq, Repr

/-- The error's text. -/
def TransportError.text : TransportError → String
  | .encodeFrame e => "encode frame: " ++ e.text
  | .readLength e => "read length: " ++ e.text
  | .frameTooLarge n => "frame too large: " ++ toString n ++ " bytes"
  | .readFrame e => "read frame: " ++ e.text
  | .decode e => e.text

namespace ConnWrapper

open Frame

/-- `Send`: the bytes written to the connection. -/
def send (f : Frame) : Except TransportError Bytes := do
  let frameBuf ← f.encode.mapError .encodeFrame
  return ofNatBE 4 frameBuf.length ++ frameBuf

/-- `Receive` on the bytes that arrived: the outcome, and what is left to
read. A short read has taken all there was. -/
def receive (s : Bytes) : Except TransportError Frame × Bytes :=
  match readFullAs .readLength 4 s with
  | .error e => (.error e, [])
  | .ok (lenBuf, s) =>
    let frameLen := toNatBE lenBuf
    if frameLen > maxFrameSize then (.error (.frameTooLarge frameLen), s)
    else
      match readFullAs .readFrame frameLen s with
      | .error e => (.error e, [])
      | .ok (frameBuf, s) =>
        -- the decoder reads from the record alone, so bytes it leaves are dropped
        (((decode frameBuf).mapError .decode).map Prod.fst, s)

/-- The two directions of a byte stream, seen from one end. -/
structure Stream where
  /-- The bytes that arrived and are not read yet. -/
  input : Bytes
  /-- The bytes written so far. -/
  output : Bytes

/-- A `ConnWrapper` as a connection. A frame that does not encode leaves the
stream alone. -/
def connection : Connection Stream TransportError where
  send s f :=
    match send f with
    | .error err => (.error err, s)
    | .ok bytes => (.ok (), { s with output := s.output ++ bytes })
  receive s := ((receive s.input).1, { s with input := (receive s.input).2 })

/-! ## Records -/

/-- A record: a byte string behind its length. -/
def record (b : Bytes) : Bytes := ofNatBE 4 b.length ++ b

theorem send_eq_ok_iff {f : Frame} {b : Bytes} :
    send f = .ok b ↔ ∃ e, f.encode = .ok e ∧ b = record e := by
  unfold send
  cases f.encode with
  | error e => exact ⟨fun h => (nomatch h), fun ⟨_, h, _⟩ => (nomatch h)⟩
  | ok e =>
    constructor
    · intro h
      exact ⟨e, rfl, (Except.ok.inj h).symm⟩
    · rintro ⟨_, h, rfl⟩
      rw [← Except.ok.inj h]
      rfl

/-- `Send` refuses what is over the limit. -/
theorem send_of_lt {f : Frame} (h : maxFrameSize < f.header.length + f.payload.length) :
    send f = .error (.encodeFrame .frameTooLarge) := by
  unfold send
  rw [encode, if_pos h]
  rfl

/-- The length prefix of a record is read first. -/
theorem readLength_record (b rest : Bytes) :
    readFullAs TransportError.readLength 4 (record b ++ rest)
      = .ok (ofNatBE 4 b.length, b ++ rest) := by
  rw [readFullAs_eq_ok_iff, record, List.append_assoc]
  exact ⟨rfl, length_ofNatBE 4 _⟩

/-- **A record within the limit is consumed whole**, and what is received is
what its bytes decode to, whether they decode or not. -/
theorem receive_record {b : Bytes} (hb : b.length ≤ maxFrameSize) (rest : Bytes) :
    receive (record b ++ rest)
      = (((decode b).mapError .decode).map Prod.fst, rest) := by
  have hlen : toNatBE (ofNatBE 4 b.length) = b.length := toNatBE_length_field hb
  have hbody : readFullAs TransportError.readFrame b.length (b ++ rest) = .ok (b, rest) :=
    readFullAs_eq_ok_iff.mpr ⟨rfl, rfl⟩
  rw [receive, readLength_record]
  dsimp only
  rw [hlen, if_neg (by omega), hbody]

/-- **A record over the limit is refused** on the strength of its prefix. -/
theorem receive_record_of_lt {b : Bytes} (hb : maxFrameSize < b.length)
    (hfit : b.length < 256 ^ 4) (rest : Bytes) :
    receive (record b ++ rest) = (.error (.frameTooLarge b.length), b ++ rest) := by
  rw [receive, readLength_record]
  dsimp only
  rw [toNatBE_ofNatBE hfit, if_pos hb]

/-- **What is received was announced**: a length within the limit, and as many
bytes, which begin with a frame of the format. -/
theorem exists_of_receive {s rest : Bytes} {f : Frame}
    (h : receive s = (.ok f, rest)) :
    ∃ lenBuf frameBuf, s = lenBuf ++ (frameBuf ++ rest) ∧ lenBuf.length = 4
      ∧ toNatBE lenBuf = frameBuf.length ∧ frameBuf.length ≤ maxFrameSize
      ∧ f.WellFormed ∧ ∃ dropped, frameBuf = f.wire ++ dropped := by
  unfold receive at h
  cases hlen : readFullAs TransportError.readLength 4 s with
  | error e =>
    rw [hlen] at h
    exact (nomatch h)
  | ok r =>
    obtain ⟨lenBuf, s₁⟩ := r
    rw [hlen] at h
    dsimp only at h
    split at h
    · exact (nomatch h)
    · next hle =>
      cases hbody : readFullAs TransportError.readFrame (toNatBE lenBuf) s₁ with
      | error e =>
        rw [hbody] at h
        exact (nomatch h)
      | ok r =>
        obtain ⟨frameBuf, s₂⟩ := r
        rw [hbody] at h
        obtain ⟨hdecode, rfl⟩ := Prod.mk.inj h
        obtain ⟨rfl, hfour⟩ := readFullAs_eq_ok_iff.mp hlen
        obtain ⟨rfl, hlength⟩ := readFullAs_eq_ok_iff.mp hbody
        refine ⟨lenBuf, frameBuf, rfl, hfour, hlength.symm, hlength ▸ not_lt.mp hle, ?_⟩
        cases hd : decode frameBuf with
        | error e =>
          rw [hd] at hdecode
          exact (nomatch hdecode)
        | ok r =>
          rw [hd] at hdecode
          cases hdecode
          exact ⟨(wire_of_decode hd).1, r.2, (wire_of_decode hd).2⟩

/-! ## Which frames arrive -/

/-- The length of a frame's encoding: what `Receive` compares with the limit. -/
def encodedLen (f : Frame) : ℕ :=
  frameFixedSize + f.header.length + f.payload.length + if f.hasHMAC then macSize else 0

theorem length_wire {f : Frame} (hmac : f.MacFits) : f.wire.length = encodedLen f := by
  rw [wire, List.length_append, List.length_append, List.length_append, length_preamble,
    encodedLen]
  unfold MacFits at hmac
  split at hmac
  · next h => rw [if_pos h, hmac]; omega
  · next h => rw [if_neg h, hmac, List.length_nil]; omega

/-- A frame of the format whose encoding is within the limit arrives as it
was sent. -/
theorem receive_record_wire {f : Frame} (hf : f.WellFormed)
    (hlen : encodedLen f ≤ maxFrameSize) (rest : Bytes) :
    receive (record f.wire ++ rest) = (.ok f, rest) := by
  have hdec : decode f.wire = .ok (f, []) := by
    simpa only [List.append_nil] using decode_wire hf []
  rw [receive_record (by rwa [length_wire hf.mac]), hdec]
  rfl

/-- **Which frames arrive.** A frame of the current version whose MAC fits
its flags arrives as it was sent – and none within the documented limit is
sent and then refused – exactly when `Send` refuses it or its whole encoding,
preamble and MAC included, is within the limit. -/
theorem receive_send_iff (f : Frame) (hversion : f.version = protocolVersion)
    (hmac : f.MacFits) :
    ((∀ b rest, send f = .ok b → receive (b ++ rest) = (.ok f, rest))
      ∧ (f.header.length + f.payload.length ≤ maxFrameSize →
        ¬∃ b rest e, send f = .ok b ∧ (receive (b ++ rest)).1 = .error e))
      ↔ maxFrameSize < f.header.length + f.payload.length
        ∨ encodedLen f ≤ maxFrameSize := by
  by_cases hsize : f.header.length + f.payload.length ≤ maxFrameSize
  · have hsend : ∀ b, send f = .ok b ↔ b = record f.wire := by
      intro b
      rw [send_eq_ok_iff, encode_of_macFits hmac hsize]
      exact ⟨fun ⟨_, h, hb⟩ => Except.ok.inj h ▸ hb, fun h => ⟨_, rfl, h⟩⟩
    simp only [hsend, not_lt.mpr hsize, false_or]
    constructor
    · intro h
      by_contra hlt
      rw [not_le] at hlt
      have hfit : f.wire.length < 256 ^ 4 := by
        have hmax : maxFrameSize = 1048576 := rfl
        have hfix : frameFixedSize = 16 := rfl
        have hms : macSize = 32 := rfl
        rw [length_wire hmac, encodedLen]
        split <;> omega
      -- the prefix announces more than the receiver takes
      have hrefuse := receive_record_of_lt (b := f.wire)
        (by rwa [length_wire hmac]) hfit []
      rw [h.1 _ [] rfl] at hrefuse
      exact nomatch hrefuse
    · intro hlen
      have hrecv := receive_record_wire ⟨hversion, hsize, hmac⟩ hlen
      refine ⟨?_, ?_⟩
      · rintro b rest rfl
        exact hrecv rest
      · rintro - ⟨b, rest, e, rfl, he⟩
        rw [hrecv rest] at he
        exact nomatch he
  · have hrefused := send_of_lt (not_le.mp hsize)
    refine ⟨fun _ => .inl (not_le.mp hsize), fun _ => ⟨fun b _ hb => ?_, fun h => absurd h hsize⟩⟩
    exact (nomatch hrefused.symm.trans hb)

/-- A signed heartbeat of 100 payload bytes arrives. -/
theorem receive_send_heartbeat :
    (⟨1, 0x68, 1, [], List.replicate 100 0, List.replicate 32 0⟩ : Frame).MacFits
      ∧ ∀ b rest, send ⟨1, 0x68, 1, [], List.replicate 100 0, List.replicate 32 0⟩ = .ok b →
        receive (b ++ rest)
          = (.ok ⟨1, 0x68, 1, [], List.replicate 100 0, List.replicate 32 0⟩, rest) :=
  ⟨by decide, ((receive_send_iff ⟨1, 0x68, 1, [], List.replicate 100 0, List.replicate 32 0⟩ rfl
    (by decide)).mpr (.inr (by decide))).1⟩

/-- A frame whose payload is exactly as large as the limit is sent, and its
record is refused. -/
theorem receive_send_of_payload {p : Bytes} (hp : p.length = maxFrameSize) :
    (⟨1, 0x69, 0, [], p, []⟩ : Frame).MacFits
      ∧ ∃ b, send ⟨1, 0x69, 0, [], p, []⟩ = .ok b
        ∧ ∀ rest, (receive (b ++ rest)).1 = .error (.frameTooLarge 1048592) := by
  have hno : (⟨1, 0x69, 0, [], p, []⟩ : Frame).hasHMAC = false := by
    show ((0 : UInt8) &&& flagHMAC != 0) = false
    decide
  have hmac : (⟨1, 0x69, 0, [], p, []⟩ : Frame).MacFits := by
    rw [MacFits, hno]
    rfl
  have hlen : (⟨1, 0x69, 0, [], p, []⟩ : Frame).wire.length = 1048592 := by
    rw [length_wire hmac, encodedLen, hno, hp]
    simp [frameFixedSize, maxFrameSize]
  have hsize : (⟨1, 0x69, 0, [], p, []⟩ : Frame).header.length
      + (⟨1, 0x69, 0, [], p, []⟩ : Frame).payload.length ≤ maxFrameSize := by
    rw [hp]
    exact le_of_eq (Nat.zero_add _)
  refine ⟨hmac, _, send_eq_ok_iff.mpr ⟨_, encode_of_macFits hmac hsize, rfl⟩, fun rest => ?_⟩
  have hmax : maxFrameSize = 1048576 := rfl
  rw [receive_record_of_lt (by omega) (by omega), hlen]

/-- **A frame within the documented limit is lost**: with a payload of 1 MB
of zeros, the sender accepts what the receiver refuses. -/
theorem receive_send_refused :
    (List.replicate maxFrameSize (0 : UInt8)).length ≤ maxFrameSize
      ∧ (⟨1, 0x69, 0, [], List.replicate maxFrameSize 0, []⟩ : Frame).MacFits
      ∧ ∃ b, send ⟨1, 0x69, 0, [], List.replicate maxFrameSize 0, []⟩ = .ok b
        ∧ ∀ rest, (receive (b ++ rest)).1 = .error (.frameTooLarge 1048592) :=
  ⟨le_of_eq List.length_replicate, receive_send_of_payload List.length_replicate⟩

end ConnWrapper
