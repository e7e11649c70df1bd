import Eipc.ConnWrapper
import Eipc.Lib.Reader

/-!
# Records on a stream

A record is described twice. Its prefix says how long it is, and the preamble of the frame
inside it says how long header and payload are and whether there is a MAC. `Receive`
(`transport/transport.go`) reads what the prefix announces and hands it to `Decode`, which
reads what the preamble describes and leaves the rest; nobody looks at the rest. So the
bytes of an accepted record are those that `Send` would have written exactly if the two
descriptions agree (`ConnWrapper.receive_canonical_iff`), and where they do not the record
carries bytes that no MAC covers (`ConnWrapper.receive_padded`).

The other way round a record is safe: whatever is in it, a record within the limit is read
to its end and not beyond (`ConnWrapper.receives_records`). This is where the bytes may
come in pieces, so the calls are modelled once more, over a reader: `Receive` reads from the
connection, and `Decode` from a `bytesReader` over the record. They are the functions that
`ConnWrapper.receive` and `Frame.decode` say they are, whatever the pieces
(`ConnWrapper.receiveFrom_eq`).
-/

open Bytes Frame

/-! ## Reading a frame from a reader -/

namespace Frame

variable {ρ : Type} (R : Reader ρ)

/-- A variable-length field of `Decode`. -/
def readFieldFrom (wrap : ReadError → FrameError) (n : ℕ) : Reader.Prog ρ FrameError Bytes :=
  if n > 0 then R.readFullAs wrap n else pure []

/-- The MAC of `Decode`. -/
def readMacFrom (flags : UInt8) : Reader.Prog ρ FrameError Bytes :=
  if flags &&& flagHMAC != 0 then R.readFullAs .readMAC macSize else pure []

/-- `Decode`, with the reads that it makes. -/
def decodeFrom : Reader.Prog ρ FrameError Frame := do
  let preamble ← R.readFullAs .readPreamble frameFixedSize
  let magic := toNatBE (preamble.slice 0 4)
  Reader.failIf (magic ≠ magicBytes) .badMagic
  let version := UInt16.ofNat (toNatBE (preamble.slice 4 6))
  Reader.failIf (version ≠ protocolVersion) .badVersion
  let msgType := preamble.getD 6 0
  let flags := preamble.getD 7 0
  let headerLen := toNatBE (preamble.slice 8 12)
  let payloadLen := toNatBE (preamble.slice 12 16)
  Reader.failIf (headerLen + payloadLen > maxFrameSize) .frameTooLarge
  let header ← readFieldFrom R .readHeader headerLen
  let payload ← readFieldFrom R .readPayload payloadLen
  let mac ← readMacFrom R flags
  return { version, msgType, flags, header, payload, mac }

variable {R}

theorem tracks_readField (wrap : ReadError → FrameError) (n : ℕ) :
    R.Tracks (readFieldFrom R wrap n) (readField wrap n) := by
  unfold readFieldFrom
  split
  · next hn =>
    have hfield : readField wrap n = Bytes.readFullAs wrap n := funext fun s => if_pos hn
    rw [hfield]
    exact Reader.tracks_readFullAs wrap n
  · next hn =>
    have hfield : readField wrap n = fun s => .ok ([], s) := funext fun s => if_neg hn
    rw [hfield]
    exact Reader.tracks_pure []

theorem tracks_readMac (flags : UInt8) : R.Tracks (readMacFrom R flags) (readMac flags) := by
  unfold readMacFrom
  split
  · next hflag =>
    have hmac : readMac flags = Bytes.readFullAs .readMAC macSize := funext fun s => if_pos hflag
    rw [hmac]
    exact Reader.tracks_readFullAs _ _
  · next hflag =>
    have hmac : readMac flags = fun s => .ok ([], s) := funext fun s => if_neg hflag
    rw [hmac]
    exact Reader.tracks_pure []

/-- **Decoding from a reader is decoding the bytes that it has to deliver.** -/
theorem tracks_decode : R.Tracks (decodeFrom R) decode := by
  refine (Reader.tracks_readFullAs _ _).bind fun preamble => ?_
  refine (Reader.Tracks.failIf_bind ?_ _ _)
  refine (Reader.Tracks.failIf_bind ?_ _ _)
  refine (Reader.Tracks.failIf_bind ?_ _ _)
  refine (tracks_readField _ _).bind fun header => ?_
  refine (tracks_readField _ _).bind fun payload => ?_
  refine (tracks_readMac _).bind fun mac => ?_
  exact Reader.tracks_pure _

end Frame

/-! ## `bytesReader` -/

/-- `bytesReader`: a byte slice, and how far it has been read. -/
structure BytesReader where
  data : Bytes
  pos : ℕ

namespace BytesReader

/-- `newBytesReader`. -/
def new (data : Bytes) : BytesReader := ⟨data, 0⟩

/-- `Read`, with the bytes that are copied and whether the answer is `io.EOF`. -/
def read (k : ℕ) (r : BytesReader) : (Bytes × Bool) × BytesReader :=
  if r.pos ≥ r.data.length then (([], true), r)
  else
    let b := (r.data.drop r.pos).take k
    ((b, false), { r with pos := r.pos + b.length })

/-- **A `bytesReader` is a reader**: it delivers its slice from the position on. -/
def reader : Reader BytesReader where
  read := read
  content r := r.data.drop r.pos
  idle _ := 0
  length_read k r := by
    unfold read
    split
    · exact Nat.zero_le k
    · exact List.length_take_le k _
  content_read k r := by
    unfold read
    split
    · rfl
    · show (r.data.drop r.pos).take k
          ++ r.data.drop (r.pos + ((r.data.drop r.pos).take k).length) = _
      rw [← List.drop_drop]
      refine Eq.trans (congrArg (· ++ _) ?_) (List.take_append_drop _ _)
      rw [List.length_take, ← List.take_eq_take_min]
  content_of_end k r := by
    unfold read
    split
    · next hpos => exact fun _ => List.drop_eq_nil_of_le hpos
    · exact nofun
  idle_read k r hk := by
    unfold read
    split
    · exact fun hidle => (nomatch congrArg Prod.snd hidle)
    · next hpos =>
      intro hidle
      have hnil := congrArg (List.length ∘ Prod.fst) hidle
      simp only [Function.comp_apply, List.length_take, List.length_drop, List.length_nil] at hnil
      omega

end BytesReader

namespace ConnWrapper

/-! ## Receiving from a reader -/

section Receive

variable {ρ : Type} (R : Reader ρ)

/-- What `Receive` does with a record that it has read: `Decode`, from a `bytesReader` that
is then dropped, with all that it has left. -/
def decodeRecord (frameBuf : Bytes) : Except TransportError Frame :=
  (decodeFrom BytesReader.reader (BytesReader.new frameBuf)).1.mapError .decode

/-- `Receive`, with the reads that it makes. -/
def receiveFrom : Reader.Prog ρ TransportError Frame := do
  let lenBuf ← R.readFullAs .readLength 4
  let frameLen := toNatBE lenBuf
  Reader.failIf (frameLen > maxFrameSize) (.frameTooLarge frameLen)
  let frameBuf ← R.readFullAs .readFrame frameLen
  ofExcept (decodeRecord frameBuf)

/-- The calls of `Receive` one after the other, whatever they return. -/
def receives : ℕ → ρ → List (Except TransportError Frame) × ρ
  | 0, r => ([], r)
  | n + 1, r =>
    let (outcome, r) := receiveFrom R r
    let (outcomes, r) := receives n r
    (outcome :: outcomes, r)

variable {R}

/-- The reader of the record delivers the record. -/
theorem decodeRecord_eq (b : Bytes) :
    decodeRecord b = ((decode b).mapError .decode).map Prod.fst := by
  have hdecode := (tracks_decode (R := BytesReader.reader)).fst_eq (BytesReader.new b)
  unfold decodeRecord
  rw [hdecode]
  show ((decode b).map Prod.fst).mapError _ = _
  cases decode b <;> rfl

/-- **The pieces do not matter to `Receive`.** -/
theorem receiveFrom_eq (r : ρ) :
    (receiveFrom R r).1 = (receive (R.content r)).1
      ∧ R.content (receiveFrom R r).2 = (receive (R.content r)).2 := by
  unfold receive receiveFrom
  cases hlen : Bytes.readFullAs TransportError.readLength 4 (R.content r) with
  | error e =>
    have hrest := Reader.content_readFullAs_of_error hlen
    rw [Reader.run_bind_of_error ((Reader.tracks_readFullAs _ _ r).2 e hlen)]
    exact ⟨rfl, hrest⟩
  | ok p =>
    obtain ⟨lenBuf, s⟩ := p
    obtain ⟨hread, hrest⟩ := (Reader.tracks_readFullAs _ _ r).1 _ _ hlen
    rw [Reader.run_bind_of_ok hread]
    dsimp only
    rw [Reader.run_failIf_bind]
    split
    · exact ⟨rfl, hrest⟩
    · rw [← hrest]
      cases hbody : Bytes.readFullAs TransportError.readFrame (toNatBE lenBuf)
          (R.content (R.readFullAs TransportError.readLength 4 r).2) with
      | error e =>
        have hnil := Reader.content_readFullAs_of_error hbody
        rw [Reader.run_bind_of_error ((Reader.tracks_readFullAs _ _ _).2 e hbody)]
        exact ⟨rfl, hnil⟩
      | ok p =>
        obtain ⟨frameBuf, s'⟩ := p
        obtain ⟨hread', hrest'⟩ := (Reader.tracks_readFullAs _ _ _).1 _ _ hbody
        rw [Reader.run_bind_of_ok hread']
        dsimp only
        rw [← decodeRecord_eq]
        cases decodeRecord frameBuf with
        | error e => exact ⟨rfl, hrest'⟩
        | ok f => exact ⟨rfl, hrest'⟩

/-- **Every record is read for itself.** Whatever the records within the limit hold, and
however the reader cuts the bytes, the calls of `Receive` return what the records decode
to, one after the other, and leave what comes behind them. -/
theorem receives_records (R : Reader ρ) (records : List Bytes)
    (hsize : ∀ b ∈ records, b.length ≤ maxFrameSize) (rest : Bytes) (r : ρ)
    (hr : R.content r = records.flatMap record ++ rest) :
    (receives R records.length r).1
        = records.map (fun b => ((decode b).mapError .decode).map Prod.fst)
      ∧ R.content (receives R records.length r).2 = rest := by
  induction records generalizing r with
  | nil => exact ⟨rfl, hr⟩
  | cons b records ih =>
    obtain ⟨hb, hsize⟩ := List.forall_mem_cons.mp hsize
    rw [List.flatMap_cons, List.append_assoc] at hr
    obtain ⟨hfirst, hleft⟩ := receiveFrom_eq (R := R) r
    rw [hr, receive_record hb] at hfirst hleft
    obtain ⟨hothers, hrest⟩ := ih hsize (receiveFrom R r).2 hleft
    exact ⟨congrArg₂ List.cons hfirst hothers, hrest⟩

end Receive

/-- Three bytes and a heartbeat, which arrive byte by byte. -/
theorem receives_records_bytewise :
    (receives Reader.ofPieces 2 ⟨([[1, 2, 3], (⟨1, 0x68, 0, [], [7], []⟩ : Frame).wire].flatMap
        record).map ([·]), true⟩).1
      = [.error (.decode (.readPreamble .unexpectedEOF)), .ok ⟨1, 0x68, 0, [], [7], []⟩] :=
  (receives_records Reader.ofPieces [[1, 2, 3], (⟨1, 0x68, 0, [], [7], []⟩ : Frame).wire]
    (by decide) [] _ (by decide)).1.trans (by decide)

/-! ## The two lengths of a record -/

/-- The length that the prefix of the first record announces. -/
def announced (s : Bytes) : ℕ := toNatBE (s.slice 0 4)

/-- The length that the preamble behind the prefix describes: its own, that of header and
payload, and that of a MAC if the flags announce one. -/
def described (s : Bytes) : ℕ :=
  frameFixedSize + toNatBE (s.slice 12 16) + toNatBE (s.slice 16 20)
    + if s.getD 11 0 &&& flagHMAC != 0 then macSize else 0

/-- The preamble of a frame describes its encoding. -/
theorem described_wire {f : Frame} {lenBuf : Bytes} (hlen : lenBuf.length = 4)
    (hsize : f.header.length + f.payload.length ≤ maxFrameSize) (rest : Bytes) :
    described (lenBuf ++ (f.wire ++ rest)) = encodedLen f := by
  have hdrop : (lenBuf ++ (f.wire ++ rest)).drop 4 = f.wire ++ rest := by
    rw [← hlen, List.drop_left]
  have hslice : ∀ i j, (lenBuf ++ (f.wire ++ rest)).slice (4 + i) (4 + j)
      = (f.wire ++ rest).slice i j := by
    intro i j
    rw [← slice_drop, hdrop]
  have hflags : (lenBuf ++ (f.wire ++ rest)).getD (4 + 7) 0 = f.flags := by
    rw [List.getD_eq_getElem?_getD, ← List.getElem?_drop, hdrop, ← List.getD_eq_getElem?_getD,
      getD_wire_append f rest (by decide)]
    exact f.slice_preamble.2.2.2.1
  obtain ⟨hheader, hpayload⟩ := toNatBE_lengths_wire_append hsize rest
  unfold described encodedLen hasHMAC
  rw [hslice 8 12, hslice 12 16, hheader, hpayload, hflags]

/-- **When an accepted record is the one that was sent.** The bytes that `Receive` consumed
for a frame are those that `Send` writes for it exactly if the prefix of the record
announces the length that the preamble inside describes. -/
theorem receive_canonical_iff {s rest : Bytes} {f : Frame} (h : receive s = (.ok f, rest)) :
    (∃ b, send f = .ok b ∧ s = b ++ rest) ↔ announced s = described s := by
  obtain ⟨lenBuf, frameBuf, rfl, hfour, hlen, -, hf, dropped, rfl⟩ := exists_of_receive h
  have hsend : send f = .ok (record f.wire) :=
    send_eq_ok_iff.mpr ⟨f.wire, encode_of_macFits hf.mac hf.size, rfl⟩
  have hannounced : announced (lenBuf ++ (f.wire ++ dropped ++ rest))
      = encodedLen f + dropped.length := by
    rw [announced, slice_append_left _ _ hfour.ge, slice_eq_self hfour, hlen, List.length_append,
      length_wire hf.mac]
  have hdescribed : described (lenBuf ++ (f.wire ++ dropped ++ rest)) = encodedLen f := by
    rw [List.append_assoc]
    exact described_wire hfour hf.size _
  rw [hannounced, hdescribed, Nat.add_eq_left, List.length_eq_zero_iff]
  constructor
  · rintro ⟨b, hb, hs⟩
    cases hsend.symm.trans hb
    -- both sides end in `rest` and begin with four bytes and the frame
    have hlength := congrArg List.length hs
    simp only [record, List.length_append, length_ofNatBE, hfour] at hlength
    exact List.length_eq_zero_iff.mp (by omega)
  · rintro rfl
    refine ⟨record f.wire, hsend, ?_⟩
    rw [List.append_nil] at hlen ⊢
    rw [record, ← hlen, ← hfour, ofNatBE_toNatBE, List.append_assoc]

/-- A heartbeat as it was sent, and what comes behind it. -/
theorem receive_canonical_heartbeat :
    ∃ b, send ⟨1, 0x68, 0, [], [7], []⟩ = .ok b
      ∧ [0, 0, 0, 17, 0x45, 0x49, 0x50, 0x43, 0, 1, 0x68, 0, 0, 0, 0, 0, 0, 0, 0, 1, 7, 9]
        = b ++ [9] :=
  (receive_canonical_iff (by decide)).mpr (by decide)

/-- **A record with a byte too many is accepted**: it announces 18 bytes and describes 17,
and the last one, which no MAC would cover, is dropped. -/
theorem receive_padded :
    receive [0, 0, 0, 18, 0x45, 0x49, 0x50, 0x43, 0, 1, 0x68, 0, 0, 0, 0, 0, 0, 0, 0, 1, 7, 0xff]
        = (.ok ⟨1, 0x68, 0, [], [7], []⟩, [])
      ∧ send ⟨1, 0x68, 0, [], [7], []⟩
        = .ok [0, 0, 0, 17, 0x45, 0x49, 0x50, 0x43, 0, 1, 0x68, 0, 0, 0, 0, 0, 0, 0, 0, 1, 7] := by
  decide

end ConnWrapper
