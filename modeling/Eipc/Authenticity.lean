import Eipc.Endpoint
import Eipc.Sdk.Receive

/-!
# What a received message proves

Four functions turn a frame into a message: the `Receive` of the two Go
endpoints, and the two receive functions of the C SDK. They were written apart,
in two languages, and check the MAC in the same place and under the same
condition: the flag of the frame that arrived.

`receive_authentic` is what all four guarantee. A message that comes from a
flagged frame comes with the HMAC-SHA256 of the frame's signable bytes under the
receiver's key. A message that comes from an unflagged frame proves nothing: any
key would have let it through. `receive_unflagged` is such a frame, and all four
deliver it.

What the HMAC proves depends on what is signed. The signable bytes say all of the
frame but the MAC, and say it in one way only, so that a MAC belongs to one frame
(`mac_authenticates_one`).
-/

open Bytes Frame EipcFrame

section Unflagged

variable {Time σ ε : Type} (tf : TimeFormat Time) (conn : Connection σ ε)

/-- An unflagged frame is opened alike under every key. -/
theorem Endpoint.openFrame_of_unflagged {codec : Codec} {f : Frame} (h : f.hasHMAC = false)
    (key key' : Bytes) :
    openFrame (ε := ε) codec key f = openFrame codec key' f := by
  have hno : ∀ {P : Prop}, ¬(f.hasHMAC = true ∧ P) := fun hflag => by simp [h] at hflag
  unfold openFrame
  rw [if_neg hno, if_neg hno]

/-- A client delivers an unflagged frame under every key. -/
theorem ClientEndpoint.receive_of_unflagged {e : ClientEndpoint} {s : σ} {f : Frame}
    {msg : Message Time} (hf : (conn.receive s).1 = .ok f) (h : f.hasHMAC = false)
    (hmsg : (e.receive tf conn s).1 = .ok msg) (key : Bytes) :
    (({ e with hmacKey := key } : ClientEndpoint).receive tf conn s).1 = .ok msg := by
  obtain ⟨f', hdr, hf', hopen, rfl⟩ := (ClientEndpoint.receive_eq_ok_iff tf conn).mp hmsg
  cases hf.symm.trans hf'
  rw [Endpoint.openFrame_of_unflagged h e.hmacKey key] at hopen
  exact (ClientEndpoint.receive_eq_ok_iff tf conn).mpr ⟨f, hdr, hf, hopen, rfl⟩

/-- A server delivers an unflagged frame under every key. -/
theorem ServerEndpoint.receive_of_unflagged {e : ServerEndpoint} {s : σ} {f : Frame}
    {msg : Message Time} (hf : (conn.receive s).1 = .ok f) (h : f.hasHMAC = false)
    (hmsg : (e.receive tf conn s).1 = .ok msg) (key : Bytes) :
    (({ e with hmacKey := key } : ServerEndpoint).receive tf conn s).1 = .ok msg := by
  obtain ⟨f', hdr, hf', hopen, hcheck, rfl⟩ := (ServerEndpoint.receive_eq_ok_iff tf conn).mp hmsg
  cases hf.symm.trans hf'
  rw [Endpoint.openFrame_of_unflagged h e.hmacKey key] at hopen
  exact (ServerEndpoint.receive_eq_ok_iff tf conn).mpr ⟨f, hdr, hf, hopen, hcheck, rfl⟩

end Unflagged

/-- What the SDK's receive functions guarantee of a frame they make a message
of. -/
theorem authentic_of_receiveFrame {a : Allocs} {s key : Bytes} {f : EipcFrame}
    {msg : EipcMessage} (hf : (eipcTransportRecvFrame a.record s).1 = .ok f)
    (hmsg : receiveFrame a key f = some (.ok msg)) :
    f.toFrame.hasHMAC = true → f.toFrame.mac = hmacSha256 key f.toFrame.signableBytes :=
  (verifyFrame_eq_ok_iff (fits_of_recvFrame hf)).mp (verifyFrame_of_receiveFrame hmsg)

/-! ## Three frames -/

/-- The header of a first message with nothing else in it. -/
def bareHeader : Header := { Header.zero with sequence := 1 }

/-- A frame with that header, no MAC, and no flag that announces one. -/
def unsignedFrame : Frame := ⟨1, 0x69, 0, Json.writeObject bareHeader.members, [], []⟩

/-- The same message in a frame that is signed under the key `k`. -/
def signedBareFrame : Frame :=
  Endpoint.signFrame [0x6b] (Endpoint.frameOf unsignedFrame.header
    (⟨1, MessageType.typeIntent, [], (), [], [], 0, [], []⟩ : Message Unit))

theorem mac_signedBareFrame :
    signedBareFrame.mac = hmacSha256 [0x6b] signedBareFrame.signableBytes := by
  unfold signedBareFrame
  exact Endpoint.mac_signFrame _ _

theorem unmarshal_bareHeader : Codec.json.unmarshal unsignedFrame.header = .ok bareHeader :=
  Codec.json_undoes bareHeader _ ⟨Json.validUTF8_nil, Json.validUTF8_nil, Json.validUTF8_nil,
    Json.validUTF8_nil, Json.validUTF8_nil, Json.validUTF8_nil⟩ rfl

theorem length_bareHeader : unsignedFrame.header.length ≤ 200 := by decide +kernel

theorem encodedLen_bareHeader {f : Frame} (hheader : f.header = unsignedFrame.header)
    (hpayload : f.payload = []) : ConnWrapper.encodedLen f ≤ 248 := by
  have hsize : f.header.length + f.payload.length ≤ 200 := by
    rw [hheader, hpayload]
    exact length_bareHeader
  have hfix : frameFixedSize = 16 := rfl
  have hms : macSize = 32 := rfl
  unfold ConnWrapper.encodedLen
  split <;> omega

/-- Both frames arrive over a stream. -/
theorem receive_stream {f : Frame} (hheader : f.header = unsignedFrame.header)
    (hpayload : f.payload = []) (hversion : f.version = protocolVersion) (hmac : f.MacFits) :
    (ConnWrapper.connection.receive ⟨ConnWrapper.record f.wire, []⟩).1 = .ok f := by
  have hsize : f.header.length + f.payload.length ≤ maxFrameSize := by
    rw [hheader, hpayload]
    exact length_bareHeader.trans (by decide)
  have hlen := (encodedLen_bareHeader hheader hpayload).trans (show 248 ≤ maxFrameSize by decide)
  have hrecv := ConnWrapper.receive_record_wire ⟨hversion, hsize, hmac⟩ hlen []
  rw [List.append_nil] at hrecv
  rw [ConnWrapper.connection]
  dsimp only
  rw [hrecv]

/-- A client and a server with a key deliver a frame with that header when it is
unsigned or rightly signed. -/
theorem receive_bareHeader {f : Frame} {s : ConnWrapper.Stream}
    (hheader : f.header = unsignedFrame.header)
    (hmac : f.hasHMAC = true → f.mac = hmacSha256 [0x6b] f.signableBytes)
    (hf : (ConnWrapper.connection.receive s).1 = .ok f) :
    ((ClientEndpoint.new Codec.json [0x6b]).receive .zeroOnly ConnWrapper.connection s).1
        = .ok (Endpoint.messageOf .zeroOnly f bareHeader)
      ∧ ((ServerEndpoint.new Codec.json [0x6b]).receive .zeroOnly ConnWrapper.connection s).1
        = .ok (Endpoint.messageOf .zeroOnly f bareHeader) := by
  have hopen : Endpoint.openFrame (ε := TransportError) Codec.json [0x6b] f = .ok bareHeader :=
    Endpoint.openFrame_eq_ok_iff.mpr ⟨hmac, by rw [hheader, unmarshal_bareHeader]⟩
  exact ⟨(ClientEndpoint.receive_eq_ok_iff _ _).mpr ⟨f, bareHeader, hf, hopen, rfl⟩,
    (ServerEndpoint.receive_eq_ok_iff _ _).mpr ⟨f, bareHeader, hf, hopen, rfl, rfl⟩⟩

/-- The SDK with the same key receives the signed frame too. -/
theorem receive_signedBareFrame :
    ∃ f msg, (eipcTransportRecvFrame true (ConnWrapper.record signedBareFrame.wire)).1 = .ok f
      ∧ f.toFrame = signedBareFrame ∧ receiveFrame ⟨true, true⟩ [0x6b] f = some (.ok msg) := by
  have hwell : signedBareFrame.WellFormed :=
    ⟨rfl, length_bareHeader.trans (by decide), (if_pos rfl).mpr (length_hmacSha256 _ _)⟩
  have hheader : signedBareFrame.header.length < eipcMaxHeader :=
    length_bareHeader.trans_lt (by decide)
  obtain ⟨f, hf⟩ := exists_eipcFrameDecode_wire hwell hheader.le (Nat.zero_le _) []
  rw [List.append_nil] at hf
  have hlen : signedBareFrame.wire.length ≤ eipcMaxFrame := by
    have hshort : ConnWrapper.encodedLen signedBareFrame ≤ 248 := encodedLen_bareHeader rfl rfl
    rw [ConnWrapper.length_wire hwell.mac]
    exact hshort.trans (by decide)
  have hrecv := eipcTransportRecvFrame_record hlen []
  rw [List.append_nil, hf] at hrecv
  have hreceive := receiveFrame_of_decode (a := ⟨true, true⟩) hwell
    (fun _ => mac_signedBareFrame) (by decide +kernel) hheader hf
  obtain ⟨msg, hmsg⟩ : ∃ msg, eipcMessageOf f (eipcHeaderFromJson signedBareFrame.header)
      = .ok msg := ⟨_, if_neg fun h => absurd h.2 (not_lt.mpr (fits_of_decode hf).payload)⟩
  exact ⟨f, msg, congrArg Prod.fst hrecv, toFrame_of_decode_wire hwell hf,
    hreceive.trans (congrArg some hmsg)⟩

/-- A frame with neither header nor payload, which the SDK reads too. -/
def emptyFrame : Frame := ⟨1, 0x69, 0, [], [], []⟩

theorem eipcClientReceive_emptyFrame :
    (eipcClientReceive ⟨true, true⟩ ⟨[0x6b], true, by decide⟩
      (ConnWrapper.record emptyFrame.wire)).1 = some (.ok ⟨1, 0x69, [], [], [], 0, [], []⟩) := rfl

theorem eipcServerReceive_emptyFrame :
    (eipcServerReceive ⟨true, true⟩ ⟨[0x6b], 0, true, by decide⟩
      (ConnWrapper.record emptyFrame.wire)).1 = some (.ok ⟨1, 0x69, [], [], [], 0, [], []⟩) := rfl

/-! ## The guarantee -/

/-- **What a received message proves**, on each of the four paths: it comes from
a frame that arrived; if that frame was flagged, its MAC is the HMAC-SHA256 of
its signable bytes under the receiver's key; if it was not, the key played no
part. -/
theorem receive_authentic :
    (∀ {Time σ ε : Type} (tf : TimeFormat Time) (conn : Connection σ ε) (e : ClientEndpoint)
      (s : σ) (msg : Message Time), (e.receive tf conn s).1 = .ok msg →
        ∃ f, (conn.receive s).1 = .ok f
          ∧ (f.hasHMAC = true → f.mac = hmacSha256 e.hmacKey f.signableBytes)
          ∧ (f.hasHMAC = false → ∀ key,
              (({ e with hmacKey := key } : ClientEndpoint).receive tf conn s).1 = .ok msg))
    ∧ (∀ {Time σ ε : Type} (tf : TimeFormat Time) (conn : Connection σ ε) (e : ServerEndpoint)
      (s : σ) (msg : Message Time), (e.receive tf conn s).1 = .ok msg →
        ∃ f, (conn.receive s).1 = .ok f
          ∧ (f.hasHMAC = true → f.mac = hmacSha256 e.hmacKey f.signableBytes)
          ∧ (f.hasHMAC = false → ∀ key,
              (({ e with hmacKey := key } : ServerEndpoint).receive tf conn s).1 = .ok msg))
    ∧ (∀ (a : Allocs) (c : EipcClient) (s : Bytes) (msg : EipcMessage),
        (eipcClientReceive a c s).1 = some (.ok msg) →
        ∃ f, (eipcTransportRecvFrame a.record s).1 = .ok f
          ∧ (f.toFrame.hasHMAC = true →
              f.toFrame.mac = hmacSha256 c.hmacKey f.toFrame.signableBytes)
          ∧ (f.toFrame.hasHMAC = false → ∀ key hkey,
              (eipcClientReceive a ⟨key, c.connected, hkey⟩ s).1 = some (.ok msg)))
    ∧ ∀ (a : Allocs) (conn : EipcConn) (s : Bytes) (msg : EipcMessage),
        (eipcServerReceive a conn s).1 = some (.ok msg) →
        ∃ f, (eipcTransportRecvFrame a.record s).1 = .ok f
          ∧ (f.toFrame.hasHMAC = true →
              f.toFrame.mac = hmacSha256 conn.hmacKey f.toFrame.signableBytes)
          ∧ (f.toFrame.hasHMAC = false → ∀ key hkey,
              (eipcServerReceive a ⟨key, conn.sequence, conn.connected, hkey⟩ s).1
                = some (.ok msg)) := by
  refine ⟨?_, ?_, ?_, ?_⟩
  · intro Time σ ε tf conn e s msg h
    obtain ⟨f, hdr, hf, hopen, -⟩ := (ClientEndpoint.receive_eq_ok_iff tf conn).mp h
    exact ⟨f, hf, (Endpoint.openFrame_eq_ok_iff.mp hopen).1,
      fun hflag => ClientEndpoint.receive_of_unflagged tf conn hf hflag h⟩
  · intro Time σ ε tf conn e s msg h
    obtain ⟨f, hdr, hf, hopen, -⟩ := (ServerEndpoint.receive_eq_ok_iff tf conn).mp h
    exact ⟨f, hf, (Endpoint.openFrame_eq_ok_iff.mp hopen).1,
      fun hflag => ServerEndpoint.receive_of_unflagged tf conn hf hflag h⟩
  · intro a c s msg h
    obtain ⟨hconn, f, hf, hmsg⟩ := eipcClientReceive_eq_ok_iff.mp h
    refine ⟨f, hf, authentic_of_receiveFrame hf hmsg, fun hflag key hkey => ?_⟩
    rw [receiveFrame_of_unflagged hflag a c.hmacKey key] at hmsg
    exact eipcClientReceive_eq_ok_iff.mpr ⟨hconn, f, hf, hmsg⟩
  · intro a conn s msg h
    obtain ⟨hconn, f, hf, hmsg⟩ := eipcServerReceive_eq_ok_iff.mp h
    refine ⟨f, hf, authentic_of_receiveFrame hf hmsg, fun hflag key hkey => ?_⟩
    rw [receiveFrame_of_unflagged hflag a conn.hmacKey key] at hmsg
    exact eipcServerReceive_eq_ok_iff.mpr ⟨hconn, f, hf, hmsg⟩

/-- A signed frame that reaches all four. -/
theorem receive_authentic_signed :
    (∃ f, (ConnWrapper.connection.receive ⟨ConnWrapper.record signedBareFrame.wire, []⟩).1 = .ok f
      ∧ f.hasHMAC = true ∧ f.mac = hmacSha256 [0x6b] f.signableBytes)
    ∧ (∃ f, (ConnWrapper.connection.receive ⟨ConnWrapper.record signedBareFrame.wire, []⟩).1 = .ok f
      ∧ f.hasHMAC = true ∧ f.mac = hmacSha256 [0x6b] f.signableBytes)
    ∧ (∃ f, (eipcTransportRecvFrame true (ConnWrapper.record signedBareFrame.wire)).1 = .ok f
      ∧ f.toFrame.hasHMAC = true
      ∧ f.toFrame.mac = hmacSha256 [0x6b] f.toFrame.signableBytes)
    ∧ ∃ f, (eipcTransportRecvFrame true (ConnWrapper.record signedBareFrame.wire)).1 = .ok f
      ∧ f.toFrame.hasHMAC = true
      ∧ f.toFrame.mac = hmacSha256 [0x6b] f.toFrame.signableBytes := by
  have hmac : signedBareFrame.MacFits := (if_pos rfl).mpr (length_hmacSha256 _ _)
  have hstream := receive_stream (f := signedBareFrame) rfl rfl rfl hmac
  obtain ⟨hclient, hserver⟩ :=
    receive_bareHeader (f := signedBareFrame) rfl (fun _ => mac_signedBareFrame) hstream
  obtain ⟨u, msg, hu, hframe, hmsg⟩ := receive_signedBareFrame
  have hflagged : ∀ {v}, (eipcTransportRecvFrame true (ConnWrapper.record signedBareFrame.wire)).1
      = .ok v → v.toFrame.hasHMAC = true := by
    intro v hv
    obtain rfl := Except.ok.inj (hu.symm.trans hv)
    rw [hframe]
    rfl
  obtain ⟨f, hf, fauth, -⟩ := receive_authentic.1 .zeroOnly ConnWrapper.connection _ _ _ hclient
  obtain ⟨g, hg, gauth, -⟩ := receive_authentic.2.1 .zeroOnly ConnWrapper.connection _ _ _ hserver
  obtain rfl := Except.ok.inj (hstream.symm.trans hf)
  obtain rfl := Except.ok.inj (hstream.symm.trans hg)
  obtain ⟨v, hv, vauth, -⟩ := receive_authentic.2.2.1 ⟨true, true⟩ ⟨[0x6b], true, by decide⟩ _ _
    (eipcClientReceive_eq_ok_iff.mpr ⟨rfl, u, hu, hmsg⟩)
  obtain ⟨w, hw, wauth, -⟩ := receive_authentic.2.2.2 ⟨true, true⟩ ⟨[0x6b], 0, true, by decide⟩ _ _
    (eipcServerReceive_eq_ok_iff.mpr ⟨rfl, u, hu, hmsg⟩)
  exact ⟨⟨_, hf, rfl, fauth rfl⟩, ⟨_, hg, rfl, gauth rfl⟩,
    ⟨v, hv, hflagged hv, vauth (hflagged hv)⟩, w, hw, hflagged hw, wauth (hflagged hw)⟩

/-- **An unsigned frame is delivered** on all four paths, to receivers that have
a key. -/
theorem receive_unflagged :
    unsignedFrame.hasHMAC = false
    ∧ (∃ msg, ((ClientEndpoint.new Codec.json [0x6b]).receive .zeroOnly ConnWrapper.connection
        ⟨ConnWrapper.record unsignedFrame.wire, []⟩).1 = .ok msg)
    ∧ (∃ msg, ((ServerEndpoint.new Codec.json [0x6b]).receive .zeroOnly ConnWrapper.connection
        ⟨ConnWrapper.record unsignedFrame.wire, []⟩).1 = .ok msg)
    ∧ emptyFrame.hasHMAC = false
    ∧ (eipcClientReceive ⟨true, true⟩ ⟨[0x6b], true, by decide⟩
        (ConnWrapper.record emptyFrame.wire)).1 = some (.ok ⟨1, 0x69, [], [], [], 0, [], []⟩)
    ∧ (eipcServerReceive ⟨true, true⟩ ⟨[0x6b], 0, true, by decide⟩
        (ConnWrapper.record emptyFrame.wire)).1 = some (.ok ⟨1, 0x69, [], [], [], 0, [], []⟩) := by
  have hmac : unsignedFrame.MacFits := rfl
  obtain ⟨hclient, hserver⟩ := receive_bareHeader rfl (fun hflag => (nomatch hflag))
    (receive_stream rfl rfl rfl hmac)
  exact ⟨rfl, ⟨_, hclient⟩, ⟨_, hserver⟩, rfl, eipcClientReceive_emptyFrame,
    eipcServerReceive_emptyFrame⟩

/-! ## One MAC, one frame -/

/-- **One MAC authenticates one frame.** Two frames within the limit have the same signable
bytes only if they agree in all that the MAC covers – a byte that moves from the header to
the payload changes them – so where one MAC verifies for both, either they agree in all of
it or HMAC-SHA256 has a collision under the key. -/
theorem mac_authenticates_one (f g : Frame)
    (hf : f.header.length + f.payload.length ≤ maxFrameSize)
    (hg : g.header.length + g.payload.length ≤ maxFrameSize) :
    (f.signableBytes = g.signableBytes →
      f.version = g.version ∧ f.msgType = g.msgType ∧ f.flags = g.flags ∧ f.header = g.header
        ∧ f.payload = g.payload)
    ∧ (f.header ++ f.payload = g.header ++ g.payload → f.header ≠ g.header →
      f.signableBytes ≠ g.signableBytes)
    ∧ ∀ key mac, Integrity.verify key f.signableBytes mac = true →
      Integrity.verify key g.signableBytes mac = true →
        (f.version = g.version ∧ f.msgType = g.msgType ∧ f.flags = g.flags
          ∧ f.header = g.header ∧ f.payload = g.payload)
        ∨ (f.signableBytes ≠ g.signableBytes
          ∧ hmacSha256 key f.signableBytes = hmacSha256 key g.signableBytes) := by
  have hinj : f.signableBytes = g.signableBytes → f.version = g.version ∧ f.msgType = g.msgType
      ∧ f.flags = g.flags ∧ f.header = g.header ∧ f.payload = g.payload :=
    fun h => withoutMac_eq_iff.mp (signableBytes_inj hf hg h)
  refine ⟨hinj, fun _ hne h => hne (hinj h).2.2.2.1, fun key mac hvf hvg => ?_⟩
  rw [Integrity.verify_iff] at hvf hvg
  by_cases h : f.signableBytes = g.signableBytes
  · exact .inl (hinj h)
  · exact .inr ⟨h, hvf.symm.trans hvg⟩

/-- The last byte of the header becomes the first of the payload. -/
theorem mac_authenticates_one_moved :
    (⟨1, 0x69, 1, [1, 2], [3], []⟩ : Frame).signableBytes
      ≠ (⟨1, 0x69, 1, [1], [2, 3], []⟩ : Frame).signableBytes :=
  (mac_authenticates_one ⟨1, 0x69, 1, [1, 2], [3], []⟩ ⟨1, 0x69, 1, [1], [2, 3], []⟩ (by decide)
    (by decide)).2.1 rfl (by decide)
