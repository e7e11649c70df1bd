import Eipc.Delivery
import Eipc.Handlers

/-!
# The type of a message on the wire

`MessageType` is a string, and a frame has one byte for it. `MsgTypeToByte` gives every
declared type a byte of its own and sends any other string as its first byte;
`msgTypeFromByte` reads an unknown byte as the character with that code. The two
fallbacks undo each other on single characters of ASCII, if these are not taken. Every
other undeclared type is received as something else, and if its first byte stands for a
declared type, as that one: the message is then dispatched to a handler that it was not
meant for (`MessageType.received_as_intent`).

`MessageType.received_type_iff` says exactly which types arrive.
-/

open Bytes Endpoint

namespace MessageType

/-- The bytes that stand for the declared types. -/
def wireBytes : List UInt8 := declared.map msgTypeToByte

/-- The types that arrive as they were sent: the declared ones, a single character of
ASCII whose byte stands for none of them, and `Ã`, whose code happens to be the first
byte of its encoding. -/
def Kept (mt : MessageType) : Prop :=
  mt ∈ declared ∨ (∃ b, b < 0x80 ∧ b ∉ wireBytes ∧ mt = [b]) ∨ mt = [0xc3, 0x83]

/-- An undeclared type is sent as its first byte. -/
theorem msgTypeToByte_of_notMem {mt : MessageType} (h : mt ∉ declared) :
    msgTypeToByte mt = mt.headD 0 := by
  simp only [declared, List.mem_cons, List.not_mem_nil, or_false, not_or] at h
  simp only [msgTypeToByte, h, if_false]

/-- **What a byte is read as**: a declared type, the character that it is in ASCII, or two
bytes. -/
theorem msgTypeFromByte_cases (b : UInt8) :
    (b ∈ wireBytes ∧ msgTypeFromByte b ∈ declared)
      ∨ (b < 0x80 ∧ b ∉ wireBytes ∧ msgTypeFromByte b = [b])
      ∨ (0x80 ≤ b ∧ ((msgTypeFromByte b).headD 0 = b → msgTypeFromByte b = [0xc3, 0x83])) := by
  have hall : ∀ n < 256, (UInt8.ofNat n ∈ wireBytes ∧ msgTypeFromByte (UInt8.ofNat n) ∈ declared)
      ∨ (UInt8.ofNat n < 0x80 ∧ UInt8.ofNat n ∉ wireBytes
        ∧ msgTypeFromByte (UInt8.ofNat n) = [UInt8.ofNat n])
      ∨ (0x80 ≤ UInt8.ofNat n ∧ ((msgTypeFromByte (UInt8.ofNat n)).headD 0 = UInt8.ofNat n →
        msgTypeFromByte (UInt8.ofNat n) = [0xc3, 0x83])) := by
    decide +kernel
  rw [← UInt8.ofNat_toNat (x := b)]
  exact hall b.toNat b.toNat_lt

/-- **Which types survive the wire.** -/
theorem msgTypeFromByte_msgTypeToByte_iff (mt : MessageType) :
    msgTypeFromByte (msgTypeToByte mt) = mt ↔ Kept mt := by
  by_cases hmt : mt ∈ declared
  · exact iff_of_true (msgTypeFromByte_msgTypeToByte mt hmt) (.inl hmt)
  rw [msgTypeToByte_of_notMem hmt]
  constructor
  · intro h
    rcases msgTypeFromByte_cases (mt.headD 0) with ⟨-, hdeclared⟩ | ⟨hlt, hfree, heq⟩ | ⟨-, htwo⟩
    · exact absurd (h ▸ hdeclared) hmt
    · exact .inr (.inl ⟨mt.headD 0, hlt, hfree, h.symm.trans heq⟩)
    · exact .inr (.inr (h.symm.trans (htwo (congrArg (fun l => List.headD l 0) h))))
  · rintro (hdeclared | ⟨b, hlt, hfree, rfl⟩ | rfl)
    · exact absurd hdeclared hmt
    · show msgTypeFromByte b = [b]
      rcases msgTypeFromByte_cases b with ⟨htaken, -⟩ | ⟨-, -, heq⟩ | ⟨hle, -⟩
      · exact absurd htaken hfree
      · exact heq
      · exact absurd hlt (UInt8.not_lt.mpr hle)
    · decide +kernel

/-! ## From `Send` to `Receive` -/

/-- A connection that hands over the frames that were sent, in order. -/
def inOrder : Connection (List Frame) Unit where
  send q frame := (.ok (), q ++ [frame])
  receive
    | [] => (.error (), [])
    | frame :: q => (.ok frame, q)

/-- What a sent message is received as has the type that the wire makes of its type. -/
theorem type_of_receive {Time : Type} {tf : TimeFormat Time} {e : ClientEndpoint}
    {v : ServerEndpoint} {msg msg' : Message Time}
    (hreceive : (v.receive tf inOrder (e.send tf inOrder [] msg).2.2).1 = .ok msg') :
    msg'.type = msgTypeFromByte (msgTypeToByte msg.type) := by
  obtain ⟨frame, hdr, hframe, -, -, rfl⟩ :=
    (ServerEndpoint.receive_eq_ok_iff tf inOrder).mp hreceive
  cases hmarshal : e.codec.marshal (headerOf tf (e.sequence + 1) msg) with
  | error err =>
    rw [ClientEndpoint.send_of_marshal_error tf inOrder hmarshal] at hframe
    exact (nomatch hframe)
  | ok hdrBytes =>
    rw [ClientEndpoint.send_of_marshal tf inOrder hmarshal] at hframe
    cases hframe
    rfl

/-- **When a message arrives with its type**: whatever the endpoints and their keys, a
message that is sent and received has the type that it was sent with exactly if the type
is one of those that are kept. -/
theorem received_type_iff {Time : Type} (tf : TimeFormat Time) (e : ClientEndpoint)
    (v : ServerEndpoint) (msg msg' : Message Time)
    (hreceive : (v.receive tf inOrder (e.send tf inOrder [] msg).2.2).1 = .ok msg') :
    msg'.type = msg.type ↔ Kept msg.type := by
  rw [type_of_receive hreceive]
  exact msgTypeFromByte_msgTypeToByte_iff msg.type

/-- A message of the type `mt`, with little else in it. -/
def bare (mt : MessageType) : Message Unit := ⟨1, mt, ascii "eni", (), [], [], 0, [], []⟩

/-- It is sent, and received by a server with the same key. -/
theorem exists_receive_bare (mt : MessageType) :
    let e := ClientEndpoint.new Codec.json [0x6b]
    let v := ServerEndpoint.new Codec.json [0x6b]
    (e.send .zeroOnly inOrder [] (bare mt)).1 = .ok ()
      ∧ ∃ msg', (v.receive .zeroOnly inOrder (e.send .zeroOnly inOrder [] (bare mt)).2.2).1
        = .ok msg' := by
  intro e v
  have hmarshal : e.codec.marshal (headerOf .zeroOnly (e.sequence + 1) (bare mt))
      = .ok (Json.writeObject (headerOf .zeroOnly 1 (bare mt)).members) := rfl
  have hvalid : (headerOf .zeroOnly 1 (bare mt)).ValidUTF8 :=
    ⟨Json.validUTF8_of_ascii rfl, Json.validUTF8_nil, Json.validUTF8_nil,
      Delivery.validUTF8_zeroOnly (), Json.validUTF8_nil, Json.validUTF8_nil⟩
  have hunmarshal := Codec.json_undoes _ _ hvalid hmarshal
  have hcheck : (v.replay.check 1).1 = .ok () := rfl
  rw [ClientEndpoint.send_of_marshal .zeroOnly inOrder hmarshal]
  refine ⟨rfl, _, (ServerEndpoint.receive_eq_ok_iff .zeroOnly inOrder).mpr
    ⟨_, _, rfl, Delivery.openFrame_signFrame [0x6b] hunmarshal, hcheck, rfl⟩⟩

/-- A heartbeat arrives as a heartbeat. -/
theorem received_type_iff_heartbeat :
    let e := ClientEndpoint.new Codec.json [0x6b]
    let v := ServerEndpoint.new Codec.json [0x6b]
    ∃ msg', (v.receive .zeroOnly inOrder
        (e.send .zeroOnly inOrder [] (bare typeHeartbeat)).2.2).1 = .ok msg'
      ∧ msg'.type = typeHeartbeat := by
  intro e v
  obtain ⟨-, msg', hreceive⟩ := exists_receive_bare typeHeartbeat
  exact ⟨msg', hreceive, (received_type_iff .zeroOnly e v (bare typeHeartbeat) msg' hreceive).mpr
    (.inl (by decide))⟩

/-- **A message of the type `info` is received as an intent**, and an intent is what the
server's router takes it for. -/
theorem received_as_intent :
    let e := ClientEndpoint.new Codec.json [0x6b]
    let v := ServerEndpoint.new Codec.json [0x6b]
    ascii "info" ∉ declared
      ∧ (e.send .zeroOnly inOrder [] (bare (ascii "info"))).1 = .ok ()
      ∧ (∃ msg', (v.receive .zeroOnly inOrder
          (e.send .zeroOnly inOrder [] (bare (ascii "info"))).2.2).1 = .ok msg'
        ∧ msg'.type = typeIntent ∧ msg'.type ≠ (bare (ascii "info")).type)
      ∧ ∀ env now (msg : Message Instant), msg.type = typeIntent →
        (EipcServer.router env).dispatch now msg = EipcServer.handleIntent env now msg := by
  intro e v
  obtain ⟨hsend, msg', hreceive⟩ := exists_receive_bare (ascii "info")
  have htype : msg'.type = typeIntent := (type_of_receive hreceive).trans (by decide +kernel)
  refine ⟨by decide, hsend, ⟨msg', hreceive, htype, ?_⟩, fun env now msg hmsg => ?_⟩
  · rw [htype]
    decide
  · rw [EipcServer.dispatch_router, if_pos hmsg]

end MessageType
