import Eipc.Message
import Eipc.TensorCodec

/-!
# Tensor descriptors in messages

A descriptor travels as the payload of a message, bound to a capability
(`protocol/tensor_message.go`, `core/tensor_message.go`). The message asserts one
capability; the descriptor claims a list of them. `AttachTensor` asserts the first
claim, and `ExtractTensor` refuses a descriptor whose claims do not hold what the
message asserts, so a capability that was rewritten on the way is worth nothing
unless the descriptor claims it (`TensorDescriptor.attach_extract`).

A pointer of the source is an `Option` here.
-/

open Bytes MessageType

/-- What binding a descriptor to a message can fail with. -/
inductive TensorMessageError where
  | noCapability
  | invalid (err : TensorError)
  | encode (err : TensorError)
  | decode (err : TensorDecodeError)
  | capabilityMismatch (capability : Bytes) (claims : List Bytes)
  | nilMessage
  deriving DecidableEq

/-- The error's text. `quote` is the verb `%q`, and `list` the verb `%v` on a list of
strings. -/
def TensorMessageError.text (quote : Bytes → String) (list : List Bytes → String) :
    TensorMessageError → String
  | .noCapability => "eipc: tensor descriptor declares no capabilities"
  | .invalid err | .encode err => err.text quote
  | .decode err => err.text
  | .capabilityMismatch capability claims =>
    "eipc: message capability does not match tensor descriptor claims: message asserts "
      ++ quote capability ++ ", descriptor claims " ++ list claims
  | .nilMessage => "eipc: nil message"

namespace TensorDescriptor

/-- `MessagePayload`: the encoding of the descriptor, and its first claim. -/
def messagePayload : Option TensorDescriptor → Except TensorMessageError (Bytes × Bytes)
  | none => .error .noCapability
  | some d => do
    d.validate.mapError .invalid
    match d.capabilities with
    | [] => throw .noCapability
    | capability :: _ =>
      let buf ← d.encode.mapError .encode
      return (buf, capability)

/-- `TensorFromPayload`. Bytes behind the descriptor are not looked at. -/
def tensorFromPayload (payload capability : Bytes) :
    Except TensorMessageError TensorDescriptor := do
  let (d, _) ← (decodeTensor payload).mapError .decode
  d.validate.mapError .invalid
  if d.capabilities.any (· == capability) then return d
  else throw (.capabilityMismatch capability d.capabilities)

variable {Time : Type}

/-- `AttachTensor`, at the time `now`. -/
def attachTensor (now : Time) (d : Option TensorDescriptor) :
    Except TensorMessageError (Message Time) := do
  let (payload, capability) ← messagePayload d
  let msg := Message.newMessage now typeFeatures [] payload
  return { msg with capability }

/-- `ExtractTensor`. -/
def extractTensor : Option (Message Time) → Except TensorMessageError TensorDescriptor
  | none => .error .nilMessage
  | some m => tensorFromPayload m.payload m.capability

/-! ## What is bound -/

theorem messagePayload_eq_ok_iff {d : TensorDescriptor} {payload capability : Bytes} :
    messagePayload (some d) = .ok (payload, capability) ↔
      d.validate = .ok () ∧ d.capabilities.head? = some capability ∧ payload = d.wire := by
  rw [messagePayload, Except.bind_eq_ok_iff]
  simp only [Except.mapError_eq_ok_iff]
  constructor
  · rintro ⟨_, hvalid, h⟩
    have hwire := encode_of_encodable (encodable_of_validate hvalid)
    cases hcaps : d.capabilities with
    | nil =>
      rw [hcaps] at h
      cases h
    | cons c cs =>
      rw [hcaps, hwire] at h
      obtain ⟨rfl, rfl⟩ := Prod.mk.inj (Except.ok.inj h)
      exact ⟨hvalid, rfl, rfl⟩
  · rintro ⟨hvalid, hhead, rfl⟩
    have hwire := encode_of_encodable (encodable_of_validate hvalid)
    refine ⟨(), hvalid, ?_⟩
    cases hcaps : d.capabilities with
    | nil =>
      rw [hcaps] at hhead
      cases hhead
    | cons c cs =>
      rw [hcaps] at hhead
      cases hhead
      dsimp only
      rw [hwire]
      rfl

/-- **When a payload yields a descriptor**: it starts with its encoding, the
descriptor is valid, and claims the capability. -/
theorem tensorFromPayload_eq_ok_iff {payload capability : Bytes} {d : TensorDescriptor} :
    tensorFromPayload payload capability = .ok d ↔
      d.validate = .ok () ∧ capability ∈ d.capabilities ∧ d.wire <+: payload := by
  rw [tensorFromPayload, Except.bind_eq_ok_iff]
  simp only [Except.bind_eq_ok_iff, Except.mapError_eq_ok_iff]
  constructor
  · rintro ⟨⟨d', rest⟩, hdecode, _, hvalid, h⟩
    dsimp only at hvalid h
    split at h
    · next hclaims =>
      obtain rfl := Except.ok.inj h
      rw [List.any_beq', List.contains_iff_mem] at hclaims
      exact ⟨hvalid, hclaims, rest, (wire_of_decodeTensor hdecode).2.symm⟩
    · exact (nomatch h)
  · rintro ⟨hvalid, hclaims, rest, rfl⟩
    refine ⟨(d, rest), decodeTensor_wire (encodable_of_validate hvalid) rest, (), hvalid, ?_⟩
    rw [if_pos (by rw [List.any_beq', List.contains_iff_mem]; exact hclaims)]
    rfl

/-- The message a descriptor is attached to. -/
theorem attachTensor_eq_ok_iff {now : Time} {d : TensorDescriptor} {m : Message Time} :
    attachTensor now (some d) = .ok m ↔
      d.validate = .ok () ∧ d.capabilities.head? = some m.capability
        ∧ m = { Message.newMessage now typeFeatures [] d.wire
            with capability := m.capability } := by
  rw [attachTensor, Except.bind_eq_ok_iff]
  constructor
  · rintro ⟨⟨payload, capability⟩, h, hret⟩
    obtain ⟨hvalid, hhead, rfl⟩ := messagePayload_eq_ok_iff.mp h
    obtain rfl := Except.ok.inj hret
    exact ⟨hvalid, hhead, rfl⟩
  · rintro ⟨hvalid, hhead, hm⟩
    refine ⟨(d.wire, m.capability), messagePayload_eq_ok_iff.mpr ⟨hvalid, hhead, rfl⟩, ?_⟩
    exact congrArg Except.ok hm.symm

/-- **The binding is closed on both sides.** A descriptor is attached exactly when it
is valid and claims something, and the message asserts its first claim. With any
capability written over that, it is extracted exactly when it claims the capability,
and is then the descriptor that was attached. Whatever a message carries, a
descriptor that is extracted from it is valid, claims what the message asserts,
which is not nothing, and is what the payload starts with. -/
theorem attach_extract (now : Time) :
    (∀ d : TensorDescriptor,
        ((∃ m, attachTensor now (some d) = .ok m) ↔ d.validate = .ok () ∧ d.capabilities ≠ [])
          ∧ ∀ m, attachTensor now (some d) = .ok m →
            d.capabilities.head? = some m.capability
              ∧ ∀ c d', extractTensor (some { m with capability := c }) = .ok d'
                ↔ c ∈ d.capabilities ∧ d' = d)
      ∧ ∀ (m : Message Time) (d : TensorDescriptor), extractTensor (some m) = .ok d →
        d.validate = .ok () ∧ m.capability ≠ [] ∧ m.capability ∈ d.capabilities
          ∧ ∃ b, d.encode = .ok b ∧ b <+: m.payload := by
  refine ⟨fun d => ⟨⟨?_, ?_⟩, fun m hm => ?_⟩, fun m d h => ?_⟩
  · rintro ⟨m, hm⟩
    obtain ⟨hvalid, hhead, -⟩ := attachTensor_eq_ok_iff.mp hm
    refine ⟨hvalid, fun hnil => ?_⟩
    rw [hnil] at hhead
    exact (nomatch hhead)
  · rintro ⟨hvalid, hne⟩
    obtain ⟨c, cs, hcaps⟩ := List.exists_cons_of_ne_nil hne
    exact ⟨{ Message.newMessage now typeFeatures [] d.wire with capability := c },
      attachTensor_eq_ok_iff.mpr ⟨hvalid, by rw [hcaps]; rfl, rfl⟩⟩
  · obtain ⟨hvalid, hhead, hmsg⟩ := attachTensor_eq_ok_iff.mp hm
    refine ⟨hhead, fun c d' => ?_⟩
    have hpayload : m.payload = d.wire := congrArg Message.payload hmsg
    show tensorFromPayload m.payload c = .ok d' ↔ _
    rw [hpayload, tensorFromPayload_eq_ok_iff]
    constructor
    · rintro ⟨hvalid', hclaims, rest, hrest⟩
      -- the payload is one encoding, so it starts with one descriptor
      have hd' := decodeTensor_wire (encodable_of_validate hvalid') rest
      have hd := decodeTensor_wire (encodable_of_validate hvalid) []
      rw [hrest] at hd'
      rw [List.append_nil] at hd
      obtain ⟨rfl, -⟩ := Prod.mk.inj (Except.ok.inj (hd'.symm.trans hd))
      exact ⟨hclaims, rfl⟩
    · rintro ⟨hclaims, rfl⟩
      exact ⟨hvalid, hclaims, List.prefix_refl _⟩
  · obtain ⟨hvalid, hclaims, hprefix⟩ := tensorFromPayload_eq_ok_iff.mp h
    exact ⟨hvalid, caps_ne_nil_of_validate hvalid _ hclaims, hclaims, d.wire,
      encode_of_encodable (encodable_of_validate hvalid), hprefix⟩

/-- The sample descriptor is attached. -/
theorem attach_extract_sample : ∃ m, attachTensor () (some sampleDescriptor) = .ok m :=
  ((attach_extract ()).1 sampleDescriptor).1.mpr ⟨validate_sampleDescriptor, List.cons_ne_nil _ _⟩

end TensorDescriptor
