import Eipc.Frame
import Eipc.Tensor

/-!
# The wire format of tensor descriptors

`Encode` and `DecodeTensor` (`protocol/tensor.go`):

    [dtype:1][ndim:1][shape: ndim*8 int64][strides: ndim*8 int64]
    [shm_name_len:2][shm_name bytes][offset:8][size:8]
    [ncap:2]{[cap_len:2][cap bytes]}[digest_len:2][digest bytes]

The reader bounds every length field before it reads what the field announces,
and knows nothing of what `Validate` asks. The two bounds fit together: writer
and reader form a self-delimiting format on the descriptors within the reader's
bounds (`TensorDescriptor.selfDelimiting`), and everything that `Validate`
accepts is within them (`TensorDescriptor.encodable_of_validate`).

A nil list of capabilities and an empty one are the same descriptor here.
-/

open Bytes

/-- What `DecodeTensor` can fail with. -/
inductive TensorDecodeError where
  | readHead (e : ReadError)
  | ndim (ndim : ℕ)
  | readShape (e : ReadError)
  | readStrides (e : ReadError)
  | readLength (what : String) (e : ReadError)
  | fieldLength (what : String) (n : ℕ)
  | readField (what : String) (e : ReadError)
  | readOffsetSize (e : ReadError)
  | readCapCount (e : ReadError)
  | capCount (n : ℕ)
  deriving DecidableEq

/-- The error's text. -/
def TensorDecodeError.text : TensorDecodeError → String
  | .readHead e => "read dtype/ndim: " ++ e.text
  | .ndim n => "eipc: tensor descriptor exceeds decode bounds: ndim=" ++ toString n
  | .readShape e => "read shape: " ++ e.text
  | .readStrides e => "read strides: " ++ e.text
  | .readLength what e => "read " ++ what ++ " length: " ++ e.text
  | .fieldLength what n =>
    "eipc: tensor descriptor exceeds decode bounds: " ++ what ++ " length " ++ toString n
  | .readField what e => "read " ++ what ++ ": " ++ e.text
  | .readOffsetSize e => "read offset/size: " ++ e.text
  | .readCapCount e => "read capability count: " ++ e.text
  | .capCount n =>
    "eipc: tensor descriptor exceeds decode bounds: " ++ toString n ++ " capabilities"

namespace TensorDescriptor

def maxTensorDigestLen : ℕ := 128

/-! ## Writing -/

/-- One `int64` is written as the `uint64` with the same bits. -/
def appendInt64 (buf : Bytes) (v : Int64) : Bytes := buf ++ ofNatBE 8 v.toUInt64.toNat

/-- `appendStringField`: the length is truncated to 16 bits. -/
def appendStringField (buf s : Bytes) : Bytes := buf ++ ofNatBE 2 s.length ++ s

/-- `Encode`: the bytes written. -/
def encode (d : TensorDescriptor) : Except TensorError Bytes := do
  let ndim := d.shape.length
  Except.failIf (ndim = 0 ∨ ndim > maxTensorDims) (.ndim ndim)
  Except.failIf (d.strides.length ≠ ndim) (.strideCount d.strides.length ndim)
  let buf := [d.dtype, UInt8.ofNat ndim]
  let buf := d.shape.foldl appendInt64 buf
  let buf := d.strides.foldl appendInt64 buf
  let buf := appendStringField buf d.shmName
  let buf := buf ++ ofNatBE 8 d.offset.toNat
  let buf := buf ++ ofNatBE 8 d.size.toNat
  Except.failIf (d.capabilities.length > maxTensorCaps) (.capCount d.capabilities.length)
  let buf := buf ++ ofNatBE 2 d.capabilities.length
  let buf := d.capabilities.foldl appendStringField buf
  return appendStringField buf d.modelDigest

/-! ## Reading -/

/-- The closure `readInt64s` of `DecodeTensor`. -/
def readInt64s (wrap : ReadError → TensorDecodeError) (n : ℕ) (r : Bytes) :
    Except TensorDecodeError (List Int64 × Bytes) := do
  let (raw, r) ← readFullAs wrap (n * 8) r
  return ((List.range n).map fun i =>
    (UInt64.ofNat (toNatBE (raw.slice (i * 8) ((i + 1) * 8)))).toInt64, r)

/-- `readStringField`. -/
def readStringField (max : ℕ) (what : String) (r : Bytes) :
    Except TensorDecodeError (Bytes × Bytes) := do
  let (ln, r) ← readFullAs (.readLength what) 2 r
  let n := toNatBE ln
  Except.failIf (n > max) (.fieldLength what n)
  if n = 0 then return ([], r) else readFullAs (.readField what) n r

/-- `DecodeTensor`: one descriptor off the front of `r`, and what is left of
`r`. -/
def decodeTensor (r : Bytes) : Except TensorDecodeError (TensorDescriptor × Bytes) := do
  let (head, r) ← readFullAs .readHead 2 r
  let dtype := head.getD 0 0
  let ndim := (head.getD 1 0).toNat
  Except.failIf (ndim = 0 ∨ ndim > maxTensorDims) (.ndim ndim)
  let (shape, r) ← readInt64s .readShape ndim r
  let (strides, r) ← readInt64s .readStrides ndim r
  let (shmName, r) ← readStringField maxTensorShmNameLen "shm_name" r
  let (offSize, r) ← readFullAs .readOffsetSize 16 r
  let offset := UInt64.ofNat (toNatBE (offSize.slice 0 8))
  let size := UInt64.ofNat (toNatBE (offSize.slice 8 16))
  let (ncapBuf, r) ← readFullAs .readCapCount 2 r
  let ncap := toNatBE ncapBuf
  Except.failIf (ncap > maxTensorCaps) (.capCount ncap)
  let (capabilities, r) ← decodeMany (readStringField maxTensorCapLen "capability") ncap r
  let (modelDigest, r) ← readStringField maxTensorDigestLen "model_digest" r
  return ({ dtype, shape, strides, shmName, offset, size, capabilities, modelDigest }, r)

/-! ## Words and strings -/

/-- The bytes of an `int64`. -/
def int64Bytes (v : Int64) : Bytes := ofNatBE 8 v.toUInt64.toNat

/-- The bytes of a string field. -/
def stringField (s : Bytes) : Bytes := ofNatBE 2 s.length ++ s

theorem foldl_appendInt64 (vs : List Int64) (buf : Bytes) :
    vs.foldl appendInt64 buf = buf ++ vs.flatMap int64Bytes := by
  induction vs generalizing buf with
  | nil => exact (List.append_nil buf).symm
  | cons v vs ih => rw [List.foldl_cons, ih, List.flatMap_cons, ← List.append_assoc]; rfl

theorem foldl_appendStringField (ss : List Bytes) (buf : Bytes) :
    ss.foldl appendStringField buf = buf ++ ss.flatMap stringField := by
  induction ss generalizing buf with
  | nil => exact (List.append_nil buf).symm
  | cons s ss ih =>
    rw [List.foldl_cons, ih, List.flatMap_cons, appendStringField, stringField]
    simp only [List.append_assoc]

/-- A `uint64` reads back from its eight bytes. -/
theorem ofNat_toNatBE_ofNatBE (x : UInt64) : UInt64.ofNat (toNatBE (ofNatBE 8 x.toNat)) = x := by
  rw [toNatBE_ofNatBE (k := 8) x.toNat_lt, UInt64.ofNat_toNat]

/-- Eight bytes are those of the `uint64` that they read as. -/
theorem ofNatBE_toNat_ofNat {b : Bytes} (h : b.length = 8) :
    ofNatBE 8 (UInt64.ofNat (toNatBE b)).toNat = b := by
  have hlt : toNatBE b < 2 ^ 64 := by
    have hb := toNatBE_lt b
    rw [h] at hb
    exact hb
  rw [UInt64.toNat_ofNat', Nat.mod_eq_of_lt hlt, ← h, ofNatBE_toNatBE]

theorem readInt64s_eq_ok_iff {wrap : ReadError → TensorDecodeError} {n : ℕ} {r r' : Bytes}
    {vs : List Int64} :
    readInt64s wrap n r = .ok (vs, r') ↔ vs.length = n ∧ r = vs.flatMap int64Bytes ++ r' := by
  have hlen : ∀ v, (int64Bytes v).length = 8 := fun v => length_ofNatBE 8 _
  rw [readInt64s, Except.bind_eq_ok_iff]
  constructor
  · rintro ⟨⟨raw, r₁⟩, hraw, hret⟩
    obtain ⟨rfl, hrawLen⟩ := readFullAs_eq_ok_iff.mp hraw
    obtain ⟨rfl, rfl⟩ := Prod.mk.inj (Except.ok.inj hret)
    refine ⟨by rw [List.length_map, List.length_range], ?_⟩
    rw [flatMap_map_range_slice int64Bytes (fun b => (UInt64.ofNat (toNatBE b)).toInt64)
      (fun b hb => ?_) hrawLen]
    rw [int64Bytes, UInt64.toUInt64_toInt64, ofNatBE_toNat_ofNat hb]
  · rintro ⟨rfl, rfl⟩
    have hbytes := length_flatMap_word int64Bytes hlen vs
    refine ⟨_, readFullAs_eq_ok_iff.mpr ⟨rfl, hbytes⟩, ?_⟩
    refine congrArg (fun vs => Except.ok (vs, r')) ?_
    refine map_range_slice_flatMap int64Bytes (fun b => (UInt64.ofNat (toNatBE b)).toInt64) hlen
      (fun v => ?_) vs
    show (UInt64.ofNat (toNatBE (int64Bytes v))).toInt64 = v
    rw [int64Bytes, ofNat_toNatBE_ofNatBE, Int64.toInt64_toUInt64]

/-- **String fields are a self-delimiting format**, up to a bound that the 16-bit
length can express. -/
theorem selfDelimiting_readStringField {max : ℕ} (hmax : max < 256 ^ 2) (what : String) :
    SelfDelimiting stringField (readStringField max what) (·.length ≤ max) where
  dec_enc s hs rest := by
    have hlen : toNatBE (ofNatBE 2 s.length) = s.length := toNatBE_ofNatBE (lt_of_le_of_lt hs hmax)
    rw [readStringField, Except.bind_eq_ok_iff]
    refine ⟨(ofNatBE 2 s.length, s ++ rest), ?_, ?_⟩
    · rw [readFullAs_eq_ok_iff, stringField, List.append_assoc]
      exact ⟨rfl, length_ofNatBE 2 _⟩
    · rw [Except.bind_eq_ok_iff]
      refine ⟨(), Except.failIf_eq_ok_iff.mpr (by rw [hlen]; exact not_lt.mpr hs), ?_⟩
      rw [hlen]
      split
      · next h =>
        rw [List.length_eq_zero_iff.mp h]
        rfl
      · exact readFullAs_eq_ok_iff.mpr ⟨rfl, rfl⟩
  enc_dec r s rest h := by
    rw [readStringField, Except.bind_eq_ok_iff] at h
    obtain ⟨⟨ln, r₁⟩, hln, h⟩ := h
    rw [Except.bind_eq_ok_iff] at h
    obtain ⟨_, hbound, h⟩ := h
    rw [Except.failIf_eq_ok_iff, not_lt] at hbound
    obtain ⟨rfl, hlen⟩ := readFullAs_eq_ok_iff.mp hln
    have hfield : s.length = toNatBE ln ∧ r₁ = s ++ rest := by
      split at h
      · next hzero =>
        obtain ⟨rfl, rfl⟩ := Prod.mk.inj (Except.ok.inj h)
        exact ⟨hzero.symm, rfl⟩
      · obtain ⟨hr, hs⟩ := readFullAs_eq_ok_iff.mp h
        exact ⟨hs, hr⟩
    obtain ⟨hs, rfl⟩ := hfield
    refine ⟨hs.trans_le hbound, ?_⟩
    rw [stringField, hs, ← hlen, ofNatBE_toNatBE, List.append_assoc]

/-! ## One format -/

/-- **The descriptors of the format**: within the bounds of the reader. -/
structure Encodable (d : TensorDescriptor) : Prop where
  ndim_pos : 0 < d.shape.length
  ndim_le : d.shape.length ≤ maxTensorDims
  strides : d.strides.length = d.shape.length
  shmName : d.shmName.length ≤ maxTensorShmNameLen
  capCount : d.capabilities.length ≤ maxTensorCaps
  caps : ∀ c ∈ d.capabilities, c.length ≤ maxTensorCapLen
  modelDigest : d.modelDigest.length ≤ maxTensorDigestLen

/-- The bytes of a descriptor on the wire. -/
def wire (d : TensorDescriptor) : Bytes :=
  [d.dtype, UInt8.ofNat d.shape.length] ++ (d.shape.flatMap int64Bytes
    ++ (d.strides.flatMap int64Bytes ++ (stringField d.shmName ++ (ofNatBE 8 d.offset.toNat
      ++ (ofNatBE 8 d.size.toNat ++ (ofNatBE 2 d.capabilities.length
        ++ (d.capabilities.flatMap stringField ++ stringField d.modelDigest)))))))

/-- What `Encode` asks of a descriptor. -/
structure Writable (d : TensorDescriptor) : Prop where
  ndim_pos : 0 < d.shape.length
  ndim_le : d.shape.length ≤ maxTensorDims
  strides : d.strides.length = d.shape.length
  capCount : d.capabilities.length ≤ maxTensorCaps

theorem Encodable.writable {d : TensorDescriptor} (h : d.Encodable) : d.Writable :=
  ⟨h.ndim_pos, h.ndim_le, h.strides, h.capCount⟩

/-- `Encode` writes the descriptor's bytes, whatever the lengths of its strings. -/
theorem encode_of_writable {d : TensorDescriptor} (h : d.Writable) : d.encode = .ok d.wire := by
  have hndim : ¬(d.shape.length = 0 ∨ d.shape.length > maxTensorDims) :=
    not_or.mpr ⟨h.ndim_pos.ne', not_lt.mpr h.ndim_le⟩
  unfold encode
  dsimp only
  rw [Except.failIf_neg hndim, Except.failIf_neg (not_not.mpr h.strides),
    Except.failIf_neg (not_lt.mpr h.capCount)]
  refine congrArg Except.ok ?_
  rw [foldl_appendInt64, foldl_appendInt64, foldl_appendStringField, appendStringField,
    appendStringField, wire, stringField, stringField]
  simp only [List.append_assoc]

theorem writable_of_encode {d : TensorDescriptor} {b : Bytes} (h : d.encode = .ok b) :
    d.Writable := by
  unfold encode at h
  simp only [Except.bind_eq_ok_iff, Except.failIf_eq_ok_iff] at h
  obtain ⟨_, hndim, _, hstrides, _, hcaps, -⟩ := h
  obtain ⟨hpos, hle⟩ := not_or.mp hndim
  exact ⟨Nat.pos_of_ne_zero hpos, not_lt.mp hle, not_not.mp hstrides, not_lt.mp hcaps⟩

/-- On a descriptor of the format `Encode` writes its bytes. -/
theorem encode_of_encodable {d : TensorDescriptor} (h : d.Encodable) : d.encode = .ok d.wire :=
  encode_of_writable h.writable

/-- The number of dimensions fits its byte. -/
theorem toNat_ndim {n : ℕ} (h : n ≤ maxTensorDims) : (UInt8.ofNat n).toNat = n := by
  rw [UInt8.toNat_ofNat']
  exact Nat.mod_eq_of_lt (lt_of_le_of_lt h (by decide))

theorem toNatBE_capCount {n : ℕ} (h : n ≤ maxTensorCaps) : toNatBE (ofNatBE 2 n) = n :=
  toNatBE_ofNatBE (lt_of_le_of_lt h (by decide))

/-- Offset and size are read as one array of sixteen bytes. -/
theorem slice_offSize (offset size : Bytes) (ho : offset.length = 8) (hs : size.length = 8) :
    (offset ++ size).slice 0 8 = offset ∧ (offset ++ size).slice 8 16 = size := by
  constructor
  · exact slice_append_middle [] offset size rfl (by rw [ho])
  · have h := slice_append_middle offset size [] ho (j := 16) (by rw [hs])
    rwa [List.append_nil] at h

theorem decodeTensor_wire {d : TensorDescriptor} (h : d.Encodable) (rest : Bytes) :
    decodeTensor (d.wire ++ rest) = .ok (d, rest) := by
  have hndim := toNat_ndim h.ndim_le
  have hcaps := toNatBE_capCount h.capCount
  obtain ⟨hoffset, hsize⟩ := slice_offSize (ofNatBE 8 d.offset.toNat) (ofNatBE 8 d.size.toNat)
    (length_ofNatBE 8 _) (length_ofNatBE 8 _)
  unfold decodeTensor
  simp only [Except.bind_eq_ok_iff]
  refine ⟨([d.dtype, UInt8.ofNat d.shape.length], _), readFullAs_eq_ok_iff.mpr ⟨?_, rfl⟩,
    (), ?_, (d.shape, _), readInt64s_eq_ok_iff.mpr ⟨hndim.symm, rfl⟩,
    (d.strides, _), readInt64s_eq_ok_iff.mpr ⟨h.strides.trans hndim.symm, rfl⟩,
    (d.shmName, _), (selfDelimiting_readStringField (by decide) _).dec_enc _ h.shmName _,
    (ofNatBE 8 d.offset.toNat ++ ofNatBE 8 d.size.toNat, _),
    readFullAs_eq_ok_iff.mpr ⟨rfl, ?_⟩,
    (ofNatBE 2 d.capabilities.length,
      d.capabilities.flatMap stringField ++ (stringField d.modelDigest ++ rest)),
    readFullAs_eq_ok_iff.mpr ⟨rfl, length_ofNatBE 2 _⟩,
    (), ?_, (d.capabilities, stringField d.modelDigest ++ rest), ?_,
    (d.modelDigest, rest),
    (selfDelimiting_readStringField (by decide) _).dec_enc _ h.modelDigest _, ?_⟩
  · simp only [wire, List.append_assoc]
  · rw [Except.failIf_eq_ok_iff]
    show ¬((UInt8.ofNat d.shape.length).toNat = 0 ∨ (UInt8.ofNat d.shape.length).toNat > _)
    rw [hndim]
    exact not_or.mpr ⟨h.ndim_pos.ne', not_lt.mpr h.ndim_le⟩
  · rw [List.length_append, length_ofNatBE, length_ofNatBE]
  · rw [Except.failIf_eq_ok_iff, hcaps]
    exact not_lt.mpr h.capCount
  · rw [hcaps]
    exact ((selfDelimiting_readStringField (by decide) _).many _).dec_enc _ ⟨rfl, h.caps⟩ _
  · rw [hoffset, hsize, ofNat_toNatBE_ofNatBE, ofNat_toNatBE_ofNatBE]
    rfl

theorem wire_of_decodeTensor {s rest : Bytes} {d : TensorDescriptor}
    (h : decodeTensor s = .ok (d, rest)) : d.Encodable ∧ s = d.wire ++ rest := by
  unfold decodeTensor at h
  simp only [Except.bind_eq_ok_iff] at h
  obtain ⟨⟨head, r₁⟩, hhead, _, hndim, ⟨shape, r₂⟩, hshape, ⟨strides, r₃⟩, hstrides,
    ⟨shmName, r₄⟩, hshmName, ⟨offSize, r₅⟩, hoffSize, ⟨ncapBuf, r₆⟩, hncapBuf, _, hncap,
    ⟨capabilities, r₇⟩, hcaps, ⟨modelDigest, r₈⟩, hdigest, hret⟩ := h
  obtain ⟨rfl, hheadLen⟩ := readFullAs_eq_ok_iff.mp hhead
  obtain ⟨hshapeLen, rfl⟩ := readInt64s_eq_ok_iff.mp hshape
  obtain ⟨hstridesLen, rfl⟩ := readInt64s_eq_ok_iff.mp hstrides
  obtain ⟨hshmNameLen, rfl⟩ := (selfDelimiting_readStringField (by decide) _).eq_ok_iff.mp hshmName
  obtain ⟨rfl, hoffSizeLen⟩ := readFullAs_eq_ok_iff.mp hoffSize
  obtain ⟨rfl, hncapLen⟩ := readFullAs_eq_ok_iff.mp hncapBuf
  obtain ⟨⟨hcapsLen, hcapsAll⟩, rfl⟩ :=
    ((selfDelimiting_readStringField (by decide) _).many _).eq_ok_iff.mp hcaps
  obtain ⟨hdigestLen, rfl⟩ := (selfDelimiting_readStringField (by decide) _).eq_ok_iff.mp hdigest
  obtain ⟨rfl, rfl⟩ := Prod.mk.inj (Except.ok.inj hret)
  rw [Except.failIf_eq_ok_iff, not_or, not_lt] at hndim
  rw [Except.failIf_eq_ok_iff, not_lt] at hncap
  dsimp only at hndim hshapeLen hstridesLen hncap hcapsLen
  obtain ⟨dtype, ndim, rfl⟩ := List.length_eq_two.mp hheadLen
  have hndimEq : UInt8.ofNat shape.length = ndim := by
    rw [hshapeLen]
    exact UInt8.ofNat_toNat
  have hncapEq : ofNatBE 2 capabilities.length = ncapBuf := by
    rw [hcapsLen, ← hncapLen, ofNatBE_toNatBE]
  have hoffSizeEq : offSize.slice 0 8 ++ offSize.slice 8 16 = offSize := by
    rw [slice_append_slice offSize (by decide) (by decide), slice_eq_self hoffSizeLen]
  refine ⟨⟨?_, ?_, hstridesLen.trans hshapeLen.symm, hshmNameLen, ?_, hcapsAll, hdigestLen⟩, ?_⟩
  · rw [hshapeLen]
    exact Nat.pos_of_ne_zero hndim.1
  · rw [hshapeLen]
    exact hndim.2
  · rw [hcapsLen]
    exact hncap
  · have hlen : ∀ i j, j ≤ 16 → (offSize.slice i j).length = j - i :=
      fun i j hj => length_slice (by rw [hoffSizeLen]; exact hj)
    simp only [wire, hndimEq, hncapEq, ofNatBE_toNat_ofNat (hlen 0 8 (by decide)),
      ofNatBE_toNat_ofNat (hlen 8 16 (by decide)), List.append_assoc]
    rw [← List.append_assoc (offSize.slice 0 8), hoffSizeEq]
    rfl

/-- **Writing and reading descriptors is one self-delimiting format.** -/
theorem selfDelimiting : SelfDelimiting wire decodeTensor Encodable where
  dec_enc _ hd rest := decodeTensor_wire hd rest
  enc_dec _ _ _ h := wire_of_decodeTensor h

/-! ## What `Validate` accepts -/

theorem forall_mem_of_checkCaps {caps : List Bytes} {i : ℕ} (h : checkCaps i caps = .ok ()) :
    ∀ c ∈ caps, c ≠ [] ∧ c.length ≤ maxTensorCapLen := by
  induction caps generalizing i with
  | nil => exact fun c hc => absurd hc List.not_mem_nil
  | cons c caps ih =>
    rw [checkCaps] at h
    split at h
    · exact (nomatch h)
    · next hc =>
      obtain ⟨hne, hlen⟩ := not_or.mp hc
      exact List.forall_mem_cons.mpr ⟨⟨hne, not_lt.mp hlen⟩, ih h⟩

/-- A digest is sixty-four hexadecimal digits, or these behind a label. -/
theorem length_digest_le {s : Bytes} (h : ¬(s ≠ [] ∧ ¬isSHA256Hex s ∧ ¬isSHA256Prefixed s)) :
    s.length ≤ maxTensorDigestLen := by
  by_cases hnil : s = []
  · rw [hnil]
    exact Nat.zero_le _
  · by_cases hhex : isSHA256Hex s = true
    · rw [isSHA256Hex, Bool.and_eq_true, beq_iff_eq] at hhex
      rw [hhex.1]
      decide
    · have hlabel : isSHA256Prefixed s = true := not_not.mp fun hno => h ⟨hnil, hhex, hno⟩
      rw [isSHA256Prefixed, Bool.and_eq_true, Bool.and_eq_true, beq_iff_eq] at hlabel
      rw [hlabel.1.1]
      decide

/-- No claim of an accepted descriptor is empty. -/
theorem caps_ne_nil_of_validate {d : TensorDescriptor} (h : d.validate = .ok ()) :
    ∀ c ∈ d.capabilities, c ≠ [] := by
  unfold validate at h
  simp only [Except.bind_eq_ok_iff] at h
  obtain ⟨_, -, _, -, _, -, _, -, _, -, _, -, _, -, _, -, _, -, _, -, _, -, _, hcaps, -⟩ := h
  exact fun c hc => (forall_mem_of_checkCaps hcaps c hc).1

/-- **Everything that `Validate` accepts is within the reader's bounds.** -/
theorem encodable_of_validate {d : TensorDescriptor} (h : d.validate = .ok ()) :
    d.Encodable := by
  unfold validate at h
  simp only [Except.bind_eq_ok_iff, Except.failIf_eq_ok_iff] at h
  obtain ⟨_, -, _, hndim, _, -, _, hstrides, _, -, _, -, _, -, _, -, _, -, _, hshmName, _,
    hcapCount, _, hcaps, hdigest⟩ := h
  obtain ⟨hpos, hle⟩ := not_or.mp hndim
  exact ⟨Nat.pos_of_ne_zero hpos, not_lt.mp hle, not_not.mp hstrides, not_lt.mp hshmName,
    not_lt.mp hcapCount, fun c hc => (forall_mem_of_checkCaps hcaps c hc).2,
    length_digest_le hdigest⟩

/-! ## Round trip and canonicity -/

/-- A small tensor, with one claim and no digest. -/
def sampleDescriptor : TensorDescriptor where
  dtype := tensorF32
  shape := [2, 3]
  strides := [3, 1]
  shmName := ascii "eai.arena"
  offset := 64
  size := 24
  capabilities := [ascii "inference.local"]
  modelDigest := []

theorem validate_sampleDescriptor : sampleDescriptor.validate = .ok () := by
  decide +kernel

/-- **An accepted descriptor survives the wire**, whatever follows it. -/
theorem decodeTensor_encode {d : TensorDescriptor} (h : d.validate = .ok ()) (rest : Bytes) :
    ∃ b, d.encode = .ok b
      ∧ ∃ d', decodeTensor (b ++ rest) = .ok (d', rest) ∧ d' = d ∧ d'.validate = .ok () := by
  have hd := encodable_of_validate h
  exact ⟨d.wire, encode_of_encodable hd, d, decodeTensor_wire hd rest, rfl, h⟩

theorem decodeTensor_encode_sample :
    ∃ b, sampleDescriptor.encode = .ok b
      ∧ ∃ d', decodeTensor (b ++ [0xff]) = .ok (d', [0xff]) ∧ d' = sampleDescriptor
        ∧ d'.validate = .ok () :=
  decodeTensor_encode validate_sampleDescriptor [0xff]

/-- **One encoding per descriptor.** Where a read succeeds after consuming `p`, the
descriptor encodes to `p` again, whether it is valid or not, and no read of a strict
prefix of `p` succeeds. -/
theorem decodeTensor_canonical {s p rest : Bytes} {d : TensorDescriptor} (hs : s = p ++ rest)
    (h : decodeTensor s = .ok (d, rest)) :
    d.encode = .ok p ∧ ∀ q, q <+: p → q ≠ p → ∃ e, decodeTensor q = .error e := by
  obtain ⟨hd, -⟩ := wire_of_decodeTensor h
  obtain rfl : p = d.wire := selfDelimiting.consumed_eq h hs
  exact ⟨encode_of_encodable hd, fun q hq hne => selfDelimiting.strict_prefix_fails hd hq hne⟩

/-- A descriptor of no type that is transported, with a dimension of zero. -/
theorem decodeTensor_canonical_invalid :
    let p : Bytes := [9, 1] ++ List.replicate 16 0 ++ [0, 1, 0x73] ++ List.replicate 16 0
      ++ [0, 2, 0, 1, 0x61, 0, 2, 0x62, 0x63, 0, 1, 0x64]
    let d : TensorDescriptor := ⟨9, [0], [0], [0x73], 0, 0, [[0x61], [0x62, 0x63]], [0x64]⟩
    d.validate ≠ .ok () ∧ d.encode = .ok p
      ∧ ∀ q, q <+: p → q ≠ p → ∃ e, decodeTensor q = .error e := by
  intro p d
  exact ⟨by decide, decodeTensor_canonical (List.append_nil p).symm (by decide)⟩

end TensorDescriptor
