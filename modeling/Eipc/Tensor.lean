import Eipc.Lib.Wire

/-!
# Tensor descriptors

A `TensorDescriptor` (`protocol/tensor.go`) names a tensor's storage inside a
shared-memory segment; the tensor itself never travels. `Validate` checks a
descriptor for internal consistency without touching memory, and everything
downstream relies on it: a validated span does not wrap the address space
(`TensorDescriptor.span_lt_of_validate`).

Shapes and strides are `int64` and offsets and sizes `uint64`, with the
wrapping arithmetic and the truncating division of the source.
-/

open Bytes

/-- One tensor's storage in a shared-memory segment. -/
structure TensorDescriptor where
  /-- The element data type, a byte that mirrors `eai_dtype_t`. -/
  dtype : UInt8
  shape : List Int64
  strides : List Int64
  shmName : Bytes
  offset : UInt64
  size : UInt64
  capabilities : List Bytes
  modelDigest : Bytes
  deriving DecidableEq

/-- What a descriptor can be refused for, with what the message reports. -/
inductive TensorError where
  | dtype (dtype : UInt8)
  | ndim (ndim : ℕ)
  | shape (i : ℕ) (dim : Int64)
  | strideCount (strides ndim : ℕ)
  | negativeStride (i : ℕ) (s : Int64)
  | strideOverflow (i : ℕ)
  | footprintOverflow
  | align (offset : UInt64) (elem : Int64)
  | spanOverflow (offset size : UInt64)
  | footprint (size footprint : UInt64)
  | shmName
  | shmNameLength (n : ℕ)
  | capCount (n : ℕ)
  | cap (i : ℕ)
  | digest
  | zeroSize
  | overlap (lo hi lo' hi' : UInt64) (segment : Bytes)
  deriving DecidableEq

namespace TensorError

/-- The sentinel error an error wraps. -/
def sentinel : TensorError → String
  | .dtype _ => "eipc: unknown tensor dtype"
  | .ndim _ | .shape _ _ | .zeroSize => "eipc: invalid tensor dimensions"
  | .strideCount _ _ | .negativeStride _ _ | .strideOverflow _ | .footprintOverflow
  | .spanOverflow _ _ | .footprint _ _ => "eipc: strides inconsistent with shape/size"
  | .align _ _ => "eipc: tensor offset not aligned to dtype"
  | .shmName | .shmNameLength _ => "eipc: shm segment name missing for nonzero tensor size"
  | .capCount _ | .cap _ => "eipc: too many or oversized capability claims"
  | .digest => "eipc: model digest is not a valid sha256"
  | .overlap _ _ _ _ _ => "eipc: tensor span overlaps a registered span"

/-- What an error reports after its sentinel. `quote` is the verb `%q`. -/
def detail (quote : Bytes → String) : TensorError → String
  | .dtype t => ": " ++ toString t.toNat
  | .ndim n => ": ndim=" ++ toString n
  | .shape i dim =>
    ": shape[" ++ toString i ++ "]=" ++ toString dim.toInt ++ " (zero or negative dim)"
  | .strideCount k n => ": " ++ toString k ++ " strides for " ++ toString n ++ " dims"
  | .negativeStride i s =>
    ": strides[" ++ toString i ++ "]=" ++ toString s.toInt ++ " (negative stride)"
  | .strideOverflow i => ": strides[" ++ toString i ++ "] overflows extent"
  | .footprintOverflow => ": footprint overflows int64"
  | .align off elem =>
    ": offset " ++ toString off.toNat ++ " for " ++ toString elem.toInt ++ "-byte dtype"
  | .spanOverflow off size =>
    ": offset " ++ toString off.toNat ++ " + size " ++ toString size.toNat
      ++ " overflows uint64"
  | .footprint size fp =>
    ": size " ++ toString size.toNat ++ " < footprint " ++ toString fp.toNat
  | .shmName | .digest => ""
  | .shmNameLength n => ": " ++ toString n ++ " bytes"
  | .capCount n => ": " ++ toString n ++ " claims"
  | .cap i => ": capability[" ++ toString i ++ "]"
  | .zeroSize => ": zero-size span"
  | .overlap lo hi lo' hi' seg =>
    ": [" ++ toString lo.toNat ++ ", " ++ toString hi.toNat ++ ") intersects live span ["
      ++ toString lo'.toNat ++ ", " ++ toString hi'.toNat ++ ") in segment " ++ quote seg

/-- The error's text. -/
def text (quote : Bytes → String) (e : TensorError) : String := e.sentinel ++ e.detail quote

end TensorError

namespace TensorDescriptor

def tensorF32 : UInt8 := 0
def tensorF16 : UInt8 := 1
def tensorBF16 : UInt8 := 2
def tensorINT8 : UInt8 := 3
def tensorINT4 : UInt8 := 4
def tensorQ4_0 : UInt8 := 5
/-- `Q4_1`, which is 6, is not transported. -/
def tensorQ8_0 : UInt8 := 7

def maxTensorDims : ℕ := 8
def maxTensorShmNameLen : ℕ := 256
def maxTensorCaps : ℕ := 32
def maxTensorCapLen : ℕ := 128

/-- `dtypeBytes`: the element size used for stride arithmetic, zero for a
type that is not transported. -/
def dtypeBytes (t : UInt8) : Int64 :=
  if t = tensorF32 then 4
  else if t = tensorF16 ∨ t = tensorBF16 then 2
  else if t = tensorINT8 ∨ t = tensorINT4 ∨ t = tensorQ4_0 ∨ t = tensorQ8_0 then 1
  else 0

/-- A hexadecimal digit, in either case. -/
def isHexDigit (c : UInt8) : Bool :=
  (0x30 ≤ c && c ≤ 0x39) || (0x61 ≤ c && c ≤ 0x66) || (0x41 ≤ c && c ≤ 0x46)

/-- `isSHA256Hex`. -/
def isSHA256Hex (s : Bytes) : Bool := s.length == 64 && s.all isHexDigit

/-- `isSHA256Prefixed`. -/
def isSHA256Prefixed (s : Bytes) : Bool :=
  s.length == (ascii "sha256:").length + 64 && s.take (ascii "sha256:").length == ascii "sha256:"
    && isSHA256Hex (s.drop (ascii "sha256:").length)

/-- The loop of `Validate` over the dimensions, from index `i` on. -/
def checkShape (i : ℕ) : List Int64 → Except TensorError Unit
  | [] => .ok ()
  | dim :: rest =>
    if dim ≤ 0 then .error (.shape i dim) else checkShape (i + 1) rest

/-- The loop of `Validate` over dimensions and strides: it accumulates the
extent, and guards the product and the sum against `int64` overflow. -/
def checkExtent (elem : Int64) (i : ℕ) (extent : Int64) :
    List (Int64 × Int64) → Except TensorError Int64
  | [] => .ok extent
  | (dim, s) :: rest =>
    if s < 0 then .error (.negativeStride i s)
    else if dim - 1 > 0 ∧ s > 2 ^ 62 / (dim - 1) then .error (.strideOverflow i)
    else
      let extent := extent + (dim - 1) * s
      if extent > 2 ^ 62 / elem then .error .footprintOverflow
      else checkExtent elem (i + 1) extent rest

/-- The loop of `Validate` over the capability claims. -/
def checkCaps (i : ℕ) : List Bytes → Except TensorError Unit
  | [] => .ok ()
  | c :: rest =>
    if c = [] ∨ c.length > maxTensorCapLen then .error (.cap i) else checkCaps (i + 1) rest

/-- `Validate`. -/
def validate (d : TensorDescriptor) : Except TensorError Unit := do
  Except.failIf (dtypeBytes d.dtype = 0) (.dtype d.dtype)
  let ndim := d.shape.length
  Except.failIf (ndim = 0 ∨ ndim > maxTensorDims) (.ndim ndim)
  checkShape 0 d.shape
  Except.failIf (d.strides.length ≠ ndim) (.strideCount d.strides.length ndim)
  let elem := dtypeBytes d.dtype
  let extent ← checkExtent elem 0 1 (d.shape.zip d.strides)
  let footprint := extent.toUInt64 * elem.toUInt64
  Except.failIf (d.offset % elem.toUInt64 ≠ 0) (.align d.offset elem)
  Except.failIf (d.offset > ~~~0 - d.size) (.spanOverflow d.offset d.size)
  Except.failIf (d.size < footprint) (.footprint d.size footprint)
  Except.failIf (d.size > 0 ∧ d.shmName = []) .shmName
  Except.failIf (d.shmName.length > maxTensorShmNameLen) (.shmNameLength d.shmName.length)
  Except.failIf (d.capabilities.length > maxTensorCaps) (.capCount d.capabilities.length)
  checkCaps 0 d.capabilities
  Except.failIf (d.modelDigest ≠ [] ∧ ¬isSHA256Hex d.modelDigest ∧ ¬isSHA256Prefixed d.modelDigest)
    .digest

/-- **A validated span does not wrap the address space.** -/
theorem span_lt_of_validate {d : TensorDescriptor} (h : d.validate = .ok ()) :
    d.offset.toNat + d.size.toNat < 2 ^ 64 := by
  unfold validate at h
  simp only [Except.bind_eq_ok_iff] at h
  obtain ⟨_, -, _, -, _, -, _, -, _, -, _, -, _, hspan, -⟩ := h
  have hall : (~~~(0 : UInt64)).toNat = 2 ^ 64 - 1 := by decide
  have hsize : d.size ≤ ~~~0 := by
    rw [UInt64.le_iff_toNat_le, hall]
    exact Nat.le_sub_one_of_lt d.size.toNat_lt
  rw [Except.failIf_eq_ok_iff, gt_iff_lt, UInt64.lt_iff_toNat_lt,
    UInt64.toNat_sub_of_le _ _ hsize, hall] at hspan
  rw [UInt64.le_iff_toNat_le, hall] at hsize
  omega

end TensorDescriptor
