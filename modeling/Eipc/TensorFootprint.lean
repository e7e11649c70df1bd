import Eipc.Tensor

/-!
# The footprint of a tensor

`Validate` admits a descriptor whose span is at least as large as the footprint that
shape and strides imply, so that a reader stays inside its mapping. The footprint is
computed in an `int64`, with a guard for every product and one for every sum. Here it is
compared with the footprint in unbounded integers (`TensorDescriptor.exactExtent`).

Each guard allows `2 ^ 62`. Two such numbers make `2 ^ 63`, which is negative as an
`int64` and passes the guard of the sum; and after two more of them the accumulator is
zero. For elements of two and four bytes the guard of the sum is lower and this cannot
happen (`TensorDescriptor.exactExtent_le_of_wide`). For elements of one byte a
descriptor is admitted whose elements are all over the address space
(`TensorDescriptor.validate_wrapped`).

All that is computed is right modulo `2 ^ 64` (`checkExtent_modEq`), so the footprint is
right as long as it is a `uint64` (`TensorDescriptor.validate_covers_iff`).

In the other direction there is nothing to complain about: where the exact footprint is at
most `2 ^ 62` no guard refuses a step towards it, and `Validate` refuses no well-formed
descriptor (`TensorDescriptor.validate_of_wellFormed`).
-/

open Bytes

namespace TensorDescriptor

/-! ## The exact footprint -/

/-- How far dimensions and strides reach beyond the first element, in elements. -/
def reach (dims : List (Int64 × Int64)) : ℤ :=
  (dims.map fun p => (p.1.toInt - 1) * p.2.toInt).sum

/-- The number of elements that the tensor spans. -/
def exactExtent (d : TensorDescriptor) : ℤ := 1 + reach (d.shape.zip d.strides)

/-- The size of an element. -/
def elemSize (d : TensorDescriptor) : ℤ := (dtypeBytes d.dtype).toInt

/-- Where the element with the index vector `idx` starts in the segment. -/
def elementStart (d : TensorDescriptor) (idx : List ℤ) : ℤ :=
  d.offset.toNat + d.elemSize * ((idx.zip d.strides).map fun p => p.1 * p.2.toInt).sum

/-- The index vector is inside the shape. -/
def InShape (d : TensorDescriptor) (idx : List ℤ) : Prop :=
  List.Forall₂ (fun i (n : Int64) => 0 ≤ i ∧ i < n.toInt) idx d.shape

/-- **The span covers the tensor**: every element lies inside the span, which does not
wrap the address space and is at least the exact footprint. -/
structure Covered (d : TensorDescriptor) : Prop where
  element : ∀ idx, d.InShape idx → d.offset.toNat ≤ d.elementStart idx
    ∧ d.elementStart idx + d.elemSize ≤ d.offset.toNat + d.size.toNat
  span : d.offset.toNat + d.size.toNat < 2 ^ 64
  footprint : d.exactExtent * d.elemSize ≤ d.size.toNat

/-- Every step of the loop has the value that it has in unbounded integers. -/
def StepsExact (extent : Int64) : List (Int64 × Int64) → Prop
  | [] => True
  | (dim, s) :: rest =>
    (dim - 1).toInt = dim.toInt - 1
      ∧ ((dim - 1) * s).toInt = (dim - 1).toInt * s.toInt
      ∧ (extent + (dim - 1) * s).toInt = extent.toInt + ((dim - 1) * s).toInt
      ∧ StepsExact (extent + (dim - 1) * s) rest

/-- No step of `Validate` wraps. -/
structure Unwrapped (d : TensorDescriptor) : Prop where
  steps : StepsExact 1 (d.shape.zip d.strides)
  footprint : ∀ extent, checkExtent (dtypeBytes d.dtype) 0 1 (d.shape.zip d.strides) = .ok extent →
    ((extent.toUInt64 * (dtypeBytes d.dtype).toUInt64).toNat : ℤ) = extent.toInt * d.elemSize

/-! ## Arithmetic of `int64` -/

theorem toInt_eq_of_modEq {a : Int64} {t : ℤ} (h : a.toInt ≡ t [ZMOD 2 ^ 64]) (hlo : -2 ^ 63 ≤ t)
    (hhi : t < 2 ^ 63) : a.toInt = t := by
  have hle := a.le_toInt
  have hlt := a.toInt_lt
  unfold Int.ModEq at h
  omega

theorem toInt_add_modEq (a b : Int64) : (a + b).toInt ≡ a.toInt + b.toInt [ZMOD 2 ^ 64] := by
  rw [Int64.toInt_add]
  exact Int.bmod_emod

theorem toInt_mul_modEq (a b : Int64) : (a * b).toInt ≡ a.toInt * b.toInt [ZMOD 2 ^ 64] := by
  rw [Int64.toInt_mul]
  exact Int.bmod_emod

theorem toNat_toUInt64_modEq (a : Int64) : (a.toUInt64.toNat : ℤ) ≡ a.toInt [ZMOD 2 ^ 64] := by
  have h : a.toInt = (a.toUInt64.toNat : ℤ).bmod (2 ^ 64) := BitVec.toInt_eq_toNat_bmod _
  rw [h]
  exact Int.bmod_emod.symm

/-- The two sides of a guard: a number is not above the bound over `k` exactly if it is not
above the bound when multiplied by `k`. -/
theorem not_gt_iff_mul_le {k s : Int64} (hk : 0 < k.toInt) :
    ¬s > 2 ^ 62 / k ↔ k.toInt * s.toInt ≤ 2 ^ 62 := by
  have hpow : ((2 : Int64) ^ 62).toInt = 2 ^ 62 := by decide +kernel
  have hdiv : ((2 : Int64) ^ 62 / k).toInt = 2 ^ 62 / k.toInt := by
    rw [Int64.toInt_div_of_ne_left _ _ (by decide +kernel), hpow,
      Int.tdiv_eq_ediv_of_nonneg (by norm_num)]
  rw [gt_iff_lt, Int64.lt_iff_toInt_lt, not_lt, hdiv, mul_comm]
  exact Int.le_ediv_iff_mul_le hk

/-! ## The loop over dimensions and strides -/

variable {elem extent E : Int64} {dim s : Int64} {dims : List (Int64 × Int64)} {i : ℕ}

/-- What one dimension contributes, when the guards let it pass. -/
structure Contributes (dim s : Int64) : Prop where
  stride : 0 ≤ s.toInt
  sub : (dim - 1).toInt = dim.toInt - 1
  mul : ((dim - 1) * s).toInt = (dim - 1).toInt * s.toInt
  nonneg : 0 ≤ (dim.toInt - 1) * s.toInt
  le : (dim.toInt - 1) * s.toInt ≤ 2 ^ 62

/-- One turn of the loop. -/
theorem checkExtent_cons (h : checkExtent elem i extent ((dim, s) :: dims) = .ok E) :
    ¬s < 0 ∧ ¬(dim - 1 > 0 ∧ s > 2 ^ 62 / (dim - 1)) ∧ ¬extent + (dim - 1) * s > 2 ^ 62 / elem
      ∧ checkExtent elem (i + 1) (extent + (dim - 1) * s) dims = .ok E := by
  unfold checkExtent at h
  split at h
  · exact (nomatch h)
  · next hneg =>
    split at h
    · exact (nomatch h)
    · next hguard =>
      dsimp only at h
      split at h
      · exact (nomatch h)
      · next hsum => exact ⟨hneg, hguard, hsum, h⟩

theorem toInt_sub_one (hdim : 0 < dim.toInt) : (dim - 1).toInt = dim.toInt - 1 := by
  have hdimlt := dim.toInt_lt
  have hone : (1 : Int64).toInt = 1 := by decide +kernel
  refine toInt_eq_of_modEq ?_ (by omega) (by omega)
  rw [Int64.toInt_sub, hone]
  exact Int.bmod_emod

/-- **The guard of the product is right**: difference and product are exact, and at most
`2 ^ 62`. -/
theorem contributes (hdim : 0 < dim.toInt) (hneg : ¬s < 0)
    (hguard : ¬(dim - 1 > 0 ∧ s > 2 ^ 62 / (dim - 1))) : Contributes dim s := by
  have hzero : (0 : Int64).toInt = 0 := Int64.toInt_zero
  have hstride : 0 ≤ s.toInt := by
    rw [Int64.lt_iff_toInt_lt, hzero] at hneg
    exact not_lt.mp hneg
  have hsub := toInt_sub_one hdim
  have hle : (dim.toInt - 1) * s.toInt ≤ 2 ^ 62 := by
    by_cases hpos : dim - 1 > 0
    · have hk : 0 < (dim - 1).toInt := by
        rwa [gt_iff_lt, Int64.lt_iff_toInt_lt, hzero] at hpos
      rw [← hsub]
      exact (not_gt_iff_mul_le hk).mp fun hgt => hguard ⟨hpos, hgt⟩
    · rw [gt_iff_lt, Int64.lt_iff_toInt_lt, hzero, hsub] at hpos
      rw [show dim.toInt - 1 = 0 by omega, zero_mul]
      norm_num
  have hnonneg : 0 ≤ (dim.toInt - 1) * s.toInt := mul_nonneg (by omega) hstride
  refine ⟨hstride, hsub, ?_, hnonneg, hle⟩
  refine toInt_eq_of_modEq (toInt_mul_modEq _ _) ?_ ?_
  · rw [hsub]
    omega
  · rw [hsub]
    omega

theorem reach_cons (dim s : Int64) (dims : List (Int64 × Int64)) :
    reach ((dim, s) :: dims) = (dim.toInt - 1) * s.toInt + reach dims := by
  simp only [reach, List.map_cons, List.sum_cons]

/-- One turn of the loop, in terms of what the dimension contributes. -/
theorem checkExtent_turn (h : checkExtent elem i extent ((dim, s) :: dims) = .ok E)
    (hdims : ∀ p ∈ (dim, s) :: dims, 0 < p.1.toInt) :
    Contributes dim s ∧ ¬extent + (dim - 1) * s > 2 ^ 62 / elem
      ∧ checkExtent elem (i + 1) (extent + (dim - 1) * s) dims = .ok E
      ∧ ∀ p ∈ dims, 0 < p.1.toInt := by
  obtain ⟨hneg, hguard, hsum, hrest⟩ := checkExtent_cons h
  obtain ⟨hdim, hdims⟩ := List.forall_mem_cons.mp hdims
  exact ⟨contributes hdim hneg hguard, hsum, hrest, hdims⟩

theorem reach_nonneg (h : checkExtent elem i extent dims = .ok E)
    (hdims : ∀ p ∈ dims, 0 < p.1.toInt) : 0 ≤ reach dims := by
  induction dims generalizing i extent with
  | nil => exact le_rfl
  | cons p dims ih =>
    obtain ⟨hp, -, hrest, hdims⟩ := checkExtent_turn h hdims
    rw [reach_cons]
    exact add_nonneg hp.nonneg (ih hrest hdims)

/-- **The accumulator is right modulo `2 ^ 64`**, whatever wraps. -/
theorem checkExtent_modEq (h : checkExtent elem i extent dims = .ok E)
    (hdims : ∀ p ∈ dims, 0 < p.1.toInt) : E.toInt ≡ extent.toInt + reach dims [ZMOD 2 ^ 64] := by
  induction dims generalizing i extent with
  | nil =>
    cases h
    rw [reach, List.map_nil, List.sum_nil, add_zero]
  | cons p dims ih =>
    obtain ⟨hp, -, hrest, hdims⟩ := checkExtent_turn h hdims
    refine (ih hrest hdims).trans ?_
    rw [reach_cons, ← add_assoc, ← hp.sub, ← hp.mul]
    exact (toInt_add_modEq _ _).add_right _

/-- **No step wraps exactly if the sum is an `int64`.** -/
theorem stepsExact_iff (h : checkExtent elem i extent dims = .ok E)
    (hdims : ∀ p ∈ dims, 0 < p.1.toInt) (hextent : 0 ≤ extent.toInt) :
    StepsExact extent dims ↔ extent.toInt + reach dims < 2 ^ 63 := by
  induction dims generalizing i extent with
  | nil =>
    refine iff_of_true trivial ?_
    rw [reach, List.map_nil, List.sum_nil, add_zero]
    exact extent.toInt_lt
  | cons p dims ih =>
    obtain ⟨dim, s⟩ := p
    obtain ⟨hp, -, hrest, hdims⟩ := checkExtent_turn h hdims
    have hnonneg := hp.nonneg
    have hreach := reach_nonneg hrest hdims
    have hvalue : ((dim - 1) * s).toInt = (dim.toInt - 1) * s.toInt := by rw [hp.mul, hp.sub]
    rw [reach_cons, ← add_assoc]
    constructor
    · rintro ⟨-, -, hadd, hsteps⟩
      rw [hvalue] at hadd
      rw [← hadd]
      exact (ih hrest hdims (by omega)).mp hsteps
    · intro hlt
      have hadd : (extent + (dim - 1) * s).toInt = extent.toInt + ((dim - 1) * s).toInt := by
        refine toInt_eq_of_modEq (toInt_add_modEq _ _) ?_ ?_ <;> rw [hvalue] <;> omega
      refine ⟨hp.sub, hp.mul, hadd, (ih hrest hdims ?_).mpr ?_⟩
      · rw [hadd, hvalue]
        omega
      · rw [hadd, hvalue]
        exact hlt

/-- **For elements of two bytes and more the guard of the sum is right.** -/
theorem reach_le_of_wide (h : checkExtent elem i extent dims = .ok E)
    (hdims : ∀ p ∈ dims, 0 < p.1.toInt) (helem : 2 ≤ elem.toInt) (hextent : 0 ≤ extent.toInt)
    (hle : elem.toInt * extent.toInt ≤ 2 ^ 62) :
    elem.toInt * (extent.toInt + reach dims) ≤ 2 ^ 62 := by
  induction dims generalizing i extent with
  | nil => rwa [reach, List.map_nil, List.sum_nil, add_zero]
  | cons p dims ih =>
    obtain ⟨dim, s⟩ := p
    obtain ⟨hp, hsum, hrest, hdims⟩ := checkExtent_turn h hdims
    have hvalue : ((dim - 1) * s).toInt = (dim.toInt - 1) * s.toInt := by rw [hp.mul, hp.sub]
    have hnonneg := hp.nonneg
    have hhalf : 2 * extent.toInt ≤ 2 ^ 62 := (mul_le_mul_of_nonneg_right helem hextent).trans hle
    have hbound := hp.le
    have hadd : (extent + (dim - 1) * s).toInt = extent.toInt + (dim.toInt - 1) * s.toInt := by
      rw [← hvalue]
      refine toInt_eq_of_modEq (toInt_add_modEq _ _) ?_ ?_ <;> rw [hvalue] <;> omega
    rw [reach_cons, ← add_assoc, ← hadd]
    refine ih hrest hdims ?_ ((not_gt_iff_mul_le (by omega)).mp hsum)
    rw [hadd]
    omega

theorem stride_nonneg (h : checkExtent elem i extent dims = .ok E)
    (hdims : ∀ p ∈ dims, 0 < p.1.toInt) : ∀ p ∈ dims, 0 ≤ p.2.toInt := by
  induction dims generalizing i extent with
  | nil => exact fun p hp => absurd hp List.not_mem_nil
  | cons p dims ih =>
    obtain ⟨hp, -, hrest, hdims⟩ := checkExtent_turn h hdims
    exact List.forall_mem_cons.mpr ⟨hp.stride, ih hrest hdims⟩

/-! ## What a validated descriptor has passed -/

theorem pos_of_checkShape {l : List Int64} (h : checkShape i l = .ok ()) :
    ∀ n ∈ l, 0 < n.toInt := by
  induction l generalizing i with
  | nil => exact fun n hn => absurd hn List.not_mem_nil
  | cons n l ih =>
    unfold checkShape at h
    split at h
    · exact (nomatch h)
    · next hpos =>
      rw [Int64.le_iff_toInt_le, Int64.toInt_zero, not_le] at hpos
      exact List.forall_mem_cons.mpr ⟨hpos, ih h⟩

/-- The sizes of the transported types. -/
theorem toInt_dtypeBytes {t : UInt8} (h : dtypeBytes t ≠ 0) :
    (dtypeBytes t).toInt = 1 ∨ (dtypeBytes t).toInt = 2 ∨ (dtypeBytes t).toInt = 4 := by
  unfold dtypeBytes at h ⊢
  split_ifs at h ⊢
  · exact .inr (.inr (by decide +kernel))
  · exact .inr (.inl (by decide +kernel))
  · exact .inl (by decide +kernel)
  · exact absurd rfl h

/-- **A footprint that is a `uint64` is computed exactly**, whatever wrapped on the way. -/
theorem toNat_footprint {d : TensorDescriptor}
    (helem : d.elemSize = 1 ∨ d.elemSize = 2 ∨ d.elemSize = 4)
    (hdims : ∀ p ∈ d.shape.zip d.strides, 0 < p.1.toInt)
    (hloop : checkExtent (dtypeBytes d.dtype) 0 1 (d.shape.zip d.strides) = .ok extent)
    (hlt : d.exactExtent * d.elemSize < 2 ^ 64) :
    ((extent.toUInt64 * (dtypeBytes d.dtype).toUInt64).toNat : ℤ) = d.exactExtent * d.elemSize := by
  have hone : (1 : Int64).toInt = 1 := by decide +kernel
  have hmod := checkExtent_modEq hloop hdims
  rw [hone] at hmod
  have hprod : ((extent.toUInt64.toNat * (dtypeBytes d.dtype).toUInt64.toNat : ℕ) : ℤ)
      ≡ d.exactExtent * d.elemSize [ZMOD 2 ^ 64] := by
    push_cast
    exact ((toNat_toUInt64_modEq _).trans hmod).mul (toNat_toUInt64_modEq _)
  have hreach := reach_nonneg hloop hdims
  have hnonneg : 0 ≤ d.exactExtent * d.elemSize :=
    mul_nonneg (by unfold exactExtent; omega) (by omega)
  rw [UInt64.toNat_mul]
  unfold Int.ModEq at hprod
  rw [Int.emod_eq_of_lt hnonneg hlt] at hprod
  exact_mod_cast hprod

/-- What `Validate` has found of the dimensions, with the extent that it has computed. -/
structure Measured (d : TensorDescriptor) (extent : Int64) : Prop where
  elem : d.elemSize = 1 ∨ d.elemSize = 2 ∨ d.elemSize = 4
  dims : ∀ p ∈ d.shape.zip d.strides, 0 < p.1.toInt
  loop : checkExtent (dtypeBytes d.dtype) 0 1 (d.shape.zip d.strides) = .ok extent
  size : (extent.toUInt64 * (dtypeBytes d.dtype).toUInt64).toNat ≤ d.size.toNat

theorem exists_measured {d : TensorDescriptor} (h : d.validate = .ok ()) :
    ∃ extent, Measured d extent := by
  unfold validate at h
  simp only [Except.bind_eq_ok_iff, Except.failIf_eq_ok_iff] at h
  obtain ⟨_, hdtype, _, -, _, hshape, _, -, extent, hextent, _, -, _, -, _, hsize, -⟩ := h
  refine ⟨extent, toInt_dtypeBytes hdtype, fun p hp => ?_, hextent, ?_⟩
  · exact pos_of_checkShape hshape p.1 (List.of_mem_zip hp).1
  · exact not_lt.mp (mt UInt64.lt_iff_toNat_lt.mpr hsize)

variable {d : TensorDescriptor}

namespace Measured

theorem one_le_exactExtent (h : Measured d extent) : 1 ≤ d.exactExtent := by
  have hreach := reach_nonneg h.loop h.dims
  unfold exactExtent
  omega

/-- **Elements of two and four bytes**: the exact footprint is what the guards allow. -/
theorem mul_exactExtent_le (h : Measured d extent) (hwide : d.elemSize ≠ 1) :
    d.elemSize * d.exactExtent ≤ 2 ^ 62 := by
  have helem := h.elem
  have hone : (1 : Int64).toInt = 1 := by decide +kernel
  have hle := reach_le_of_wide h.loop h.dims (show 2 ≤ d.elemSize by omega)
    (by rw [hone]; norm_num) (by rw [hone]; show d.elemSize * 1 ≤ _; omega)
  rwa [hone] at hle

/-- A footprint that is a `uint64` is what `Validate` compares the size with. -/
theorem toNat_footprint (h : Measured d extent) (hlt : d.exactExtent * d.elemSize < 2 ^ 64) :
    ((extent.toUInt64 * (dtypeBytes d.dtype).toUInt64).toNat : ℤ) = d.exactExtent * d.elemSize :=
  TensorDescriptor.toNat_footprint h.elem h.dims h.loop hlt

/-- An extent below `2 ^ 64` has a footprint below `2 ^ 64`. -/
theorem footprint_lt (h : Measured d extent) (hlt : d.exactExtent < 2 ^ 64) :
    d.exactExtent * d.elemSize < 2 ^ 64 := by
  by_cases hnarrow : d.elemSize = 1
  · rwa [hnarrow, mul_one]
  · have hwide := h.mul_exactExtent_le hnarrow
    rw [mul_comm]
    omega

end Measured

/-! ## Elements and the footprint -/

/-- The last element is at the end of what dimensions and strides reach. -/
theorem sum_index_le_reach {idx : List ℤ} {shape strides : List Int64}
    (hidx : List.Forall₂ (fun i (n : Int64) => 0 ≤ i ∧ i < n.toInt) idx shape)
    (hstrides : ∀ p ∈ shape.zip strides, 0 ≤ p.2.toInt) :
    0 ≤ ((idx.zip strides).map fun p => p.1 * p.2.toInt).sum
      ∧ ((idx.zip strides).map fun p => p.1 * p.2.toInt).sum ≤ reach (shape.zip strides) := by
  induction hidx generalizing strides with
  | nil => exact ⟨le_rfl, le_rfl⟩
  | @cons j n idx shape hj hidx ih =>
    cases strides with
    | nil => exact ⟨le_rfl, le_rfl⟩
    | cons s strides =>
      rw [List.zip_cons_cons, List.forall_mem_cons] at hstrides
      obtain ⟨hlow, hhigh⟩ := ih hstrides.2
      have hs : 0 ≤ s.toInt := hstrides.1
      have hfirst : j * s.toInt ≤ (n.toInt - 1) * s.toInt :=
        mul_le_mul_of_nonneg_right (by omega) hs
      rw [List.zip_cons_cons, List.zip_cons_cons, List.map_cons, List.sum_cons, reach_cons]
      exact ⟨add_nonneg (mul_nonneg hj.1 hs) hlow, add_le_add hfirst hhigh⟩

theorem covered_of_le (h : Measured d extent) (hspan : d.offset.toNat + d.size.toNat < 2 ^ 64)
    (hle : d.exactExtent * d.elemSize ≤ d.size.toNat) : d.Covered where
  span := hspan
  footprint := hle
  element idx hidx := by
    obtain ⟨hlow, hhigh⟩ := sum_index_le_reach hidx (stride_nonneg h.loop h.dims)
    have helem : 0 ≤ d.elemSize := by have := h.elem; omega
    have hstart := mul_nonneg helem hlow
    have hend := mul_le_mul_of_nonneg_left hhigh helem
    have hextent : d.exactExtent * d.elemSize
        = d.elemSize + d.elemSize * reach (d.shape.zip d.strides) := by
      unfold exactExtent
      ring
    unfold elementStart
    omega

/-! ## The law -/

/-- **When a validated descriptor covers its tensor.** Its span covers the tensor exactly
if the extent, in unbounded integers, is below `2 ^ 64`; and besides no step of
`Validate` wraps exactly if it is below `2 ^ 63`. -/
theorem validate_covers_iff (d : TensorDescriptor) (h : d.validate = .ok ()) :
    (d.Covered ↔ d.exactExtent < 2 ^ 64)
      ∧ (d.Covered ∧ d.Unwrapped ↔ d.exactExtent < 2 ^ 63) := by
  obtain ⟨extent, hm⟩ := exists_measured h
  have hone : (1 : Int64).toInt = 1 := by decide +kernel
  have hspan := span_lt_of_validate h
  have hcovered : d.Covered ↔ d.exactExtent < 2 ^ 64 := by
    constructor
    · intro hc
      have hsize := hc.footprint
      have hpos := hm.one_le_exactExtent
      have hlt := d.size.toNat_lt
      rcases hm.elem with he | he | he <;> rw [he] at hsize <;> omega
    · intro hlt
      refine covered_of_le hm hspan ?_
      rw [← hm.toNat_footprint (hm.footprint_lt hlt)]
      exact_mod_cast hm.size
  refine ⟨hcovered, ?_⟩
  have hsteps := stepsExact_iff hm.loop hm.dims (by rw [hone]; norm_num)
  rw [hone] at hsteps
  constructor
  · rintro ⟨-, hunwrapped⟩
    exact hsteps.mp hunwrapped.steps
  · intro hlt
    refine ⟨hcovered.mpr (hlt.trans (by norm_num)), hsteps.mpr hlt, fun extent' hextent' => ?_⟩
    cases hm.loop.symm.trans hextent'
    have hmod := checkExtent_modEq hm.loop hm.dims
    rw [hone] at hmod
    have hexact : extent.toInt = d.exactExtent :=
      toInt_eq_of_modEq hmod (by have := hm.one_le_exactExtent; omega) hlt
    rw [hexact]
    exact hm.toNat_footprint (hm.footprint_lt (hlt.trans (by norm_num)))

/-- **For elements of two and four bytes every validated descriptor is as it should be.** -/
theorem exactExtent_le_of_wide (h : d.validate = .ok ()) (hwide : d.elemSize ≠ 1) :
    d.exactExtent ≤ 2 ^ 61 := by
  obtain ⟨extent, hm⟩ := exists_measured h
  have hle := hm.mul_exactExtent_le hwide
  rcases hm.elem with he | he | he
  · exact absurd he hwide
  · rw [he] at hle
    omega
  · rw [he] at hle
    omega

/-- A matrix of three by four floats, in rows of five. -/
def padded : TensorDescriptor := ⟨0, [3, 4], [5, 1], ascii "seg", 8, 64, [], []⟩

theorem validate_covers_iff_padded :
    padded.validate = .ok () ∧ padded.Covered ∧ padded.Unwrapped := by
  have hvalid : padded.validate = .ok () := by decide +kernel
  exact ⟨hvalid, (validate_covers_iff padded hvalid).2.mpr (by decide +kernel)⟩

/-- Bytes with a first dimension of `2 ^ 62`, and three more of two with strides of
`2 ^ 62`. -/
def wrapping : TensorDescriptor :=
  ⟨tensorINT8, [0x4000000000000000, 2, 2, 2],
    [1, 0x4000000000000000, 0x4000000000000000, 0x4000000000000000], ascii "seg", 0, 1, [], []⟩

/-- **A descriptor of one byte is admitted whose footprint is `2 ^ 64` bytes.** The
accumulator goes through `2 ^ 62`, `-2 ^ 63` and `-2 ^ 62` to zero. -/
theorem validate_wrapped :
    wrapping.validate = .ok () ∧ wrapping.exactExtent * wrapping.elemSize = 2 ^ 64
      ∧ wrapping.InShape [0, 1, 0, 0] ∧ wrapping.elementStart [0, 1, 0, 0] = 2 ^ 62
      ∧ ¬wrapping.Covered := by
  refine ⟨by decide +kernel, by decide +kernel, ?_, by decide +kernel, fun h => ?_⟩
  · exact .cons (by decide +kernel) (.cons (by decide +kernel)
      (.cons (by decide +kernel) (.cons (by decide +kernel) .nil)))
  · exact absurd h.footprint (by decide +kernel)

/-! ## What `Validate` does not refuse -/

/-- The hexadecimal digits, in either case. -/
def hexDigits : Bytes := ascii "0123456789abcdefABCDEF"

/-- **A well-formed descriptor**, said without the arithmetic of `Validate`: the footprint is
the one in unbounded integers. -/
structure WellFormed (d : TensorDescriptor) : Prop where
  dtype : d.dtype ∈ [tensorF32, tensorF16, tensorBF16, tensorINT8, tensorINT4, tensorQ4_0,
    tensorQ8_0]
  ndim_pos : 1 ≤ d.shape.length
  ndim_le : d.shape.length ≤ 8
  dims : ∀ n ∈ d.shape, 1 ≤ n.toInt
  strideCount : d.strides.length = d.shape.length
  strides : ∀ s ∈ d.strides, 0 ≤ s.toInt
  footprint_le : d.exactExtent * d.elemSize ≤ 2 ^ 62
  footprint_le_size : d.exactExtent * d.elemSize ≤ d.size.toNat
  align : d.elemSize ∣ d.offset.toNat
  span : d.offset.toNat + d.size.toNat ≤ 2 ^ 64 - 1
  shmName_ne : d.shmName ≠ []
  shmName_le : d.shmName.length ≤ 256
  capCount : d.capabilities.length ≤ 32
  caps : ∀ c ∈ d.capabilities, 1 ≤ c.length ∧ c.length ≤ 128
  digest : d.modelDigest = [] ∨ ∃ hex,
    (d.modelDigest = hex ∨ d.modelDigest = ascii "sha256:" ++ hex)
    ∧ hex.length = 64 ∧ ∀ c ∈ hex, c ∈ hexDigits

theorem reach_nonneg_of_dims (h : ∀ p ∈ dims, 0 < p.1.toInt ∧ 0 ≤ p.2.toInt) : 0 ≤ reach dims := by
  refine List.sum_nonneg fun x hx => ?_
  obtain ⟨p, hp, rfl⟩ := List.mem_map.mp hx
  exact mul_nonneg (by have := (h p hp).1; omega) (h p hp).2

/-- **The guards let pass what is in range**: no partial sum is more than the whole. -/
theorem exists_checkExtent (hdims : ∀ p ∈ dims, 0 < p.1.toInt ∧ 0 ≤ p.2.toInt)
    (helem : 0 < elem.toInt) (hextent : 0 ≤ extent.toInt)
    (hle : elem.toInt * (extent.toInt + reach dims) ≤ 2 ^ 62) :
    ∃ E, checkExtent elem i extent dims = .ok E := by
  induction dims generalizing i extent with
  | nil => exact ⟨extent, rfl⟩
  | cons p dims ih =>
    obtain ⟨dim, s⟩ := p
    obtain ⟨⟨hdim, hs⟩, hdims⟩ := List.forall_mem_cons.mp hdims
    dsimp only at hdim hs
    have hreach := reach_nonneg_of_dims hdims
    rw [reach_cons, ← add_assoc] at hle
    have hnonneg : 0 ≤ (dim.toInt - 1) * s.toInt := mul_nonneg (by omega) hs
    -- an element has at least one byte, so that the sum in elements is bounded as well
    have hsum : extent.toInt + (dim.toInt - 1) * s.toInt + reach dims ≤ 2 ^ 62 :=
      le_trans (le_mul_of_one_le_left (by omega) (by omega)) hle
    have hneg : ¬s < 0 := by
      rw [Int64.lt_iff_toInt_lt, Int64.toInt_zero]
      exact not_lt.mpr hs
    have hguard : ¬(dim - 1 > 0 ∧ s > 2 ^ 62 / (dim - 1)) := by
      rintro ⟨hpos, hgt⟩
      rw [gt_iff_lt, Int64.lt_iff_toInt_lt, Int64.toInt_zero] at hpos
      refine (not_gt_iff_mul_le hpos).mpr ?_ hgt
      rw [toInt_sub_one hdim]
      omega
    have hp := contributes hdim hneg hguard
    have hadd : (extent + (dim - 1) * s).toInt = extent.toInt + (dim.toInt - 1) * s.toInt := by
      rw [← hp.sub, ← hp.mul]
      refine toInt_eq_of_modEq (toInt_add_modEq _ _) ?_ ?_ <;> rw [hp.mul, hp.sub] <;> omega
    have hnext : ¬extent + (dim - 1) * s > 2 ^ 62 / elem := by
      rw [not_gt_iff_mul_le helem, hadd]
      exact (mul_le_mul_of_nonneg_left (by omega) helem.le).trans hle
    unfold checkExtent
    rw [if_neg hneg, if_neg hguard]
    dsimp only
    rw [if_neg hnext]
    exact ih hdims (by omega) (by rw [hadd]; exact hle)

theorem checkShape_eq_ok {l : List Int64} (h : ∀ n ∈ l, 1 ≤ n.toInt) : checkShape i l = .ok () := by
  induction l generalizing i with
  | nil => rfl
  | cons n l ih =>
    obtain ⟨hn, hl⟩ := List.forall_mem_cons.mp h
    have hpos : ¬n ≤ 0 := by
      rw [Int64.le_iff_toInt_le, Int64.toInt_zero]
      omega
    rw [checkShape, if_neg hpos]
    exact ih hl

theorem checkCaps_eq_ok {caps : List Bytes} (h : ∀ c ∈ caps, 1 ≤ c.length ∧ c.length ≤ 128) :
    checkCaps i caps = .ok () := by
  induction caps generalizing i with
  | nil => rfl
  | cons c caps ih =>
    obtain ⟨⟨hpos, hle⟩, hcaps⟩ := List.forall_mem_cons.mp h
    have hno : ¬(c = [] ∨ c.length > maxTensorCapLen) :=
      not_or.mpr ⟨List.length_pos_iff.mp hpos, not_lt.mpr hle⟩
    rw [checkCaps, if_neg hno]
    exact ih hcaps

theorem isSHA256Hex_of_hexDigits {hex : Bytes} (hlen : hex.length = 64)
    (hdigits : ∀ c ∈ hex, c ∈ hexDigits) : isSHA256Hex hex = true := by
  have hall : hexDigits.all isHexDigit = true := by decide +kernel
  rw [isSHA256Hex, Bool.and_eq_true, beq_iff_eq, List.all_eq_true]
  exact ⟨hlen, fun c hc => List.all_eq_true.mp hall c (hdigits c hc)⟩

namespace WellFormed

theorem dtypeBytes_ne (h : d.WellFormed) : dtypeBytes d.dtype ≠ 0 := by
  have hall : [tensorF32, tensorF16, tensorBF16, tensorINT8, tensorINT4, tensorQ4_0,
      tensorQ8_0].all (dtypeBytes · != 0) = true := by decide +kernel
  exact bne_iff_ne.mp (List.all_eq_true.mp hall d.dtype h.dtype)

theorem elemSize_pos (h : d.WellFormed) : 0 < d.elemSize := by
  have helem : d.elemSize = 1 ∨ d.elemSize = 2 ∨ d.elemSize = 4 := toInt_dtypeBytes h.dtypeBytes_ne
  omega

theorem pairs (h : d.WellFormed) :
    ∀ p ∈ d.shape.zip d.strides, 0 < p.1.toInt ∧ 0 ≤ p.2.toInt := fun p hp =>
  ⟨h.dims p.1 (List.of_mem_zip hp).1, h.strides p.2 (List.of_mem_zip hp).2⟩

/-- The loop computes an extent, and the footprint that is made of it is the exact one. -/
theorem exists_extent (h : d.WellFormed) :
    ∃ extent, checkExtent (dtypeBytes d.dtype) 0 1 (d.shape.zip d.strides) = .ok extent
      ∧ ((extent.toUInt64 * (dtypeBytes d.dtype).toUInt64).toNat : ℤ)
        = d.exactExtent * d.elemSize := by
  have hone : (1 : Int64).toInt = 1 := by decide +kernel
  have hle : d.elemSize * ((1 : Int64).toInt + reach (d.shape.zip d.strides)) ≤ 2 ^ 62 := by
    rw [hone, mul_comm]
    exact h.footprint_le
  obtain ⟨extent, hloop⟩ :=
    exists_checkExtent (i := 0) h.pairs h.elemSize_pos (by rw [hone]; norm_num) hle
  refine ⟨extent, hloop, toNat_footprint (toInt_dtypeBytes h.dtypeBytes_ne)
    (fun p hp => (h.pairs p hp).1) hloop ?_⟩
  exact lt_of_le_of_lt h.footprint_le (by norm_num)

theorem offset_mod (h : d.WellFormed) : d.offset % (dtypeBytes d.dtype).toUInt64 = 0 := by
  have helem : d.elemSize = 1 ∨ d.elemSize = 2 ∨ d.elemSize = 4 := toInt_dtypeBytes h.dtypeBytes_ne
  have hsize : ((dtypeBytes d.dtype).toUInt64.toNat : ℤ) = d.elemSize := by
    have hmod := toNat_toUInt64_modEq (dtypeBytes d.dtype)
    have hlt := (dtypeBytes d.dtype).toUInt64.toNat_lt
    unfold Int.ModEq elemSize at *
    omega
  have hdvd : (dtypeBytes d.dtype).toUInt64.toNat ∣ d.offset.toNat := by
    rw [← Int.natCast_dvd_natCast, hsize]
    exact h.align
  rw [← UInt64.toNat_inj, UInt64.toNat_mod, UInt64.toNat_zero]
  exact Nat.mod_eq_zero_of_dvd hdvd

/-- The sum of offset and size does not wrap, so that neither is above what the other
leaves. -/
theorem not_spanOverflow (h : d.WellFormed) : ¬d.offset > ~~~0 - d.size := by
  have hall : (~~~(0 : UInt64)).toNat = 2 ^ 64 - 1 := by decide
  have hspan := h.span
  have hsize : d.size ≤ ~~~0 := by
    rw [UInt64.le_iff_toNat_le, hall]
    omega
  rw [gt_iff_lt, UInt64.lt_iff_toNat_lt, UInt64.toNat_sub_of_le _ _ hsize, hall]
  omega

theorem isDigest (h : d.WellFormed) :
    ¬(d.modelDigest ≠ [] ∧ ¬isSHA256Hex d.modelDigest ∧ ¬isSHA256Prefixed d.modelDigest) := by
  rintro ⟨hne, hhex, hprefixed⟩
  rcases h.digest with hnil | ⟨hex, heq | heq, hlen, hdigits⟩
  · exact hne hnil
  · rw [heq] at hhex
    exact hhex (isSHA256Hex_of_hexDigits hlen hdigits)
  · refine hprefixed ?_
    rw [heq, isSHA256Prefixed, List.length_append, hlen, List.take_left, List.drop_left,
      beq_self_eq_true,
      beq_self_eq_true, isSHA256Hex_of_hexDigits hlen hdigits]
    rfl

end WellFormed

/-- **`Validate` refuses no well-formed descriptor.** -/
theorem validate_of_wellFormed (h : d.WellFormed) : d.validate = .ok () := by
  obtain ⟨extent, hloop, hfootprint⟩ := h.exists_extent
  have hndim : ¬(d.shape.length = 0 ∨ d.shape.length > maxTensorDims) :=
    not_or.mpr ⟨Nat.one_le_iff_ne_zero.mp h.ndim_pos, not_lt.mpr h.ndim_le⟩
  have hsize : ¬d.size < extent.toUInt64 * (dtypeBytes d.dtype).toUInt64 := by
    have hle := h.footprint_le_size
    rw [← hfootprint] at hle
    rw [UInt64.lt_iff_toNat_lt, not_lt]
    exact_mod_cast hle
  unfold validate
  simp only [Except.bind_eq_ok_iff, Except.failIf_eq_ok_iff]
  exact ⟨(), h.dtypeBytes_ne, (), hndim, (), checkShape_eq_ok h.dims, (),
    not_not.mpr h.strideCount, extent, hloop, (), not_not.mpr h.offset_mod, (), h.not_spanOverflow,
    (), hsize, (), fun hno => h.shmName_ne hno.2, (), not_lt.mpr h.shmName_le, (),
    not_lt.mpr h.capCount, (), checkCaps_eq_ok h.caps, h.isDigest⟩

/-- A row of `2 ^ 62` bytes that is broadcast, at the end of what the guards allow. The stride
of the first dimension is zero, and that of a dimension of one is as large as there is. -/
def broadcast : TensorDescriptor :=
  ⟨tensorINT8, [0x7fffffffffffffff, 1, 0x4000000000000000], [0, 0x7fffffffffffffff, 1],
    ascii "seg", 3, 0x4000000000000000, [ascii "inference.local"],
    ascii "sha256:" ++ List.replicate 64 0x41⟩

theorem validate_of_wellFormed_broadcast :
    broadcast.exactExtent * broadcast.elemSize = 2 ^ 62 ∧ broadcast.validate = .ok () :=
  ⟨by decide +kernel, validate_of_wellFormed {
    dtype := by decide
    ndim_pos := by decide
    ndim_le := by decide
    dims := List.forall_mem_cons.mpr ⟨by decide +kernel,
      List.forall_mem_cons.mpr ⟨by decide +kernel,
        List.forall_mem_singleton.mpr (by decide +kernel)⟩⟩
    strideCount := by decide
    strides := List.forall_mem_cons.mpr ⟨by decide +kernel,
      List.forall_mem_cons.mpr ⟨by decide +kernel,
        List.forall_mem_singleton.mpr (by decide +kernel)⟩⟩
    footprint_le := by decide +kernel
    footprint_le_size := by decide +kernel
    align := by decide +kernel
    span := by decide +kernel
    shmName_ne := by decide
    shmName_le := by decide
    capCount := by decide
    caps := by decide
    digest := .inr ⟨List.replicate 64 0x41, .inr rfl, rfl, fun c hc => by
      rw [List.eq_of_mem_replicate hc]
      decide⟩ }⟩

end TensorDescriptor
