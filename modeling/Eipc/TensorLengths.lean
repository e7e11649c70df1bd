import Eipc.TensorCodec

/-!
# String lengths of tensor descriptors

`Encode` (`protocol/tensor.go`) bounds the number of dimensions and of capabilities, and
writes the length of every string as 16 bits. It does not bound the strings. A string of
`2 ^ 16` bytes and more is written whole behind a length that is not its own, and what the
reader takes for the next field is in the middle of it.

Whether the reader notices depends on the lengths alone. It refuses a length over its
bound, so a string is harmless if it is within the bound or its truncated length is not,
and behind a harmless refusal nothing matters any more: `TensorDescriptor.Delimited`.
Exactly for lengths like that no content of the strings makes the reader return another
descriptor than the one that was written (`TensorDescriptor.faithful_iff`). For all other
lengths some content does; zeros will do (`TensorDescriptor.decodeTensor_long_name`).
-/

open Bytes

namespace TensorDescriptor

/-- **The descriptor is read as itself or not at all.** -/
def Faithful (d : TensorDescriptor) : Prop :=
  ∀ b, d.encode = .ok b → ∀ e rest, decodeTensor b = .ok (e, rest) → e = d

/-- The descriptor with other strings. -/
def withStrings (d : TensorDescriptor) (shmName : Bytes) (capabilities : List Bytes)
    (modelDigest : Bytes) : TensorDescriptor :=
  { d with shmName, capabilities, modelDigest }

/-- The lengths of the capabilities, with the bound of the reader. -/
def capLengths (capabilities : List Bytes) : List (ℕ × ℕ) :=
  (capabilities.map List.length).map fun n => (maxTensorCapLen, n)

/-- The lengths of the strings in the order of the wire, each behind the bound of the
reader. -/
def stringLengths (d : TensorDescriptor) : List (ℕ × ℕ) :=
  (maxTensorShmNameLen, d.shmName.length) ::
    (capLengths d.capabilities ++ [(maxTensorDigestLen, d.modelDigest.length)])

/-- **The first length over its bound is over it as 16 bits, too.** -/
def Delimited : List (ℕ × ℕ) → Prop
  | [] => True
  | (max, n) :: lengths => if n ≤ max then Delimited lengths else max < n % 2 ^ 16

instance decidableDelimited : DecidablePred Delimited
  | [] => .isTrue trivial
  | (max, n) :: lengths =>
    have := decidableDelimited lengths
    inferInstanceAs (Decidable (ite (n ≤ max) (Delimited lengths) (max < n % 2 ^ 16)))

variable {d e : TensorDescriptor}

theorem delimited_of_le {max n : ℕ} {lengths : List (ℕ × ℕ)} (h : n ≤ max) :
    Delimited ((max, n) :: lengths) ↔ Delimited lengths := by
  rw [Delimited, if_pos h]

theorem delimited_of_lt {max n : ℕ} {lengths : List (ℕ × ℕ)} (h : max < n) :
    Delimited ((max, n) :: lengths) ↔ max < n % 2 ^ 16 := by
  rw [Delimited, if_neg (not_le.mpr h)]

/-- A length is within the bound, or noticed. -/
theorem Delimited.head {max n : ℕ} {lengths : List (ℕ × ℕ)} (h : Delimited ((max, n) :: lengths)) :
    n ≤ max ∨ max < n % 2 ^ 16 :=
  (le_or_gt n max).imp_right fun hlt => (delimited_of_lt hlt).mp h

/-! ## What is read is what was written -/

/-- A string field that the reader accepts, where one was written: it is the one that was
written, if the length of that is within the bound or noticed. -/
theorem stringField_inj {max : ℕ} (hmax : max < 2 ^ 16) {s t x y : Bytes} (ht : t.length ≤ max)
    (hs : s.length ≤ max ∨ max < s.length % 2 ^ 16)
    (h : stringField s ++ x = stringField t ++ y) : s.length ≤ max ∧ s = t ∧ x = y := by
  rw [stringField, stringField, List.append_assoc, List.append_assoc] at h
  obtain ⟨hlen, hbody⟩ := List.append_inj h (by rw [length_ofNatBE, length_ofNatBE])
  have hmod : s.length % 2 ^ 16 = t.length := by
    have hword := congrArg toNatBE hlen
    rwa [← ofNatBE_mod 2 s.length, toNatBE_ofNatBE (Nat.mod_lt _ (by norm_num)),
      toNatBE_ofNatBE (lt_of_le_of_lt ht hmax)] at hword
  have hfit : s.length ≤ max := hs.resolve_right fun hlt => by omega
  rw [Nat.mod_eq_of_lt (lt_of_le_of_lt hfit hmax)] at hmod
  obtain ⟨hst, hxy⟩ := List.append_inj hbody hmod
  exact ⟨hfit, hst, hxy⟩

/-- As many words from the same bytes are the same words. -/
theorem flatMap_int64Bytes_inj {vs ws : List Int64} {x y : Bytes} (hlen : vs.length = ws.length)
    (h : vs.flatMap int64Bytes ++ x = ws.flatMap int64Bytes ++ y) : vs = ws ∧ x = y := by
  have hv : readInt64s .readShape ws.length (vs.flatMap int64Bytes ++ x) = .ok (vs, x) :=
    readInt64s_eq_ok_iff.mpr ⟨hlen, rfl⟩
  have hw : readInt64s .readShape ws.length (ws.flatMap int64Bytes ++ y) = .ok (ws, y) :=
    readInt64s_eq_ok_iff.mpr ⟨rfl, rfl⟩
  rw [h, hw] at hv
  exact ⟨(congrArg Prod.fst (Except.ok.inj hv)).symm, (congrArg Prod.snd (Except.ok.inj hv)).symm⟩

/-- The capabilities that the reader accepts, where some were written. -/
theorem capabilities_inj {cs cs' : List Bytes} {lengths : List (ℕ × ℕ)} {x y : Bytes}
    (hlen : cs.length = cs'.length) (hcs' : ∀ c ∈ cs', c.length ≤ maxTensorCapLen)
    (hcs : Delimited (capLengths cs ++ lengths))
    (h : cs.flatMap stringField ++ x = cs'.flatMap stringField ++ y) :
    Delimited lengths ∧ cs = cs' ∧ x = y := by
  induction cs generalizing cs' with
  | nil =>
    cases List.length_eq_zero_iff.mp hlen.symm
    exact ⟨hcs, rfl, h⟩
  | cons c cs ih =>
    cases cs' with
    | nil => exact absurd hlen (Nat.succ_ne_zero _)
    | cons c' cs' =>
      obtain ⟨hc', hothers⟩ := List.forall_mem_cons.mp hcs'
      rw [List.flatMap_cons, List.flatMap_cons, List.append_assoc, List.append_assoc] at h
      obtain ⟨hfit, rfl, hrest⟩ := stringField_inj (by decide) hc' hcs.head h
      obtain ⟨hlengths, rfl, hxy⟩ :=
        ih (Nat.succ.inj hlen) hothers ((delimited_of_le hfit).mp hcs) hrest
      exact ⟨hlengths, rfl, hxy⟩

/-- **Where the lengths are delimited, what is read is what was written.** -/
theorem eq_of_wire {rest : Bytes} (hd : d.Writable) (he : e.Encodable)
    (hlengths : Delimited d.stringLengths) (h : d.wire = e.wire ++ rest) : e = d := by
  obtain ⟨dtype, shape, strides, shmName, offset, size, capabilities, modelDigest⟩ := d
  obtain ⟨dtype', shape', strides', shmName', offset', size', capabilities', modelDigest'⟩ := e
  unfold wire at h
  simp only [List.append_assoc] at h
  obtain ⟨hhead, hshape⟩ := List.append_inj h rfl
  obtain ⟨hdtype, hndim⟩ := List.cons_eq_cons.mp hhead
  have hlen : shape.length = shape'.length := by
    rw [← toNat_ndim hd.ndim_le, ← toNat_ndim he.ndim_le, (List.cons_eq_cons.mp hndim).1]
  obtain ⟨rfl, hstrides⟩ := flatMap_int64Bytes_inj hlen hshape
  obtain ⟨rfl, hname⟩ := flatMap_int64Bytes_inj (hd.strides.trans he.strides.symm) hstrides
  obtain ⟨hfit, rfl, hoffset⟩ := stringField_inj (by decide) he.shmName hlengths.head hname
  obtain ⟨hoff, hsize⟩ := List.append_inj hoffset (by rw [length_ofNatBE, length_ofNatBE])
  obtain ⟨hsz, hcount⟩ := List.append_inj hsize (by rw [length_ofNatBE, length_ofNatBE])
  obtain ⟨hncap, hcaps⟩ := List.append_inj hcount (by rw [length_ofNatBE, length_ofNatBE])
  have hcapLen : capabilities.length = capabilities'.length := by
    rw [← toNatBE_capCount hd.capCount, ← toNatBE_capCount he.capCount, hncap]
  obtain ⟨hlast, rfl, hdigest⟩ :=
    capabilities_inj hcapLen he.caps ((delimited_of_le hfit).mp hlengths) hcaps
  rw [← List.append_nil (stringField modelDigest)] at hdigest
  obtain ⟨-, rfl, -⟩ := stringField_inj (by decide) he.modelDigest hlast.head hdigest
  rw [hdtype, ← ofNat_toNatBE_ofNatBE offset, hoff, ofNat_toNatBE_ofNatBE,
    ← ofNat_toNatBE_ofNatBE size, hsz, ofNat_toNatBE_ofNatBE]

/-! ## Lengths that slip through -/

/-- A length over the bound that is within it as 16 bits. -/
def Slips (max n : ℕ) : Prop := max < n ∧ n % 2 ^ 16 ≤ max

theorem not_delimited_cons {max n : ℕ} {lengths : List (ℕ × ℕ)}
    (h : ¬Delimited ((max, n) :: lengths)) : Slips max n ∨ n ≤ max ∧ ¬Delimited lengths := by
  rcases le_or_gt n max with hle | hlt
  · exact .inr ⟨hle, (delimited_of_le hle).not.mp h⟩
  · exact .inl ⟨hlt, not_lt.mp ((delimited_of_lt hlt).not.mp h)⟩

/-- One of the capabilities slips through, behind some that are within the bound, or it is
something behind them. -/
theorem not_delimited_capLengths {cs : List Bytes} {lengths : List (ℕ × ℕ)}
    (h : ¬Delimited (capLengths cs ++ lengths)) :
    (∃ pre c post, cs = pre ++ c :: post ∧ (∀ c' ∈ pre, c'.length ≤ maxTensorCapLen)
        ∧ Slips maxTensorCapLen c.length)
      ∨ (∀ c ∈ cs, c.length ≤ maxTensorCapLen) ∧ ¬Delimited lengths := by
  induction cs with
  | nil => exact .inr ⟨fun c hc => absurd hc List.not_mem_nil, h⟩
  | cons c cs ih =>
    rcases not_delimited_cons h with hslip | ⟨hfit, hrest⟩
    · exact .inl ⟨[], c, cs, rfl, fun c' hc' => absurd hc' List.not_mem_nil, hslip⟩
    · rcases ih hrest with ⟨pre, c', post, rfl, hpre, hslip⟩ | ⟨hall, hlengths⟩
      · exact .inl ⟨c :: pre, c', post, rfl, List.forall_mem_cons.mpr ⟨hfit, hpre⟩, hslip⟩
      · exact .inr ⟨List.forall_mem_cons.mpr ⟨hfit, hall⟩, hlengths⟩

/-- What is written of a string is the field of its beginning, as long as the 16 bits say,
and the rest behind it. -/
theorem stringField_eq_append (s : Bytes) :
    stringField s = stringField (s.take (s.length % 2 ^ 16)) ++ s.drop (s.length % 2 ^ 16) := by
  have hlen : (s.take (s.length % 2 ^ 16)).length = s.length % 2 ^ 16 :=
    List.length_take_of_le (Nat.mod_le _ _)
  rw [stringField, stringField, hlen, List.append_assoc, List.take_append_drop]
  exact congrArg (· ++ s) (ofNatBE_mod 2 s.length).symm

/-- Behind a string of zeros that slips through there are zeros for any fields. -/
theorem stringField_zeros {max n k : ℕ} (hslip : Slips max n) (hk : k ≤ 2 ^ 16) :
    ∃ m, stringField (List.replicate n 0)
      = stringField (List.replicate (n % 2 ^ 16) 0)
        ++ (List.replicate k 0 ++ List.replicate m 0) := by
  obtain ⟨hlt, hle⟩ := hslip
  refine ⟨n - n % 2 ^ 16 - k, ?_⟩
  rw [stringField_eq_append, List.length_replicate, List.take_replicate, List.drop_replicate,
    List.replicate_append_replicate, min_eq_left (Nat.mod_le _ _)]
  refine congrArg (fun j => _ ++ List.replicate j 0) ?_
  omega

/-- A descriptor that is written as another one, with something behind it, is not
faithful. -/
theorem not_faithful_of_wire {rest : Bytes} (hd : d.Writable) (h : d.wire = e.wire ++ rest)
    (he : e.Encodable) (hne : e ≠ d) : ¬d.Faithful := by
  intro hfaithful
  refine hne (hfaithful _ (encode_of_writable hd) e rest ?_)
  rw [h]
  exact decodeTensor_wire he rest

/-- **A name of zeros that slips through**: the reader finds offset, size, the number of
capabilities and the digest in the name. -/
theorem wire_zeros_name (d : TensorDescriptor) {n : ℕ} (hslip : Slips maxTensorShmNameLen n) :
    ∃ rest, { d with shmName := List.replicate n 0 }.wire
      = { d with shmName := List.replicate (n % 2 ^ 16) 0, offset := 0, size := 0,
                 capabilities := [], modelDigest := [] }.wire ++ rest := by
  obtain ⟨m, hname⟩ := stringField_zeros (k := 20) hslip (by norm_num)
  refine ⟨List.replicate m 0 ++ (ofNatBE 8 d.offset.toNat ++ (ofNatBE 8 d.size.toNat
    ++ (ofNatBE 2 d.capabilities.length
      ++ (d.capabilities.flatMap stringField ++ stringField d.modelDigest)))), ?_⟩
  unfold wire
  dsimp only
  rw [hname]
  simp only [List.append_assoc]
  rfl

/-- As many empty strings are as many zeros. -/
theorem flatMap_stringField_nil (n : ℕ) :
    (List.replicate n ([] : Bytes)).flatMap stringField ++ stringField []
      = List.replicate (2 * n + 2) 0 := by
  induction n with
  | zero => rfl
  | succ n ih =>
    rw [List.replicate_succ, List.flatMap_cons, List.append_assoc, ih,
      show stringField [] = List.replicate 2 0 from rfl, List.replicate_append_replicate]
    refine congrArg (List.replicate · 0) ?_
    omega

/-- **A capability of zeros that slips through**: the reader finds the other capabilities and
the digest in it. -/
theorem wire_zeros_cap (d : TensorDescriptor) (pre post : List Bytes) {n : ℕ}
    (hslip : Slips maxTensorCapLen n)
    (hpost : post.length ≤ maxTensorCaps) :
    ∃ rest, { d with capabilities := pre ++ List.replicate n 0 :: post }.wire
      = { d with capabilities := pre ++ List.replicate (n % 2 ^ 16) 0
                   :: List.replicate post.length [],
                 modelDigest := [] }.wire ++ rest := by
  have hmax : maxTensorCaps = 32 := rfl
  obtain ⟨m, hcap⟩ := stringField_zeros (k := 2 * post.length + 2) hslip (by omega)
  refine ⟨List.replicate m 0 ++ (post.flatMap stringField ++ stringField d.modelDigest), ?_⟩
  have hcount : (pre ++ List.replicate (n % 2 ^ 16) 0 :: List.replicate post.length []).length
      = (pre ++ List.replicate n 0 :: post).length := by
    simp only [List.length_append, List.length_cons, List.length_replicate]
  unfold wire
  dsimp only
  rw [hcount, List.flatMap_append, List.flatMap_append, List.flatMap_cons, List.flatMap_cons, hcap,
    ← flatMap_stringField_nil]
  simp only [List.append_assoc]

/-- **A digest that slips through**: the reader takes its beginning. -/
theorem wire_digest (d : TensorDescriptor) :
    d.wire = { d with modelDigest := d.modelDigest.take (d.modelDigest.length % 2 ^ 16) }.wire
      ++ d.modelDigest.drop (d.modelDigest.length % 2 ^ 16) := by
  unfold wire
  dsimp only
  rw [stringField_eq_append d.modelDigest]
  simp only [List.append_assoc]

/-! ## The law -/

/-- Strings of the same lengths keep what `Encode` asks, and the lengths. -/
theorem Writable.withStrings (hd : d.Writable) {shmName modelDigest : Bytes}
    {capabilities : List Bytes}
    (hcaps : capabilities.map List.length = d.capabilities.map List.length) :
    (d.withStrings shmName capabilities modelDigest).Writable := by
  have hcount := congrArg List.length hcaps
  rw [List.length_map, List.length_map] at hcount
  exact ⟨hd.ndim_pos, hd.ndim_le, hd.strides, hcount.trans_le hd.capCount⟩

/-- The beginning of a string that slips through is not the string. -/
theorem Slips.replicate_ne {max n : ℕ} (h : Slips max n) :
    List.replicate (n % 2 ^ 16) (0 : UInt8) ≠ List.replicate n 0 := by
  intro heq
  have hlen := congrArg List.length heq
  rw [List.length_replicate, List.length_replicate] at hlen
  exact absurd h.2 (by rw [hlen]; exact not_le.mpr h.1)

/-- Some content of a name that slips through makes the descriptor another one. -/
theorem not_faithful_of_name (hd : d.Writable)
    (hslip : Slips maxTensorShmNameLen d.shmName.length) :
    ¬(d.withStrings (List.replicate d.shmName.length 0) d.capabilities d.modelDigest).Faithful := by
  obtain ⟨rest, hwire⟩ := wire_zeros_name d hslip
  refine not_faithful_of_wire (hd.withStrings rfl) hwire ⟨hd.ndim_pos, hd.ndim_le, hd.strides, ?_,
    Nat.zero_le _, fun c hc => absurd hc List.not_mem_nil, Nat.zero_le _⟩ fun heq => ?_
  · rw [List.length_replicate]
    exact hslip.2
  · exact hslip.replicate_ne (congrArg shmName heq)

/-- Some content of a capability that slips through makes the descriptor another one. -/
theorem not_faithful_of_cap (hd : d.Writable) (hname : d.shmName.length ≤ maxTensorShmNameLen)
    {pre post : List Bytes} {c : Bytes} (hcaps : d.capabilities = pre ++ c :: post)
    (hpre : ∀ c' ∈ pre, c'.length ≤ maxTensorCapLen) (hslip : Slips maxTensorCapLen c.length) :
    ¬(d.withStrings d.shmName (pre ++ List.replicate c.length 0 :: post)
      d.modelDigest).Faithful := by
  have hcount := hd.capCount
  rw [hcaps, List.length_append, List.length_cons] at hcount
  obtain ⟨rest, hwire⟩ := wire_zeros_cap d pre post hslip (by omega)
  refine not_faithful_of_wire (hd.withStrings ?_) hwire ⟨hd.ndim_pos, hd.ndim_le, hd.strides,
    hname, ?_, ?_, Nat.zero_le _⟩ fun heq => ?_
  · rw [hcaps, List.map_append, List.map_append, List.map_cons, List.map_cons,
      List.length_replicate]
  · rwa [List.length_append, List.length_cons, List.length_replicate]
  · refine List.forall_mem_append.mpr ⟨hpre, List.forall_mem_cons.mpr ⟨?_, fun c' hc' => ?_⟩⟩
    · rw [List.length_replicate]
      exact hslip.2
    · rw [List.eq_of_mem_replicate hc']
      exact Nat.zero_le _
  · have htail := List.append_cancel_left (congrArg capabilities heq)
    exact hslip.replicate_ne (List.cons_eq_cons.mp htail).1

/-- A digest that slips through makes the descriptor another one, whatever it is. -/
theorem not_faithful_of_digest (hd : d.Writable) (hname : d.shmName.length ≤ maxTensorShmNameLen)
    (hcaps : ∀ c ∈ d.capabilities, c.length ≤ maxTensorCapLen)
    (hslip : Slips maxTensorDigestLen d.modelDigest.length) : ¬d.Faithful := by
  have hlen : (d.modelDigest.take (d.modelDigest.length % 2 ^ 16)).length
      = d.modelDigest.length % 2 ^ 16 := List.length_take_of_le (Nat.mod_le _ _)
  refine not_faithful_of_wire hd (wire_digest d) ⟨hd.ndim_pos, hd.ndim_le, hd.strides, hname,
    hd.capCount, hcaps, hlen.trans_le hslip.2⟩ fun heq => ?_
  have hdigest := congrArg (fun e => e.modelDigest.length) heq
  dsimp only at hdigest
  rw [hlen] at hdigest
  exact absurd hslip.2 (by rw [hdigest]; exact not_le.mpr hslip.1)

/-- **When no content of the strings changes the descriptor.** A descriptor that `Encode`
writes is read as itself or not at all, whatever its strings hold, exactly if the first of
them that is over the bound of the reader has a length that is over it as 16 bits, too. -/
theorem faithful_iff {b : Bytes} (hb : d.encode = .ok b) :
    (∀ shmName capabilities modelDigest, shmName.length = d.shmName.length →
      capabilities.map List.length = d.capabilities.map List.length →
      modelDigest.length = d.modelDigest.length →
        (d.withStrings shmName capabilities modelDigest).Faithful)
      ↔ Delimited d.stringLengths := by
  have hd := writable_of_encode hb
  constructor
  · intro h
    by_contra hno
    rcases not_delimited_cons hno with hslip | ⟨hname, hno⟩
    · exact not_faithful_of_name hd hslip (h _ _ _ List.length_replicate rfl rfl)
    rcases not_delimited_capLengths hno with ⟨pre, c, post, hcaps, hpre, hslip⟩ | ⟨hcaps, hno⟩
    · refine not_faithful_of_cap hd hname hcaps hpre hslip (h _ _ _ rfl ?_ rfl)
      rw [hcaps, List.map_append, List.map_append, List.map_cons, List.map_cons,
        List.length_replicate]
    · rcases not_delimited_cons hno with hslip | ⟨-, hno⟩
      · exact not_faithful_of_digest hd hname hcaps hslip (h _ _ _ rfl rfl rfl)
      · exact hno trivial
  · intro h shmName capabilities modelDigest hname hcaps hdigest b' hb' e rest hread
    have hw : (d.withStrings shmName capabilities modelDigest).Writable := hd.withStrings hcaps
    cases (encode_of_writable hw).symm.trans hb'
    obtain ⟨he, hwire⟩ := wire_of_decodeTensor hread
    refine eq_of_wire hw he ?_ hwire
    rw [stringLengths, withStrings, capLengths, hname, hcaps, hdigest]
    exact h

/-- The small tensor, with zeros for a name and for its claim. -/
theorem faithful_sample :
    (sampleDescriptor.withStrings (List.replicate 9 0) [List.replicate 15 0] []).Faithful :=
  (faithful_iff (encode_of_encodable (encodable_of_validate validate_sampleDescriptor))).mpr
    (by decide) _ _ _ rfl rfl rfl

/-- **A name of `2 ^ 16` zeros changes the tensor.** It is written behind the length zero, and
what the receiver sees has no name, starts at offset zero and claims nothing. -/
theorem decodeTensor_long_name :
    ∃ b rest, { sampleDescriptor with shmName := List.replicate 65536 0 }.encode = .ok b
      ∧ decodeTensor b = .ok ({ sampleDescriptor with shmName := [], offset := 0, size := 0,
                                                      capabilities := [] }, rest) := by
  have hd := (encodable_of_validate validate_sampleDescriptor).writable
  obtain ⟨rest, hwire⟩ := wire_zeros_name sampleDescriptor (n := 65536) ⟨by decide, by decide⟩
  refine ⟨_, rest, encode_of_writable ⟨hd.ndim_pos, hd.ndim_le, hd.strides, hd.capCount⟩, ?_⟩
  rw [hwire]
  exact decodeTensor_wire ⟨by decide, by decide, by decide, by decide, by decide, by decide,
    by decide⟩ rest

end TensorDescriptor
