import Eipc.Endpoint
import Eipc.Lib.Sha256Eval
import Eipc.Sdk.Hmac

/-!
# MACs between the C SDK and Go

A MAC is made on one side and checked on the other: `eipc_hmac_sign` and
`eipc_hmac_verify` (`sdk/c/src/eipc_hmac.c`), and `Sign` and `Verify`
(`security/integrity/hmac.go`). As long as the SDK can allocate its buffer the two
sides mean the same MAC (`eipcHmac_interoperates`).

When it cannot, `eipc_hmac_sign` reports nothing: it leaves zeros where the MAC
should be. `eipc_hmac_verify` compares with these zeros, and so accepts a MAC of
zeros for whatever was signed (`eipcHmacVerify_sound_iff`). That the accepted MAC
is not the right one takes a message of more than 65536 bytes whose HMAC is known;
`Sha256.eval` computes one.
-/

open Bytes Hmac

/-- **The SDK's MACs are those of RFC 2104, and Go's**: the key is hashed if it is longer than a
block and padded with zeros, the MAC is the same whether the data fits the stack buffer or not,
each side accepts what the other signs, and the two accept the same MACs. -/
theorem eipcHmac_interoperates (key data : Bytes) :
    (let k := if key.length > 64 then sha256 key else key
      let k₀ := k ++ List.replicate (64 - k.length) 0
      eipcHmacSign true key data
        = sha256 (k₀.map (· ^^^ 0x5c) ++ sha256 (k₀.map (· ^^^ 0x36) ++ data)))
      ∧ (data.length ≤ hmacStackData → eipcHmacSign false key data = eipcHmacSign true key data)
      ∧ Integrity.verify key data (eipcHmacSign true key data) = true
      ∧ eipcHmacVerify true key data (Integrity.sign key data) = true
      ∧ ∀ mac : Bytes, mac.length = 32 →
          eipcHmacVerify true key data mac = Integrity.verify key data mac := by
  have hsign : eipcHmacSign true key data = hmacSha256 key data := eipcHmacSign_eq (.inr rfl) key
  have hverify : ∀ mac : Bytes, mac.length = 32 →
      eipcHmacVerify true key data mac = Integrity.verify key data mac := by
    intro mac hmac
    rw [Bool.eq_iff_iff, Integrity.verify_iff, eipcHmacVerify, decide_eq_true_iff, hsign,
      macDiff_eq_zero_iff (length_hmacSha256 key data) hmac, eq_comm]
  refine ⟨hsign, fun h => ?_, ?_, ?_, hverify⟩
  · rw [hsign, eipcHmacSign_eq (.inl h)]
  · rw [Integrity.verify_iff, hsign]
  · have hlen : (Integrity.sign key data).length = 32 := length_hmacSha256 key data
    rw [hverify _ hlen, Integrity.verify_iff]
    rfl

/-! ## When the allocation fails -/

/-- Without a buffer the MAC is all zeros. -/
theorem eipcHmacSign_of_not_malloc {data : Bytes} (h : ¬data.length ≤ hmacStackData) (key : Bytes) :
    eipcHmacSign false key data = List.replicate 32 0 := by
  have hinner : ∀ ipad, innerHash false ipad data = none := fun ipad => if_neg h
  rw [eipcHmacSign, hinner]

/-- Without a buffer zeros are accepted, whatever the key and the data are. -/
theorem eipcHmacVerify_of_not_malloc {data : Bytes} (h : ¬data.length ≤ hmacStackData)
    (key : Bytes) : eipcHmacVerify false key data (List.replicate 32 0) = true := by
  rw [eipcHmacVerify, eipcHmacSign_of_not_malloc h, decide_eq_true_iff]
  exact (macDiff_eq_zero_iff rfl rfl).mpr rfl

/-- **What `eipc_hmac_verify` accepts is the HMAC** of the data exactly when the data fits the
stack buffer, or the allocation succeeds, or the HMAC of the data happens to be all zeros. -/
theorem eipcHmacVerify_sound_iff (malloc : Bool) (key data : Bytes) :
    (∀ mac : Bytes, mac.length = 32 → eipcHmacVerify malloc key data mac = true →
        mac = hmacSha256 key data)
      ↔ data.length ≤ hmacStackData ∨ malloc = true
        ∨ hmacSha256 key data = List.replicate 32 0 := by
  constructor
  · intro h
    by_contra hnone
    obtain ⟨hlong, hmalloc, hzeros⟩ := not_or.mp hnone |>.imp_right not_or.mp
    rw [Bool.not_eq_true] at hmalloc
    subst hmalloc
    exact hzeros (h _ rfl (eipcHmacVerify_of_not_malloc hlong key)).symm
  · intro h mac hmac hverify
    rw [eipcHmacVerify, decide_eq_true_iff] at hverify
    by_cases hbuffer : data.length ≤ hmacStackData ∨ malloc = true
    · rw [eipcHmacSign_eq hbuffer, macDiff_eq_zero_iff (length_hmacSha256 key data) hmac] at hverify
      exact hverify.symm
    · obtain ⟨hlong, hmalloc⟩ := not_or.mp hbuffer
      rw [Bool.not_eq_true] at hmalloc
      rw [hmalloc, eipcHmacSign_of_not_malloc hlong, macDiff_eq_zero_iff rfl hmac] at hverify
      rw [← hverify]
      exact ((h.resolve_left hlong).resolve_left (hmalloc ▸ Bool.false_ne_true)).symm

/-- A key that fits a block is only padded. -/
theorem hmacSha256_of_short {key : Bytes} (h : key.length ≤ 64) (data : Bytes) :
    let k := key ++ List.replicate (64 - key.length) 0
    hmacSha256 key data = sha256 (k.map (· ^^^ 0x5c) ++ sha256 (k.map (· ^^^ 0x36) ++ data)) := by
  have hkey : blockKey sha256 64 key = key ++ List.replicate (64 - key.length) 0 := by
    rw [blockKey, if_neg (not_lt.mpr h)]
  rw [hmacSha256, hmac, hkey]

/-- The HMAC of 65537 zeros under a short key, on numerals. -/
theorem hmacSha256_zeros {key : Bytes} (h : key.length ≤ 64) :
    let k := key ++ List.replicate (64 - key.length) 0
    let inner := (Sha256.eval (Sha256.evalZeros 1024 (Sha256.eval Sha256.State.initial
      (k.map (· ^^^ 0x36)))) (Sha256.lastBlock [0] 65601)).digest
    hmacSha256 key (List.replicate 65537 0)
      = (Sha256.eval (Sha256.eval Sha256.State.initial (k.map (· ^^^ 0x5c)))
          (Sha256.lastBlock inner 96)).digest := by
  intro k inner
  have hk : ∀ b : UInt8, (k.map (· ^^^ b)).length = 64 := by
    intro b
    rw [List.length_map, List.length_append, List.length_replicate]
    omega
  have hinner : sha256 (k.map (· ^^^ 0x36) ++ List.replicate 65537 0) = inner := by
    have hsplit : List.replicate 65537 (0 : UInt8) = List.replicate (64 * 1024) 0 ++ [0] :=
      List.replicate_succ'
    rw [hsplit, ← List.append_assoc, Sha256.sha256_zeros_eq_eval (hk 0x36) 1024 (by decide)]
    rfl
  have hlen : inner.length = 32 := Sha256.State.length_digest _
  -- the outer message is a block and the inner hash, with no zeros between them
  have houter := Sha256.sha256_zeros_eq_eval (hk 0x5c) 0 (hlen.trans_lt (by decide))
  have hnone : ∀ s, Sha256.evalZeros 0 s = s := Sha256.State.pass_ofNats
  rw [Nat.mul_zero, List.replicate_zero, List.append_nil, hnone, hlen] at houter
  rw [hmacSha256_of_short h, hinner, houter]

/-- 65537 zeros, signed with the key "secret", while no memory is left: the MAC of 32 zeros is
accepted, and it is not the HMAC of the data. -/
theorem eipcHmacVerify_accepts_zeros :
    eipcHmacVerify false (ascii "secret") (List.replicate 65537 0) (List.replicate 32 0) = true
      ∧ List.replicate 32 0 ≠ hmacSha256 (ascii "secret") (List.replicate 65537 0) := by
  refine ⟨eipcHmacVerify_of_not_malloc ?_ _, ?_⟩
  · rw [List.length_replicate]
    decide
  · rw [hmacSha256_zeros (by decide)]
    decide +kernel
