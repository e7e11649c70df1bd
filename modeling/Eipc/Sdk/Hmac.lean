import Eipc.Lib.Sha256

/-!
# SHA-256 and HMAC in the C SDK

The SDK brings its own SHA-256 (`sdk/c/src/eipc_sha256.c`), a context that
takes a message byte by byte and pads it in place, and its own HMAC
(`sdk/c/src/eipc_hmac.c`) that copies the padded key and the data into one buffer.
Both compute what the standards say: `eipcSha256_eq` for the hash, and
`eipcHmacSign_eq` for HMAC, on the stack buffer and, when the allocation
succeeds, on the heap. `eipcHmacVerify_iff` says what a successful verification
means for data that fits the stack buffer, which is all the SDK ever verifies.

The arrays of the source are lists here, written with `List.set`; `block_len` and
the lengths never overflow, and `total_bits` is the wrapping `uint64_t` it is.
-/

open Bytes

/-- The context of `eipc_sha256.c`. -/
structure Sha256Ctx where
  state : Sha256.State
  block : Bytes
  totalBits : UInt64
  blockLen : ℕ

namespace Sha256Ctx

/-- The constants `K`. -/
def k : List UInt32 :=
  [0x428a2f98, 0x71374491, 0xb5c0fbcf, 0xe9b5dba5,
   0x3956c25b, 0x59f111f1, 0x923f82a4, 0xab1c5ed5,
   0xd807aa98, 0x12835b01, 0x243185be, 0x550c7dc3,
   0x72be5d74, 0x80deb1fe, 0x9bdc06a7, 0xc19bf174,
   0xe49b69c1, 0xefbe4786, 0x0fc19dc6, 0x240ca1cc,
   0x2de92c6f, 0x4a7484aa, 0x5cb0a9dc, 0x76f988da,
   0x983e5152, 0xa831c66d, 0xb00327c8, 0xbf597fc7,
   0xc6e00bf3, 0xd5a79147, 0x06ca6351, 0x14292967,
   0x27b70a85, 0x2e1b2138, 0x4d2c6dfc, 0x53380d13,
   0x650a7354, 0x766a0abb, 0x81c2c92e, 0x92722c85,
   0xa2bfe8a1, 0xa81a664b, 0xc24b8b70, 0xc76c51a3,
   0xd192e819, 0xd6990624, 0xf40e3585, 0x106aa070,
   0x19a4c116, 0x1e376c08, 0x2748774c, 0x34b0bcb5,
   0x391c0cb3, 0x4ed8aa4a, 0x5b9cca4f, 0x682e6ff3,
   0x748f82ee, 0x78a5636f, 0x84c87814, 0x8cc70208,
   0x90befffa, 0xa4506ceb, 0xbef9a3f7, 0xc67178f2]

/-! The macros. -/

def rotr (x n : UInt32) : UInt32 := (x >>> n) ||| (x <<< (32 - n))
def ch (x y z : UInt32) : UInt32 := (x &&& y) ^^^ (~~~x &&& z)
def maj (x y z : UInt32) : UInt32 := (x &&& y) ^^^ (x &&& z) ^^^ (y &&& z)
def ep0 (x : UInt32) : UInt32 := rotr x 2 ^^^ rotr x 13 ^^^ rotr x 22
def ep1 (x : UInt32) : UInt32 := rotr x 6 ^^^ rotr x 11 ^^^ rotr x 25
def sig0 (x : UInt32) : UInt32 := rotr x 7 ^^^ rotr x 18 ^^^ (x >>> 3)
def sig1 (x : UInt32) : UInt32 := rotr x 17 ^^^ rotr x 19 ^^^ (x >>> 10)

/-- The first loop of `sha256_transform`: the words of the block go into the
schedule array, up to index `n`. -/
def loadWords (block : Bytes) (n : ℕ) : List UInt32 :=
  (List.range n).foldl
    (fun w i => w.set i (load32 (block.getD (i * 4) 0) (block.getD (i * 4 + 1) 0)
      (block.getD (i * 4 + 2) 0) (block.getD (i * 4 + 3) 0)))
    (List.replicate 64 0)

/-- One step of the second loop, which extends the schedule at index `i`. -/
def expandStep (w : List UInt32) (i : ℕ) : List UInt32 :=
  w.set i (sig1 (w.getD (i - 2) 0) + w.getD (i - 7) 0 + sig0 (w.getD (i - 15) 0)
    + w.getD (i - 16) 0)

/-- The second loop, for `n` indices from sixteen on. -/
def expand (w : List UInt32) (n : ℕ) : List UInt32 :=
  (List.range n).foldl (fun w j => expandStep w (16 + j)) w

/-- One step of the third loop, on the working variables. -/
def roundStep (w : List UInt32) (v : Sha256.State) (i : ℕ) : Sha256.State :=
  let t1 := v.h + ep1 v.e + ch v.e v.f v.g + k.getD i 0 + w.getD i 0
  let t2 := ep0 v.a + maj v.a v.b v.c
  { h := v.g, g := v.f, f := v.e, e := v.d + t1, d := v.c, c := v.b, b := v.a, a := t1 + t2 }

/-- The new state that `sha256_transform` computes. -/
@[irreducible] def transformState (state : Sha256.State) (block : Bytes) : Sha256.State :=
  let w := expand (loadWords block 16) 48
  let v := (List.range 64).foldl (roundStep w) state
  { a := state.a + v.a, b := state.b + v.b, c := state.c + v.c, d := state.d + v.d,
    e := state.e + v.e, f := state.f + v.f, g := state.g + v.g, h := state.h + v.h }

/-- `sha256_transform`. -/
def transform (ctx : Sha256Ctx) : Sha256Ctx :=
  { ctx with state := transformState ctx.state ctx.block }

/-- `sha256_init`. The block is not initialized; here it starts as zeros. -/
def init : Sha256Ctx where
  state :=
    { a := 0x6a09e667, b := 0xbb67ae85, c := 0x3c6ef372, d := 0xa54ff53a,
      e := 0x510e527f, f := 0x9b05688c, g := 0x1f83d9ab, h := 0x5be0cd19 }
  block := List.replicate 64 0
  totalBits := 0
  blockLen := 0

/-- The assignment `ctx->block[ctx->block_len++] = b`. -/
def push (ctx : Sha256Ctx) (b : UInt8) : Sha256Ctx :=
  { ctx with block := ctx.block.set ctx.blockLen b, blockLen := ctx.blockLen + 1 }

/-- The assignments `ctx->total_bits += 512` and `ctx->block_len = 0` after a
full block. -/
def nextBlock (ctx : Sha256Ctx) : Sha256Ctx :=
  { ctx with totalBits := ctx.totalBits + 512, blockLen := 0 }

/-- One step of the loop of `sha256_update`. -/
def updateByte (ctx : Sha256Ctx) (b : UInt8) : Sha256Ctx :=
  let ctx := ctx.push b
  if ctx.blockLen = 64 then ctx.transform.nextBlock else ctx

/-- `sha256_update`. -/
def update (ctx : Sha256Ctx) (data : Bytes) : Sha256Ctx := data.foldl updateByte ctx

/-- The loop `while (ctx->block_len < limit) ctx->block[ctx->block_len++] = 0x00`. -/
def fillTo (limit : ℕ) (ctx : Sha256Ctx) : Sha256Ctx :=
  (List.range (limit - ctx.blockLen)).foldl (fun ctx _ => ctx.push 0) ctx

/-- The eight assignments of the length to the end of the block. -/
def setLength (ctx : Sha256Ctx) (totalBits : UInt64) : Sha256Ctx :=
  { ctx with
    block :=
      (((((((ctx.block.set 56 (totalBits >>> 56).toUInt8).set 57 (totalBits >>> 48).toUInt8).set 58
        (totalBits >>> 40).toUInt8).set 59 (totalBits >>> 32).toUInt8).set 60
        (totalBits >>> 24).toUInt8).set 61 (totalBits >>> 16).toUInt8).set 62
        (totalBits >>> 8).toUInt8).set 63 totalBits.toUInt8 }

/-- The assignment `memset(ctx->block, 0, 56)`. -/
def clearHead (ctx : Sha256Ctx) : Sha256Ctx :=
  { ctx with block := List.replicate 56 0 ++ ctx.block.drop 56 }

/-- The last loop of `sha256_final`, which writes the state out. -/
def output (s : Sha256.State) : Bytes :=
  [s.a, s.b, s.c, s.d, s.e, s.f, s.g, s.h].flatMap store32

/-- `sha256_final`. -/
def final (ctx : Sha256Ctx) : Bytes :=
  let origLen := ctx.blockLen
  let totalBits := ctx.totalBits + UInt64.ofNat origLen * 8
  let ctx := ctx.push 0x80
  let ctx :=
    if origLen < 56 then ctx.fillTo 56
    else (ctx.fillTo 64).transform.clearHead
  output (ctx.setLength totalBits).transform.state

end Sha256Ctx

/-- `eipc_sha256`. -/
def eipcSha256 (data : Bytes) : Bytes := ((Sha256Ctx.init).update data).final

/-! ## The compression function -/

namespace Sha256Ctx

theorem getD_set_self {w : List UInt32} {i : ℕ} (h : i < w.length) (x : UInt32) :
    (w.set i x).getD i 0 = x := by
  rw [List.getD_eq_getElem?_getD, List.getElem?_set_self h, Option.getD_some]

theorem getD_set_ne {w : List UInt32} {i j : ℕ} (h : i ≠ j) (x : UInt32) :
    (w.set i x).getD j 0 = w.getD j 0 := by
  rw [List.getD_eq_getElem?_getD, List.getElem?_set_ne h, List.getD_eq_getElem?_getD]

/-- The word the source reads at four consecutive bytes. -/
theorem load32_eq_word {block : Bytes} {t : ℕ} (h : t * 4 + 4 ≤ block.length) :
    load32 (block.getD (t * 4) 0) (block.getD (t * 4 + 1) 0) (block.getD (t * 4 + 2) 0)
      (block.getD (t * 4 + 3) 0) = Sha256.word block t := by
  have hget : ∀ j, j < 4 → block.getD (t * 4 + j) 0 = (block.drop (4 * t)).getD j 0 := by
    intro j _
    rw [List.getD_eq_getElem?_getD, List.getD_eq_getElem?_getD, List.getElem?_drop, mul_comm 4]
  have hlen : 4 ≤ (block.drop (4 * t)).length := by
    rw [List.length_drop]
    omega
  have hget0 : block.getD (t * 4) 0 = (block.drop (4 * t)).getD 0 0 := hget 0 (by decide)
  rw [load32_eq, Sha256.word, hget0, hget 1 (by decide), hget 2 (by decide), hget 3 (by decide)]
  match block.drop (4 * t), hlen with
  | _ :: _ :: _ :: _ :: _, _ => rfl

/-- After `n` steps the first loop has stored the first `n` words. -/
theorem loadWords_spec {block : Bytes} (h : block.length = 64) {n : ℕ} (hn : n ≤ 16) :
    (loadWords block n).length = 64
      ∧ ∀ t < n, (loadWords block n).getD t 0 = Sha256.word block t := by
  induction n with
  | zero => exact ⟨rfl, fun t ht => absurd ht (Nat.not_lt_zero t)⟩
  | succ n ih =>
    obtain ⟨hlen, hwords⟩ := ih (by omega)
    rw [loadWords, List.range_succ, List.foldl_append, List.foldl_cons, List.foldl_nil,
      ← loadWords]
    refine ⟨by rw [List.length_set, hlen], fun t ht => ?_⟩
    by_cases heq : n = t
    · subst heq
      rw [getD_set_self (by omega), load32_eq_word (by omega)]
    · rw [getD_set_ne heq, hwords t (by omega)]

/-- After `n` steps the second loop has extended the schedule by `n` words. -/
theorem expand_spec {block : Bytes} {w : List UInt32} (hw : w.length = 64)
    (h : ∀ t < 16, w.getD t 0 = Sha256.schedule block t) {n : ℕ} (hn : n ≤ 48) :
    (expand w n).length = 64
      ∧ ∀ t < 16 + n, (expand w n).getD t 0 = Sha256.schedule block t := by
  induction n with
  | zero => exact ⟨hw, h⟩
  | succ n ih =>
    obtain ⟨hlen, hwords⟩ := ih (by omega)
    rw [expand, List.range_succ, List.foldl_append, List.foldl_cons, List.foldl_nil, ← expand,
      expandStep]
    refine ⟨by rw [List.length_set, hlen], fun t ht => ?_⟩
    by_cases heq : 16 + n = t
    · subst heq
      rw [getD_set_self (by omega), hwords _ (by omega), hwords _ (by omega), hwords _ (by omega),
        hwords _ (by omega), Sha256.schedule_of_le (t := 16 + n) (by omega)]
      rfl
    · rw [getD_set_ne heq, hwords t (by omega)]

theorem roundStep_eq (w : List UInt32) (v : Sha256.State) (i : ℕ) :
    roundStep w v i = v.round (Sha256.k.getD i 0) (w.getD i 0) := rfl

theorem transformState_eq_add (state : Sha256.State) (block : Bytes) :
    transformState state block = state.add
      ((List.range 64).foldl (roundStep (expand (loadWords block 16) 48)) state) := by
  unfold transformState
  rfl

/-- **`sha256_transform` computes the compression function** on a full block. -/
theorem transformState_eq {block : Bytes} (h : block.length = 64) (state : Sha256.State) :
    transformState state block = Sha256.compress state block := by
  obtain ⟨hlen, hload⟩ := loadWords_spec h le_rfl
  have hsched : ∀ t < 16, (loadWords block 16).getD t 0 = Sha256.schedule block t := by
    intro t ht
    rw [hload t ht, Sha256.schedule_of_lt ht]
  obtain ⟨-, hexpand⟩ := expand_spec hlen hsched le_rfl
  have hstep : ∀ v, ∀ t ∈ List.range 64, roundStep (expand (loadWords block 16) 48) v t
      = v.round (Sha256.k.getD t 0) (Sha256.schedule block t) := by
    intro v t ht
    rw [roundStep_eq, hexpand t (List.mem_range.mp ht)]
  rw [transformState_eq_add, List.foldl_ext _ _ state hstep, Sha256.compress]

/-! What the assignments to a context leave as it was. The statements come from
statements about any four fields, so that no proof looks into a computed one. -/

section Fields

variable (s : Sha256.State) (b : Bytes) (n : UInt64) (l : ℕ)

theorem state_mk : (Sha256Ctx.mk s b n l).state = s := rfl

theorem block_mk : (Sha256Ctx.mk s b n l).block = b := rfl

theorem totalBits_mk : (Sha256Ctx.mk s b n l).totalBits = n := rfl

end Fields

theorem transform_block (ctx : Sha256Ctx) : ctx.transform.block = ctx.block :=
  block_mk _ _ _ _

theorem transform_totalBits (ctx : Sha256Ctx) : ctx.transform.totalBits = ctx.totalBits :=
  totalBits_mk _ _ _ _

theorem transform_state {ctx : Sha256Ctx} (h : ctx.block.length = 64) :
    ctx.transform.state = Sha256.compress ctx.state ctx.block :=
  (state_mk _ _ _ _).trans (transformState_eq h ctx.state)

theorem push_state (ctx : Sha256Ctx) (b : UInt8) : (ctx.push b).state = ctx.state :=
  state_mk _ _ _ _

theorem push_totalBits (ctx : Sha256Ctx) (b : UInt8) :
    (ctx.push b).totalBits = ctx.totalBits :=
  totalBits_mk _ _ _ _

theorem clearHead_state (ctx : Sha256Ctx) : ctx.clearHead.state = ctx.state :=
  state_mk _ _ _ _

theorem clearHead_block (ctx : Sha256Ctx) :
    ctx.clearHead.block = List.replicate 56 0 ++ ctx.block.drop 56 :=
  block_mk _ _ _ _

theorem setLength_state (ctx : Sha256Ctx) (bits : UInt64) :
    (ctx.setLength bits).state = ctx.state :=
  state_mk _ _ _ _

theorem nextBlock_block (ctx : Sha256Ctx) : ctx.nextBlock.block = ctx.block :=
  block_mk _ _ _ _

theorem nextBlock_state (ctx : Sha256Ctx) : ctx.nextBlock.state = ctx.state :=
  state_mk _ _ _ _

theorem nextBlock_totalBits (ctx : Sha256Ctx) :
    ctx.nextBlock.totalBits = ctx.totalBits + 512 :=
  totalBits_mk _ _ _ _

/-! ## Buffering -/

/-- **The context buffers** `t`: the part of its block that is in use. -/
structure Buffered (ctx : Sha256Ctx) (t : Bytes) : Prop where
  length : ctx.block.length = 64
  blockLen : ctx.blockLen = t.length
  take : ctx.block.take t.length = t

variable {ctx : Sha256Ctx} {p t : Bytes}

theorem Buffered.push (h : Buffered ctx t) (hlt : t.length < 64) (b : UInt8) :
    Buffered (ctx.push b) (t ++ [b]) where
  length := by rw [Sha256Ctx.push, List.length_set, h.length]
  blockLen := by rw [Sha256Ctx.push, h.blockLen, List.length_append, List.length_singleton]
  take := by
    have hset : ctx.block.set t.length b = (t ++ [b]) ++ ctx.block.drop (t.length + 1) := by
      rw [List.set_eq_take_append_cons_drop, if_pos (by rw [h.length]; exact hlt), h.take]
      exact List.append_cons t b _
    rw [Sha256Ctx.push, h.blockLen]
    show (ctx.block.set t.length b).take (t ++ [b]).length = t ++ [b]
    rw [hset, List.take_left]

/-- A full buffer is the block. -/
theorem Buffered.block_eq (h : Buffered ctx t) (hfull : t.length = 64) : ctx.block = t := by
  rw [← h.take, hfull, List.take_of_length_le h.length.le]

theorem Buffered.foldl_push (h : Buffered ctx t) {l : List ℕ} (hle : t.length + l.length ≤ 64) :
    Buffered (l.foldl (fun ctx _ => ctx.push 0) ctx) (t ++ List.replicate l.length 0)
      ∧ (l.foldl (fun ctx _ => ctx.push 0) ctx).state = ctx.state := by
  induction l generalizing ctx t with
  | nil => exact ⟨by simpa using h, rfl⟩
  | cons i l ih =>
    rw [List.length_cons] at hle
    have hnext := ih (h.push (by omega) 0)
      (by rw [List.length_append, List.length_singleton]; omega)
    rw [List.append_assoc] at hnext
    exact hnext

/-- The filling loop pads the buffer with zeros. -/
theorem Buffered.fillTo (h : Buffered ctx t) (limit : ℕ) (hle : t.length ≤ limit)
    (hlimit : limit ≤ 64) :
    Buffered (ctx.fillTo limit) (t ++ List.replicate (limit - t.length) 0)
      ∧ (ctx.fillTo limit).state = ctx.state := by
  have hfill := h.foldl_push (l := List.range (limit - ctx.blockLen))
    (by rw [List.length_range, h.blockLen]; omega)
  rw [List.length_range, h.blockLen] at hfill
  rwa [Sha256Ctx.fillTo, h.blockLen]

/-- The length goes into the last eight bytes of the block. -/
theorem setLength_block (hlen : ctx.block.length = 64) (htake : ctx.block.take 56 = t)
    (bits : UInt64) : (ctx.setLength bits).block = t ++ store64 bits := by
  have hsplit : ctx.block = t ++ ctx.block.drop 56 := by rw [← htake, List.take_append_drop]
  have ht : t.length = 56 := by rw [← htake, List.length_take, hlen]; rfl
  have hdrop : (ctx.block.drop 56).length = 8 := by rw [List.length_drop, hlen]
  rw [setLength, block_mk, hsplit]
  match ctx.block.drop 56, hdrop with
  | [_, _, _, _, _, _, _, _], _ => simp [ht, store64]

/-! ## The streaming hash -/

/-- **The context has absorbed** `p`, in whole blocks, and buffers `t`. -/
structure Absorbed (ctx : Sha256Ctx) (p t : Bytes) : Prop extends Buffered ctx t where
  lt : t.length < 64
  dvd : 64 ∣ p.length
  state : ctx.state = BlockHash.iterate 64 Sha256.compress Sha256.State.initial p
  totalBits : ctx.totalBits = UInt64.ofNat (8 * p.length)

/-- Nothing is absorbed at first, whatever the block holds. -/
theorem absorbed_of_block {block : Bytes} (h : block.length = 64) :
    Absorbed { init with block } [] [] where
  length := h
  blockLen := rfl
  take := rfl
  lt := by decide
  dvd := ⟨0, rfl⟩
  state := (BlockHash.iterate_of_lt (by decide) _).symm
  totalBits := rfl

theorem absorbed_init : Absorbed init [] [] := absorbed_of_block rfl

/-- Compressing a full block continues the fold. -/
theorem Absorbed.compress (h : Absorbed ctx p t) {b : Bytes} (hb : b.length = 64) :
    Sha256.compress ctx.state b
      = BlockHash.iterate 64 Sha256.compress Sha256.State.initial (p ++ b) := by
  rw [BlockHash.iterate_append (by decide) h.dvd, ← h.state,
    BlockHash.iterate_block (by decide) hb]

/-- **One byte**: it is buffered, or completes a block that is absorbed. -/
theorem Absorbed.updateByte (h : Absorbed ctx p t) (b : UInt8) :
    ∃ p' t', p' ++ t' = p ++ t ++ [b] ∧ Absorbed (ctx.updateByte b) p' t' := by
  have hbuf := h.toBuffered.push h.lt b
  have hlen : (t ++ [b]).length = t.length + 1 := by rw [List.length_append, List.length_singleton]
  by_cases hfull : t.length + 1 = 64
  · refine ⟨p ++ (t ++ [b]), [], by rw [List.append_nil, List.append_assoc], ?_⟩
    have hblock := hbuf.block_eq (hlen.trans hfull)
    have hstep : ctx.updateByte b = (ctx.push b).transform.nextBlock := by
      rw [Sha256Ctx.updateByte]
      exact if_pos (hbuf.blockLen.trans (hlen.trans hfull))
    rw [hstep]
    refine ⟨⟨?_, rfl, rfl⟩, by decide, ?_, ?_, ?_⟩
    · rw [nextBlock_block, transform_block, hbuf.length]
    · rw [List.length_append, hlen, hfull]
      exact Nat.dvd_add h.dvd ⟨1, rfl⟩
    · rw [nextBlock_state, transform_state hbuf.length, hblock]
      exact h.compress (hlen.trans hfull)
    · rw [nextBlock_totalBits, transform_totalBits, push_totalBits, h.totalBits,
        List.length_append, hlen, hfull, Nat.mul_add, UInt64.ofNat_add]
      rfl
  · refine ⟨p, t ++ [b], (List.append_assoc p t [b]).symm, ?_⟩
    have hstep : ctx.updateByte b = ctx.push b := by
      rw [Sha256Ctx.updateByte]
      exact if_neg (fun heq => hfull (hlen.symm.trans (hbuf.blockLen.symm.trans heq)))
    rw [hstep]
    exact ⟨hbuf, by have := h.lt; omega, h.dvd, h.state, h.totalBits⟩

/-- **A whole message**, by induction on what is fed. -/
theorem Absorbed.update (h : Absorbed ctx p t) (data : Bytes) :
    ∃ p' t', p' ++ t' = p ++ t ++ data ∧ Absorbed (ctx.update data) p' t' := by
  induction data generalizing ctx p t with
  | nil => exact ⟨p, t, (List.append_nil _).symm, h⟩
  | cons b data ih =>
    obtain ⟨p₁, t₁, hsplit, h₁⟩ := h.updateByte b
    obtain ⟨p₂, t₂, hsplit₂, h₂⟩ := ih h₁
    refine ⟨p₂, t₂, ?_, h₂⟩
    rw [hsplit₂, hsplit, List.append_assoc _ [b] data, List.singleton_append]

/-! ## The last blocks -/

theorem output_eq (s : Sha256.State) : output s = s.digest := by
  have hstore : store32 = fun w => ofNatBE 4 w.toNat := funext store32_eq
  rw [output, hstore]
  rfl

/-- With fifty-six bytes in place, the length completes the last block. -/
theorem output_finish (hlen : ctx.block.length = 64) (htake : ctx.block.take 56 = t)
    (bits : UInt64) :
    output (ctx.setLength bits).transform.state
      = (Sha256.compress ctx.state (t ++ store64 bits)).digest := by
  have hblock := setLength_block hlen htake bits
  have ht : t.length = 56 := by rw [← htake, List.length_take, hlen]; rfl
  have hfull : (ctx.setLength bits).block.length = 64 := by
    rw [hblock, List.length_append, ht]
    rfl
  rw [output_eq, transform_state hfull, setLength_state, hblock]

/-- The padding only adds to the buffered bytes. -/
theorem Absorbed.pad_append (h : Absorbed ctx p t) {z : ℕ} (hz : (119 - t.length) % 64 = z) :
    Sha256.pad (p ++ t)
      = p ++ (t ++ 0x80 :: List.replicate z 0 ++ store64 (UInt64.ofNat (8 * (p ++ t).length))) := by
  have hmod : (p ++ t).length % 64 = t.length := by
    rw [List.length_append, Nat.add_mod, Nat.mod_eq_zero_of_dvd h.dvd, zero_add, Nat.mod_mod,
      Nat.mod_eq_of_lt h.lt]
  have hbits : store64 (UInt64.ofNat (8 * (p ++ t).length)) = ofNatBE 8 (8 * (p ++ t).length) := by
    have hpow : (2 : ℕ) ^ 64 = 256 ^ 8 := by norm_num
    rw [store64_eq, UInt64.toNat_ofNat', hpow, ofNatBE_mod]
  rw [Sha256.pad, hmod, hz, hbits]
  simp only [List.append_assoc]

/-- The number of bits that `sha256_final` writes. -/
theorem Absorbed.bits (h : Absorbed ctx p t) :
    ctx.totalBits + UInt64.ofNat ctx.blockLen * 8 = UInt64.ofNat (8 * (p ++ t).length) := by
  have height : (8 : UInt64) = UInt64.ofNat 8 := rfl
  rw [h.totalBits, h.blockLen, height, ← UInt64.ofNat_mul, ← UInt64.ofNat_add, List.length_append,
    Nat.mul_add, Nat.mul_comm t.length 8]

/-- The buffered bytes and the marker, as `sha256_final` fills them up with zeros. -/
theorem Absorbed.filled (h : Absorbed ctx p t) {n : ℕ} (hn : t.length + 1 ≤ n) (hle : n ≤ 64) :
    Buffered ((ctx.push 0x80).fillTo n) (t ++ 0x80 :: List.replicate (n - (t.length + 1)) 0)
      ∧ ((ctx.push 0x80).fillTo n).state = ctx.state
      ∧ (t ++ (0x80 : UInt8) :: List.replicate (n - (t.length + 1)) 0).length = n := by
  have hlen : (t ++ [(0x80 : UInt8)]).length = t.length + 1 := by
    rw [List.length_append, List.length_singleton]
  obtain ⟨hfill, hstate⟩ := (h.toBuffered.push h.lt 0x80).fillTo n (by omega) hle
  rw [hlen, List.append_assoc, List.singleton_append] at hfill
  refine ⟨hfill, hstate.trans (push_state _ _), ?_⟩
  simp
  omega

/-- Marker and length fit the last block. -/
theorem Absorbed.final_of_short (h : Absorbed ctx p t) (hshort : ctx.blockLen < 56) :
    ctx.final = sha256 (p ++ t) := by
  rw [Sha256Ctx.final, h.bits, sha256, if_pos hshort]
  rw [h.blockLen] at hshort
  obtain ⟨hfill, hstate, hfull⟩ := h.filled (n := 56) (by omega) (by decide)
  have hpad := h.pad_append (z := 56 - (t.length + 1)) (by omega)
  have htake := hfill.take
  rw [hfull] at htake
  rw [output_finish hfill.length htake, hstate, h.compress, hpad]
  rw [List.length_append, hfull]
  rfl

/-- The marker and the first zeros fill a block, the other zeros and the length one more. -/
theorem Absorbed.final_of_long (h : Absorbed ctx p t) (hlong : ¬ ctx.blockLen < 56) :
    ctx.final = sha256 (p ++ t) := by
  have hlt := h.lt
  rw [Sha256Ctx.final, h.bits, sha256, if_neg hlong]
  rw [h.blockLen] at hlong
  obtain ⟨hfill, hstate, hfull⟩ := h.filled (n := 64) (by omega) le_rfl
  have hpad := h.pad_append (z := (64 - (t.length + 1)) + 56) (by omega)
  generalize hb : UInt64.ofNat (8 * (p ++ t).length) = bits at hpad ⊢
  generalize hblock : t ++ 0x80 :: List.replicate (64 - (t.length + 1)) 0 = b at hfill hfull
  have hdvd : 64 ∣ (p ++ b).length := by
    rw [List.length_append, hfull]
    exact Nat.dvd_add h.dvd ⟨1, rfl⟩
  have hlast : (List.replicate 56 0 ++ store64 bits).length = 64 := rfl
  have hsplit : Sha256.pad (p ++ t) = (p ++ b) ++ (List.replicate 56 0 ++ store64 bits) := by
    rw [hpad, ← hblock, List.replicate_add]
    simp only [List.append_assoc, List.cons_append]
  have hclear := clearHead_block ((ctx.push 0x80).fillTo 64).transform
  rw [transform_block] at hclear
  have hlength : ((ctx.push 0x80).fillTo 64).transform.clearHead.block.length = 64 := by
    rw [hclear, List.length_append, List.length_replicate, List.length_drop, hfill.length]
  have htake : ((ctx.push 0x80).fillTo 64).transform.clearHead.block.take 56
      = List.replicate 56 0 := by
    rw [hclear]
    exact List.take_left' List.length_replicate
  rw [output_finish hlength htake, clearHead_state, transform_state hfill.length,
    hfill.block_eq hfull, hstate, h.compress hfull, hsplit,
    BlockHash.iterate_append (by decide) hdvd, BlockHash.iterate_block (by decide) hlast]

/-- **`sha256_final` computes the digest of what was absorbed**, for every
number of buffered bytes. -/
theorem Absorbed.final (h : Absorbed ctx p t) : ctx.final = sha256 (p ++ t) := by
  by_cases hshort : ctx.blockLen < 56
  · exact h.final_of_short hshort
  · exact h.final_of_long hshort

end Sha256Ctx

/-- **The SDK's SHA-256 is SHA-256**, for every message. -/
theorem eipcSha256_eq (data : Bytes) : eipcSha256 data = sha256 data := by
  obtain ⟨p, t, hsplit, h⟩ := Sha256Ctx.absorbed_init.update data
  rw [eipcSha256, h.final, hsplit, List.nil_append, List.nil_append]

/-- Feeding a message at once is feeding it byte by byte. -/
theorem Sha256Ctx.update_eq_foldl (ctx : Sha256Ctx) (data : Bytes) :
    ctx.update data = data.foldl (fun ctx b => ctx.update [b]) ctx := rfl

/-- **The SDK's SHA-256 is the digest of FIPS 180-4**: the bytes, fed one at a time and whatever
the context's block held before, give the compression function folded over the blocks of the
padded message – the message, `0x80`, the fewest zeros that leave room for the length, and the
length in bits, which eight bytes hold exactly. -/
theorem eipcSha256_fips (data : Bytes) (h : data.length < 2 ^ 61) :
    ∃ z < 64, (data.length + 1 + z) % 64 = 56
      ∧ toNatBE (ofNatBE 8 (8 * data.length)) = 8 * data.length
      ∧ eipcSha256 data = (BlockHash.iterate 64 Sha256.compress Sha256.State.initial
          (data ++ 0x80 :: List.replicate z 0 ++ ofNatBE 8 (8 * data.length))).digest
      ∧ ∀ block : Bytes, block.length = 64 →
          (data.foldl (fun (ctx : Sha256Ctx) b => ctx.update [b])
            { Sha256Ctx.init with block }).final = eipcSha256 data := by
  have hlen : 8 * data.length < 256 ^ 8 := by omega
  refine ⟨(119 - data.length % 64) % 64, Nat.mod_lt _ (by decide), by omega,
    toNatBE_ofNatBE hlen, eipcSha256_eq data, fun block hblock => ?_⟩
  obtain ⟨p, t, hsplit, habsorbed⟩ := (Sha256Ctx.absorbed_of_block hblock).update data
  rw [← Sha256Ctx.update_eq_foldl, habsorbed.final, hsplit, eipcSha256_eq]
  rfl

/-- The three bytes of "abc" are padded to one block. -/
theorem eipcSha256_fips_abc :
    eipcSha256 (ascii "abc") = (Sha256.compress Sha256.State.initial
      (ascii "abc" ++ 0x80 :: List.replicate 52 0 ++ [0, 0, 0, 0, 0, 0, 0, 24])).digest := by
  obtain ⟨z, hz, hmod, -, hdigest, -⟩ := eipcSha256_fips (ascii "abc") (by decide)
  have hlen : (ascii "abc").length = 3 := rfl
  obtain rfl : z = 52 := by omega
  rw [hdigest, BlockHash.iterate_block (by decide) (by decide)]
  rfl

/-! ## HMAC -/

namespace Hmac

/-- `HMAC_BLOCK_SIZE`. -/
def hmacBlockSize : ℕ := 64

/-- The data that `inner_buf` has room for. -/
def hmacStackData : ℕ := 65536

end Hmac

open Hmac

/-- The inner hash, of the padded key and the data in one buffer: on the stack
if it fits, else on the heap if the allocation succeeds. -/
def innerHash (malloc : Bool) (ipad data : Bytes) : Option Bytes :=
  if data.length ≤ hmacStackData then
    let innerBuf := ipad ++ data
    some (eipcSha256 innerBuf)
  else if malloc then
    let buf := ipad ++ data
    some (eipcSha256 buf)
  else none

/-- `eipc_hmac_sign`, where `malloc` says whether the allocation for data beyond
the stack buffer succeeds. When it does not, the MAC is all zeros. -/
def eipcHmacSign (malloc : Bool) (key data : Bytes) : Bytes :=
  let zeros := List.replicate hmacBlockSize 0
  let k := overwrite zeros (if key.length > hmacBlockSize then eipcSha256 key else key)
  let ipad := k.map (· ^^^ 0x36)
  let opad := k.map (· ^^^ 0x5c)
  match innerHash malloc ipad data with
  | some h => eipcSha256 (opad ++ h)
  | none => List.replicate 32 0

/-- The loop of `eipc_hmac_verify`, which compares in constant time. -/
def macDiff (computed mac : Bytes) : UInt8 :=
  (List.range 32).foldl (fun diff i => diff ||| (computed.getD i 0 ^^^ mac.getD i 0)) 0

/-- `eipc_hmac_verify`. -/
def eipcHmacVerify (malloc : Bool) (key data mac : Bytes) : Bool :=
  macDiff (eipcHmacSign malloc key data) mac = 0

/-- Both buffers hash the same bytes. -/
theorem innerHash_eq {malloc : Bool} {data : Bytes}
    (h : data.length ≤ hmacStackData ∨ malloc = true) (ipad : Bytes) :
    innerHash malloc ipad data = some (sha256 (ipad ++ data)) := by
  unfold innerHash
  by_cases hstack : data.length ≤ hmacStackData
  · rw [if_pos hstack]
    exact congrArg some (eipcSha256_eq _)
  · rw [if_neg hstack, if_pos (h.resolve_left hstack)]
    exact congrArg some (eipcSha256_eq _)

/-- **The SDK's HMAC is HMAC-SHA256**, unless an allocation fails. -/
theorem eipcHmacSign_eq {malloc : Bool} {data : Bytes}
    (h : data.length ≤ hmacStackData ∨ malloc = true) (key : Bytes) :
    eipcHmacSign malloc key data = hmacSha256 key data := by
  have hkey : overwrite (List.replicate hmacBlockSize 0)
      (if key.length > hmacBlockSize then eipcSha256 key else key) = blockKey sha256 64 key := by
    rw [overwrite, List.drop_replicate, eipcSha256_eq]
    rfl
  rw [eipcHmacSign, innerHash_eq h, hkey]
  exact eipcSha256_eq _

/-- The difference of the first `n` bytes is zero exactly when they agree. -/
theorem foldl_diff_eq_zero_iff (a b : Bytes) (n : ℕ) :
    (List.range n).foldl (fun diff i => diff ||| (a.getD i 0 ^^^ b.getD i 0)) 0 = 0 ↔
      ∀ i < n, a.getD i 0 = b.getD i 0 := by
  induction n with
  | zero => exact ⟨fun _ i hi => absurd hi (Nat.not_lt_zero i), fun _ => rfl⟩
  | succ n ih =>
    rw [List.range_succ, List.foldl_append, List.foldl_cons, List.foldl_nil, UInt8.or_eq_zero_iff,
      ih, UInt8.xor_eq_zero_iff]
    constructor
    · rintro ⟨hlt, hn⟩ i hi
      rcases Nat.lt_succ_iff_lt_or_eq.mp hi with hi | rfl
      · exact hlt i hi
      · exact hn
    · intro h
      exact ⟨fun i hi => h i (Nat.lt_succ_of_lt hi), h n (Nat.lt_succ_self n)⟩

theorem macDiff_eq_zero_iff {a b : Bytes} (ha : a.length = 32) (hb : b.length = 32) :
    macDiff a b = 0 ↔ a = b := by
  rw [macDiff, foldl_diff_eq_zero_iff]
  constructor
  · intro h
    refine List.ext_getElem (ha.trans hb.symm) fun i hia hib => ?_
    have hi := h i (ha ▸ hia)
    rwa [List.getD_eq_getElem _ _ hia, List.getD_eq_getElem _ _ hib] at hi
  · rintro rfl i _
    rfl

/-- **What a verification means** for data that fits the stack buffer: the MAC
is HMAC-SHA256 of the data. -/
theorem eipcHmacVerify_iff {malloc : Bool} {key data mac : Bytes}
    (h : data.length ≤ hmacStackData) (hmac : mac.length = 32) :
    eipcHmacVerify malloc key data mac = true ↔ mac = hmacSha256 key data := by
  rw [eipcHmacVerify, decide_eq_true_iff, eipcHmacSign_eq (.inl h),
    macDiff_eq_zero_iff (length_hmacSha256 key data) hmac, eq_comm]
