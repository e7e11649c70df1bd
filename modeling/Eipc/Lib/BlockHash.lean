import Eipc.Lib.Wire

/-!
# Iterated hashes and HMAC

A hash in the Merkle–Damgård style folds a compression function over the
consecutive blocks of a padded message. This file has the fold over whole
blocks, `BlockHash.iterate`, with the rules that take a message apart at a block
boundary, and the keyed hash of RFC 2104 over any such hash.
-/

namespace BlockHash

variable {α σ : Type} {n : ℕ} {compress : σ → List α → σ}

/-- The `i`-th block of `n` elements. -/
def block (n i : ℕ) (m : List α) : List α := (m.drop (n * i)).take n

/-- The compression function folded over the whole blocks of a message, in
order; what is left after the last whole block is not looked at. -/
def iterate (n : ℕ) (compress : σ → List α → σ) (iv : σ) (m : List α) : σ :=
  (List.range (m.length / n)).foldl (fun h i => compress h (block n i m)) iv

theorem block_append_left {m : List α} {i : ℕ} (h : n * i + n ≤ m.length) (r : List α) :
    block n i (m ++ r) = block n i m := by
  rw [block, block, List.drop_append_of_le_length (by omega),
    List.take_append_of_le_length (by rw [List.length_drop]; omega)]

theorem block_append_right {m : List α} {q : ℕ} (h : m.length = n * q) (i : ℕ) (r : List α) :
    block n (q + i) (m ++ r) = block n i r := by
  rw [block, block, Nat.mul_add, ← h, List.drop_append, List.drop_of_length_le (by omega),
    List.nil_append, Nat.add_sub_cancel_left]

/-- **A message is hashed from left to right**: at a block boundary the fold
continues from where it stands. -/
theorem iterate_append (hn : 0 < n) {m : List α} (h : n ∣ m.length) (iv : σ) (r : List α) :
    iterate n compress iv (m ++ r) = iterate n compress (iterate n compress iv m) r := by
  obtain ⟨q, hq⟩ := h
  have hlen : (m ++ r).length / n = q + r.length / n := by
    rw [List.length_append, hq, Nat.mul_add_div hn]
  have hm : m.length / n = q := by rw [hq, Nat.mul_div_cancel_left q hn]
  have hleft : (List.range q).foldl (fun h i => compress h (block n i (m ++ r))) iv
      = (List.range q).foldl (fun h i => compress h (block n i m)) iv := by
    refine List.foldl_ext _ _ _ fun h i hi => ?_
    have hi' : n * (i + 1) ≤ n * q := Nat.mul_le_mul_left n (List.mem_range.mp hi)
    rw [block_append_left (by rw [hq]; rwa [Nat.mul_succ] at hi')]
  rw [iterate, hlen, List.range_add, List.foldl_append, hleft, List.foldl_map, iterate, iterate,
    hm]
  simp only [block_append_right hq]

/-- Less than a block is not looked at. -/
theorem iterate_of_lt {m : List α} (h : m.length < n) (iv : σ) :
    iterate n compress iv m = iv := by
  rw [iterate, Nat.div_eq_of_lt h, List.range_zero, List.foldl_nil]

/-- One block is compressed once. -/
theorem iterate_block (hn : 0 < n) {m : List α} (h : m.length = n) (iv : σ) :
    iterate n compress iv m = compress iv m := by
  have hblock : block n 0 m = m := by
    rw [block, Nat.mul_zero, List.drop_zero, List.take_of_length_le h.le]
  rw [iterate, h, Nat.div_self hn, List.range_one, List.foldl_cons, List.foldl_nil, hblock]

/-- A message of equal elements is hashed by compressing the same block again and again. -/
theorem iterate_replicate (hn : 0 < n) (q : ℕ) (a : α) (iv : σ) :
    iterate n compress iv (List.replicate (n * q) a)
      = (fun h => compress h (List.replicate n a))^[q] iv := by
  induction q generalizing iv with
  | zero => exact iterate_of_lt (by simpa using hn) iv
  | succ q ih =>
    have hlen : (List.replicate n a).length = n := List.length_replicate
    rw [Nat.mul_succ, add_comm, List.replicate_add, iterate_append hn (by rw [hlen]),
      iterate_block hn hlen, ih, Function.iterate_succ_apply]

end BlockHash

/-! ## HMAC -/

namespace Hmac

/-- A key brought to the block size: hashed first when it is longer, and
padded with zero bytes. -/
def blockKey (hash : Bytes → Bytes) (blockSize : ℕ) (key : Bytes) : Bytes :=
  let k := if key.length > blockSize then hash key else key
  k ++ List.replicate (blockSize - k.length) 0

/-- **HMAC** as RFC 2104 defines it, over any hash. -/
def hmac (hash : Bytes → Bytes) (blockSize : ℕ) (key data : Bytes) : Bytes :=
  let k := blockKey hash blockSize key
  hash (k.map (· ^^^ 0x5c) ++ hash (k.map (· ^^^ 0x36) ++ data))

end Hmac
