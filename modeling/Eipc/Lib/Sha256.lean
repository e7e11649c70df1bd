import Eipc.Lib.BlockHash

/-!
# SHA-256

The hash function of FIPS 180-4, on byte strings: the message schedule is the
recurrence of section 6.2.2, the compression function runs the sixty-four rounds
on the working variables, and a message is padded with a one bit, zeros and its
length in bits. `hmacSha256` is HMAC over it.
-/

open Bytes

namespace Sha256

def rotr (x : UInt32) (n : UInt32) : UInt32 := (x >>> n) ||| (x <<< (32 - n))

def ch (x y z : UInt32) : UInt32 := (x &&& y) ^^^ (~~~x &&& z)

def maj (x y z : UInt32) : UInt32 := (x &&& y) ^^^ (x &&& z) ^^^ (y &&& z)

/-- The function `Σ₀` of the standard. -/
def bigSigma0 (x : UInt32) : UInt32 := rotr x 2 ^^^ rotr x 13 ^^^ rotr x 22

/-- The function `Σ₁` of the standard. -/
def bigSigma1 (x : UInt32) : UInt32 := rotr x 6 ^^^ rotr x 11 ^^^ rotr x 25

/-- The function `σ₀` of the standard. -/
def smallSigma0 (x : UInt32) : UInt32 := rotr x 7 ^^^ rotr x 18 ^^^ (x >>> 3)

/-- The function `σ₁` of the standard. -/
def smallSigma1 (x : UInt32) : UInt32 := rotr x 17 ^^^ rotr x 19 ^^^ (x >>> 10)

/-- The round constants. -/
def k : List UInt32 :=
  [0x428a2f98, 0x71374491, 0xb5c0fbcf, 0xe9b5dba5, 0x3956c25b, 0x59f111f1, 0x923f82a4, 0xab1c5ed5,
   0xd807aa98, 0x12835b01, 0x243185be, 0x550c7dc3, 0x72be5d74, 0x80deb1fe, 0x9bdc06a7, 0xc19bf174,
   0xe49b69c1, 0xefbe4786, 0x0fc19dc6, 0x240ca1cc, 0x2de92c6f, 0x4a7484aa, 0x5cb0a9dc, 0x76f988da,
   0x983e5152, 0xa831c66d, 0xb00327c8, 0xbf597fc7, 0xc6e00bf3, 0xd5a79147, 0x06ca6351, 0x14292967,
   0x27b70a85, 0x2e1b2138, 0x4d2c6dfc, 0x53380d13, 0x650a7354, 0x766a0abb, 0x81c2c92e, 0x92722c85,
   0xa2bfe8a1, 0xa81a664b, 0xc24b8b70, 0xc76c51a3, 0xd192e819, 0xd6990624, 0xf40e3585, 0x106aa070,
   0x19a4c116, 0x1e376c08, 0x2748774c, 0x34b0bcb5, 0x391c0cb3, 0x4ed8aa4a, 0x5b9cca4f, 0x682e6ff3,
   0x748f82ee, 0x78a5636f, 0x84c87814, 0x8cc70208, 0x90befffa, 0xa4506ceb, 0xbef9a3f7, 0xc67178f2]

/-- The eight chaining words, and the eight working variables. -/
structure State where
  a : UInt32
  b : UInt32
  c : UInt32
  d : UInt32
  e : UInt32
  f : UInt32
  g : UInt32
  h : UInt32
  deriving DecidableEq

namespace State

/-- The initial hash value. -/
def initial : State :=
  ⟨0x6a09e667, 0xbb67ae85, 0x3c6ef372, 0xa54ff53a, 0x510e527f, 0x9b05688c, 0x1f83d9ab, 0x5be0cd19⟩

/-- One round, with the constant and the schedule word of that round. -/
def round (s : State) (kt wt : UInt32) : State :=
  let t1 := s.h + bigSigma1 s.e + ch s.e s.f s.g + kt + wt
  let t2 := bigSigma0 s.a + maj s.a s.b s.c
  ⟨t1 + t2, s.a, s.b, s.c, s.d + t1, s.e, s.f, s.g⟩

/-- The word-wise sum that ends a compression. -/
def add (s t : State) : State :=
  ⟨s.a + t.a, s.b + t.b, s.c + t.c, s.d + t.d, s.e + t.e, s.f + t.f, s.g + t.g, s.h + t.h⟩

/-- The eight words, big-endian. -/
def digest (s : State) : Bytes :=
  [s.a, s.b, s.c, s.d, s.e, s.f, s.g, s.h].flatMap fun w => ofNatBE 4 w.toNat

@[simp] theorem length_digest (s : State) : s.digest.length = 32 := by
  simp [digest]

end State

/-- The `t`-th word of a block, big-endian. -/
def word (block : Bytes) (t : ℕ) : UInt32 := UInt32.ofNat (toNatBE ((block.drop (4 * t)).take 4))

/-- **The message schedule**: the words of the block, and from the
sixteenth on the recurrence of the standard. -/
def schedule (block : Bytes) (t : ℕ) : UInt32 :=
  if t < 16 then word block t
  else smallSigma1 (schedule block (t - 2)) + schedule block (t - 7)
    + smallSigma0 (schedule block (t - 15)) + schedule block (t - 16)

theorem schedule_of_lt {block : Bytes} {t : ℕ} (h : t < 16) : schedule block t = word block t := by
  rw [schedule, if_pos h]

theorem schedule_of_le {block : Bytes} {t : ℕ} (h : 16 ≤ t) :
    schedule block t = smallSigma1 (schedule block (t - 2)) + schedule block (t - 7)
      + smallSigma0 (schedule block (t - 15)) + schedule block (t - 16) := by
  rw [schedule, if_neg (not_lt.mpr h)]

/-- The compression function. -/
def compress (s : State) (block : Bytes) : State :=
  s.add ((List.range 64).foldl (fun v t => v.round (k.getD t 0) (schedule block t)) s)

/-- The padding: a one bit, zeros up to eight bytes before a block boundary,
and the length in bits. -/
def pad (m : Bytes) : Bytes :=
  m ++ 0x80 :: List.replicate ((119 - m.length % 64) % 64) 0 ++ ofNatBE 8 (8 * m.length)

end Sha256

/-- **SHA-256.** -/
def sha256 (m : Bytes) : Bytes :=
  (BlockHash.iterate 64 Sha256.compress Sha256.State.initial (Sha256.pad m)).digest

@[simp] theorem length_sha256 (m : Bytes) : (sha256 m).length = 32 := Sha256.State.length_digest _

/-- **HMAC-SHA256.** -/
def hmacSha256 (key data : Bytes) : Bytes := Hmac.hmac sha256 64 key data

@[simp] theorem length_hmacSha256 (key data : Bytes) : (hmacSha256 key data).length = 32 :=
  length_sha256 _
