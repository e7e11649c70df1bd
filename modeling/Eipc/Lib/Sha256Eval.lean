import Eipc.Lib.Sha256

/-!
# SHA-256 on numerals

An evaluator for the compression function whose every step is an operation on
natural-number numerals, so that hashing a message of a thousand blocks is a
computation the kernel can do. It computes what `Sha256.compress` says
(`Sha256.compress_eq_eval`), and, for runs of zero blocks, whose schedule is all
zeros, what the fold over them says (`Sha256.iterate_zeros_eq_eval`).

A word is a number below `2 ^ 32`. A rotation is a shift of the word written
twice, side by side. The eight words of a state are passed as arguments, and
each new word is evaluated before it is passed on (`Sha256.Eval.force`), since
the kernel would otherwise carry all the rounds as one unevaluated term. The
loops are recursors, which the kernel unfolds in one step; a definition by
structural recursion costs it twice as much.
-/

open Bytes

namespace Sha256

namespace Eval

/-- Passes a number on as a numeral. -/
def force {α : Type} (n : ℕ) (k : ℕ → α) : α := Nat.rec (k 0) (fun m _ => k (Nat.succ m)) n

theorem force_eq {α : Type} (n : ℕ) (k : ℕ → α) : force n k = k n := by
  cases n <;> rfl

/-! The operations are spelled `Nat.add` and so on: the kernel computes with these, and would
have to unfold the instances behind the symbols at every step. -/

/-- A word, side by side with itself. -/
def twice (x : ℕ) : ℕ := Nat.mul x 4294967297

/-- The sum of three rotations of a word, not reduced. -/
def rotations (i j l x : ℕ) : ℕ :=
  Nat.xor (Nat.xor (Nat.shiftRight (twice x) i) (Nat.shiftRight (twice x) j))
    (Nat.shiftRight (twice x) l)

/-- The sum of two rotations and a shift of a word. -/
def rotationsShift (i j l x : ℕ) : ℕ :=
  Nat.xor (Nat.mod (Nat.xor (Nat.shiftRight (twice x) i) (Nat.shiftRight (twice x) j)) 4294967296)
    (Nat.shiftRight x l)

/-- The first temporary of a round, not reduced; `kw` is the constant plus the schedule word. -/
def t1 (kw e f g h : ℕ) : ℕ :=
  Nat.add (Nat.add (Nat.add h kw) (Nat.xor (Nat.land (Nat.xor f g) e) g)) (rotations 6 11 25 e)

/-- The second temporary of a round, not reduced. -/
def t2 (a b c : ℕ) : ℕ :=
  Nat.add (Nat.xor (Nat.land (Nat.xor a b) c) (Nat.land a b)) (rotations 2 13 22 a)

section Rounds

variable {α : Type} (fin : ℕ → ℕ → ℕ → ℕ → ℕ → ℕ → ℕ → ℕ → α)

/-- The rounds, for a list of constants plus schedule words. -/
def rounds (kws : List ℕ) : ℕ → ℕ → ℕ → ℕ → ℕ → ℕ → ℕ → ℕ → α :=
  List.rec fin (fun kw _ next a b c d e f g h =>
    force (Nat.mod (Nat.add (t1 kw e f g h) (t2 a b c)) 4294967296) fun a' =>
    force (Nat.mod (Nat.add d (t1 kw e f g h)) 4294967296) fun e' =>
    next a' a b c e' e f g) kws

/-- The compression function. -/
def compress (kws : List ℕ) (a b c d e f g h : ℕ) : α :=
  rounds (fun a' b' c' d' e' f' g' h' =>
    force (Nat.mod (Nat.add a a') 4294967296) fun a =>
    force (Nat.mod (Nat.add b b') 4294967296) fun b =>
    force (Nat.mod (Nat.add c c') 4294967296) fun c =>
    force (Nat.mod (Nat.add d d') 4294967296) fun d =>
    force (Nat.mod (Nat.add e e') 4294967296) fun e =>
    force (Nat.mod (Nat.add f f') 4294967296) fun f =>
    force (Nat.mod (Nat.add g g') 4294967296) fun g =>
    force (Nat.mod (Nat.add h h') 4294967296) fun h =>
    fin a b c d e f g h) kws a b c d e f g h

/-- The compression function again and again, with the same schedule. -/
def repeated (kws : List ℕ) (n : ℕ) : ℕ → ℕ → ℕ → ℕ → ℕ → ℕ → ℕ → ℕ → α :=
  Nat.rec fin (fun _ next => compress next kws) n

end Rounds

/-- The next word of a schedule that is given with its latest word first. -/
def nextWord (ws : List ℕ) : ℕ :=
  Nat.mod (Nat.add (Nat.add (Nat.add (rotationsShift 17 19 10 (ws.getD 1 0)) (ws.getD 6 0))
    (rotationsShift 7 18 3 (ws.getD 14 0))) (ws.getD 15 0)) 4294967296

/-- The schedule, extended by `n` words. -/
def extend : ℕ → List ℕ → List ℕ
  | 0, ws => ws
  | n + 1, ws => force (nextWord ws) fun w => extend n (w :: ws)

/-- The constants plus the schedule words of a block. -/
def scheduleSums (block : Bytes) : List ℕ :=
  List.zipWith Nat.add (k.map UInt32.toNat)
    (extend 48 ((List.range 16).map fun t => (word block t).toNat).reverse).reverse

/-! ## The words -/

/-- A word is below `2 ^ 32`, so that the two copies of it do not overlap. -/
theorem testBit_twice {x : ℕ} (hx : x < 2 ^ 32) (i : ℕ) :
    (twice x).testBit i = if i < 32 then x.testBit i else x.testBit (i - 32) := by
  have htwice : twice x = 2 ^ 32 * x + x := by
    show x * 4294967297 = _
    ring
  rw [htwice, Nat.testBit_two_pow_mul_add x hx]

/-- A rotation is a shift of the two copies. -/
theorem toNat_rotr (x : UInt32) {n : ℕ} (hpos : 0 < n) (hlt : n < 32) :
    (rotr x (UInt32.ofNat n)).toNat = twice x.toNat >>> n % 2 ^ 32 := by
  have hn : (UInt32.ofNat n).toNat = n := UInt32.toNat_ofNat_of_lt' (hlt.trans (by decide))
  have hsub : ((32 : UInt32) - UInt32.ofNat n).toNat = 32 - n := by
    rw [UInt32.toNat_sub_of_le _ _ (by rw [UInt32.le_iff_toNat_le, hn]; exact hlt.le), hn]
    rfl
  rw [rotr, UInt32.toNat_or, UInt32.toNat_shiftRight, UInt32.toNat_shiftLeft, hn, hsub,
    Nat.mod_eq_of_lt hlt, Nat.mod_eq_of_lt (by omega : 32 - n < 32)]
  refine Nat.eq_of_testBit_eq fun i => ?_
  have hx := x.toNat_lt
  have hhigh : ∀ j, 32 ≤ j → x.toNat.testBit j = false := fun j hj =>
    Nat.testBit_lt_two_pow (hx.trans_le (Nat.pow_le_pow_right (by decide) hj))
  rw [Nat.testBit_or, Nat.testBit_mod_two_pow, Nat.testBit_mod_two_pow, Nat.testBit_shiftRight,
    Nat.testBit_shiftRight, Nat.testBit_shiftLeft, testBit_twice hx]
  by_cases hi : i < 32
  · by_cases hni : n + i < 32
    · simp [hi, hni, show ¬32 - n ≤ i by omega]
    · rw [hhigh (n + i) (by omega)]
      simp [hi, hni, show 32 - n ≤ i by omega, show i - (32 - n) = n + i - 32 by omega]
  · rw [hhigh (n + i) (by omega)]
    simp [hi]

theorem rotations_eq (x : UInt32) {i j l : ℕ} (hi : 0 < i ∧ i < 32) (hj : 0 < j ∧ j < 32)
    (hl : 0 < l ∧ l < 32) :
    rotations i j l x.toNat % 2 ^ 32 = (rotr x (UInt32.ofNat i) ^^^ rotr x (UInt32.ofNat j)
      ^^^ rotr x (UInt32.ofNat l)).toNat := by
  rw [UInt32.toNat_xor, UInt32.toNat_xor, toNat_rotr x hi.1 hi.2, toNat_rotr x hj.1 hj.2,
    toNat_rotr x hl.1 hl.2, ← Nat.xor_mod_two_pow, ← Nat.xor_mod_two_pow]
  rfl

theorem rotationsShift_eq (x : UInt32) {i j l : ℕ} (hi : 0 < i ∧ i < 32) (hj : 0 < j ∧ j < 32)
    (hl : l < 32) :
    rotationsShift i j l x.toNat = (rotr x (UInt32.ofNat i) ^^^ rotr x (UInt32.ofNat j)
      ^^^ (x >>> UInt32.ofNat l)).toNat := by
  have hlt : (UInt32.ofNat l).toNat % 32 = l := by
    rw [UInt32.toNat_ofNat_of_lt' (hl.trans (by decide)), Nat.mod_eq_of_lt hl]
  rw [UInt32.toNat_xor, UInt32.toNat_xor, UInt32.toNat_shiftRight, hlt, toNat_rotr x hi.1 hi.2,
    toNat_rotr x hj.1 hj.2, ← Nat.xor_mod_two_pow]
  rfl

/-- The choice, with one conjunction less. -/
theorem ch_eq (x y z : UInt32) : ch x y z = ((y ^^^ z) &&& x) ^^^ z := by
  rw [← UInt32.toBitVec_inj]
  refine BitVec.eq_of_getLsbD_eq fun i hi => ?_
  simp only [ch, UInt32.toBitVec_xor, UInt32.toBitVec_and, UInt32.toBitVec_not,
    BitVec.getLsbD_xor, BitVec.getLsbD_and, BitVec.getLsbD_not, hi]
  cases x.toBitVec.getLsbD i <;> simp

/-- The majority, with one conjunction less. -/
theorem maj_eq (x y z : UInt32) : maj x y z = ((x ^^^ y) &&& z) ^^^ (x &&& y) := by
  rw [← UInt32.toBitVec_inj]
  refine BitVec.eq_of_getLsbD_eq fun i hi => ?_
  simp only [maj, UInt32.toBitVec_xor, UInt32.toBitVec_and, BitVec.getLsbD_xor,
    BitVec.getLsbD_and]
  cases x.toBitVec.getLsbD i <;> cases y.toBitVec.getLsbD i <;> simp

end Eval

open Eval

namespace State

/-- The eight words, passed on as numbers. -/
def pass {α : Type} (s : State) (fin : ℕ → ℕ → ℕ → ℕ → ℕ → ℕ → ℕ → ℕ → α) : α :=
  fin s.a.toNat s.b.toNat s.c.toNat s.d.toNat s.e.toNat s.f.toNat s.g.toNat s.h.toNat

/-- The state with eight given words. -/
def ofNats (a b c d e f g h : ℕ) : State :=
  ⟨.ofNat a, .ofNat b, .ofNat c, .ofNat d, .ofNat e, .ofNat f, .ofNat g, .ofNat h⟩

theorem pass_ofNats (s : State) : s.pass ofNats = s := by
  simp [pass, ofNats]

end State

namespace Eval

variable {α : Type} (fin : ℕ → ℕ → ℕ → ℕ → ℕ → ℕ → ℕ → ℕ → α)

theorem t1_mod (kt wt : UInt32) (s : State) :
    t1 (kt.toNat + wt.toNat) s.e.toNat s.f.toNat s.g.toNat s.h.toNat % 2 ^ 32
      = (s.h + bigSigma1 s.e + ch s.e s.f s.g + kt + wt).toNat := by
  have hsigma : rotations 6 11 25 s.e.toNat % 2 ^ 32 = (bigSigma1 s.e).toNat :=
    rotations_eq s.e (by decide) (by decide) (by decide)
  have hch : Nat.xor (Nat.land (Nat.xor s.f.toNat s.g.toNat) s.e.toNat) s.g.toNat
      = (ch s.e s.f s.g).toNat := by
    rw [ch_eq, UInt32.toNat_xor, UInt32.toNat_and, UInt32.toNat_xor]
    rfl
  rw [t1, hch]
  show (s.h.toNat + (kt.toNat + wt.toNat) + (ch s.e s.f s.g).toNat
    + rotations 6 11 25 s.e.toNat) % _ = _
  simp only [UInt32.toNat_add]
  omega

theorem t2_mod (s : State) :
    t2 s.a.toNat s.b.toNat s.c.toNat % 2 ^ 32 = (bigSigma0 s.a + maj s.a s.b s.c).toNat := by
  have hsigma : rotations 2 13 22 s.a.toNat % 2 ^ 32 = (bigSigma0 s.a).toNat :=
    rotations_eq s.a (by decide) (by decide) (by decide)
  have hmaj : Nat.xor (Nat.land (Nat.xor s.a.toNat s.b.toNat) s.c.toNat)
      (Nat.land s.a.toNat s.b.toNat) = (maj s.a s.b s.c).toNat := by
    rw [maj_eq, UInt32.toNat_xor, UInt32.toNat_and, UInt32.toNat_xor, UInt32.toNat_and]
    rfl
  rw [t2, hmaj, UInt32.toNat_add, ← hsigma]
  show ((maj s.a s.b s.c).toNat + rotations 2 13 22 s.a.toNat) % _ = _
  omega

/-- **One round.** -/
theorem rounds_cons (kt wt : UInt32) (kws : List ℕ) (s : State) :
    s.pass (rounds fin ((kt.toNat + wt.toNat) :: kws)) = (s.round kt wt).pass (rounds fin kws) := by
  have ht1 := t1_mod kt wt s
  have ht2 := t2_mod s
  have ha : (t1 (kt.toNat + wt.toNat) s.e.toNat s.f.toNat s.g.toNat s.h.toNat
      + t2 s.a.toNat s.b.toNat s.c.toNat) % 2 ^ 32 = (s.round kt wt).a.toNat := by
    rw [Nat.add_mod, ht1, ht2, ← UInt32.toNat_add]
    rfl
  have he : (s.d.toNat + t1 (kt.toNat + wt.toNat) s.e.toNat s.f.toNat s.g.toNat s.h.toNat) % 2 ^ 32
      = (s.round kt wt).e.toNat := by
    rw [Nat.add_mod, ht1, Nat.mod_eq_of_lt s.d.toNat_lt, ← UInt32.toNat_add]
    rfl
  show force ((_ + _) % 2 ^ 32) (fun a' =>
    force ((_ + _) % 2 ^ 32) fun e' => rounds fin kws a' _ _ _ e' _ _ _) = _
  rw [force_eq, force_eq, ha, he]
  rfl

/-- **All rounds**, by induction on the schedule. -/
theorem rounds_eq (ts : List ℕ) (kt wt : ℕ → UInt32) (s : State) :
    s.pass (rounds fin (ts.map fun t => (kt t).toNat + (wt t).toNat))
      = (ts.foldl (fun v t => v.round (kt t) (wt t)) s).pass fin := by
  induction ts generalizing s with
  | nil => rfl
  | cons t ts ih =>
    rw [List.map_cons, rounds_cons, ih]
    rfl

theorem compress_eq (ts : List ℕ) (kt wt : ℕ → UInt32) (s : State) :
    s.pass (compress fin (ts.map fun t => (kt t).toNat + (wt t).toNat))
      = (s.add (ts.foldl (fun v t => v.round (kt t) (wt t)) s)).pass fin := by
  show s.pass (rounds _ _) = _
  rw [rounds_eq]
  unfold State.pass
  simp only [force_eq]
  simp only [State.add, UInt32.toNat_add]
  rfl

/-! ## The schedule -/

theorem nextWord_eq (block : Bytes) {t : ℕ} (h : 16 ≤ t) :
    nextWord ((List.range t).map fun i => (schedule block i).toNat).reverse
      = (schedule block t).toNat := by
  have hget : ∀ j, j < 16 →
      ((List.range t).map fun i => (schedule block i).toNat).reverse.getD j 0
        = (schedule block (t - 1 - j)).toNat := by
    intro j hj
    rw [List.getD_eq_getElem _ _ (by simp; omega)]
    simp
  have hsmall0 : ∀ x : UInt32, rotationsShift 7 18 3 x.toNat = (smallSigma0 x).toNat := fun x =>
    rotationsShift_eq x (by decide) (by decide) (by decide)
  have hsmall1 : ∀ x : UInt32, rotationsShift 17 19 10 x.toNat = (smallSigma1 x).toNat := fun x =>
    rotationsShift_eq x (by decide) (by decide) (by decide)
  rw [nextWord, hget 1 (by decide), hget 6 (by decide), hget 14 (by decide), hget 15 (by decide),
    hsmall0, hsmall1, schedule_of_le h]
  simp only [UInt32.toNat_add, Nat.sub_sub, Nat.reduceAdd]
  show (_ + _ + _ + _) % 2 ^ 32 = _
  omega

theorem extend_eq (block : Bytes) {t : ℕ} (h : 16 ≤ t) (n : ℕ) :
    extend n ((List.range t).map fun i => (schedule block i).toNat).reverse
      = ((List.range (t + n)).map fun i => (schedule block i).toNat).reverse := by
  induction n generalizing t with
  | zero => rfl
  | succ n ih =>
    have hcons : (schedule block t).toNat
        :: ((List.range t).map fun i => (schedule block i).toNat).reverse
        = ((List.range (t + 1)).map fun i => (schedule block i).toNat).reverse := by
      rw [List.range_succ, List.map_append, List.reverse_append]
      rfl
    rw [extend, force_eq, nextWord_eq block h, hcons, ih (by omega)]
    congr 3
    omega

theorem scheduleSums_eq (block : Bytes) :
    scheduleSums block
      = (List.range 64).map fun t => (k.getD t 0).toNat + (schedule block t).toNat := by
  have hwords : ((List.range 16).map fun t => (word block t).toNat)
      = (List.range 16).map fun t => (schedule block t).toNat :=
    List.map_congr_left fun t ht => by rw [schedule_of_lt (List.mem_range.mp ht)]
  have hk : k.map UInt32.toNat = (List.range 64).map fun t => (k.getD t 0).toNat := by
    decide +kernel
  rw [scheduleSums, hwords, extend_eq block le_rfl, List.reverse_reverse, hk, List.zipWith_map,
    List.zipWith_self]
  rfl

/-- A block of zeros has a schedule of zeros. -/
theorem schedule_zeros (t : ℕ) : schedule (List.replicate 64 0) t = 0 := by
  induction t using Nat.strong_induction_on with
  | _ t ih =>
    by_cases h : t < 16
    · rw [schedule_of_lt h]
      have hword : ∀ i < 16, word (List.replicate 64 0) i = 0 := by decide
      exact hword t h
    · rw [schedule_of_le (not_lt.mp h), ih (t - 2) (by omega), ih (t - 7) (by omega),
        ih (t - 15) (by omega), ih (t - 16) (by omega)]
      rfl

end Eval

/-- The compression function, on numerals. -/
def eval (s : State) (block : Bytes) : State :=
  s.pass (Eval.compress State.ofNats (scheduleSums block))

/-- The compression of `n` blocks of zeros, on numerals. -/
def evalZeros (n : ℕ) (s : State) : State :=
  s.pass (Eval.repeated State.ofNats (k.map UInt32.toNat) n)

/-- **The evaluator computes the compression function.** -/
theorem compress_eq_eval (s : State) (block : Bytes) : compress s block = eval s block := by
  rw [eval, scheduleSums_eq, Eval.compress_eq, State.pass_ofNats]
  rfl

theorem pass_repeated (n : ℕ) (s : State) :
    s.pass (Eval.repeated State.ofNats (k.map UInt32.toNat) n)
      = (fun s => compress s (List.replicate 64 0))^[n] s := by
  induction n generalizing s with
  | zero => exact State.pass_ofNats s
  | succ n ih =>
    have hk : k.map UInt32.toNat
        = (List.range 64).map fun t => (k.getD t 0).toNat
            + (schedule (List.replicate 64 0) t).toNat := by
      simp only [schedule_zeros]
      decide +kernel
    rw [Function.iterate_succ_apply, ← ih]
    show s.pass (Eval.compress _ _) = _
    rw [hk, Eval.compress_eq]
    rfl

/-- **It hashes runs of zeros.** -/
theorem iterate_zeros_eq_eval (n : ℕ) (s : State) :
    BlockHash.iterate 64 compress s (List.replicate (64 * n) 0) = evalZeros n s := by
  rw [evalZeros, pass_repeated, BlockHash.iterate_replicate (by decide)]

/-- The last block of a message that ends in `tail`, where `n` is the length of the message. -/
def lastBlock (tail : Bytes) (n : ℕ) : Bytes :=
  tail ++ 0x80 :: List.replicate (55 - tail.length) 0 ++ ofNatBE 8 (8 * n)

/-- A message with whole blocks in front and room for the padding in its last one. -/
theorem sha256_append {m tail : Bytes} (hm : 64 ∣ m.length) (htail : tail.length < 56) :
    sha256 (m ++ tail) = (compress (BlockHash.iterate 64 compress State.initial m)
      (lastBlock tail (m ++ tail).length)).digest := by
  have hmod : (119 - (m ++ tail).length % 64) % 64 = 55 - tail.length := by
    rw [List.length_append]
    omega
  have hpad : pad (m ++ tail) = m ++ lastBlock tail (m ++ tail).length := by
    rw [pad, hmod, lastBlock]
    simp only [List.append_assoc]
  have hlen : (lastBlock tail (m ++ tail).length).length = 64 := by
    simp [lastBlock]
    omega
  rw [sha256, hpad, BlockHash.iterate_append (by decide) hm,
    BlockHash.iterate_block (by decide) hlen]

example : sha256 (ascii "abc")
    = [0xba, 0x78, 0x16, 0xbf, 0x8f, 0x01, 0xcf, 0xea, 0x41, 0x41, 0x40, 0xde, 0x5d, 0xae, 0x22,
      0x23, 0xb0, 0x03, 0x61, 0xa3, 0x96, 0x17, 0x7a, 0x9c, 0xb4, 0x10, 0xff, 0x61, 0xf2, 0x00,
      0x15, 0xad] := by
  have h : sha256 ([] ++ ascii "abc") = _ := sha256_append ⟨0, rfl⟩ (by decide)
  rw [List.nil_append, BlockHash.iterate_of_lt (by decide), compress_eq_eval] at h
  rw [h]
  decide +kernel

/-- **A message of one block, a run of zeros and a short rest**, on numerals. -/
theorem sha256_zeros_eq_eval {block tail : Bytes} (hblock : block.length = 64) (n : ℕ)
    (htail : tail.length < 56) :
    sha256 (block ++ List.replicate (64 * n) 0 ++ tail)
      = (eval (evalZeros n (eval State.initial block))
          (lastBlock tail (64 + 64 * n + tail.length))).digest := by
  have hm : (block ++ List.replicate (64 * n) 0).length = 64 + 64 * n := by
    rw [List.length_append, hblock, List.length_replicate]
  rw [sha256_append (by rw [hm]; omega) htail, compress_eq_eval,
    BlockHash.iterate_append (by decide) (by rw [hblock]),
    BlockHash.iterate_block (by decide) hblock,
    iterate_zeros_eq_eval, compress_eq_eval, List.length_append, hm]

end Sha256
