import Eipc.Lib.Machine
import Eipc.RingBuffer

/-!
# The ring buffer is a bounded queue

`RingBuffer.ring` is the ring buffer with its two calls, and `RingBuffer.queue`
is what it is for: a queue of frames that holds no more than a given number of
them, refuses a frame that is too large for a slot, and gives the frames back in
order and without their MAC.

A call on the ring is answered as the queue answers it
(`RingBuffer.Represents.step`), wherever the counters stand and whatever was left
behind in the slots, so the two answer every run alike. Along the way the number
of unread frames is what `Len` says, and no call looks outside the buffer
(`RingBuffer.bounded_fifo`). All this is up to the `2 ^ 64`-th write.
-/

open Bytes Frame

namespace RingBuffer

/-- A call on a ring buffer. -/
inductive Op where
  | write (f : Frame)
  | read

/-- What a call returns. -/
inductive Answer where
  | write (result : Except ShmError Unit)
  | read (result : Except ShmError (Option Frame))

namespace Answer

/-- A frame was written. -/
def wrote : Answer → Bool
  | .write (.ok ()) => true
  | _ => false

/-- A frame was read. -/
def took : Answer → Bool
  | .read (.ok (some _)) => true
  | _ => false

end Answer

/-- The ring buffer and its two calls. -/
def ring : Machine RingBuffer Op Answer where
  step rb
    | .write f => (.write (rb.write f).1, (rb.write f).2)
    | .read => (.read rb.read.1, rb.read.2)

/-- **What the ring buffer is for**: a queue of at most `capacity` frames, each of
which has to fit `slotSize` bytes with its preamble and the two length bytes. -/
def queue (capacity slotSize : ℕ) : Machine (List Frame) Op Answer where
  step q
    | .write f =>
      if slotSize < 18 + f.header.length + f.payload.length then
        (.write (.error (.frameTooLarge (16 + f.header.length + f.payload.length)
          (slotSize - 2))), q)
      else if capacity ≤ q.length then (.write (.error .full), q)
      else (.write (.ok ()), q ++ [f])
    | .read =>
      match q with
      | [] => (.read (.ok none), [])
      | f :: q => (.read (.ok (some f.withoutMac)), q)

/-- The parts of the buffer that a call indexes or slices, each from its first
index to the one behind its last. A call that returns early gets to none. -/
def accesses (rb : RingBuffer) : Op → List (ℕ × ℕ)
  | .write f =>
    let data := f.signableBytes
    let offset := rb.index rb.head * rb.slotSize
    if (data.length : ℤ) > rb.slotSize - 2 then []
    else if rb.head - rb.tail ≥ UInt64.ofNat rb.slots then []
    else [(offset, offset + 1), (offset + 1, offset + 2), (offset + 2, offset + 2 + data.length)]
  | .read =>
    let offset := rb.index rb.tail * rb.slotSize
    let length := (rb.buf.getD offset 0).toNat <<< 8 ||| (rb.buf.getD (offset + 1) 0).toNat
    if rb.tail ≥ rb.head then []
    else [(offset, offset + 1), (offset + 1, offset + 2)]
      ++ if (length : ℤ) > rb.slotSize - 2 then [] else [(offset + 2, offset + 2 + length)]

/-- Header and payload are within the limit of a frame. -/
def Sized (f : Frame) : Prop := f.header.length + f.payload.length ≤ maxFrameSize

variable {rb : RingBuffer} {r : ℕ} {q : List Frame} {f : Frame}

/-! ## One call -/

/-- A call changes neither the number of slots nor their size. -/
theorem step_slots (rb : RingBuffer) (op : Op) :
    (ring.step rb op).2.slots = rb.slots ∧ (ring.step rb op).2.slotSize = rb.slotSize := by
  cases op with
  | write f =>
    show (rb.write f).2.slots = _ ∧ (rb.write f).2.slotSize = _
    rcases rb.write_cases f with ⟨-, hw⟩ | ⟨-, -, hw⟩ | ⟨-, -, _, hw⟩ <;> rw [hw] <;>
      exact ⟨rfl, rfl⟩
  | read =>
    show rb.read.2.slots = _ ∧ rb.read.2.slotSize = _
    unfold read
    dsimp only
    split
    · exact ⟨rfl, rfl⟩
    · split
      · exact ⟨rfl, rfl⟩
      · split <;> exact ⟨rfl, rfl⟩

/-- **A refused frame changes nothing.** -/
theorem write_of_ne_ok (h : (rb.write f).1 ≠ .ok ()) : (rb.write f).2 = rb := by
  rcases rb.write_cases f with ⟨-, hw⟩ | ⟨-, -, hw⟩ | ⟨-, -, _, hw⟩
  · rw [hw]
  · rw [hw]
  · rw [hw] at h
    exact absurd rfl h

/-- **A call on the ring is answered as the queue answers it**, and the ring goes
on representing the queue. -/
theorem Represents.step (h : Represents rb r (q.map signableBytes)) (hq : ∀ f ∈ q, Sized f)
    (op : Op) (hop : ∀ f, op = .write f → Sized f)
    (hcount : (ring.step rb op).1.wrote → r + q.length + 1 < 2 ^ 64) :
    (ring.step rb op).1 = ((queue rb.slots rb.slotSize).step q op).1
      ∧ Represents (ring.step rb op).2 (r + (ring.step rb op).1.took.toNat)
        (((queue rb.slots rb.slotSize).step q op).2.map signableBytes)
      ∧ ((queue rb.slots rb.slotSize).step q op).2.length + (ring.step rb op).1.took.toNat
        = q.length + (ring.step rb op).1.wrote.toNat
      ∧ ∀ f ∈ ((queue rb.slots rb.slotSize).step q op).2, Sized f := by
  have hunread := h.toNat_sub
  rw [List.length_map] at hunread
  cases op with
  | write f =>
    have hf := hop f rfl
    have hlen : f.signableBytes.length = 16 + f.header.length + f.payload.length :=
      length_signableBytes hf
    have hstep : ring.step rb (.write f) = (.write (rb.write f).1, (rb.write f).2) := rfl
    have hqueue : (queue rb.slots rb.slotSize).step q (.write f)
        = if rb.slotSize < 18 + f.header.length + f.payload.length then
            (.write (.error (.frameTooLarge (16 + f.header.length + f.payload.length)
              (rb.slotSize - 2))), q)
          else if rb.slots ≤ q.length then (.write (.error .full), q)
          else (.write (.ok ()), q ++ [f]) := rfl
    rcases rb.write_cases f with ⟨hlarge, hw⟩ | ⟨hfits, hfull, hw⟩ | ⟨hfits, hfree, hbuf, hw⟩
    · rw [hstep, hqueue, hw, if_pos (by omega), hlen]
      exact ⟨rfl, h, rfl, hq⟩
    · rw [hstep, hqueue, hw, if_neg (by omega), if_pos (by omega)]
      exact ⟨rfl, h, rfl, hq⟩
    · have hok : (rb.write f).1 = .ok () := by rw [hw]
      have hrep : Represents (rb.write f).2 r ((q ++ [f]).map signableBytes) := by
        rw [List.map_append]
        refine (h.write hok).2.1 ?_
        rw [List.length_map]
        refine hcount ?_
        rw [hstep, hok]
        rfl
      rw [hstep, hqueue, hok, if_neg (by omega), if_neg (by omega)]
      exact ⟨rfl, hrep, List.length_append,
        List.forall_mem_append.mpr ⟨hq, List.forall_mem_singleton.mpr hf⟩⟩
  | read =>
    have hstep : ring.step rb .read = (.read rb.read.1, rb.read.2) := rfl
    cases q with
    | nil =>
      rw [hstep, h.read_nil]
      exact ⟨rfl, h, rfl, hq⟩
    | cons f q =>
      obtain ⟨hf, hq⟩ := List.forall_mem_cons.mp hq
      obtain ⟨hread, hrep⟩ := Represents.read_frame hf h
      rw [hstep, hread]
      exact ⟨rfl, hrep, rfl, hq⟩

/-- A slot and what is before it are inside the buffer. -/
theorem index_mul_add_le (rb : RingBuffer) (counter : UInt64) :
    rb.index counter * rb.slotSize + rb.slotSize ≤ rb.buf.length := by
  rw [rb.length_buf]
  exact Ring.slot_le (rb.index_lt counter)

/-- **No call looks outside the buffer.** `Read` looks at the two length bytes
without a check, but only where a record was written, and those bytes are part of
it. -/
theorem Represents.le_length_buf (h : Represents rb r (q.map signableBytes)) {op : Op} {p : ℕ × ℕ}
    (hmem : p ∈ rb.accesses op) : p.1 ≤ p.2 ∧ p.2 ≤ rb.buf.length := by
  cases op with
  | write f =>
    have hslot := rb.index_mul_add_le rb.head
    dsimp only [accesses] at hmem
    split at hmem
    · exact absurd hmem List.not_mem_nil
    · next hfits =>
      split at hmem
      · exact absurd hmem List.not_mem_nil
      · simp only [List.mem_cons, List.not_mem_nil, or_false] at hmem
        rcases hmem with rfl | rfl | rfl <;> refine ⟨?_, ?_⟩ <;> dsimp only <;> omega
  | read =>
    have hslot := rb.index_mul_add_le rb.tail
    dsimp only [accesses] at hmem
    split at hmem
    · exact absurd hmem List.not_mem_nil
    · next hnonempty =>
      have hroom : 2 ≤ rb.slotSize := by
        cases q with
        | nil =>
          refine absurd (UInt64.le_iff_toNat_le.mpr ?_) hnonempty
          rw [h.head, h.tail]
          exact le_rfl
        | cons f q =>
          have hstored := h.holds.pop.1.length_le
          rw [length_slotRecord] at hstored
          omega
      rcases List.mem_append.mp hmem with hmem | hmem
      · simp only [List.mem_cons, List.not_mem_nil, or_false] at hmem
        rcases hmem with rfl | rfl <;> refine ⟨?_, ?_⟩ <;> dsimp only <;> omega
      · split at hmem
        · exact absurd hmem List.not_mem_nil
        · next hfits =>
          obtain rfl := List.mem_singleton.mp hmem
          refine ⟨Nat.le_add_right _ _, ?_⟩
          dsimp only
          omega

/-! ## Runs -/

theorem countP_cons_toNat {α : Type} (p : α → Bool) (a : α) (l : List α) :
    (a :: l).countP p = (p a).toNat + l.countP p := by
  rw [List.countP_cons, Nat.add_comm]
  cases p a <;> rfl

/-- **The ring is the queue along a run**, and the frames that are in it are those
that were written and not read. -/
theorem Represents.run {ops : List Op} (h : Represents rb r (q.map signableBytes))
    (hq : ∀ f ∈ q, Sized f) (hops : ∀ f, .write f ∈ ops → Sized f)
    (hcount : r + q.length + (ring.answers rb ops).countP Answer.wrote < 2 ^ 64) :
    ring.answers rb ops = (queue rb.slots rb.slotSize).answers q ops
      ∧ Represents (ring.after rb ops) (r + (ring.answers rb ops).countP Answer.took)
        (((queue rb.slots rb.slotSize).after q ops).map signableBytes)
      ∧ ((queue rb.slots rb.slotSize).after q ops).length
          + (ring.answers rb ops).countP Answer.took
        = q.length + (ring.answers rb ops).countP Answer.wrote := by
  induction ops generalizing rb r q with
  | nil => exact ⟨rfl, h, rfl⟩
  | cons op ops ih =>
    rw [Machine.answers_cons, countP_cons_toNat] at hcount
    obtain ⟨hans, hrep, hlen, hsized⟩ := h.step hq op
      (fun f hf => hops f (hf ▸ List.mem_cons_self)) (fun hwrote => by
        rw [hwrote, Bool.toNat_true] at hcount
        omega)
    obtain ⟨hslots, hsize⟩ := step_slots rb op
    have hrest := ih hrep hsized (fun f hf => hops f (List.mem_cons_of_mem op hf)) (by omega)
    rw [hslots, hsize] at hrest
    obtain ⟨hrun, hend, htotal⟩ := hrest
    rw [Machine.answers_cons, Machine.answers_cons, Machine.after_cons, Machine.after_cons,
      countP_cons_toNat, countP_cons_toNat, ← hans, ← hrun]
    refine ⟨rfl, ?_, ?_⟩
    · rw [← Nat.add_assoc]
      exact hend
    · omega

/-- A ring of three slots of 21 bytes. -/
def smallRing : ShmConfig := ⟨64, 3, by norm_num, by norm_num⟩

/-- A frame with a header of one byte and a payload of two, and a MAC. -/
def smallFrame (n : UInt8) : Frame := ⟨1, 0x69, 1, [n], [n, n], List.replicate 32 n⟩

/-- **The ring buffer is a bounded queue of frames.** Along every run of writes
and reads in which fewer than `2 ^ 64` frames are written, none of them larger
than a frame may be, it answers as a queue does that holds as many frames as there
are slots. After the run `Len` is the number of frames that were written and not
read, and it is at most the number of slots; a write that is refused then changes
nothing; and no call indexes the buffer outside its bounds. -/
theorem bounded_fifo (cfg : ShmConfig) (ops : List Op) (hsize : ∀ f, .write f ∈ ops → Sized f)
    (hcount : (ring.answers (new cfg) ops).countP Answer.wrote < 2 ^ 64) :
    let answers := ring.answers (new cfg) ops
    let rb := ring.after (new cfg) ops
    let q := queue (slotCountOf cfg) (slotSizeOf cfg)
    answers = q.answers [] ops
      ∧ rb.len = (q.after [] ops).length
      ∧ rb.len + answers.countP Answer.took = answers.countP Answer.wrote
      ∧ rb.len ≤ slotCountOf cfg
      ∧ (∀ f, (rb.write f).1 ≠ .ok () → (rb.write f).2 = rb)
      ∧ ∀ op, ∀ p ∈ rb.accesses op, p.1 ≤ p.2 ∧ p.2 ≤ rb.buf.length := by
  intro answers rb q
  obtain ⟨hans, hrep, htotal⟩ := Represents.run (q := []) (represents_new cfg)
    (fun _ h => (nomatch h)) hsize (by
      rw [List.length_nil, Nat.zero_add]
      exact hcount)
  rw [List.length_nil, Nat.zero_add] at htotal
  have hlen : rb.len = (q.after [] ops).length := by
    rw [← List.length_map signableBytes]
    exact hrep.toNat_sub
  have hslots : rb.slots = slotCountOf cfg := Machine.after_invariant
    (I := fun rb => rb.slots = slotCountOf cfg) (fun rb op h => (step_slots rb op).1.trans h)
    (s := new cfg) rfl ops
  refine ⟨hans, hlen, hlen ▸ htotal, ?_, fun f => write_of_ne_ok, fun op p => hrep.le_length_buf⟩
  rw [hlen, ← hslots, ← List.length_map signableBytes]
  exact hrep.holds.length_le

/-- A run around a ring of three slots, with a frame refused on the way. -/
theorem bounded_fifo_smallRing :
    let ops : List Op := [.write (smallFrame 1), .write (smallFrame 2), .read,
      .write (smallFrame 3), .write (smallFrame 4), .write (smallFrame 5), .read, .read]
    ring.answers (new smallRing) ops
        = [.write (.ok ()), .write (.ok ()), .read (.ok (some (smallFrame 1).withoutMac)),
          .write (.ok ()), .write (.ok ()), .write (.error .full),
          .read (.ok (some (smallFrame 2).withoutMac)),
          .read (.ok (some (smallFrame 3).withoutMac))]
      ∧ (ring.after (new smallRing) ops).len = 1 := by
  intro ops
  have hsize : ∀ f, Op.write f ∈ ops → Sized f := by
    intro f hf
    simp only [ops, List.mem_cons, Op.write.injEq, reduceCtorEq, List.not_mem_nil, or_false,
      false_or] at hf
    rcases hf with rfl | rfl | rfl | rfl | rfl <;> show 1 + 2 ≤ maxFrameSize <;> decide
  obtain ⟨hans, hlen, -⟩ := bounded_fifo smallRing ops hsize (by decide +kernel)
  exact ⟨hans.trans rfl, hlen.trans rfl⟩

end RingBuffer
