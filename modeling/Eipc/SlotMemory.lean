import Eipc.Lib.Sha256
import Eipc.RingQueue

/-!
# The ring buffer and the memory of its slots

What `Read` makes of a slot depends on the bytes that are in it, and these need not be
those that `Write` left: the memory is shared. This module is about `Read` on every
content of the memory (`RingBuffer.read_cases`), and about the writes that leave a slot
which cannot be read.

Nothing is read outside the buffer, whatever the bytes say. Three promises are kept only
in part:

* A slot whose length bytes exceed the slot is an error that leaves the tail where it
  was, unlike the error for a slot that is too short. So it is met again by every call
  (`RingBuffer.read_advances_iff`).
* `SetHMACKey` says that frames are signed and verified, and neither `Write` nor `Read`
  looks at the key (`RingBuffer.read_signed_iff`).
* `SignableBytes` is empty for a frame above `MaxFrameSize`, and the empty list fits
  every slot of two bytes (`RingBuffer.write_kept_iff`).
-/

open Bytes Frame

namespace RingBuffer

/-! ## The slot that is read next -/

/-- Where the slot starts. -/
def slotStart (rb : RingBuffer) : ℕ := rb.index rb.tail * rb.slotSize

/-- What its length bytes say. -/
def slotLength (rb : RingBuffer) : ℕ :=
  (rb.buf.getD rb.slotStart 0).toNat <<< 8 ||| (rb.buf.getD (rb.slotStart + 1) 0).toNat

/-- The data behind the length bytes. -/
def slotData (rb : RingBuffer) : Bytes :=
  rb.buf.slice (rb.slotStart + 2) (rb.slotStart + 2 + rb.slotLength)

/-- All bytes of the slot. -/
def slotBytes (rb : RingBuffer) : Bytes := rb.buf.slice rb.slotStart (rb.slotStart + rb.slotSize)

/-- **What `Read` can do**, whatever is in the memory. -/
theorem read_cases (rb : RingBuffer) :
    (rb.head ≤ rb.tail ∧ rb.read = (.ok none, rb))
      ∨ (rb.tail < rb.head ∧ rb.slotSize < rb.slotLength + 2
        ∧ rb.read = (.error (.invalidSlotLength rb.slotLength), rb))
      ∨ (rb.tail < rb.head ∧ rb.slotLength + 2 ≤ rb.slotSize ∧ rb.slotLength < frameFixedSize
        ∧ rb.read = (.error (.slotTooShort rb.slotLength), { rb with tail := rb.tail + 1 }))
      ∨ (rb.tail < rb.head ∧ rb.slotLength + 2 ≤ rb.slotSize ∧ frameFixedSize ≤ rb.slotLength
        ∧ rb.read = (.ok (some (parseSlot rb.slotData)), { rb with tail := rb.tail + 1 })) := by
  by_cases hempty : rb.tail ≥ rb.head
  · exact .inl ⟨hempty, if_pos hempty⟩
  · have hunread : rb.tail < rb.head := UInt64.not_le.mp hempty
    have hread : rb.read = if (rb.slotLength : ℤ) > rb.slotSize - 2 then
          (.error (.invalidSlotLength rb.slotLength), rb)
        else if rb.slotLength < frameFixedSize then
          (.error (.slotTooShort rb.slotLength), { rb with tail := rb.tail + 1 })
        else (.ok (some (parseSlot rb.slotData)), { rb with tail := rb.tail + 1 }) := if_neg hempty
    by_cases hlong : (rb.slotLength : ℤ) > rb.slotSize - 2
    · exact .inr (.inl ⟨hunread, by omega, hread.trans (if_pos hlong)⟩)
    · rw [if_neg hlong] at hread
      by_cases hshort : rb.slotLength < frameFixedSize
      · exact .inr (.inr (.inl ⟨hunread, by omega, hshort, hread.trans (if_pos hshort)⟩))
      · exact .inr (.inr (.inr ⟨hunread, by omega, not_lt.mp hshort,
          hread.trans (if_neg hshort)⟩))

/-! ## The memory is shared -/

/-- What can happen to a ring buffer: a call, a key that is set, or a byte of the memory
that somebody overwrites. -/
inductive Move where
  | call (op : Op)
  | setHMACKey (key : Bytes)
  | overwrite (i : ℕ) (b : UInt8)

/-- The ring buffer with a byte overwritten. -/
def overwriteByte (rb : RingBuffer) (i : ℕ) (b : UInt8) : RingBuffer :=
  { rb with
    buf := rb.buf.set i b
    length_buf := List.length_set.trans rb.length_buf }

/-- The ring buffer over shared memory. Only calls are answered. -/
def shared : Machine RingBuffer Move (Option Answer) where
  step rb
    | .call op => (some (ring.step rb op).1, (ring.step rb op).2)
    | .setHMACKey key => (none, rb.setHMACKey key)
    | .overwrite i b => (none, rb.overwriteByte i b)

/-- The parts of a slot's data that `Read` indexes or slices. -/
def dataAccesses (data : Bytes) : List (ℕ × ℕ) :=
  let byte (i : ℕ) : UInt8 := data.getD i 0
  let headerLen := (load32 (byte 8) (byte 9) (byte 10) (byte 11)).toNat
  let payloadLen := (load32 (byte 12) (byte 13) (byte 14) (byte 15)).toNat
  let takesHeader := headerLen > 0 ∧ frameFixedSize + headerLen ≤ data.length
  let pos := if takesHeader then frameFixedSize + headerLen else frameFixedSize
  if data.length < frameFixedSize then []
  else (List.range' 4 12).map (fun i => (i, i + 1))
    ++ (if takesHeader then [(frameFixedSize, frameFixedSize + headerLen)] else [])
    ++ if payloadLen > 0 ∧ pos + payloadLen ≤ data.length then [(pos, pos + payloadLen)] else []

/-- `Read` looks neither outside the buffer nor outside the data that it copied. -/
structure ReadsInside (rb : RingBuffer) : Prop where
  buffer : ∀ p ∈ rb.accesses .read, p.1 ≤ p.2 ∧ p.2 ≤ rb.buf.length
  data : rb.slotLength + 2 ≤ rb.slotSize →
    ∀ p ∈ dataAccesses rb.slotData, p.1 ≤ p.2 ∧ p.2 ≤ rb.slotData.length

/-- There are slots of two bytes and more, unless nothing was ever written. -/
def Roomy (rb : RingBuffer) : Prop := 2 ≤ rb.slotSize ∨ (rb.head = 0 ∧ rb.tail = 0)

theorem roomy_step (rb : RingBuffer) (i : Move) (h : Roomy rb) : Roomy (shared.step rb i).2 := by
  cases i with
  | setHMACKey key => exact h
  | overwrite i b => exact h
  | call op =>
    cases op with
    | write f =>
      show Roomy (rb.write f).2
      rcases rb.write_cases f with ⟨-, hw⟩ | ⟨-, -, hw⟩ | ⟨hfits, -, _, hw⟩
      · rwa [hw]
      · rwa [hw]
      · rw [hw]
        exact .inl ((Nat.le_add_left 2 _).trans hfits)
    | read =>
      show Roomy rb.read.2
      rcases rb.read_cases with ⟨-, hr⟩ | ⟨-, -, hr⟩ | ⟨-, hfits, -, hr⟩ | ⟨-, hfits, -, hr⟩
      · rwa [hr]
      · rwa [hr]
      · rw [hr]
        exact .inl ((Nat.le_add_left 2 _).trans hfits)
      · rw [hr]
        exact .inl ((Nat.le_add_left 2 _).trans hfits)

/-- A slot that is to be read has its two length bytes. -/
theorem two_le_slotSize (cfg : ShmConfig) (moves : List Move)
    (hunread : (shared.after (new cfg) moves).tail < (shared.after (new cfg) moves).head) :
    2 ≤ (shared.after (new cfg) moves).slotSize := by
  rcases Machine.after_invariant (m := shared) roomy_step (s := new cfg) (.inr ⟨rfl, rfl⟩) moves
    with hroom | ⟨hhead, htail⟩
  · exact hroom
  · rw [hhead, htail] at hunread
    exact absurd hunread (UInt64.lt_irrefl 0)

/-! ## No access out of range -/

/-- A part that is taken only where it fits is inside. -/
theorem le_of_mem_taken {i n len : ℕ} {p : ℕ × ℕ}
    (h : p ∈ if n > 0 ∧ i + n ≤ len then [(i, i + n)] else []) : p.1 ≤ p.2 ∧ p.2 ≤ len := by
  split at h
  · next hfits =>
    obtain rfl := List.mem_singleton.mp h
    exact ⟨Nat.le_add_right _ _, hfits.2⟩
  · exact absurd h List.not_mem_nil

theorem le_length_of_mem_dataAccesses {data : Bytes} {p : ℕ × ℕ} (h : p ∈ dataAccesses data) :
    p.1 ≤ p.2 ∧ p.2 ≤ data.length := by
  unfold dataAccesses at h
  by_cases hlen : data.length < frameFixedSize
  · rw [if_pos hlen] at h
    exact absurd h List.not_mem_nil
  · rw [if_neg hlen] at h
    have hfixed : frameFixedSize = 16 := rfl
    rcases List.mem_append.mp h with h | h
    · rcases List.mem_append.mp h with h | h
      · obtain ⟨i, hi, rfl⟩ := List.mem_map.mp h
        have hlt := (List.mem_range'_1.mp hi).2
        exact ⟨Nat.le_succ i, by dsimp only; omega⟩
      · exact le_of_mem_taken h
    · exact le_of_mem_taken h

theorem readsInside_of_two_le {rb : RingBuffer} (hroom : 2 ≤ rb.slotSize) : ReadsInside rb where
  buffer p hp := by
    have hslot := rb.index_mul_add_le rb.tail
    dsimp only [accesses] at hp
    split at hp
    · exact absurd hp List.not_mem_nil
    · rcases List.mem_append.mp hp with hp | hp
      · simp only [List.mem_cons, List.not_mem_nil, or_false] at hp
        rcases hp with rfl | rfl <;> refine ⟨?_, ?_⟩ <;> dsimp only <;> omega
      · split at hp
        · exact absurd hp List.not_mem_nil
        · next hfits =>
          obtain rfl := List.mem_singleton.mp hp
          refine ⟨Nat.le_add_right _ _, ?_⟩
          dsimp only
          omega
  data _ p hp := le_length_of_mem_dataAccesses hp

/-- **When `Read` gets past a slot.** On a ring over shared memory with an unread slot,
`Read` stays inside the buffer; and it advances the tail by one exactly if the length
bytes of the slot do not exceed what the slot has room for. -/
theorem read_advances_iff (cfg : ShmConfig) (moves : List Move) :
    let rb := shared.after (new cfg) moves
    rb.tail < rb.head →
      (ReadsInside rb ∧ rb.read.2.tail = rb.tail + 1 ↔ rb.slotLength + 2 ≤ rb.slotSize) := by
  intro rb hunread
  have hinside := readsInside_of_two_le (two_le_slotSize cfg moves hunread)
  have hne : rb.tail ≠ rb.tail + 1 := fun h =>
    absurd (UInt64.add_eq_left.mp h.symm) (by decide)
  rcases rb.read_cases with ⟨hempty, -⟩ | ⟨-, hlong, hr⟩ | ⟨-, hfits, -, hr⟩ | ⟨-, hfits, -, hr⟩
  · exact absurd hunread (UInt64.not_lt.mpr hempty)
  · rw [hr]
    exact ⟨fun h => absurd h.2 hne, fun h => absurd h (not_le.mpr hlong)⟩
  · rw [hr]
    exact ⟨fun _ => hfits, fun _ => ⟨hinside, rfl⟩⟩
  · rw [hr]
    exact ⟨fun _ => hfits, fun _ => ⟨hinside, rfl⟩⟩

/-- A slot as it was written is passed. -/
theorem read_advances_iff_written :
    let rb := shared.after (new smallRing) [.call (.write (smallFrame 1))]
    rb.tail < rb.head ∧ ReadsInside rb ∧ rb.read.2.tail = rb.tail + 1 := by
  refine ⟨?_, (read_advances_iff smallRing [.call (.write (smallFrame 1))] ?_).mpr ?_⟩
  · decide +kernel
  · decide +kernel
  · decide +kernel

/-- A call of `Read` that leaves the ring as it is fails again, however often. -/
theorem answers_replicate_read {rb : RingBuffer} {err : ShmError} (h : rb.read = (.error err, rb))
    (n : ℕ) :
    ring.answers rb (List.replicate n .read) = List.replicate n (.read (.error err)) := by
  have hstep : ring.step rb .read = (.read (.error err), rb) := by
    show (Answer.read rb.read.1, rb.read.2) = _
    rw [h]
  induction n with
  | zero => rfl
  | succ n ih =>
    rw [List.replicate_succ, List.replicate_succ, Machine.answers_cons, hstep, ih]

/-- **A corrupt slot blocks the ring.** Two frames are written and the first length byte
of the first is overwritten. Then no call of `Read` ever gets to the second. -/
theorem read_blocked :
    let rb := shared.after (new smallRing)
      [.call (.write (smallFrame 1)), .call (.write (smallFrame 2)), .overwrite 0 0xff]
    rb.tail < rb.head ∧ rb.read.2.tail ≠ rb.tail + 1
      ∧ ∀ n, ring.answers rb (List.replicate n .read)
        = List.replicate n (.read (.error (.invalidSlotLength 0xff13))) := by
  intro rb
  have hunread : rb.tail < rb.head := by decide +kernel
  have hlength : rb.slotLength = 0xff13 := by decide +kernel
  have hsize : rb.slotSize = 21 := rfl
  have hread : rb.read = (.error (.invalidSlotLength 0xff13), rb) := by
    rcases rb.read_cases with ⟨hempty, -⟩ | ⟨-, -, hr⟩ | ⟨-, hfits, -⟩ | ⟨-, hfits, -⟩
    · exact absurd hunread (UInt64.not_lt.mpr hempty)
    · rw [hr, hlength]
    · omega
    · omega
  refine ⟨hunread, ?_, answers_replicate_read hread⟩
  rw [hread]
  decide +kernel

/-! ## Nothing is verified -/

/-- The ring buffer with another content of its memory. -/
def withMemory (rb : RingBuffer) (mem : Bytes) (h : mem.length = rb.slots * rb.slotSize) :
    RingBuffer :=
  { rb with buf := mem, length_buf := h }

/-- The slot that is read next carries the HMAC-SHA256 of the frame under the key of the
ring, at whatever place. -/
def Signed (rb : RingBuffer) (f : Frame) : Prop :=
  hmacSha256 rb.hmacKey f.signableBytes <:+: rb.slotBytes

/-- A text that ends in another byte is not part of what ends in a run of `c`, if it is
longer than what comes before the run. -/
theorem not_infix_append_replicate {h a : Bytes} {c x : UInt8} {n : ℕ} (hlen : a.length < h.length)
    (hlast : h[h.length - 1]? = some x) (hne : x ≠ c) : ¬h <:+: a ++ List.replicate n c := by
  rintro ⟨s, t, heq⟩
  have hleft : (s ++ h ++ t)[s.length + (h.length - 1)]? = some x := by
    rw [List.append_assoc, List.getElem?_append_right (Nat.le_add_right _ _),
      Nat.add_sub_cancel_left, List.getElem?_append_left (by omega), hlast]
  rw [heq, List.getElem?_append_right (by omega), List.getElem?_replicate] at hleft
  split at hleft
  · exact hne (Option.some.inj hleft).symm
  · exact (nomatch hleft)

/-- A memory whose slot `j` holds a record, followed by bytes `c`. -/
theorem slice_writeAt_replicate {n z j : ℕ} {rec : Bytes} (c : UInt8) (hj : j < n)
    (hrec : rec.length ≤ z) :
    slice (writeAt (List.replicate (n * z) c) (j * z) rec) (j * z) (j * z + z)
      = rec ++ List.replicate (z - rec.length) c := by
  have hslot := Ring.slot_le (z := z) hj
  have hlen : (List.replicate (n * z) c).length = n * z := List.length_replicate
  rw [← slice_append_slice _ (j := j * z + rec.length) (Nat.le_add_right _ _) (by omega),
    slice_writeAt (by omega), slice_writeAt_after (by omega) le_rfl, slice, List.drop_replicate,
    List.take_replicate, Nat.min_eq_left (by omega)]
  congr 2
  omega

/-- A frame of an all-zero preamble, in a slot that does not carry its HMAC. -/
theorem exists_read_not_signed (rb : RingBuffer) (hunread : rb.tail < rb.head)
    (hroom : 18 ≤ rb.slotSize) :
    ∃ mem hmem f, (rb.withMemory mem hmem).read.1 = .ok (some f)
      ∧ ¬Signed (rb.withMemory mem hmem) f := by
  let d : Bytes := List.replicate 16 0
  let tag : Bytes := hmacSha256 rb.hmacKey (parseSlot d).signableBytes
  -- the rest of the slot is filled with a byte that the HMAC does not end in
  let c : UInt8 := tag.getD 31 0 + 1
  have hd : d.length = 16 := List.length_replicate
  have htag : tag.length = 32 := length_hmacSha256 _ _
  have hrec : (slotRecord d).length = 18 := rfl
  have hindex := rb.index_lt rb.tail
  have hb : (List.replicate (rb.slots * rb.slotSize) c).length = rb.slots * rb.slotSize :=
    List.length_replicate
  have hoffset := Ring.slot_le (z := rb.slotSize) hindex
  let mem := writeAt (List.replicate (rb.slots * rb.slotSize) c) (rb.index rb.tail * rb.slotSize)
    (slotRecord d)
  have hmem : mem.length = rb.slots * rb.slotSize := (length_writeAt (by omega)).trans hb
  have hstored : Ring.StoredAt mem rb.slotSize (rb.index rb.tail) (slotRecord d) :=
    Ring.storedAt_writeAt hb hindex (by omega)
  obtain ⟨hhigh, hlow, hdata⟩ := read_slotRecord hstored
  have hlength : (rb.withMemory mem hmem).slotLength = 16 := by
    show (mem.getD (rb.index rb.tail * rb.slotSize) 0).toNat <<< 8
      ||| (mem.getD (rb.index rb.tail * rb.slotSize + 1) 0).toNat = 16
    rw [hhigh, hlow, hd]
    rfl
  have hslotData : (rb.withMemory mem hmem).slotData = d := by
    show mem.slice _ (_ + (rb.withMemory mem hmem).slotLength) = d
    rw [hlength]
    exact hdata
  refine ⟨mem, hmem, parseSlot d, ?_, ?_⟩
  · have hfixed : frameFixedSize = 16 := rfl
    rcases (rb.withMemory mem hmem).read_cases with
      ⟨hempty, -⟩ | ⟨-, hlong, -⟩ | ⟨-, -, hshort, -⟩ | ⟨-, -, -, hr⟩
    · exact absurd hunread (UInt64.not_lt.mpr hempty)
    · rw [hlength] at hlong
      exact absurd hlong (not_lt.mpr hroom)
    · omega
    · rw [hr, hslotData]
  · have hslot : (rb.withMemory mem hmem).slotBytes = slotRecord d ++ List.replicate _ c :=
      slice_writeAt_replicate c hindex (by omega)
    have hlast : tag[tag.length - 1]? = some (tag.getD 31 0) := by
      rw [htag, List.getD_eq_getElem?_getD, List.getElem?_eq_getElem (by omega)]
      rfl
    unfold Signed
    rw [hslot]
    refine not_infix_append_replicate (hrec.trans_lt (htag ▸ by decide)) hlast ?_
    exact fun h => absurd (UInt8.add_eq_left.mp h.symm) (by decide)

/-- **When `Read` returns only frames that the slot carries the HMAC of**, whatever is in
the memory and whatever key was set: only when it returns no frame at all, because
nothing is unread or because no frame fits the slots. -/
theorem read_signed_iff (rb : RingBuffer) (k : Bytes) :
    (∀ mem hmem f, ((rb.setHMACKey k).withMemory mem hmem).read.1 = .ok (some f) →
        Signed ((rb.setHMACKey k).withMemory mem hmem) f)
      ↔ rb.head ≤ rb.tail ∨ rb.slotSize < 18 := by
  constructor
  · intro h
    by_contra hcond
    obtain ⟨hunread, hroom⟩ := not_or.mp hcond
    obtain ⟨mem, hmem, f, hread, hunsigned⟩ := (rb.setHMACKey k).exists_read_not_signed
      (UInt64.not_le.mp hunread) (not_lt.mp hroom)
    exact hunsigned (h mem hmem f hread)
  · intro h mem hmem f hread
    have hfixed : frameFixedSize = 16 := rfl
    rcases ((rb.setHMACKey k).withMemory mem hmem).read_cases with
      ⟨-, hr⟩ | ⟨-, -, hr⟩ | ⟨-, -, -, hr⟩ | ⟨hunread, hfits, hlong, -⟩
    · rw [hr] at hread
      exact (nomatch hread)
    · rw [hr] at hread
      exact (nomatch hread)
    · rw [hr] at hread
      exact (nomatch hread)
    · rcases h with hempty | hsmall
      · exact absurd hunread (UInt64.not_lt.mpr hempty)
      · have hsize : ((rb.setHMACKey k).withMemory mem hmem).slotSize = rb.slotSize := rfl
        omega

/-- **A frame that was altered in the memory is returned.** A key is set, a frame is
written, and the last byte of its payload is overwritten. The slot is too small for an
HMAC. -/
theorem read_altered :
    let rb := shared.after (new smallRing)
      [.setHMACKey [0x6b], .call (.write (smallFrame 1)), .overwrite 20 7]
    ∃ f, rb.read.1 = .ok (some f) ∧ f.payload = [1, 7] ∧ ¬Signed rb f := by
  intro rb
  refine ⟨⟨1, 0x69, 1, [1], [1, 7], []⟩, by decide +kernel, rfl, fun hsigned => ?_⟩
  have hle := hsigned.length_le
  rw [length_hmacSha256, show rb.slotBytes.length = 21 by decide +kernel] at hle
  omega

/-! ## Frames that no slot can hold -/

/-- **A ring that was only called is a queue of slot data**, until its head wraps around;
then it is stuck. -/
theorem represents_or_stuck (cfg : ShmConfig) (ops : List Op) :
    (∃ r q, Represents (ring.after (new cfg) ops) r q) ∨ Stuck (ring.after (new cfg) ops) := by
  refine Machine.after_invariant (I := fun rb => (∃ r q, Represents rb r q) ∨ Stuck rb)
    (fun rb op h => ?_) (.inl ⟨0, [], represents_new cfg⟩) ops
  cases op with
  | write f =>
    show (∃ r q, Represents (rb.write f).2 r q) ∨ Stuck (rb.write f).2
    rcases h with ⟨r, q, hrep⟩ | hstuck
    · by_cases hok : (rb.write f).1 = .ok ()
      · obtain ⟨-, hnext, hlast⟩ := hrep.write hok
        rcases Nat.lt_or_eq_of_le (Nat.succ_le_of_lt hrep.lt) with hlt | heq
        · exact .inl ⟨r, _, hnext hlt⟩
        · exact .inr (hlast heq)
      · rw [write_of_ne_ok hok]
        exact .inl ⟨r, q, hrep⟩
    · exact .inr (hstuck.write f)
  | read =>
    show (∃ r q, Represents rb.read.2 r q) ∨ Stuck rb.read.2
    rcases h with ⟨r, q, hrep⟩ | hstuck
    · cases q with
      | nil =>
        rw [hrep.read_nil]
        exact .inl ⟨r, [], hrep⟩
      | cons d q =>
        obtain ⟨hread, hrest⟩ := hrep.read_cons
        rw [hread]
        exact .inl ⟨r + 1, q, hrest⟩
    · rw [hstuck.read]
      exact .inr hstuck

/-- A frame is read when all that was written before it has been read. -/
theorem Represents.read_last {rb : RingBuffer} {r : ℕ} {q : List Bytes} {f : Frame}
    (hf : Sized f) (h : Represents rb r (q ++ [f.signableBytes])) :
    (ring.after rb (List.replicate q.length .read)).read.1 = .ok (some f.withoutMac) := by
  induction q generalizing rb r with
  | nil => exact congrArg Prod.fst (Represents.read_frame hf h).1
  | cons d q ih =>
    obtain ⟨hread, hrest⟩ := Represents.read_cons h
    rw [List.length_cons, List.replicate_succ, Machine.after_cons]
    have hstep : (ring.step rb .read).2 = { rb with tail := rb.tail + 1 } :=
      congrArg Prod.snd hread
    rw [hstep]
    exact ih hrest

/-- Nothing is read of a stuck ring. -/
theorem Stuck.read_after {rb : RingBuffer} (h : Stuck rb) (n : ℕ) :
    (ring.after rb (List.replicate n .read)).read.1 = .ok none := by
  induction n with
  | zero => rw [List.replicate_zero, Machine.after_nil, h.read]
  | succ n ih =>
    have hstep : (ring.step rb .read).2 = rb := congrArg Prod.snd h.read
    rw [List.replicate_succ, Machine.after_cons, hstep]
    exact ih

/-- **When a frame that was accepted is read**: the head has not wrapped around, and does
not with it. -/
theorem read_later_iff (cfg : ShmConfig) (ops : List Op) {f : Frame} (hf : Sized f)
    (hok : ((ring.after (new cfg) ops).write f).1 = .ok ()) :
    let rb := ring.after (new cfg) ops
    (∃ n, (ring.after (rb.write f).2 (List.replicate n .read)).read.1 = .ok (some f.withoutMac))
      ↔ rb.tail ≤ rb.head ∧ rb.head.toNat + 1 < 2 ^ 64 := by
  intro rb
  rw [UInt64.le_iff_toNat_le]
  rcases represents_or_stuck cfg ops with ⟨r, q, hrep⟩ | hstuck
  · have hhead : rb.head.toNat = r + q.length := hrep.head
    have htail : rb.tail.toNat = r := hrep.tail
    have hlt := hrep.lt
    obtain ⟨-, hnext, hlast⟩ := hrep.write hok
    constructor
    · rintro ⟨n, hn⟩
      refine ⟨by omega, ?_⟩
      by_contra hend
      exact (nomatch ((hlast (by omega)).read_after n).symm.trans hn)
    · rintro ⟨-, hend⟩
      exact ⟨q.length, (hnext (by omega)).read_last hf⟩
  · refine iff_of_false ?_ fun ⟨hle, _⟩ => ?_
    · rintro ⟨n, hn⟩
      exact (nomatch ((hstuck.write f).read_after n).symm.trans hn)
    · have hunread : rb.head.toNat + 2 ^ 64 ≤ rb.tail.toNat + rb.slots := hstuck.unread_le
      have hslots := rb.slots_lt
      omega

/-- **When a write keeps its word**: a frame that does not fit a slot is refused and
changes nothing, and a frame that is not refused is read after those before it. -/
theorem write_kept_iff (cfg : ShmConfig) (ops : List Op) (f : Frame) :
    let rb := ring.after (new cfg) ops
    let size := 18 + f.header.length + f.payload.length
    ((rb.slotSize < size → ∃ err, rb.write f = (.error err, rb))
        ∧ ((rb.write f).1 = .ok () →
          ∃ n, (ring.after (rb.write f).2 (List.replicate n .read)).read.1
            = .ok (some f.withoutMac)))
      ↔ rb.slots ≤ rb.len ∨ rb.slotSize < 2
        ∨ (Sized f ∧ (rb.slotSize < size ∨ (rb.tail ≤ rb.head ∧ rb.head.toNat + 1 < 2 ^ 64))) := by
  intro rb size
  have hsize : size = 18 + f.header.length + f.payload.length := rfl
  have hfixed : frameFixedSize = 16 := rfl
  rcases rb.write_cases f with ⟨hlarge, hw⟩ | ⟨-, hfull, hw⟩ | ⟨hfits, hfree, hbuf, hw⟩
  · -- refused, because what would be written does not fit
    refine iff_of_true ⟨fun _ => ⟨_, hw⟩, fun hok => ?_⟩ ?_
    · rw [hw] at hok
      cases hok
    · by_cases hf : Sized f
      · rw [length_signableBytes hf] at hlarge
        exact .inr (.inr ⟨hf, .inl (by omega)⟩)
      · rw [signableBytes, if_pos (not_le.mp hf)] at hlarge
        exact .inr (.inl hlarge)
  · refine iff_of_true ⟨fun _ => ⟨_, hw⟩, fun hok => ?_⟩ (.inl hfull)
    rw [hw] at hok
    cases hok
  · -- accepted
    have hok : (rb.write f).1 = .ok () := by rw [hw]
    have hmax := rb.slotSize_le
    have hmaxSlot : maxSlotSize = 8192 := rfl
    have hmaxFrame : maxFrameSize = 1048576 := rfl
    constructor
    · rintro ⟨hrefused, hkept⟩
      have hle : size ≤ rb.slotSize := by
        refine not_lt.mp fun hlt => ?_
        obtain ⟨err, herr⟩ := hrefused hlt
        cases hok.symm.trans (congrArg Prod.fst herr)
      have hf : Sized f := by
        show f.header.length + f.payload.length ≤ maxFrameSize
        omega
      exact .inr (.inr ⟨hf, .inr ((read_later_iff cfg ops hf hok).mp (hkept hok))⟩)
    · rintro (hfull | hroom | ⟨hf, hcount⟩)
      · exact absurd hfree (not_lt.mpr hfull)
      · omega
      · rw [length_signableBytes hf] at hfits
        refine ⟨fun hlt => absurd hlt (by omega), fun _ => ?_⟩
        rcases hcount with hlt | hend
        · omega
        · exact (read_later_iff cfg ops hf hok).mpr hend

/-- A frame with a payload of one byte more than `MaxFrameSize`. -/
def oversizedFrame : Frame := ⟨1, 0x69, 0, [], List.replicate 1048577 0, []⟩

/-- **A frame of a megabyte is accepted into a slot of 21 bytes**, and is not read. -/
theorem write_oversized :
    let rb := new smallRing
    let rb' := (rb.write oversizedFrame).2
    rb.slotSize < 18 + oversizedFrame.header.length + oversizedFrame.payload.length
      ∧ (rb.write oversizedFrame).1 = .ok () ∧ rb'.head ≠ rb.head
      ∧ rb'.read.1 = .error (.slotTooShort 0) ∧ rb'.read.2.read.1 = .ok none := by
  intro rb rb'
  have hlen : oversizedFrame.payload.length = 1048577 := List.length_replicate
  have hdata : oversizedFrame.signableBytes = [] := if_pos (by
    rw [hlen]
    decide)
  have hrep : Represents rb 0 [] := represents_new smallRing
  have hok : (rb.write oversizedFrame).1 = .ok () :=
    write_eq_ok (by rw [hdata]; decide) (by decide)
  have hwritten : Represents rb' 0 [[]] := hdata ▸ (hrep.write hok).2.1 (by decide)
  obtain ⟨hread, hrest⟩ := hwritten.read_cons
  refine ⟨?_, hok, fun heq => ?_, ?_, ?_⟩
  · rw [hlen]
    decide
  · have hhead := hwritten.head
    rw [heq, hrep.head] at hhead
    exact absurd hhead (by decide)
  · rw [hread]
    rfl
  · rw [hread]
    exact congrArg Prod.fst hrest.read_nil

end RingBuffer
