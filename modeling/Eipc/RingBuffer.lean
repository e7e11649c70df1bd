import Eipc.Frame
import Eipc.Lib.Ring

/-!
# The shared-memory ring buffer

`shm.RingBuffer` (`transport/shm/shm.go`) carries frames inside a process. The
buffer is cut into slots of one size; a frame is written into the next slot
behind its length, two bytes big-endian, and read out of it again. Head and tail
are `uint64` counters that only grow, so the slot of an entry is its number
modulo the number of slots.

What is written is `SignableBytes`, which is everything but the MAC. So what is
read is the frame without its MAC (`RingBuffer.parseSlot_signableBytes`).

Up to that, and as long as the counters do not wrap around, the ring is a queue:
`RingBuffer.Represents` says which, and `write_cases` and `read_cases` are what
the two calls do to it. The reader compares the counters themselves, not their
difference, and takes the ring for empty from the `2 ^ 64`-th write on
(`RingBuffer.Stuck`).
-/

open Bytes Frame

/-- `shm.Config`. The two numbers are `int`s. -/
structure ShmConfig where
  bufferSize : ℤ
  slotCount : ℤ
  bufferSize_lt : bufferSize < 2 ^ 63
  slotCount_lt : slotCount < 2 ^ 63

/-- What the ring buffer can fail with. -/
inductive ShmError where
  | frameTooLarge (size : ℕ) (room : ℤ)
  | full
  | invalidSlotLength (length : ℕ)
  | slotTooShort (length : ℕ)
  deriving DecidableEq

/-- The error's text. -/
def ShmError.text : ShmError → String
  | .frameTooLarge size room =>
    "frame too large for slot (" ++ toString size ++ " > " ++ toString room ++ ")"
  | .full => "ring buffer full (backpressure)"
  | .invalidSlotLength length => "invalid slot length (" ++ toString length ++ ")"
  | .slotTooShort length => "slot data too short (" ++ toString length ++ " bytes)"

namespace RingBuffer

def defaultBufferSize : ℕ := 64 * 1024
def defaultSlotCount : ℕ := 256
def maxSlotSize : ℕ := 8192

end RingBuffer

/-- The ring buffer. -/
structure RingBuffer where
  buf : Bytes
  slots : ℕ
  slotSize : ℕ
  head : UInt64
  tail : UInt64
  hmacKey : Bytes
  slots_pos : 0 < slots
  slots_lt : slots < 2 ^ 63
  slotSize_le : slotSize ≤ RingBuffer.maxSlotSize
  length_buf : buf.length = slots * slotSize

namespace RingBuffer

/-- The slot count in force: the default when none is configured. -/
def slotCountOf (cfg : ShmConfig) : ℕ :=
  if cfg.slotCount ≤ 0 then defaultSlotCount else cfg.slotCount.toNat

/-- The buffer size in force: the default when none is configured. -/
def bufferSizeOf (cfg : ShmConfig) : ℕ :=
  if cfg.bufferSize ≤ 0 then defaultBufferSize else cfg.bufferSize.toNat

/-- The slot size in force: an equal share of the buffer, within the maximum. -/
def slotSizeOf (cfg : ShmConfig) : ℕ :=
  let slotSize := bufferSizeOf cfg / slotCountOf cfg
  if slotSize > maxSlotSize then maxSlotSize else slotSize

theorem slotCountOf_pos (cfg : ShmConfig) : 0 < slotCountOf cfg := by
  unfold slotCountOf
  split
  · decide
  · omega

theorem slotCountOf_lt (cfg : ShmConfig) : slotCountOf cfg < 2 ^ 63 := by
  have hlt := cfg.slotCount_lt
  unfold slotCountOf
  split
  · decide
  · omega

theorem slotSizeOf_le (cfg : ShmConfig) : slotSizeOf cfg ≤ maxSlotSize := by
  unfold slotSizeOf
  dsimp only
  split
  · exact le_rfl
  · next h => exact not_lt.mp h

/-- `NewRingBuffer`. -/
def new (cfg : ShmConfig) : RingBuffer where
  buf := List.replicate (slotCountOf cfg * slotSizeOf cfg) 0
  slots := slotCountOf cfg
  slotSize := slotSizeOf cfg
  head := 0
  tail := 0
  hmacKey := []
  slots_pos := slotCountOf_pos cfg
  slots_lt := slotCountOf_lt cfg
  slotSize_le := slotSizeOf_le cfg
  length_buf := List.length_replicate

/-- `SetHMACKey`. Neither of the two calls below looks at the key. -/
def setHMACKey (rb : RingBuffer) (key : Bytes) : RingBuffer := { rb with hmacKey := key }

/-- The slot of the entry with the number that a counter shows. -/
def index (rb : RingBuffer) (counter : UInt64) : ℕ := (counter % UInt64.ofNat rb.slots).toNat

/-- What a slot starts with: the length of the data in two bytes, and the data. -/
def slotRecord (data : Bytes) : Bytes :=
  UInt8.ofNat (data.length >>> 8) :: UInt8.ofNat (data.length &&& 0xff) :: data

/-- The frame that `Read` makes of a slot's data. Header and payload are taken
only where they fit; there is no MAC. -/
def parseSlot (data : Bytes) : Frame :=
  let byte (i : ℕ) : UInt8 := data.getD i 0
  let headerLen := (load32 (byte 8) (byte 9) (byte 10) (byte 11)).toNat
  let payloadLen := (load32 (byte 12) (byte 13) (byte 14) (byte 15)).toNat
  let takesHeader := headerLen > 0 ∧ frameFixedSize + headerLen ≤ data.length
  let pos := if takesHeader then frameFixedSize + headerLen else frameFixedSize
  { version := load16 (byte 4) (byte 5)
    msgType := byte 6
    flags := byte 7
    header := if takesHeader then data.slice frameFixedSize (frameFixedSize + headerLen) else []
    payload :=
      if payloadLen > 0 ∧ pos + payloadLen ≤ data.length then data.slice pos (pos + payloadLen)
      else []
    mac := [] }

theorem toNat_ofNat_slots (rb : RingBuffer) : (UInt64.ofNat rb.slots).toNat = rb.slots := by
  rw [UInt64.toNat_ofNat']
  exact Nat.mod_eq_of_lt (rb.slots_lt.trans (by decide))

theorem index_eq (rb : RingBuffer) (counter : UInt64) :
    rb.index counter = counter.toNat % rb.slots := by
  rw [index, UInt64.toNat_mod, toNat_ofNat_slots]

theorem index_lt (rb : RingBuffer) (counter : UInt64) : rb.index counter < rb.slots := by
  rw [index_eq]
  exact Nat.mod_lt _ rb.slots_pos

/-- A record that fits a slot is written inside the buffer. -/
theorem offset_add_le (rb : RingBuffer) (counter : UInt64) {rec : Bytes}
    (h : rec.length ≤ rb.slotSize) :
    rb.index counter * rb.slotSize + rec.length ≤ rb.buf.length := by
  have hslot := Ring.slot_le (z := rb.slotSize) (rb.index_lt counter)
  rw [rb.length_buf]
  omega

theorem length_slotRecord (data : Bytes) : (slotRecord data).length = data.length + 2 := rfl

/-- `Write`. The length check comes before the lock, the other one after it. -/
def write (rb : RingBuffer) (frame : Frame) : Except ShmError Unit × RingBuffer :=
  let data := frame.signableBytes
  if h : (data.length : ℤ) > rb.slotSize - 2 then
    (.error (.frameTooLarge data.length (rb.slotSize - 2)), rb)
  else if rb.head - rb.tail ≥ UInt64.ofNat rb.slots then (.error .full, rb)
  else
    let offset := rb.index rb.head * rb.slotSize
    (.ok (),
      { rb with
        buf := rb.buf.writeAt offset (slotRecord data)
        head := rb.head + 1
        length_buf := (length_writeAt (rb.offset_add_le rb.head (by
          rw [length_slotRecord]
          omega))).trans rb.length_buf })

/-- `Read`: the next frame, or none when the ring is found empty. A slot whose
length cannot be right is not passed over. -/
def read (rb : RingBuffer) : Except ShmError (Option Frame) × RingBuffer :=
  if rb.tail ≥ rb.head then (.ok none, rb)
  else
    let offset := rb.index rb.tail * rb.slotSize
    let length := (rb.buf.getD offset 0).toNat <<< 8 ||| (rb.buf.getD (offset + 1) 0).toNat
    if (length : ℤ) > rb.slotSize - 2 then (.error (.invalidSlotLength length), rb)
    else
      let data := rb.buf.slice (offset + 2) (offset + 2 + length)
      let rb := { rb with tail := rb.tail + 1 }
      if length < frameFixedSize then (.error (.slotTooShort length), rb)
      else (.ok (some (parseSlot data)), rb)

/-- `Len`. -/
def len (rb : RingBuffer) : ℕ := (rb.head - rb.tail).toNat

/-! ## What a slot's data is read as -/

/-- A field that is where it is looked for is taken whole. -/
theorem taken_field {a c r : Bytes} {i n : ℕ} (ha : a.length = i) (hc : c.length = n) :
    (if n > 0 ∧ i + n ≤ (a ++ (c ++ r)).length then slice (a ++ (c ++ r)) i (i + n) else [])
      = c := by
  split
  · exact slice_append_middle a c r ha (by rw [hc])
  · next h =>
    have hlen : i + n ≤ (a ++ (c ++ r)).length := by
      rw [List.length_append, List.length_append]
      omega
    have hzero : n = 0 := by
      by_contra hne
      exact h ⟨Nat.pos_of_ne_zero hne, hlen⟩
    exact (List.length_eq_zero_iff.mp (hc.trans hzero)).symm

/-- **What is read of a frame's signable bytes** is the frame without its MAC. -/
theorem parseSlot_signableBytes {f : Frame}
    (hsize : f.header.length + f.payload.length ≤ maxFrameSize) :
    parseSlot f.signableBytes = f.withoutMac := by
  obtain ⟨-, hversion, htype, hflags, hheader, hpayload⟩ := f.slice_preamble
  have hmax : maxFrameSize = 1048576 := rfl
  have hlen : f.preamble.length = 16 := f.length_preamble
  have hdata : f.signableBytes = f.preamble ++ (f.header ++ f.payload) := if_neg (by omega)
  have hbyte : ∀ i < 16, f.signableBytes.getD i 0 = f.preamble.getD i 0 := by
    intro i hi
    rw [hdata, List.getD_append _ _ _ _ (by omega)]
  have htotal : f.signableBytes.length = 16 + f.header.length + f.payload.length :=
    length_signableBytes hsize
  have hver := load16_getD (b := f.preamble) (i := 4) (by omega)
  rw [hversion, toNatBE_ofNatBE f.version.toNat_lt, UInt16.ofNat_toNat] at hver
  have hheaderLen := toNat_load32_getD (b := f.preamble) (i := 8) (by omega)
  rw [hheader, toNatBE_length_field (by omega)] at hheaderLen
  have hpayloadLen := toNat_load32_getD (b := f.preamble) (i := 12) (by omega)
  rw [hpayload, toNatBE_length_field (by omega)] at hpayloadLen
  have hpos : (if f.header.length > 0 ∧ 16 + f.header.length ≤ f.signableBytes.length
      then 16 + f.header.length else 16) = 16 + f.header.length := by
    split <;> omega
  have hfixed : frameFixedSize = 16 := rfl
  unfold parseSlot withoutMac
  simp only [hbyte, Nat.reduceLT, htype, hflags, hver, hheaderLen, hpayloadLen, hfixed, hpos]
  rw [hdata, taken_field hlen rfl]
  have hassoc : f.preamble ++ (f.header ++ f.payload)
      = (f.preamble ++ f.header) ++ (f.payload ++ []) := by
    rw [List.append_nil, List.append_assoc]
  rw [hassoc, taken_field (by rw [List.length_append, hlen]) rfl]

/-! ## The ring as a queue -/

variable {rb : RingBuffer} {r : ℕ} {q : List Bytes} {d : Bytes}

/-- **The ring represents the queue** `q` of slot data, after `r` reads. -/
structure Represents (rb : RingBuffer) (r : ℕ) (q : List Bytes) : Prop where
  tail : rb.tail.toNat = r
  head : rb.head.toNat = r + q.length
  holds : Ring.Holds rb.slots (fun j d => Ring.StoredAt rb.buf rb.slotSize j (slotRecord d)) r q

/-- The head has wrapped around and the tail has not. -/
structure Stuck (rb : RingBuffer) : Prop where
  head_le : rb.head.toNat ≤ rb.tail.toNat
  unread_le : rb.head.toNat + 2 ^ 64 ≤ rb.tail.toNat + rb.slots

theorem represents_new (cfg : ShmConfig) : Represents (new cfg) 0 [] :=
  ⟨rfl, rfl, Ring.holds_nil⟩

theorem Represents.lt (h : Represents rb r q) : r + q.length < 2 ^ 64 := by
  rw [← h.head]
  exact rb.head.toNat_lt

/-- The difference of the counters is the number of unread entries. -/
theorem Represents.toNat_sub (h : Represents rb r q) : (rb.head - rb.tail).toNat = q.length := by
  rw [UInt64.toNat_sub_of_le _ _ (UInt64.le_iff_toNat_le.mpr (by rw [h.tail, h.head]; omega)),
    h.head, h.tail, Nat.add_sub_cancel_left]

theorem Stuck.toNat_sub (h : Stuck rb) :
    (rb.head - rb.tail).toNat = rb.head.toNat + 2 ^ 64 - rb.tail.toNat := by
  have hslots := rb.slots_lt
  have hhead := h.head_le
  have hunread := h.unread_le
  have htail := rb.tail.toNat_lt
  rw [UInt64.toNat_sub]
  omega

/-- Adding one to a counter that is not at its end. -/
theorem toNat_add_one {c : UInt64} (h : c.toNat + 1 < 2 ^ 64) : (c + 1).toNat = c.toNat + 1 := by
  rw [UInt64.toNat_add]
  exact Nat.mod_eq_of_lt h

theorem full_iff (rb : RingBuffer) :
    rb.head - rb.tail ≥ UInt64.ofNat rb.slots ↔ rb.slots ≤ (rb.head - rb.tail).toNat := by
  rw [ge_iff_le, UInt64.le_iff_toNat_le, toNat_ofNat_slots]

/-- **What `Write` can do**, whatever the ring holds. -/
theorem write_cases (rb : RingBuffer) (f : Frame) :
    (rb.slotSize < f.signableBytes.length + 2
        ∧ rb.write f
          = (.error (.frameTooLarge f.signableBytes.length (rb.slotSize - 2)), rb))
      ∨ (f.signableBytes.length + 2 ≤ rb.slotSize ∧ rb.slots ≤ (rb.head - rb.tail).toNat
        ∧ rb.write f = (.error .full, rb))
      ∨ (f.signableBytes.length + 2 ≤ rb.slotSize ∧ (rb.head - rb.tail).toNat < rb.slots
        ∧ ∃ hbuf, rb.write f = (.ok (),
          { rb with
            buf := rb.buf.writeAt (rb.index rb.head * rb.slotSize) (slotRecord f.signableBytes)
            head := rb.head + 1
            length_buf := hbuf })) := by
  by_cases hlarge : (f.signableBytes.length : ℤ) > rb.slotSize - 2
  · exact .inl ⟨by omega, dif_pos hlarge⟩
  · have hfits : f.signableBytes.length + 2 ≤ rb.slotSize := by omega
    by_cases hfull : rb.head - rb.tail ≥ UInt64.ofNat rb.slots
    · exact .inr (.inl ⟨hfits, (full_iff rb).mp hfull, by
        rw [write, dif_neg hlarge, if_pos hfull]⟩)
    · exact .inr (.inr ⟨hfits, not_le.mp (mt (full_iff rb).mpr hfull), _, by
        rw [write, dif_neg hlarge, if_neg hfull]⟩)

/-- A frame that fits a slot is accepted while a slot is free. -/
theorem write_eq_ok {f : Frame} (hfits : f.signableBytes.length + 2 ≤ rb.slotSize)
    (hfree : (rb.head - rb.tail).toNat < rb.slots) : (rb.write f).1 = .ok () := by
  rcases rb.write_cases f with ⟨hlarge, -⟩ | ⟨-, hfull, -⟩ | ⟨-, -, _, hw⟩
  · omega
  · omega
  · rw [hw]

/-- **An accepted frame is appended to the queue**, until the head wraps around. -/
theorem Represents.write (h : Represents rb r q) {f : Frame} (hok : (rb.write f).1 = .ok ()) :
    f.signableBytes.length + 2 ≤ rb.slotSize
      ∧ (r + q.length + 1 < 2 ^ 64 → Represents (rb.write f).2 r (q ++ [f.signableBytes]))
      ∧ (r + q.length + 1 = 2 ^ 64 → Stuck (rb.write f).2) := by
  rcases rb.write_cases f with ⟨-, hw⟩ | ⟨-, -, hw⟩ | ⟨hfits, hfree, hbuf, hw⟩
  · rw [hw] at hok
    exact (nomatch hok)
  · rw [hw] at hok
    exact (nomatch hok)
  · rw [h.toNat_sub] at hfree
    refine ⟨hfits, fun hlt => ?_, fun heq => ?_⟩
    · rw [hw]
      refine ⟨h.tail, ?_, ?_⟩
      · show (rb.head + 1).toNat = r + (q ++ [f.signableBytes]).length
        rw [toNat_add_one (by rw [h.head]; exact hlt), h.head, List.length_append]
        rfl
      · have hindex : rb.index rb.head = (r + q.length) % rb.slots := by rw [index_eq, h.head]
        refine h.holds.push hfree (fun j rec hne hrec => ?_) ?_
        · exact hrec.writeAt_of_ne rb.length_buf (rb.index_lt rb.head) hfits (by rwa [hindex])
        · rw [← hindex]
          exact Ring.storedAt_writeAt rb.length_buf (rb.index_lt rb.head) hfits
    · rw [hw]
      have hhead : (rb.head + 1).toNat = 0 := by
        rw [UInt64.toNat_add, h.head]
        show (r + q.length + 1) % 2 ^ 64 = 0
        rw [heq, Nat.mod_self]
      refine ⟨?_, ?_⟩
      · show (rb.head + 1).toNat ≤ rb.tail.toNat
        omega
      · show (rb.head + 1).toNat + 2 ^ 64 ≤ rb.tail.toNat + rb.slots
        rw [h.tail]
        omega

theorem Stuck.write (h : Stuck rb) (f : Frame) : Stuck (rb.write f).2 := by
  rcases rb.write_cases f with ⟨-, hw⟩ | ⟨-, -, hw⟩ | ⟨-, hfree, hbuf, hw⟩
  · rwa [hw]
  · rwa [hw]
  · have hslots := rb.slots_lt
    have hunread := h.unread_le
    have htail := rb.tail.toNat_lt
    rw [h.toNat_sub] at hfree
    rw [hw]
    have hhead : (rb.head + 1).toNat = rb.head.toNat + 1 := toNat_add_one (by omega)
    refine ⟨?_, ?_⟩
    · show (rb.head + 1).toNat ≤ rb.tail.toNat
      omega
    · show (rb.head + 1).toNat + 2 ^ 64 ≤ rb.tail.toNat + rb.slots
      omega

/-! ## Reading -/

/-- A stuck ring is found empty. -/
theorem Stuck.read (h : Stuck rb) : rb.read = (.ok none, rb) :=
  if_pos (UInt64.le_iff_toNat_le.mpr h.head_le)

theorem Represents.read_nil (h : Represents rb r []) : rb.read = (.ok none, rb) :=
  if_pos (UInt64.le_iff_toNat_le.mpr (by rw [h.head, h.tail]; exact le_rfl))

/-- The length bytes of a record say how long the data is. -/
theorem length_bytes {n : ℕ} (h : n < 2 ^ 16) :
    (UInt8.ofNat (n >>> 8)).toNat <<< 8 ||| (UInt8.ofNat (n &&& 0xff)).toNat = n := by
  have hlow : n &&& 0xff = n % 2 ^ 8 := Nat.and_two_pow_sub_one_eq_mod n 8
  have hor := shiftLeft_or (n := 0) (x := n >>> 8) (y := n % 2 ^ 8) (Nat.mod_lt _ (by decide))
  rw [UInt8.toNat_ofNat', UInt8.toNat_ofNat', hlow, Nat.mod_mod,
    Nat.mod_eq_of_lt (by rw [Nat.shiftRight_eq_div_pow]; omega)]
  rw [Nat.shiftLeft_zero, Nat.shiftLeft_zero, Nat.shiftRight_eq_div_pow] at hor
  rw [Nat.shiftRight_eq_div_pow, hor]
  omega

/-- What is read of a slot that a record was written to. -/
theorem read_slotRecord {b : Bytes} {z k : ℕ} (h : Ring.StoredAt b z k (slotRecord d)) :
    b.getD (k * z) 0 = UInt8.ofNat (d.length >>> 8)
      ∧ b.getD (k * z + 1) 0 = UInt8.ofNat (d.length &&& 0xff)
      ∧ b.slice (k * z + 2) (k * z + 2 + d.length) = d := by
  have hslice : (b.drop (k * z)).take (d.length + 2) = slotRecord d := by
    have hrec := h.slice
    rwa [slice, Nat.add_sub_cancel_left, length_slotRecord] at hrec
  have hdrop : b.drop (k * z) = slotRecord d ++ (b.drop (k * z)).drop (d.length + 2) := by
    rw [← hslice, List.take_append_drop]
  have hbyte : ∀ j, b.getD (k * z + j) 0 = (b.drop (k * z)).getD j 0 := by
    intro j
    rw [List.getD_eq_getElem?_getD, List.getD_eq_getElem?_getD, List.getElem?_drop]
  refine ⟨?_, ?_, ?_⟩
  · rw [show b.getD (k * z) 0 = _ from hbyte 0, hdrop]
    rfl
  · rw [hbyte, hdrop]
    rfl
  · rw [slice, Nat.add_sub_cancel_left, ← List.drop_drop, hdrop]
    exact List.take_left

/-- **The next entry of the queue is what is read.** -/
theorem Represents.read_cons (h : Represents rb r (d :: q)) :
    rb.read
        = ((if d.length < frameFixedSize then .error (.slotTooShort d.length)
            else .ok (some (parseSlot d))), { rb with tail := rb.tail + 1 })
      ∧ Represents { rb with tail := rb.tail + 1 } (r + 1) q := by
  obtain ⟨hstored, hrest⟩ := h.holds.pop
  have hindex : rb.index rb.tail = r % rb.slots := by rw [index_eq, h.tail]
  rw [← hindex] at hstored
  obtain ⟨hhigh, hlow, hdata⟩ := read_slotRecord hstored
  have hroom := hstored.length_le
  have hslot := rb.slotSize_le
  have hmax : maxSlotSize = 8192 := rfl
  rw [length_slotRecord] at hroom
  have hhead := h.head
  have hlt := h.lt
  rw [List.length_cons] at hhead hlt
  constructor
  · have hnonempty : ¬rb.tail ≥ rb.head := by
      rw [ge_iff_le, UInt64.le_iff_toNat_le, h.tail, hhead]
      omega
    rw [read, if_neg hnonempty]
    dsimp only
    rw [hhigh, hlow, length_bytes (by omega), hdata, if_neg (by omega)]
    split <;> rfl
  · refine ⟨?_, ?_, hrest⟩
    · show (rb.tail + 1).toNat = r + 1
      rw [toNat_add_one (by rw [h.tail]; omega), h.tail]
    · show rb.head.toNat = r + 1 + q.length
      omega

/-- A frame that is next in the queue is read without its MAC. -/
theorem Represents.read_frame {f : Frame}
    (hsize : f.header.length + f.payload.length ≤ maxFrameSize)
    (h : Represents rb r (f.signableBytes :: q)) :
    rb.read = (.ok (some f.withoutMac), { rb with tail := rb.tail + 1 })
      ∧ Represents { rb with tail := rb.tail + 1 } (r + 1) q := by
  obtain ⟨hread, hrest⟩ := h.read_cons
  have hlen : ¬f.signableBytes.length < frameFixedSize := by
    rw [length_signableBytes hsize]
    omega
  rw [if_neg hlen, parseSlot_signableBytes hsize] at hread
  exact ⟨hread, hrest⟩

end RingBuffer
