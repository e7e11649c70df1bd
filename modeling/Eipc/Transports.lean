import Eipc.Delivery
import Eipc.RingBuffer

/-!
# Two transports

Frames travel over a byte stream (`transport.ConnWrapper`) or through a
shared-memory ring (`shm.Connection`), and the endpoints are written against one
interface for both. The two serialize a frame with different code and parse it
with different code.

Both are queues of frames (`fifo`), and they differ in what comes out of the
queue. A stream gives back the frame that was sent, or fails to decode it; a ring
gives back the frame without its MAC. They agree on a frame exactly when it has
the current version and its flags announce no MAC
(`Transports.streamResult_eq_iff`), so over whole runs they agree exactly when
all frames are of this kind, and the ring's counters do not wrap around
(`Transports.same_frames_iff`). The endpoints announce a MAC in every frame: over
a ring, none of their messages is accepted.
-/

open Bytes Frame RingBuffer

/-- `shm.Connection`: a pair of rings. -/
structure ShmConnection where
  tx : RingBuffer
  rx : RingBuffer

namespace ShmConnection

/-- `Send` and `Receive`. `Receive` polls the ring until it is not empty; a call
that finds it empty has not returned, which is the error `none`. -/
def connection : Connection ShmConnection (Option ShmError) where
  send c frame := ((c.tx.write frame).1.mapError some, { c with tx := (c.tx.write frame).2 })
  receive c :=
    match c.rx.read with
    | (.error err, rx) => (.error (some err), { c with rx })
    | (.ok none, rx) => (.error none, { c with rx })
    | (.ok (some frame), rx) => (.ok frame, { c with rx })

end ShmConnection

namespace Transports

/-! ## Links -/

/-- What is done with a link, at one of its two ends. -/
inductive Op where
  | send (f : Frame)
  | receive

/-- What the caller sees. -/
inductive Answer where
  | accepted
  | refused
  /-- The call has not returned. -/
  | waits
  | failed
  | frame (f : Frame)
  deriving DecidableEq

/-- A byte stream with a `ConnWrapper` at each end; the state is what is on its
way. A call for which too few bytes have arrived waits. -/
def streamLink : Machine Bytes Op Answer where
  step s
    | .send f =>
      match ConnWrapper.send f with
      | .error _ => (.refused, s)
      | .ok b => (.accepted, s ++ b)
    | .receive =>
      match ConnWrapper.receive s with
      | (.error (.readLength _), _) => (.waits, s)
      | (.error (.readFrame _), _) => (.waits, s)
      | (.error _, s) => (.failed, s)
      | (.ok f, s) => (.frame f, s)

/-- A ring with an `shm.Connection` at each end. -/
def shmLink : Machine RingBuffer Op Answer where
  step rb
    | .send f =>
      match rb.write f with
      | (.error _, rb) => (.refused, rb)
      | (.ok (), rb) => (.accepted, rb)
    | .receive =>
      match rb.read with
      | (.error _, rb) => (.failed, rb)
      | (.ok none, rb) => (.waits, rb)
      | (.ok (some f), rb) => (.frame f, rb)

/-- The frames that are sent in a run. -/
def sends : List Op → List Frame
  | [] => []
  | .send f :: ops => f :: sends ops
  | .receive :: ops => sends ops

/-- With `n` frames on their way, each call of `Receive` finds one, and none is
left at the end. -/
def Complete : ℕ → List Op → Prop
  | n, [] => n = 0
  | n, .send _ :: ops => Complete (n + 1) ops
  | 0, .receive :: _ => False
  | n + 1, .receive :: ops => Complete n ops

/-! ## Queues of frames -/

/-- What a link is for: a queue of frames. `result` is what the caller sees of the
frame that comes out of it. -/
def fifo (result : Frame → Answer) : Machine (List Frame) Op Answer where
  step q
    | .send f => (.accepted, q ++ [f])
    | .receive =>
      match q with
      | [] => (.waits, [])
      | f :: q => (result f, q)

theorem mem_sends {ops : List Op} {f : Frame} : f ∈ sends ops ↔ .send f ∈ ops := by
  induction ops with
  | nil => exact ⟨fun h => (nomatch h), fun h => (nomatch h)⟩
  | cons op ops ih =>
    cases op with
    | send g =>
      show f ∈ g :: sends ops ↔ _
      rw [List.mem_cons, List.mem_cons, ih, Op.send.injEq]
    | receive =>
      show f ∈ sends ops ↔ _
      rw [List.mem_cons, ih]
      exact ⟨.inr, fun h => h.resolve_left (fun h => (nomatch h))⟩

/-- **Two queues of frames answer alike** along a complete run exactly when they
give the same result for every frame in it. -/
theorem fifo_answers_eq_iff {result result' : Frame → Answer} {ops : List Op} {q : List Frame}
    (hops : Complete q.length ops) :
    (fifo result).answers q ops = (fifo result').answers q ops ↔
      ∀ f ∈ q ++ sends ops, result f = result' f := by
  induction ops generalizing q with
  | nil =>
    rw [List.length_eq_zero_iff.mp hops]
    exact ⟨fun _ _ h => (nomatch h), fun _ => rfl⟩
  | cons op ops ih =>
    cases op with
    | send f =>
      have hops' : Complete (q ++ [f]).length ops := by
        rw [List.length_append]
        exact hops
      have hq : q ++ sends (.send f :: ops) = q ++ [f] ++ sends ops := by
        rw [List.append_assoc]
        rfl
      show Answer.accepted :: (fifo result).answers (q ++ [f]) ops
        = Answer.accepted :: (fifo result').answers (q ++ [f]) ops ↔ _
      rw [List.cons.injEq, hq, ← ih hops']
      exact and_iff_right rfl
    | receive =>
      cases q with
      | nil => exact hops.elim
      | cons f q =>
        show result f :: (fifo result).answers q ops
          = result' f :: (fifo result').answers q ops ↔ ∀ g ∈ f :: (q ++ sends ops), _
        rw [List.cons.injEq, ih hops, List.forall_mem_cons]

/-- Nothing is left after a complete run. -/
theorem fifo_after_complete {result : Frame → Answer} {ops : List Op} {q : List Frame}
    (hops : Complete q.length ops) : (fifo result).after q ops = [] := by
  induction ops generalizing q with
  | nil => exact List.length_eq_zero_iff.mp hops
  | cons op ops ih =>
    cases op with
    | send f =>
      refine ih (q := q ++ [f]) ?_
      rw [List.length_append]
      exact hops
    | receive =>
      cases q with
      | nil => exact hops.elim
      | cons f q => exact ih (q := q) hops

/-- No call of a complete run waits. -/
theorem waits_notMem_fifo {result : Frame → Answer} (hresult : ∀ f, result f ≠ .waits)
    {ops : List Op} {q : List Frame} (hops : Complete q.length ops) :
    .waits ∉ (fifo result).answers q ops := by
  induction ops generalizing q with
  | nil => exact List.not_mem_nil
  | cons op ops ih =>
    cases op with
    | send f =>
      show Answer.waits ∉ Answer.accepted :: (fifo result).answers (q ++ [f]) ops
      refine List.not_mem_cons_of_ne_of_not_mem (fun h => (nomatch h)) (ih ?_)
      rw [List.length_append]
      exact hops
    | receive =>
      cases q with
      | nil => exact hops.elim
      | cons f q => exact List.not_mem_cons_of_ne_of_not_mem (hresult f).symm (ih hops)

/-- A complete run ends with the reception of its last frame. -/
theorem Complete.eq_concat {n : ℕ} {ops : List Op} (h : Complete n ops) :
    n = 0 ∧ ops = [] ∨ ∃ ops', ops = ops' ++ [.receive] ∧ sends ops' = sends ops := by
  induction ops generalizing n with
  | nil => exact .inl ⟨h, rfl⟩
  | cons op ops ih =>
    cases op with
    | send f =>
      rcases ih (n := n + 1) h with ⟨hn, -⟩ | ⟨ops', rfl, hsends⟩
      · exact (nomatch hn)
      · exact .inr ⟨.send f :: ops', rfl, congrArg (f :: ·) hsends⟩
    | receive =>
      cases n with
      | zero => exact h.elim
      | succ n =>
        rcases ih (n := n) h with ⟨-, rfl⟩ | ⟨ops', rfl, hsends⟩
        · exact .inr ⟨[], rfl, rfl⟩
        · exact .inr ⟨.receive :: ops', rfl, hsends⟩

/-! ## Frames that both transports accept -/

/-- Header and payload fit a slot. -/
def Small (f : Frame) : Prop := f.header.length + f.payload.length ≤ maxSlotSize

theorem Small.le {f : Frame} (h : Small f) :
    f.header.length + f.payload.length ≤ maxFrameSize := h.trans (by decide)

theorem le_of_stream_accepts {s : Bytes} {f : Frame}
    (h : (streamLink.step s (.send f)).1 ≠ .refused) :
    f.header.length + f.payload.length ≤ maxFrameSize := by
  by_contra hlarge
  refine h ?_
  show (match ConnWrapper.send f with | .error _ => (Answer.refused, s) | .ok b => _).1 = _
  rw [ConnWrapper.send_of_lt (not_le.mp hlarge)]

theorem write_of_shm_accepts {rb : RingBuffer} {f : Frame}
    (h : (shmLink.step rb (.send f)).1 ≠ .refused) :
    (rb.write f).1 = .ok () ∧ shmLink.step rb (.send f) = (.accepted, (rb.write f).2) := by
  have hstep : shmLink.step rb (.send f) = match rb.write f with
    | (.error _, rb) => (Answer.refused, rb)
    | (.ok (), rb) => (.accepted, rb) := rfl
  rw [hstep] at h ⊢
  revert h
  rcases rb.write f with ⟨err | u, rb'⟩
  · exact fun h => absurd rfl h
  · exact fun _ => ⟨rfl, rfl⟩

/-- A frame that neither transport refuses is small. -/
theorem small_of_accepted {s : Bytes} {rb : RingBuffer} {ops : List Op}
    (hstream : .refused ∉ streamLink.answers s ops) (hshm : .refused ∉ shmLink.answers rb ops) :
    ∀ f ∈ sends ops, Small f := by
  intro f hf
  obtain ⟨s', hs'⟩ := Machine.exists_step_mem_answers (m := streamLink) (s := s) (mem_sends.mp hf)
  obtain ⟨rb', hrb'⟩ := Machine.exists_step_mem_answers (m := shmLink) (s := rb) (mem_sends.mp hf)
  have hmax := le_of_stream_accepts (ne_of_mem_of_not_mem hs' hstream)
  have hok := (write_of_shm_accepts (ne_of_mem_of_not_mem hrb' hshm)).1
  have hslot := rb'.slotSize_le
  have hdata : f.signableBytes.length = 16 + f.header.length + f.payload.length :=
    length_signableBytes hmax
  rcases rb'.write_cases f with ⟨-, hw⟩ | ⟨-, -, hw⟩ | ⟨hfits, -, -⟩
  · rw [hw] at hok
    exact (nomatch hok)
  · rw [hw] at hok
    exact (nomatch hok)
  · unfold Small
    omega

/-! ## The stream as a queue -/

/-- The bytes that `Encode` writes for a frame. -/
def encoded (f : Frame) : Bytes :=
  f.preamble ++ (f.header ++ (f.payload
    ++ if f.hasHMAC ∧ f.mac.length = macSize then f.mac else []))

/-- What comes out of a stream for a frame. -/
def streamResult (f : Frame) : Answer :=
  match decode (encoded f) with
  | .error _ => .failed
  | .ok (g, _) => .frame g

theorem length_signableBytes_le (f : Frame) :
    f.signableBytes.length ≤ 16 + f.header.length + f.payload.length := by
  unfold signableBytes
  split
  · exact Nat.zero_le _
  · rw [List.length_append, List.length_append, length_preamble, Nat.add_assoc]
    exact le_rfl

theorem length_encoded_le {f : Frame} (h : Small f) : (encoded f).length ≤ maxFrameSize := by
  have hmax : maxFrameSize = 1048576 := rfl
  have hslot : maxSlotSize = 8192 := rfl
  have hfixed : frameFixedSize = 16 := rfl
  have hms : macSize = 32 := rfl
  unfold Small at h
  rw [encoded, List.length_append, List.length_append, List.length_append, length_preamble]
  split
  · next hmac => omega
  · rw [List.length_nil]
    omega

theorem send_eq {f : Frame} (h : Small f) :
    ConnWrapper.send f = .ok (ConnWrapper.record (encoded f)) :=
  ConnWrapper.send_eq_ok_iff.mpr ⟨_, if_neg (not_lt.mpr h.le), rfl⟩

theorem step_receive_record {f : Frame} (h : Small f) (rest : Bytes) :
    streamLink.step (ConnWrapper.record (encoded f) ++ rest) .receive
      = (streamResult f, rest) := by
  have hrecord := ConnWrapper.receive_record (length_encoded_le h) rest
  unfold streamResult
  revert hrecord
  rcases decode (encoded f) with err | ⟨g, r⟩ <;>
  · intro hrecord
    dsimp only [streamLink]
    rw [hrecord]
    rfl

/-- The bytes on their way are the records of the frames in the queue. -/
structure OnStream (s : Bytes) (q : List Frame) : Prop where
  bytes : s = q.flatMap fun f => ConnWrapper.record (encoded f)
  small : ∀ f ∈ q, Small f

/-- One call on the stream is one call on the queue. -/
theorem step_onStream {ops : List Op} (hsmall : ∀ f ∈ sends ops, Small f) (s : Bytes)
    (q : List Frame) (op : Op) (hop : op ∈ ops) (h : OnStream s q) :
    (streamLink.step s op).1 = ((fifo streamResult).step q op).1
      ∧ OnStream (streamLink.step s op).2 ((fifo streamResult).step q op).2 := by
  obtain ⟨rfl, hq⟩ := h
  cases op with
  | send f =>
    have hf := hsmall f (mem_sends.mpr hop)
    have hstep : streamLink.step (q.flatMap fun f => ConnWrapper.record (encoded f)) (.send f)
        = (.accepted, (q.flatMap fun f => ConnWrapper.record (encoded f))
          ++ ConnWrapper.record (encoded f)) := by
      dsimp only [streamLink]
      rw [send_eq hf]
    rw [hstep]
    refine ⟨rfl, ?_, List.forall_mem_append.mpr ⟨hq, List.forall_mem_singleton.mpr hf⟩⟩
    show _ = (q ++ [f]).flatMap fun f => ConnWrapper.record (encoded f)
    rw [List.flatMap_append, List.flatMap_singleton]
  | receive =>
    cases q with
    | nil => exact ⟨rfl, rfl, hq⟩
    | cons f q =>
      obtain ⟨hf, hq⟩ := List.forall_mem_cons.mp hq
      rw [List.flatMap_cons, step_receive_record hf]
      exact ⟨rfl, rfl, hq⟩

/-- **The stream is a queue of frames** that gives back what the decoder makes of
them. -/
theorem stream_answers {ops : List Op} (hsmall : ∀ f ∈ sends ops, Small f) :
    streamLink.answers [] ops = (fifo streamResult).answers [] ops :=
  have hempty : OnStream [] [] := ⟨rfl, fun _ h => (nomatch h)⟩
  (Machine.run_simulation_of_mem (step_onStream hsmall) hempty).1

theorem hasHMAC_withoutMac (f : Frame) : f.withoutMac.hasHMAC = f.hasHMAC := rfl

/-- **What comes out of the stream is the frame without a MAC** exactly when the
frame has the current version and announces none. -/
theorem streamResult_eq_iff {f : Frame} (h : Small f) :
    streamResult f = .frame f.withoutMac ↔
      f.version = protocolVersion ∧ f.hasHMAC = false := by
  have hfits : f.withoutMac.MacFits ↔ f.hasHMAC = false := by
    unfold MacFits
    rw [hasHMAC_withoutMac]
    cases f.hasHMAC with
    | true => exact ⟨fun hmac => (nomatch hmac), fun hflag => (nomatch hflag)⟩
    | false => exact ⟨fun _ => rfl, fun _ => rfl⟩
  unfold streamResult
  constructor
  · intro heq
    rcases hdec : decode (encoded f) with err | ⟨g, rest⟩
    · rw [hdec] at heq
      exact (nomatch heq)
    · rw [hdec] at heq
      obtain rfl : g = f.withoutMac := Answer.frame.inj heq
      obtain ⟨hversion, -, hmac⟩ := (wire_of_decode hdec).1
      exact ⟨hversion, hfits.mp hmac⟩
  · rintro ⟨hversion, hflag⟩
    have hwire : encoded f = f.withoutMac.wire ++ [] := by
      rw [encoded, if_neg (fun hc => by rw [hflag] at hc; exact (nomatch hc.1))]
      exact (List.append_nil _).symm
    rw [hwire, decode_wire (f := f.withoutMac) ⟨hversion, h.le, hfits.mpr hflag⟩]

theorem streamResult_ne_waits (f : Frame) : streamResult f ≠ .waits := by
  unfold streamResult
  rcases decode (encoded f) with err | ⟨g, rest⟩ <;> exact fun h => (nomatch h)

/-! ## The ring as a queue -/

/-- What comes out of a ring for a frame. -/
def shmResult (f : Frame) : Answer := .frame f.withoutMac

theorem step_receive_nil {rb : RingBuffer} {r : ℕ} (h : Represents rb r []) :
    shmLink.step rb .receive = (.waits, rb) := by
  dsimp only [shmLink]
  rw [h.read_nil]

theorem step_receive_cons {rb : RingBuffer} {r : ℕ} {f : Frame} {q : List Bytes} (hf : Small f)
    (h : Represents rb r (f.signableBytes :: q)) :
    shmLink.step rb .receive = (shmResult f, { rb with tail := rb.tail + 1 })
      ∧ Represents { rb with tail := rb.tail + 1 } (r + 1) q := by
  obtain ⟨hread, hrest⟩ := Represents.read_frame hf.le h
  refine ⟨?_, hrest⟩
  dsimp only [shmLink]
  rw [hread]
  rfl

/-- **The ring is a queue of frames** that gives them back without their MAC, as
long as its counters do not wrap around. -/
theorem shm_run {ops : List Op} {rb : RingBuffer} {r : ℕ} {q : List Frame}
    (h : Represents rb r (q.map signableBytes)) (hq : ∀ f ∈ q, Small f)
    (hsmall : ∀ f ∈ sends ops, Small f) (hok : .refused ∉ shmLink.answers rb ops)
    (hcount : r + q.length + (sends ops).length < 2 ^ 64) :
    shmLink.answers rb ops = (fifo shmResult).answers q ops
      ∧ ∃ r', Represents (shmLink.after rb ops) r'
        (((fifo shmResult).after q ops).map signableBytes) := by
  induction ops generalizing rb r q with
  | nil => exact ⟨rfl, r, h⟩
  | cons op ops ih =>
    rw [Machine.answers_cons, List.mem_cons, not_or] at hok
    rw [Machine.answers_cons, Machine.answers_cons, Machine.after_cons, Machine.after_cons]
    cases op with
    | send f =>
      obtain ⟨hf, hsmall⟩ := List.forall_mem_cons.mp hsmall
      have hcount' : r + q.length + ((sends ops).length + 1) < 2 ^ 64 := hcount
      obtain ⟨hwrite, hstep⟩ := write_of_shm_accepts (Ne.symm hok.1)
      have hrep : Represents (rb.write f).2 r ((q ++ [f]).map signableBytes) := by
        rw [List.map_append]
        exact (h.write hwrite).2.1 (by rw [List.length_map]; omega)
      rw [hstep] at hok ⊢
      obtain ⟨hans, hafter⟩ := ih hrep
        (List.forall_mem_append.mpr ⟨hq, List.forall_mem_singleton.mpr hf⟩) hsmall hok.2 (by
          rw [List.length_append, List.length_singleton]
          omega)
      exact ⟨congrArg (Answer.accepted :: ·) hans, hafter⟩
    | receive =>
      cases q with
      | nil =>
        have hstep := step_receive_nil h
        rw [hstep] at hok ⊢
        obtain ⟨hans, hafter⟩ := ih h hq hsmall hok.2 hcount
        exact ⟨congrArg (Answer.waits :: ·) hans, hafter⟩
      | cons f q =>
        obtain ⟨hf, hq⟩ := List.forall_mem_cons.mp hq
        obtain ⟨hstep, hrep⟩ := step_receive_cons hf h
        have hcount' : r + (q.length + 1) + (sends ops).length < 2 ^ 64 := hcount
        rw [hstep] at hok ⊢
        obtain ⟨hans, hafter⟩ := ih hrep hq hsmall hok.2 (by omega)
        exact ⟨congrArg (shmResult f :: ·) hans, hafter⟩

/-! ## The ring after the last number -/

theorem step_receive_stuck {rb : RingBuffer} (h : Stuck rb) :
    shmLink.step rb .receive = (.waits, rb) := by
  dsimp only [shmLink]
  rw [h.read]

/-- A stuck ring stays stuck. -/
theorem stuck_step (rb : RingBuffer) (op : Op) (h : Stuck rb) : Stuck (shmLink.step rb op).2 := by
  cases op with
  | send f =>
    have hstep : (shmLink.step rb (.send f)).2 = (rb.write f).2 := by
      dsimp only [shmLink]
      rcases rb.write f with ⟨err | u, rb'⟩ <;> rfl
    rw [hstep]
    exact h.write f
  | receive => rwa [step_receive_stuck h]

/-- A ring that has been written to `2 ^ 64` times is stuck. -/
theorem stuck_after {ops : List Op} {rb : RingBuffer} {r : ℕ} {q : List Bytes}
    (h : Represents rb r q) (hok : .refused ∉ shmLink.answers rb ops)
    (hcount : 2 ^ 64 ≤ r + q.length + (sends ops).length) : Stuck (shmLink.after rb ops) := by
  induction ops generalizing rb r q with
  | nil => exact absurd h.lt (not_lt.mpr hcount)
  | cons op ops ih =>
    rw [Machine.answers_cons, List.mem_cons, not_or] at hok
    rw [Machine.after_cons]
    cases op with
    | send f =>
      have hcount' : 2 ^ 64 ≤ r + q.length + ((sends ops).length + 1) := hcount
      obtain ⟨hwrite, hstep⟩ := write_of_shm_accepts (Ne.symm hok.1)
      obtain ⟨-, hrep, hstuck⟩ := h.write hwrite
      rw [hstep] at hok ⊢
      have hlt := h.lt
      by_cases hlast : r + q.length + 1 = 2 ^ 64
      · exact Machine.after_invariant stuck_step (hstuck hlast) ops
      · refine ih (hrep (by omega)) hok.2 ?_
        rw [List.length_append, List.length_singleton]
        omega
    | receive =>
      cases q with
      | nil =>
        have hstep := step_receive_nil h
        rw [hstep] at hok ⊢
        exact ih h hok.2 hcount
      | cons d q =>
        obtain ⟨hread, hrep⟩ := h.read_cons
        have hstep : (shmLink.step rb .receive).2 = { rb with tail := rb.tail + 1 } := by
          dsimp only [shmLink]
          by_cases hd : d.length < frameFixedSize
          · rw [hread, if_pos hd]
          · rw [hread, if_neg hd]
        rw [hstep] at hok ⊢
        rw [List.length_cons] at hcount
        have hcount' : 2 ^ 64 ≤ r + (q.length + 1) + (sends ops).length := hcount
        exact ih hrep hok.2 (by omega)

/-- A complete run of `2 ^ 64` frames or more ends with a call that waits. -/
theorem waits_mem_shm {ops : List Op} {cfg : ShmConfig} (hops : Complete 0 ops)
    (hok : .refused ∉ shmLink.answers (RingBuffer.new cfg) ops)
    (hcount : 2 ^ 64 ≤ (sends ops).length) :
    .waits ∈ shmLink.answers (RingBuffer.new cfg) ops := by
  rcases hops.eq_concat with ⟨-, rfl⟩ | ⟨ops', rfl, hsends⟩
  · exact absurd hcount (by decide)
  · rw [Machine.answers_concat] at hok ⊢
    rw [List.mem_append, not_or] at hok
    have hstuck := stuck_after (represents_new cfg) hok.1 (by
      rw [hsends]
      show 2 ^ 64 ≤ 0 + 0 + _
      omega)
    rw [step_receive_stuck hstuck]
    exact List.mem_append_right _ List.mem_cons_self

/-! ## Endpoints over a ring -/

/-- What a ring gives back of a frame that was written while nothing was unread. -/
theorem receive_written {rb : RingBuffer} (hrb : (∃ r, Represents rb r []) ∨ Stuck rb)
    {f g : Frame} (hwrite : (rb.write f).1 = .ok ()) {tx : RingBuffer}
    (hread : (ShmConnection.connection.receive ⟨tx, (rb.write f).2⟩).1 = .ok g) :
    g = f.withoutMac := by
  have hnone : ∀ {rb : RingBuffer}, Stuck rb →
      ¬(ShmConnection.connection.receive ⟨tx, rb⟩).1 = .ok g := by
    intro rb hstuck h
    dsimp only [ShmConnection.connection] at h
    rw [hstuck.read] at h
    exact (nomatch h)
  rcases hrb with ⟨r, hrep⟩ | hstuck
  · obtain ⟨-, hwritten, hlast⟩ := hrep.write hwrite
    have hlt := hrep.lt
    by_cases hcount : r + ([] : List Bytes).length + 1 = 2 ^ 64
    · exact absurd hread (hnone (hlast hcount))
    · have hcons := (Represents.read_cons (hwritten (by omega))).1
      dsimp only [ShmConnection.connection] at hread
      rw [hcons] at hread
      by_cases hshort : f.signableBytes.length < frameFixedSize
      · rw [if_pos hshort] at hread
        exact (nomatch hread)
      · rw [if_neg hshort] at hread
        have hsize : f.header.length + f.payload.length ≤ maxFrameSize := by
          by_contra hlarge
          rw [signableBytes, if_pos (not_le.mp hlarge)] at hshort
          exact hshort (by decide)
        rw [← parseSlot_signableBytes hsize]
        exact (Except.ok.inj hread).symm
  · exact absurd hread (hnone (hstuck.write f))

/-- **No message of a client is accepted over a ring**: its frame announces a MAC
and arrives without one. -/
theorem receive_shm_ne_ok {Time : Type} (tf : TimeFormat Time) {e : ClientEndpoint}
    {v : ServerEndpoint} {msg msg' : Message Time} {rb rx tx : RingBuffer}
    (hrb : (∃ r, Represents rb r []) ∨ Stuck rb)
    (hsend : (e.send tf ShmConnection.connection ⟨rb, rx⟩ msg).1 = .ok ()) :
    (v.receive tf ShmConnection.connection
      ⟨tx, (e.send tf ShmConnection.connection ⟨rb, rx⟩ msg).2.2.tx⟩).1 ≠ .ok msg' := by
  intro hreceive
  obtain ⟨hdrBytes, -, hconn, hstate⟩ := ClientEndpoint.exists_of_send_ok tf _ hsend
  rw [hstate] at hreceive
  obtain ⟨g, hdr, hread, hopen, -⟩ := (ServerEndpoint.receive_eq_ok_iff tf _).mp hreceive
  have hg := receive_written hrb (Except.mapError_eq_ok_iff.mp hconn) hread
  have hmac := (Endpoint.openFrame_eq_ok_iff.mp hopen).1 (by
    rw [hg]
    show (flagHMAC &&& flagHMAC != 0) = true
    decide)
  have hlen := length_hmacSha256 v.hmacKey g.signableBytes
  rw [← hmac, hg] at hlen
  exact (nomatch hlen)

/-- A heartbeat fits a slot of the default size. -/
theorem send_heartbeat {rb rx : RingBuffer} (hslot : rb.slotSize = 256)
    (hfree : (rb.head - rb.tail).toNat < rb.slots) :
    ((ClientEndpoint.new Codec.json [0x6b]).send .zeroOnly ShmConnection.connection ⟨rb, rx⟩
      Delivery.heartbeat).1 = .ok () := by
  have hlen := Delivery.length_marshal_heartbeat 1
  have hwrite : (rb.write (Endpoint.signFrame [0x6b] (Endpoint.frameOf
      (Json.writeObject (Endpoint.headerOf .zeroOnly 1 Delivery.heartbeat).members)
      Delivery.heartbeat))).1 = .ok () := by
    refine write_eq_ok ?_ hfree
    rw [hslot]
    refine (Nat.add_le_add_right (length_signableBytes_le _) 2).trans ?_
    show 16 + (Json.writeObject (Endpoint.headerOf .zeroOnly 1 Delivery.heartbeat).members).length
      + 0 + 2 ≤ 256
    omega
  exact Except.mapError_eq_ok_iff.mpr (Except.mapError_eq_ok_iff.mpr hwrite)

/-! ## When the transports agree -/

/-- Rings with the default sizes. -/
def defaultRing : ShmConfig := ⟨0, 0, by norm_num, by norm_num⟩

/-- A frame that announces no MAC. -/
def plainFrame : Frame := ⟨1, 0x69, 0, [0x7b, 0x7d], [], []⟩

/-- A frame with a MAC. -/
def taggedFrame : Frame := ⟨1, 0x69, 1, [0x7b, 0x7d], [], List.replicate 32 0xaa⟩

/-- **When the two transports are interchangeable.** In a run in which neither
refuses a frame and every frame is received, they give back the same frames
exactly when each frame has the current version and announces no MAC, and there
are fewer than `2 ^ 64` of them. A message that a client endpoint sends over the
ring after such a run is never accepted. -/
theorem same_frames_iff (cfg : ShmConfig) (ops : List Op) (hops : Complete 0 ops)
    (hstream : .refused ∉ streamLink.answers [] ops)
    (hshm : .refused ∉ shmLink.answers (RingBuffer.new cfg) ops) :
    (shmLink.answers (RingBuffer.new cfg) ops = streamLink.answers [] ops ↔
        (∀ f ∈ sends ops, f.version = protocolVersion ∧ f.hasHMAC = false)
          ∧ (sends ops).length < 2 ^ 64)
      ∧ ∀ {Time : Type} (tf : TimeFormat Time) (e : ClientEndpoint) (v : ServerEndpoint)
        (msg msg' : Message Time) (rx tx : RingBuffer),
        let sent := e.send tf ShmConnection.connection
          ⟨shmLink.after (RingBuffer.new cfg) ops, rx⟩ msg
        sent.1 = .ok () →
          (v.receive tf ShmConnection.connection ⟨tx, sent.2.2.tx⟩).1 ≠ .ok msg' := by
  have hsmall := small_of_accepted hstream hshm
  have hstreamRun := stream_answers hsmall
  by_cases hcount : (sends ops).length < 2 ^ 64
  · obtain ⟨hshmRun, r, hrep⟩ := shm_run (q := []) (represents_new cfg) (fun _ h => (nomatch h))
      hsmall hshm (by
        show 0 + 0 + (sends ops).length < 2 ^ 64
        omega)
    rw [fifo_after_complete (q := []) hops] at hrep
    refine ⟨?_, fun tf e v msg msg' rx tx => receive_shm_ne_ok tf (.inl ⟨r, hrep⟩)⟩
    rw [hshmRun, hstreamRun, fifo_answers_eq_iff (q := []) hops]
    have hresult : ∀ f ∈ sends ops, shmResult f = streamResult f ↔
        f.version = protocolVersion ∧ f.hasHMAC = false := fun f hf => by
      rw [← streamResult_eq_iff (hsmall f hf)]
      exact eq_comm
    exact ⟨fun h => ⟨fun f hf => (hresult f hf).mp (h f hf), hcount⟩,
      fun h f hf => (hresult f hf).mpr (h.1 f hf)⟩
  · have hstuck := stuck_after (represents_new cfg) hshm (by
      show 2 ^ 64 ≤ 0 + 0 + (sends ops).length
      omega)
    refine ⟨⟨fun h => ?_, fun h => absurd h.2 hcount⟩,
      fun tf e v msg msg' rx tx => receive_shm_ne_ok tf (.inr hstuck)⟩
    -- the ring gives up on its last frame, the stream does not
    have hwaits := waits_mem_shm hops hshm (not_lt.mp hcount)
    rw [h, hstreamRun] at hwaits
    exact absurd hwaits (waits_notMem_fifo streamResult_ne_waits (q := []) hops)

/-- Two frames without a MAC, one received before the other is sent. -/
def plainRun : List Op :=
  [.send plainFrame, .receive, .send { plainFrame with payload := [7, 8] }, .receive]

/-- They come through both transports alike, and the heartbeat that a client sends over the ring
after them is not accepted. -/
theorem same_frames_plain :
    shmLink.answers (RingBuffer.new defaultRing) plainRun = streamLink.answers [] plainRun
      ∧ ∀ msg', ((ServerEndpoint.new Codec.json [0x6b]).receive .zeroOnly ShmConnection.connection
        ⟨RingBuffer.new defaultRing, ((ClientEndpoint.new Codec.json [0x6b]).send .zeroOnly
          ShmConnection.connection
          ⟨shmLink.after (RingBuffer.new defaultRing) plainRun, RingBuffer.new defaultRing⟩
          Delivery.heartbeat).2.2.tx⟩).1 ≠ .ok msg' := by
  have hiff := same_frames_iff defaultRing plainRun rfl (by decide +kernel) (by decide +kernel)
  have hplain : ∀ f ∈ sends plainRun, f.version = protocolVersion ∧ f.hasHMAC = false :=
    List.forall_mem_cons.mpr ⟨⟨rfl, by decide⟩, List.forall_mem_singleton.mpr ⟨rfl, by decide⟩⟩
  refine ⟨hiff.1.mpr ⟨hplain, by decide⟩, fun msg' => ?_⟩
  exact hiff.2 .zeroOnly _ _ Delivery.heartbeat msg' _ _
    (send_heartbeat (by decide +kernel) (by decide +kernel))

/-- **A ring drops the MAC.** A frame that neither transport refuses comes out of
the stream as it was sent, and out of the ring without its MAC. -/
theorem shm_drops_mac :
    streamLink.answers [] [.send taggedFrame, .receive] = [.accepted, .frame taggedFrame]
      ∧ shmLink.answers (RingBuffer.new defaultRing) [.send taggedFrame, .receive]
        = [.accepted, .frame taggedFrame.withoutMac]
      ∧ taggedFrame.withoutMac ≠ taggedFrame := by
  decide +kernel

end Transports
