import Eipc.Delivery

/-!
# Concurrent sends

A client's `Send` takes no lock – the server's does – and yet two goroutines may well call
it on one endpoint: `HeartbeatSender.Start` sends heartbeats from its own goroutine, on the
endpoint that the application uses. Each call takes a number from an atomic counter,
serializes, signs and encodes by itself, and then makes **two** writes: the length of the
encoding, and the encoding. Each of them is atomic, and nothing keeps the two together.

Here any number of calls make their steps in any order (`ConcurrentSend.machine`). Calls that are
made one after the other are those of `ClientEndpoint.send` (`ConcurrentSend.after_sequential`).
Whether the stream can be read back is decided at the first writes: it can exactly if
nobody announces a frame between the two writes of somebody else, and nobody announces one
that is over the receiver's limit (`ConcurrentSend.parses_iff`). A stream in which two
lengths come one after the other is broken for good, because no frame begins with a length:
it begins with the magic bytes, which are too large for one.
-/

open Bytes Frame Endpoint

namespace ConcurrentSend

variable {Time : Type}

/-- How far a call of `Send` has come. -/
inductive Progress (Time : Type) where
  /-- It is about to take its number. -/
  | called (msg : Message Time)
  /-- It is about to write the length. -/
  | encoded (frame : Frame) (frameBuf : Bytes)
  /-- It is about to write the encoding. -/
  | announced (frame : Frame) (frameBuf : Bytes)
  /-- It has returned without an error. -/
  | sent (frame : Frame)
  /-- It has returned an error, and has written nothing. -/
  | failed (err : EndpointError TransportError)

namespace Progress

/-- The frame that is announced and not written. -/
def announcedFrame : Progress Time → Option Frame
  | .announced frame _ => some frame
  | _ => none

/-- The frame that was sent. -/
def sentFrame : Progress Time → Option Frame
  | .sent frame => some frame
  | _ => none

/-- What the call has returned. -/
def result : Progress Time → Option (Except (EndpointError TransportError) Unit)
  | .sent _ => some (.ok ())
  | .failed err => some (.error err)
  | _ => none

/-- How many steps there can still be. -/
def stepsLeft : Progress Time → ℕ
  | .called _ => 3
  | .encoded _ _ => 2
  | .announced _ _ => 1
  | .sent _ | .failed _ => 0

end Progress

/-- The endpoint, the bytes on the stream, and the calls. -/
structure State (Time : Type) where
  endpoint : ClientEndpoint
  output : Bytes
  sends : List (Progress Time)

/-- The frames that were sent. -/
def State.frames (s : State Time) : List Frame := s.sends.filterMap Progress.sentFrame

/-- The calls on an endpoint, with nothing on the stream. -/
def start (e : ClientEndpoint) (msgs : List (Message Time)) : State Time :=
  ⟨e, [], msgs.map .called⟩

variable (tf : TimeFormat Time)

/-- What a call does between taking its number and its first write. -/
def prepare (e : ClientEndpoint) (msg : Message Time) : Progress Time :=
  match buildFrame e.codec e.hmacKey tf e.sequence msg with
  | .error err => .failed err
  | .ok frame =>
    match frame.encode with
    | .error err => .failed (.conn (.encodeFrame err))
    | .ok frameBuf => .encoded frame frameBuf

/-- The next step of call number `i`. -/
def advance (s : State Time) (i : ℕ) : State Time :=
  match s.sends[i]? with
  | some (.called msg) =>
    let e := { s.endpoint with sequence := s.endpoint.sequence + 1 }
    ⟨e, s.output, s.sends.set i (prepare tf e msg)⟩
  | some (.encoded frame frameBuf) =>
    ⟨s.endpoint, s.output ++ ofNatBE 4 frameBuf.length, s.sends.set i (.announced frame frameBuf)⟩
  | some (.announced frame frameBuf) =>
    ⟨s.endpoint, s.output ++ frameBuf, s.sends.set i (.sent frame)⟩
  | _ => s

/-- The calls, which make their steps in the order of a schedule. -/
def machine : Machine (State Time) ℕ Unit where
  step s i := ((), advance tf s i)

/-- The stream can be read to its end, and the frames are these. -/
inductive Parses : Bytes → List Frame → Prop
  | nil : Parses [] []
  | cons {s rest : Bytes} {f : Frame} {fs : List Frame} :
      ConnWrapper.receive s = (.ok f, rest) → Parses rest fs → Parses s (f :: fs)

/-- The step does not break the stream: if it announces a frame, then no other frame is
announced and not written, and the frame is within the receiver's limit. -/
def State.Orderly (s : State Time) (i : ℕ) : Prop :=
  ∀ frame frameBuf, s.sends[i]? = some (.encoded frame frameBuf) →
    (∀ p ∈ s.sends, p.announcedFrame = none) ∧ frameBuf.length ≤ maxFrameSize

/-- Every step of a schedule is like that. -/
def Orderly : State Time → List ℕ → Prop
  | _, [] => True
  | s, i :: is => s.Orderly i ∧ Orderly (advance tf s i) is

variable {tf} {s : State Time} {i : ℕ} {f : Frame}

theorem advance_called {msg : Message Time} (h : s.sends[i]? = some (.called msg)) :
    advance tf s i = ⟨{ s.endpoint with sequence := s.endpoint.sequence + 1 }, s.output,
      s.sends.set i
        (prepare tf { s.endpoint with sequence := s.endpoint.sequence + 1 } msg)⟩ := by
  unfold advance
  rw [h]

/-- The frames as records. -/
def records (fs : List Frame) : Bytes := fs.flatMap fun f => ConnWrapper.record f.wire

/-- The length of a frame that is announced. -/
def announcement : Option Frame → Bytes
  | none => []
  | some f => ofNatBE 4 f.wire.length

/-- A frame is within the limits of the format and of the receiver. -/
structure Fits (f : Frame) : Prop where
  wellFormed : f.WellFormed
  len : f.wire.length ≤ maxFrameSize

theorem receive_record {f : Frame} (hf : Fits f) (rest : Bytes) :
    ConnWrapper.receive (ConnWrapper.record f.wire ++ rest) = (.ok f, rest) := by
  refine ConnWrapper.receive_record_wire hf.wellFormed ?_ rest
  rw [← ConnWrapper.length_wire hf.wellFormed.mac]
  exact hf.len

/-- Records can be read. -/
theorem parses_records {fs : List Frame} (hfs : ∀ f ∈ fs, Fits f) : Parses (records fs) fs := by
  induction fs with
  | nil => exact .nil
  | cons f fs ih =>
    obtain ⟨hf, hfs⟩ := List.forall_mem_cons.mp hfs
    exact .cons (receive_record hf (records fs)) (ih hfs)

/-- What is behind records can be read if the whole can be. -/
theorem exists_parses_of_append {fs gs : List Frame} (hfs : ∀ f ∈ fs, Fits f) {b : Bytes}
    (h : Parses (records fs ++ b) gs) : ∃ gs', Parses b gs' := by
  induction fs generalizing gs with
  | nil => exact ⟨gs, h⟩
  | cons f fs ih =>
    obtain ⟨hf, hfs⟩ := List.forall_mem_cons.mp hfs
    rw [show records (f :: fs) ++ b = ConnWrapper.record f.wire ++ (records fs ++ b) by
      simp [records]] at h
    cases h with
    | cons hreceive hrest =>
      rw [receive_record hf] at hreceive
      obtain ⟨-, rfl⟩ := Prod.mk.inj hreceive
      exact ih hfs hrest

theorem Parses.exists_receive {b : Bytes} {fs : List Frame} (h : Parses b fs) (hb : b ≠ []) :
    ∃ f rest, ConnWrapper.receive b = (.ok f, rest) := by
  cases h with
  | nil => exact absurd rfl hb
  | cons hreceive _ => exact ⟨_, _, hreceive⟩

/-- The encoding of a frame is too short to be taken for the magic bytes. -/
theorem length_wire_lt (hf : f.WellFormed) : f.wire.length < magicBytes := by
  have hsize := hf.size
  have hmax : maxFrameSize = 1048576 := rfl
  rw [ConnWrapper.length_wire hf.mac, ConnWrapper.encodedLen]
  show 16 + f.header.length + f.payload.length + (if f.hasHMAC then 32 else 0) < 1162432579
  split <;> omega

theorem toNatBE_length_wire (hf : f.WellFormed) :
    toNatBE (ofNatBE 4 f.wire.length) = f.wire.length :=
  toNatBE_ofNatBE ((length_wire_lt hf).trans (by decide))

theorem ofNatBE_append_ne_nil (n : ℕ) (b : Bytes) : ofNatBE 4 n ++ b ≠ [] := by
  intro h
  have hlen := congrArg List.length h
  simp [length_ofNatBE] at hlen

/-- **Nothing is read past a frame that is over the limit.** -/
theorem le_of_parses {b : Bytes} {fs : List Frame} (hf : f.WellFormed)
    (h : Parses (ofNatBE 4 f.wire.length ++ b) fs) : f.wire.length ≤ maxFrameSize := by
  obtain ⟨f', rest, hreceive⟩ := h.exists_receive (ofNatBE_append_ne_nil _ b)
  obtain ⟨lenBuf, frameBuf, heq, hfour, hlen, hle, -⟩ := ConnWrapper.exists_of_receive hreceive
  obtain ⟨rfl, -⟩ := List.append_inj heq ((length_ofNatBE 4 _).trans hfour.symm)
  rwa [← hlen, toNatBE_length_wire hf] at hle

/-- **Nothing is read past two lengths**: where the first frame should begin there is a
length and not the magic bytes. -/
theorem not_parses_lengths {n : ℕ} {b : Bytes} {fs : List Frame} (hf : f.WellFormed) :
    ¬Parses (ofNatBE 4 n ++ (ofNatBE 4 f.wire.length ++ b)) fs := by
  intro h
  obtain ⟨f', rest, hreceive⟩ := h.exists_receive (ofNatBE_append_ne_nil n _)
  obtain ⟨lenBuf, frameBuf, heq, hfour, -, -, -, dropped, rfl⟩ :=
    ConnWrapper.exists_of_receive hreceive
  obtain ⟨-, hbody⟩ := List.append_inj heq ((length_ofNatBE 4 _).trans hfour.symm)
  obtain ⟨t, ht⟩ : ∃ t, f'.wire = ofNatBE 4 magicBytes ++ t :=
    ⟨_, by rw [wire, preamble, List.append_assoc]⟩
  rw [ht, List.append_assoc, List.append_assoc] at hbody
  obtain ⟨hmagic, -⟩ :=
    List.append_inj hbody ((length_ofNatBE 4 _).trans (length_ofNatBE 4 _).symm)
  have hnat := congrArg toNatBE hmagic
  rw [toNatBE_length_wire hf, toNatBE_ofNatBE (by decide)] at hnat
  exact (length_wire_lt hf).ne hnat

/-! ## Calls in turn -/

section Prepare

variable {e : ClientEndpoint} {msg : Message Time} {hdrBytes : Bytes}

/-- A message that is within the limit is signed and encoded. -/
theorem prepare_of_le (hmarshal : e.codec.marshal (headerOf tf e.sequence msg) = .ok hdrBytes)
    (hsize : hdrBytes.length + msg.payload.length ≤ maxFrameSize) :
    prepare tf e msg = .encoded (signFrame e.hmacKey (frameOf hdrBytes msg))
      (signFrame e.hmacKey (frameOf hdrBytes msg)).wire := by
  unfold prepare buildFrame
  rw [hmarshal]
  dsimp only
  rw [encode_of_macFits (Delivery.macFits_signFrame e.hmacKey) hsize]

/-- What a call prepares: a frame of the format and its encoding, or nothing. -/
theorem prepare_cases (tf : TimeFormat Time) (e : ClientEndpoint) (msg : Message Time) :
    (∃ frame : Frame, frame.WellFormed ∧ prepare tf e msg = .encoded frame frame.wire)
      ∨ ∃ err, prepare tf e msg = .failed err := by
  cases hmarshal : e.codec.marshal (headerOf tf e.sequence msg) with
  | error err =>
    refine .inr ⟨.marshalHeader err, ?_⟩
    unfold prepare buildFrame
    rw [hmarshal]
  | ok hdrBytes =>
    by_cases hsize : hdrBytes.length + msg.payload.length ≤ maxFrameSize
    · exact .inl ⟨_, ⟨rfl, hsize, Delivery.macFits_signFrame e.hmacKey⟩,
        prepare_of_le hmarshal hsize⟩
    · have hencode : (signFrame e.hmacKey (frameOf hdrBytes msg)).encode = .error .frameTooLarge :=
        if_pos (not_le.mp hsize)
      refine .inr ⟨.conn (.encodeFrame .frameTooLarge), ?_⟩
      unfold prepare buildFrame
      rw [hmarshal]
      dsimp only
      rw [hencode]

end Prepare

/-- What is known of a call: its frame is one of the format, and its buffer is the
frame's encoding. -/
def Progress.Sound : Progress Time → Prop
  | .encoded frame frameBuf | .announced frame frameBuf =>
    frame.WellFormed ∧ frameBuf = frame.wire
  | _ => True

/-- A call among the others. -/
theorem exists_split {α : Type} {l : List α} {a : α} (h : l[i]? = some a) :
    ∃ l₁ l₂, l = l₁ ++ a :: l₂ ∧ ∀ b, l.set i b = l₁ ++ b :: l₂ := by
  obtain ⟨hi, rfl⟩ := List.getElem?_eq_some_iff.mp h
  refine ⟨l.take i, l.drop (i + 1), ?_, fun b => ?_⟩
  · rw [← List.drop_eq_getElem_cons, List.take_append_drop]
  · rw [List.set_eq_take_append_cons_drop, if_pos hi]

/-- **What a step can do**: take a number, announce a frame, write one, or nothing. One
call is further then, and the others are where they were. -/
theorem advance_cases (tf : TimeFormat Time) (i : ℕ) (hsound : ∀ p ∈ s.sends, p.Sound) :
    advance tf s i = s
      ∨ (∃ (l₁ l₂ : List (Progress Time)) (msg : Message Time) (p : Progress Time),
          s.sends = l₁ ++ .called msg :: l₂ ∧ (advance tf s i).output = s.output
          ∧ (advance tf s i).sends = l₁ ++ p :: l₂
          ∧ p.Sound ∧ p.announcedFrame = none ∧ p.sentFrame = none)
      ∨ (∃ (l₁ l₂ : List (Progress Time)) (f : Frame), s.sends = l₁ ++ .encoded f f.wire :: l₂
          ∧ (advance tf s i).output = s.output ++ ofNatBE 4 f.wire.length
          ∧ (advance tf s i).sends = l₁ ++ .announced f f.wire :: l₂
          ∧ s.sends[i]? = some (.encoded f f.wire) ∧ f.WellFormed)
      ∨ ∃ (l₁ l₂ : List (Progress Time)) (f : Frame), s.sends = l₁ ++ .announced f f.wire :: l₂
          ∧ (advance tf s i).output = s.output ++ f.wire
          ∧ (advance tf s i).sends = l₁ ++ .sent f :: l₂ := by
  unfold advance
  split
  case h_1 msg hi =>
    obtain ⟨l₁, l₂, hsends, hset⟩ := exists_split hi
    refine .inr (.inl ⟨l₁, l₂, msg, _, hsends, rfl, hset _, ?_⟩)
    obtain ⟨frame, hframe, heq⟩ | ⟨err, heq⟩ := prepare_cases tf
      { s.endpoint with sequence := s.endpoint.sequence + 1 } msg
    · rw [heq]
      exact ⟨⟨hframe, rfl⟩, rfl, rfl⟩
    · rw [heq]
      exact ⟨trivial, rfl, rfl⟩
  case h_2 frame frameBuf hi =>
    obtain ⟨hframe, rfl⟩ := hsound _ (List.mem_of_getElem? hi)
    obtain ⟨l₁, l₂, hsends, hset⟩ := exists_split hi
    exact .inr (.inr (.inl ⟨l₁, l₂, frame, hsends, rfl, hset _, hi, hframe⟩))
  case h_3 frame frameBuf hi =>
    obtain ⟨hframe, rfl⟩ := hsound _ (List.mem_of_getElem? hi)
    obtain ⟨l₁, l₂, hsends, hset⟩ := exists_split hi
    exact .inr (.inr (.inr ⟨l₁, l₂, frame, hsends, rfl, hset _⟩))
  case h_4 => exact .inl rfl

/-- **The calls have written in turn**: the stream has whole records, those of the frames
that were sent, and behind them at most the length of one frame more. -/
structure InTurn (s : State Time) (done : List Frame) (next : Option Frame) : Prop where
  sound : ∀ p ∈ s.sends, p.Sound
  output : s.output = records done ++ announcement next
  sent : done.Perm s.frames
  announced : s.sends.filterMap Progress.announcedFrame = next.toList
  fits : ∀ f ∈ done ++ next.toList, Fits f

theorem inTurn_start (e : ClientEndpoint) (msgs : List (Message Time)) :
    InTurn (start e msgs) [] none where
  sound p hp := by
    obtain ⟨msg, -, rfl⟩ := List.mem_map.mp hp
    exact trivial
  output := rfl
  sent := by
    unfold State.frames start
    rw [List.filterMap_map]
    simp [Function.comp_def, Progress.sentFrame]
  announced := by
    unfold start
    rw [List.filterMap_map]
    simp [Function.comp_def, Progress.announcedFrame]
  fits := by simp

section Step

variable {s' : State Time} {done : List Frame} {next : Option Frame} {l₁ l₂ : List (Progress Time)}
  {p p' : Progress Time}

theorem filterMap_split {α β : Type} (φ : α → Option β) (l₁ l₂ : List α) (a : α) :
    (l₁ ++ a :: l₂).filterMap φ = l₁.filterMap φ ++ ((φ a).toList ++ l₂.filterMap φ) := by
  rw [List.filterMap_append, List.filterMap_cons]
  cases φ a <;> rfl

/-- The calls stay sound if the one that makes a step does. -/
theorem InTurn.sound_split (h : InTurn s done next) (hsends : s.sends = l₁ ++ p :: l₂)
    (hp' : p'.Sound) : ∀ q ∈ l₁ ++ p' :: l₂, q.Sound := by
  have hsound := h.sound
  simp only [hsends, List.forall_mem_append, List.forall_mem_cons] at hsound ⊢
  exact ⟨hsound.1, hp', hsound.2.2⟩

/-- A call that does not write. -/
theorem InTurn.number (h : InTurn s done next) {msg : Message Time}
    (hsends : s.sends = l₁ ++ .called msg :: l₂) (houtput : s'.output = s.output)
    (hsends' : s'.sends = l₁ ++ p :: l₂) (hp : p.Sound) (hannounced : p.announcedFrame = none)
    (hsent : p.sentFrame = none) : InTurn s' done next where
  sound := hsends' ▸ h.sound_split hsends hp
  output := houtput.trans h.output
  sent := by
    have hperm := h.sent
    unfold State.frames at hperm ⊢
    rw [hsends, filterMap_split] at hperm
    rw [hsends', filterMap_split, hsent]
    exact hperm
  announced := by
    have hlist := h.announced
    rw [hsends, filterMap_split] at hlist
    rw [hsends', filterMap_split, hannounced]
    exact hlist
  fits := h.fits

/-- A call that announces a frame behind a whole record. -/
theorem InTurn.announce (h : InTurn s done none)
    (hsends : s.sends = l₁ ++ .encoded f f.wire :: l₂)
    (houtput : s'.output = s.output ++ ofNatBE 4 f.wire.length)
    (hsends' : s'.sends = l₁ ++ .announced f f.wire :: l₂) (hf : Fits f) :
    InTurn s' done (some f) where
  sound := hsends' ▸ h.sound_split hsends ⟨hf.wellFormed, rfl⟩
  output := by
    rw [houtput, h.output, List.append_assoc]
    rfl
  sent := by
    have hperm := h.sent
    unfold State.frames at hperm ⊢
    rw [hsends, filterMap_split] at hperm
    rw [hsends', filterMap_split]
    exact hperm
  announced := by
    have hlist := h.announced
    rw [hsends, filterMap_split] at hlist
    obtain ⟨hl₁, hl₂⟩ := List.append_eq_nil_iff.mp hlist
    rw [hsends', filterMap_split, hl₁]
    exact congrArg (f :: ·) hl₂
  fits := by
    have hfits := h.fits
    rw [Option.toList_none, List.append_nil] at hfits
    exact List.forall_mem_append.mpr ⟨hfits, List.forall_mem_singleton.mpr hf⟩

/-- A call that writes a frame writes the one that was announced, since there is no other. -/
theorem InTurn.write (h : InTurn s done next)
    (hsends : s.sends = l₁ ++ .announced f f.wire :: l₂)
    (houtput : s'.output = s.output ++ f.wire) (hsends' : s'.sends = l₁ ++ .sent f :: l₂) :
    InTurn s' (done ++ [f]) none := by
  have hlist := h.announced
  rw [hsends, filterMap_split] at hlist
  -- the frames that are announced are one list, which has this frame and one place
  obtain ⟨hl₁, hnext, hl₂⟩ : l₁.filterMap Progress.announcedFrame = [] ∧ next = some f
      ∧ l₂.filterMap Progress.announcedFrame = [] := by
    cases next with
    | none => exact absurd hlist (List.append_ne_nil_of_right_ne_nil _ (List.cons_ne_nil _ _))
    | some g =>
      obtain ⟨hl₁, hrest⟩ | ⟨-, hrest⟩ := List.append_eq_singleton_iff.mp hlist
      · obtain ⟨rfl, hl₂⟩ := List.cons.inj hrest
        exact ⟨hl₁, rfl, hl₂⟩
      · exact (nomatch hrest)
  refine ⟨hsends' ▸ h.sound_split hsends trivial, ?_, ?_, ?_, ?_⟩
  · rw [houtput, h.output, hnext]
    simp [announcement, records, ConnWrapper.record]
  · have hperm := h.sent
    unfold State.frames at hperm ⊢
    rw [hsends, filterMap_split] at hperm
    rw [hsends', filterMap_split]
    refine (List.perm_append_singleton f done).trans ((hperm.cons f).trans ?_)
    exact List.perm_middle.symm
  · rw [hsends', filterMap_split, hl₁]
    exact hl₂
  · have hfits := h.fits
    rw [hnext] at hfits
    rw [Option.toList_none, List.append_nil]
    exact hfits

/-- Nobody is between two writes exactly if the stream ends with a whole record. -/
theorem InTurn.next_eq_none_iff (h : InTurn s done next) :
    next = none ↔ ∀ p ∈ s.sends, p.announcedFrame = none := by
  rw [← List.filterMap_eq_nil_iff, h.announced, Option.toList_eq_nil_iff]

/-- **One step keeps the calls in turn**, if it does not break the stream. -/
theorem InTurn.step (tf : TimeFormat Time) (h : InTurn s done next) (horderly : s.Orderly i) :
    ∃ done next, InTurn (advance tf s i) done next := by
  obtain heq | ⟨l₁, l₂, msg, p, hsends, houtput, hsends', hp, hannounced, hsent⟩
    | ⟨l₁, l₂, f, hsends, houtput, hsends', hi, hf⟩ | ⟨l₁, l₂, f, hsends, houtput, hsends'⟩ :=
    advance_cases tf i h.sound
  · exact ⟨done, next, heq.symm ▸ h⟩
  · exact ⟨done, next, h.number hsends houtput hsends' hp hannounced hsent⟩
  · obtain ⟨hfree, hlen⟩ := horderly f f.wire hi
    obtain rfl := h.next_eq_none_iff.mpr hfree
    exact ⟨done, some f, h.announce hsends houtput hsends' ⟨hf, hlen⟩⟩
  · exact ⟨done ++ [f], none, h.write hsends houtput hsends'⟩

/-- **A step that is not orderly breaks the stream** for good. -/
theorem InTurn.not_parses (h : InTurn s done next) (horderly : ¬s.Orderly i) {b : Bytes}
    {fs : List Frame} : ¬Parses ((advance tf s i).output ++ b) fs := by
  intro hparses
  refine horderly fun frame frameBuf hi => ?_
  obtain ⟨hf, rfl⟩ := h.sound _ (List.mem_of_getElem? hi)
  have houtput : (advance tf s i).output = s.output ++ ofNatBE 4 frame.wire.length := by
    unfold advance
    rw [hi]
  have hdone : ∀ f ∈ done, Fits f := fun f hmem => h.fits f (List.mem_append_left _ hmem)
  rw [houtput, h.output, List.append_assoc, List.append_assoc] at hparses
  obtain ⟨gs, hrest⟩ := exists_parses_of_append hdone hparses
  -- what follows the whole records is the new length, behind another one or not
  cases next with
  | some g => exact absurd hrest (not_parses_lengths hf)
  | none => exact ⟨h.next_eq_none_iff.mp rfl, le_of_parses hf hrest⟩

end Step

/-! ## Whole runs -/

section Run

variable {done : List Frame} {next : Option Frame} {schedule : List ℕ}

theorem exists_output_advance (tf : TimeFormat Time) (s : State Time) (i : ℕ) :
    ∃ b, (advance tf s i).output = s.output ++ b := by
  unfold advance
  split
  · exact ⟨[], (List.append_nil _).symm⟩
  · exact ⟨_, rfl⟩
  · exact ⟨_, rfl⟩
  · exact ⟨[], (List.append_nil _).symm⟩

/-- What is on the stream stays there. -/
theorem exists_output_after (tf : TimeFormat Time) (s : State Time) (schedule : List ℕ) :
    ∃ b, ((machine tf).after s schedule).output = s.output ++ b := by
  induction schedule generalizing s with
  | nil => exact ⟨[], (List.append_nil _).symm⟩
  | cons i schedule ih =>
    obtain ⟨b, hb⟩ := exists_output_advance tf s i
    obtain ⟨b', hb'⟩ := ih (advance tf s i)
    refine ⟨b ++ b', hb'.trans ?_⟩
    rw [hb, List.append_assoc]

/-- An orderly run keeps the calls in turn. -/
theorem InTurn.after (h : InTurn s done next) (horderly : Orderly tf s schedule) :
    ∃ done next, InTurn ((machine tf).after s schedule) done next := by
  induction schedule generalizing s done next with
  | nil => exact ⟨done, next, h⟩
  | cons i schedule ih =>
    obtain ⟨done', next', h'⟩ := h.step tf horderly.1
    exact ih h' horderly.2

/-- **A run whose stream can be read was orderly.** -/
theorem InTurn.orderly (h : InTurn s done next) {fs : List Frame}
    (hparses : Parses ((machine tf).after s schedule).output fs) : Orderly tf s schedule := by
  induction schedule generalizing s done next with
  | nil => exact trivial
  | cons i schedule ih =>
    have hi : s.Orderly i := by
      -- otherwise the stream is broken here, and later writes cannot mend it
      by_contra hi
      obtain ⟨b, hb⟩ := exists_output_after tf (advance tf s i) schedule
      exact h.not_parses hi (hb ▸ hparses)
    obtain ⟨done', next', h'⟩ := h.step tf hi
    exact ⟨hi, ih h' hparses⟩

theorem stepsLeft_prepare_le (e : ClientEndpoint) (msg : Message Time) :
    (prepare tf e msg).stepsLeft ≤ 2 := by
  obtain ⟨frame, -, heq⟩ | ⟨err, heq⟩ := prepare_cases tf e msg
  · rw [heq]
    exact le_refl 2
  · rw [heq]
    exact Nat.zero_le 2

/-- A step of a call brings it nearer to its end. -/
theorem stepsLeft_advance_self (tf : TimeFormat Time) {p : Progress Time}
    (hp : s.sends[i]? = some p) :
    ∃ p', (advance tf s i).sends[i]? = some p' ∧ p'.stepsLeft ≤ p.stepsLeft - 1 := by
  obtain ⟨hi, -⟩ := List.getElem?_eq_some_iff.mp hp
  unfold advance
  rw [hp]
  cases p with
  | called msg => exact ⟨_, List.getElem?_set_self hi, stepsLeft_prepare_le _ msg⟩
  | encoded frame frameBuf => exact ⟨_, List.getElem?_set_self hi, le_refl 1⟩
  | announced frame frameBuf => exact ⟨_, List.getElem?_set_self hi, le_refl 0⟩
  | sent frame => exact ⟨_, hp, le_refl 0⟩
  | failed err => exact ⟨_, hp, le_refl 0⟩

/-- It leaves the others where they are. -/
theorem getElem?_advance_of_ne (tf : TimeFormat Time) {j : ℕ} (hij : i ≠ j) :
    (advance tf s i).sends[j]? = s.sends[j]? := by
  unfold advance
  split <;> first | exact List.getElem?_set_ne hij | rfl

/-- A call has returned once it has made three steps. -/
theorem stepsLeft_after (tf : TimeFormat Time) (schedule : List ℕ) {j : ℕ} {p : Progress Time}
    (hp : s.sends[j]? = some p) :
    ∃ p', ((machine tf).after s schedule).sends[j]? = some p'
      ∧ p'.stepsLeft ≤ p.stepsLeft - schedule.count j := by
  induction schedule generalizing s p with
  | nil => exact ⟨p, hp, le_refl _⟩
  | cons i schedule ih =>
    rw [List.count_cons]
    by_cases hij : i = j
    · subst hij
      obtain ⟨p₁, hp₁, hle₁⟩ := stepsLeft_advance_self tf hp
      obtain ⟨p₂, hp₂, hle₂⟩ := ih hp₁
      refine ⟨p₂, hp₂, hle₂.trans ?_⟩
      rw [if_pos (beq_self_eq_true i)]
      omega
    · rw [← getElem?_advance_of_ne tf hij] at hp
      rw [if_neg (by simpa using hij)]
      exact ih hp

theorem length_sends_after (s : State Time) (schedule : List ℕ) :
    ((machine tf).after s schedule).sends.length = s.sends.length := by
  refine Machine.after_invariant (I := fun s' : State Time => s'.sends.length = s.sends.length)
    (fun s' i hs' => ?_) rfl schedule
  show (advance tf s' i).sends.length = _
  unfold advance
  split <;> simp [hs']

/-- If every call makes three steps, all of them have returned. -/
theorem announcedFrame_after {e : ClientEndpoint} {msgs : List (Message Time)}
    (hdone : ∀ i < msgs.length, 3 ≤ schedule.count i) :
    ∀ p ∈ ((machine tf).after (start e msgs) schedule).sends, p.announcedFrame = none := by
  intro p hp
  obtain ⟨j, hj, rfl⟩ := List.getElem_of_mem hp
  have hj' : j < msgs.length := by simpa [length_sends_after, start] using hj
  have hcalled : (start e msgs).sends[j]? = some (.called msgs[j]) := by
    simp [start, hj']
  obtain ⟨p', hp', hle⟩ := stepsLeft_after tf schedule hcalled
  have hzero : p'.stepsLeft = 0 := by
    have hcount := hdone j hj'
    have hthree : (Progress.called msgs[j]).stepsLeft = 3 := rfl
    omega
  rw [List.getElem?_eq_getElem hj] at hp'
  rw [Option.some.inj hp']
  cases p' with
  | announced frame frameBuf => exact (nomatch hzero)
  | _ => rfl

end Run

/-! ## Two calls -/

section Two

variable {e : ClientEndpoint} {msg₁ msg₂ : Message Time} {f₁ f₂ : Frame}

/-- The first call takes its number. -/
theorem advance_start
    (h₁ : prepare tf { e with sequence := e.sequence + 1 } msg₁ = .encoded f₁ f₁.wire) :
    advance tf (start e [msg₁, msg₂]) 0
      = ⟨{ e with sequence := e.sequence + 1 }, [], [.encoded f₁ f₁.wire, .called msg₂]⟩ :=
  (advance_called rfl).trans (h₁ ▸ rfl)

/-- Then the second one does. -/
theorem advance_advance_start
    (h₁ : prepare tf { e with sequence := e.sequence + 1 } msg₁ = .encoded f₁ f₁.wire)
    (h₂ : prepare tf { e with sequence := e.sequence + 1 + 1 } msg₂ = .encoded f₂ f₂.wire) :
    advance tf (advance tf (start e [msg₁, msg₂]) 0) 1
      = ⟨{ e with sequence := e.sequence + 1 + 1 }, [],
        [.encoded f₁ f₁.wire, .encoded f₂ f₂.wire]⟩ := by
  rw [advance_start h₁]
  exact (advance_called rfl).trans (h₂ ▸ rfl)

/-- Two calls that overlap and write in turn. -/
theorem orderly_of_le
    (h₁ : prepare tf { e with sequence := e.sequence + 1 } msg₁ = .encoded f₁ f₁.wire)
    (h₂ : prepare tf { e with sequence := e.sequence + 1 + 1 } msg₂ = .encoded f₂ f₂.wire)
    (hlen₁ : f₁.wire.length ≤ maxFrameSize) (hlen₂ : f₂.wire.length ≤ maxFrameSize) :
    Orderly tf (start e [msg₁, msg₂]) [0, 1, 0, 0, 1, 1] := by
  refine ⟨fun _ _ h => (nomatch h), ?_, ?_⟩
  · rw [advance_start h₁]
    exact fun _ _ h => (nomatch h)
  rw [advance_advance_start h₁ h₂]
  refine ⟨fun _ _ h => ?_, fun _ _ h => (nomatch h), fun _ _ h => ?_, fun _ _ h => (nomatch h),
    trivial⟩
  · cases h
    exact ⟨by simp [Progress.announcedFrame], hlen₁⟩
  · cases h
    exact ⟨by simp [advance, Progress.announcedFrame], hlen₂⟩

/-- Two calls that overlap and do not: both take their numbers, both write their
lengths, and then both write their frames. -/
theorem not_orderly_overlap
    (h₁ : prepare tf { e with sequence := e.sequence + 1 } msg₁ = .encoded f₁ f₁.wire)
    (h₂ : prepare tf { e with sequence := e.sequence + 1 + 1 } msg₂ = .encoded f₂ f₂.wire) :
    ¬Orderly tf (start e [msg₁, msg₂]) [0, 1, 0, 1, 0, 1] := by
  rintro ⟨-, -, -, h, -⟩
  have hstate : (advance tf (advance tf (advance tf (start e [msg₁, msg₂]) 0) 1) 0).sends
      = [.announced f₁ f₁.wire, .encoded f₂ f₂.wire] := by
    rw [advance_advance_start h₁ h₂]
    rfl
  obtain ⟨hfree, -⟩ := h f₂ f₂.wire (by rw [hstate]; rfl)
  rw [hstate] at hfree
  exact (nomatch hfree (.announced f₁ f₁.wire) List.mem_cons_self)

end Two

/-- The frame of a heartbeat. -/
def heartbeatFrame (key : Bytes) (seq : UInt64) : Frame :=
  signFrame key (frameOf (Json.writeObject (headerOf .zeroOnly seq Delivery.heartbeat).members)
    Delivery.heartbeat)

theorem prepare_heartbeat (key : Bytes) (seq : UInt64) :
    prepare .zeroOnly ⟨Codec.json, key, seq⟩ Delivery.heartbeat
      = .encoded (heartbeatFrame key seq) (heartbeatFrame key seq).wire :=
  prepare_of_le rfl ((Delivery.length_marshal_heartbeat seq).trans (by decide))

theorem length_wire_heartbeatFrame (key : Bytes) (seq : UInt64) :
    (heartbeatFrame key seq).wire.length ≤ maxFrameSize := by
  have hlen := Delivery.length_marshal_heartbeat seq
  have hmax : maxFrameSize = 1048576 := rfl
  have hpayload : Delivery.heartbeat.payload.length = 0 := rfl
  unfold heartbeatFrame
  rw [ConnWrapper.length_wire (Delivery.macFits_signFrame key), Delivery.encodedLen_signFrame,
    hpayload]
  omega

/-! ## Which interleavings are read back -/

/-- **When the frames of concurrent calls arrive.** Any number of calls, each of which
makes all of its steps, in any order: the stream can be read back into the frames that were
sent, each of them whole and once, exactly if no call announced a frame between the two
writes of another, and none announced one that is over the receiver's limit. -/
theorem parses_iff (tf : TimeFormat Time) (e : ClientEndpoint) (msgs : List (Message Time))
    (schedule : List ℕ) (hdone : ∀ i < msgs.length, 3 ≤ schedule.count i) :
    (∃ fs, Parses ((machine tf).after (start e msgs) schedule).output fs
      ∧ fs.Perm ((machine tf).after (start e msgs) schedule).frames)
      ↔ Orderly tf (start e msgs) schedule := by
  constructor
  · rintro ⟨fs, hparses, -⟩
    exact (inTurn_start e msgs).orderly hparses
  · intro horderly
    obtain ⟨done, next, h⟩ := (inTurn_start e msgs).after horderly
    obtain rfl := h.next_eq_none_iff.mpr (announcedFrame_after hdone)
    refine ⟨done, ?_, h.sent⟩
    have hfits := h.fits
    rw [Option.toList_none, List.append_nil] at hfits
    rw [h.output]
    simpa [announcement] using parses_records hfits

/-- Two heartbeats are sent at the same time, and both arrive, because their writes did not
mix. -/
theorem parses_iff_heartbeats :
    ∃ fs, Parses ((machine .zeroOnly).after
        (start (.new Codec.json [7]) [Delivery.heartbeat, Delivery.heartbeat])
        [0, 1, 0, 0, 1, 1]).output fs
      ∧ fs.Perm ((machine .zeroOnly).after
        (start (.new Codec.json [7]) [Delivery.heartbeat, Delivery.heartbeat])
        [0, 1, 0, 0, 1, 1]).frames :=
  (parses_iff .zeroOnly (.new Codec.json [7]) [Delivery.heartbeat, Delivery.heartbeat]
    [0, 1, 0, 0, 1, 1] (by decide)).mpr
    (orderly_of_le (prepare_heartbeat [7] 1) (prepare_heartbeat [7] 2)
      (length_wire_heartbeatFrame [7] 1) (length_wire_heartbeatFrame [7] 2))

/-- **Two heartbeats tear each other**: the lengths are written first, and the stream
cannot be read. -/
theorem parses_torn :
    (∀ i < 2, 3 ≤ [0, 1, 0, 1, 0, 1].count i)
      ∧ ¬∃ fs, Parses ((machine .zeroOnly).after
          (start (.new Codec.json [7]) [Delivery.heartbeat, Delivery.heartbeat])
          [0, 1, 0, 1, 0, 1]).output fs := by
  refine ⟨by decide, fun ⟨fs, hparses⟩ => ?_⟩
  exact not_orderly_overlap (prepare_heartbeat [7] 1) (prepare_heartbeat [7] 2)
    ((inTurn_start _ _).orderly hparses)

end ConcurrentSend
