import Eipc.Endpoint

/-!
# Rejected frames leave no trace

A server is handed frames by whoever can write to the connection: signed and unsigned
ones, replayed, reordered, with arbitrary headers. `ServerEndpoint.Receive` has three
ways to reject a frame – the MAC, the header, the replay window – and each of them comes
before the endpoint changes, the last because `Tracker.check` keeps the tracker when it
refuses a number (`Tracker.check_snd_of_error`).

So what a server makes of a sequence of frames does not depend on those it rejects
(`ServerEndpoint.returned_once_without_rejected`): nobody can shift the window, or block
a frame that comes later, with frames that are not accepted. And the numbers of those
that are accepted are all different, since the tracker follows a history that never
forgets (`Tracker.Follows`).
-/

open Frame Endpoint

namespace ServerEndpoint

variable {Time ε : Type} (tf : TimeFormat Time)

/-- A connection that hands over one frame. -/
def handing : Connection Frame ε where
  send s _ := (.ok (), s)
  receive s := (.ok s, s)

/-- A server that calls `Receive` for one frame after another. -/
def acceptor : Machine ServerEndpoint Frame (Except (EndpointError ε) (Message Time)) where
  step e frame :=
    let (res, e, _) := e.receive tf (handing (ε := ε)) frame
    (res, e)

/-- A message was returned for the frame, whose header has the number `seq`. -/
def Returns (codec : Codec) (x : Frame × Except (EndpointError ε) (Message Time))
    (seq : UInt64) : Prop :=
  ∃ msg hdr, x.2 = .ok msg ∧ codec.unmarshal x.1.header = .ok hdr ∧ hdr.sequence = seq

/-- The frames that were not rejected. -/
def accepted (e : ServerEndpoint) (frames : List Frame) : List Frame :=
  (acceptor (ε := ε) tf).callsWith Except.isOk e frames

variable {tf}

theorem step_acceptor (e : ServerEndpoint) (frame : Frame) :
    (acceptor (ε := ε) tf).step e frame = e.accept tf frame := rfl

/-- **A server that rejects a frame stays as it is.** -/
theorem accept_snd_of_error {e : ServerEndpoint} {frame : Frame}
    (h : (e.accept (ε := ε) tf frame).1.isOk = false) : (e.accept (ε := ε) tf frame).2 = e := by
  unfold accept at h ⊢
  cases hopen : openFrame (ε := ε) e.codec e.hmacKey frame with
  | error err => rfl
  | ok hdr =>
    rw [hopen] at h
    dsimp only at h ⊢
    rcases hcheck : e.replay.check hdr.sequence with ⟨err | u, replay⟩
    · have hstay := Tracker.check_snd_of_error (congrArg Prod.fst hcheck)
      rw [hcheck] at hstay
      exact congrArg (fun replay => { e with replay }) hstay
    · rw [hcheck] at h
      exact (nomatch h)

theorem codec_accept (e : ServerEndpoint) (frame : Frame) :
    (e.accept (ε := ε) tf frame).2.codec = e.codec := by
  obtain ⟨replay, hreplay⟩ := exists_accept_snd (ε := ε) tf e frame
  rw [hreplay]

/-- **The numbers of the messages that are returned are new**, and all different. -/
theorem pairwise_returns {w : UInt64} {e : ServerEndpoint} {A : Finset UInt64}
    (h : Tracker.Follows w e.replay A) (frames : List Frame) :
    (∀ x ∈ (acceptor (ε := ε) tf).trace e frames, ∀ seq, Returns e.codec x seq → seq ∉ A)
      ∧ ((acceptor (ε := ε) tf).trace e frames).Pairwise
        fun x y => ∀ seq, Returns e.codec x seq → ¬Returns e.codec y seq := by
  induction frames generalizing e A with
  | nil => exact ⟨fun x hx => absurd hx List.not_mem_nil, List.Pairwise.nil⟩
  | cons frame frames ih =>
    rw [Machine.trace_cons, step_acceptor, List.forall_mem_cons, List.pairwise_cons]
    rcases accept_cases tf h frame with
      ⟨hdr, hopen, hfresh, replay, haccept, hfollows⟩ | ⟨err, haccept⟩
    · rw [haccept]
      obtain ⟨hnew, hpairwise⟩ := ih (e := { e with replay }) hfollows
      -- the first frame returns its own number, and no other
      have hseq : ∀ seq, Returns e.codec (frame, (e.accept (ε := ε) tf frame).1) seq →
          seq = hdr.sequence := by
        rintro seq ⟨msg, hdr', -, hunmarshal, rfl⟩
        cases (openFrame_eq_ok_iff.mp hopen).2.symm.trans hunmarshal
        rfl
      rw [haccept] at hseq
      refine ⟨⟨fun seq hreturns => hseq seq hreturns ▸ hfresh.2.1, fun x hx seq hreturns hmem =>
        hnew x hx seq hreturns (Finset.mem_insert_of_mem hmem)⟩, fun y hy seq hreturns hagain =>
        hnew y hy seq hagain (hseq seq hreturns ▸ Finset.mem_insert_self _ _), hpairwise⟩
    · rw [haccept]
      obtain ⟨hnew, hpairwise⟩ := ih h
      have hnone : ∀ seq, ¬Returns e.codec
          (frame, (.error err : Except (EndpointError ε) (Message Time))) seq :=
        fun seq ⟨msg, hdr, hok, _⟩ => (nomatch hok)
      exact ⟨⟨fun seq hreturns => absurd hreturns (hnone seq), hnew⟩,
        fun y _ seq hreturns => absurd hreturns (hnone seq), hpairwise⟩

/-- A message that is returned was made of a frame with a readable header. -/
theorem exists_returns {e : ServerEndpoint} {frame : Frame} {msg : Message Time}
    (h : (e.accept (ε := ε) tf frame).1 = .ok msg) :
    ∃ seq, Returns e.codec (frame, (e.accept (ε := ε) tf frame).1) seq := by
  obtain ⟨hdr, hopen, -, -⟩ := (accept_eq_ok_iff tf).mp h
  exact ⟨hdr.sequence, msg, hdr, h, (openFrame_eq_ok_iff.mp hopen).2, rfl⟩

/-- Along a run, likewise. -/
theorem exists_returns_of_mem_trace {e : ServerEndpoint} {frames : List Frame}
    {x : Frame × Except (EndpointError ε) (Message Time)} {msg : Message Time}
    (hx : x ∈ (acceptor tf).trace e frames) (hmsg : x.2 = .ok msg) :
    ∃ seq, Returns e.codec x seq := by
  induction frames generalizing e with
  | nil => exact absurd hx List.not_mem_nil
  | cons frame frames ih =>
    rw [Machine.trace_cons, step_acceptor] at hx
    rcases List.mem_cons.mp hx with rfl | hx
    · exact exists_returns hmsg
    · have hcodec : (e.accept (ε := ε) tf frame).2.codec = e.codec := codec_accept e frame
      rw [← hcodec]
      exact ih hx

/-- **A server and any sequence of frames.** The messages that it returns have headers
with different numbers; and without the frames that it rejects, the remaining ones are
answered as they were. -/
theorem returned_once_without_rejected (tf : TimeFormat Time) (codec : Codec) (hmacKey : Bytes)
    (frames : List Frame) :
    let server := new codec hmacKey
    let trace := (acceptor (ε := ε) tf).trace server frames
    (∀ x ∈ trace, ∀ msg, x.2 = .ok msg → ∃ seq, Returns codec x seq)
      ∧ trace.Pairwise (fun x y => ∀ seq, Returns codec x seq → ¬Returns codec y seq)
      ∧ (acceptor (ε := ε) tf).answers server (accepted (ε := ε) tf server frames)
        = ((acceptor (ε := ε) tf).answers server frames).filter Except.isOk := by
  intro server trace
  have hfollows : Tracker.Follows (Tracker.effectiveWindow 0) server.replay ∅ :=
    Tracker.follows_new 0
  refine ⟨fun x hx msg hmsg => exists_returns_of_mem_trace (e := server) hx hmsg,
    (pairwise_returns hfollows frames).2, ?_⟩
  exact (Machine.run_callsWith (fun e frame => accept_snd_of_error) server frames).1

end ServerEndpoint
