import Eipc.Sdk.FromGo
import Eipc.Lib.Sockets

/-!
# The transport of the C SDK over sockets

A socket takes and delivers bytes in pieces of its own choosing, and can fail at any moment.
`eipc_transport_send_frame` and `eipc_transport_recv_frame` go around that with two loops. Here the
two functions are over the sockets themselves, and the functions of `Eipc.Sdk.Frame`, which see all
bytes at once, are what they come to (`EipcSocket.recvFrame_eq`).

A send that fails has left a part of its frame behind. If that was the last of the connection, the
frames that are received are the ones that were sent successfully, in their order, up to where the
bytes end, and of a frame that was lost nothing is seen but the end
(`EipcSocket.frames_delivered`). On a connection that breaks for good this is always so
(`EipcSocket.endsAtFailure_of_breaks`).
-/

open Bytes EipcFrame

namespace EipcSocket

variable {ω ρ : Type} (W : Writer ω) (R : Reader ρ)

/-- `send_all`. -/
def sendAll (data : Bytes) (sock : ω) : Bool × ω := W.writeAll data sock

/-- `recv_all`. -/
def recvAll (len : ℕ) (sock : ρ) : Option Bytes × ρ := R.readAll len [] sock

/-- `eipc_transport_send_frame`. -/
def sendFrame (sock : ω) (f : EipcFrame) : Except EipcStatus Unit × ω :=
  match f.eipcFrameEncode eipcFrameBufSize with
  | .error rc => (.error rc, sock)
  | .ok encoded =>
    match sendAll W (store32 (UInt32.ofNat encoded.length)) sock with
    | (false, sock) => (.error .io, sock)
    | (true, sock) =>
      match sendAll W encoded sock with
      | (false, sock) => (.error .io, sock)
      | (true, sock) => (.ok (), sock)

/-- `eipc_transport_recv_frame`. -/
def recvFrame (malloc : Bool) (sock : ρ) : Except EipcStatus EipcFrame × ρ :=
  match recvAll R 4 sock with
  | (none, sock) => (.error .io, sock)
  | (some lenPrefix, sock) =>
    let frameLen := load32 (lenPrefix.getD 0 0) (lenPrefix.getD 1 0) (lenPrefix.getD 2 0)
      (lenPrefix.getD 3 0)
    if frameLen.toNat > eipcMaxFrame then (.error .frameTooLarge, sock)
    else if ¬malloc then (.error .nomem, sock)
    else
      match recvAll R frameLen.toNat sock with
      | (none, sock) => (.error .io, sock)
      | (some buf, sock) => (eipcFrameDecode buf, sock)

/-- Frames that are sent one after the other. -/
def sender : Machine ω EipcFrame (Except EipcStatus Unit) where
  step sock f := sendFrame W sock f

/-- Frames that are received one after the other. -/
def receiver : Machine ρ Bool (Except EipcStatus EipcFrame) where
  step sock malloc := recvFrame R malloc sock

/-! ## Receiving -/

section Receive

variable {R} {sock : ρ}

theorem recvAll_eq (hR : R.Blocking) (n : ℕ) (sock : ρ) :
    (recvAll R n sock).1 = (EipcFrame.recvAll n (R.content sock)).map Prod.fst
      ∧ R.content (recvAll R n sock).2
        = ((EipcFrame.recvAll n (R.content sock)).map Prod.snd).getD [] := by
  have hnil : ([] : Bytes).length ≤ n := Nat.zero_le n
  obtain ⟨hok, hnone⟩ := Reader.readAll_eq (r := sock) hR hnil
  rw [List.nil_append] at hok hnone
  unfold EipcFrame.recvAll recvAll
  split
  · next hn => exact hok hn
  · next hn => exact hnone (not_le.mp hn)

/-- **A frame is received however its bytes are cut.** -/
theorem recvFrame_eq (hR : R.Blocking) (malloc : Bool) (sock : ρ) :
    (recvFrame R malloc sock).1 = (eipcTransportRecvFrame malloc (R.content sock)).1
      ∧ R.content (recvFrame R malloc sock).2
        = (eipcTransportRecvFrame malloc (R.content sock)).2 := by
  obtain ⟨hfst, hsnd⟩ := recvAll_eq hR 4 sock
  unfold recvFrame eipcTransportRecvFrame
  generalize recvAll R 4 sock = first at hfst hsnd ⊢
  obtain ⟨res, sock'⟩ := first
  cases hplain : EipcFrame.recvAll 4 (R.content sock) with
  | none =>
    rw [hplain] at hfst hsnd
    obtain rfl : res = none := hfst
    exact ⟨rfl, hsnd⟩
  | some got =>
    obtain ⟨lenPrefix, rest⟩ := got
    rw [hplain] at hfst hsnd
    obtain rfl : res = some lenPrefix := hfst
    have hrest : R.content sock' = rest := hsnd
    dsimp only
    split
    · exact ⟨rfl, hrest⟩
    · split
      · exact ⟨rfl, hrest⟩
      · obtain ⟨hfst', hsnd'⟩ := recvAll_eq hR (load32 (lenPrefix.getD 0 0) (lenPrefix.getD 1 0)
          (lenPrefix.getD 2 0) (lenPrefix.getD 3 0)).toNat sock'
        rw [hrest] at hfst' hsnd'
        generalize recvAll R _ sock' = second at hfst' hsnd' ⊢
        obtain ⟨res, sock''⟩ := second
        cases hplain' : EipcFrame.recvAll (load32 (lenPrefix.getD 0 0) (lenPrefix.getD 1 0)
            (lenPrefix.getD 2 0) (lenPrefix.getD 3 0)).toNat rest with
        | none =>
          rw [hplain'] at hfst' hsnd'
          obtain rfl : res = none := hfst'
          exact ⟨rfl, hsnd'⟩
        | some got =>
          rw [hplain'] at hfst' hsnd'
          obtain rfl : res = some got.1 := hfst'
          exact ⟨rfl, hsnd'⟩

/-- A record that was not sent to its end is not received. -/
theorem eipcTransportRecvFrame_take {b : Bytes} (h : b.length ≤ eipcMaxFrame) {n : ℕ}
    (hn : n < (ConnWrapper.record b).length) :
    eipcTransportRecvFrame true ((ConnWrapper.record b).take n) = (.error .io, []) := by
  have hlen : (ofNatBE 4 b.length).length = 4 := length_ofNatBE 4 _
  rw [ConnWrapper.record, List.length_append, hlen] at hn
  unfold eipcTransportRecvFrame
  by_cases hshort : n < 4
  · have hfirst : EipcFrame.recvAll 4 ((ConnWrapper.record b).take n) = none := by
      refine if_neg (not_le.mpr ?_)
      exact (List.length_take_le n _).trans_lt hshort
    rw [hfirst]
  · have htake : (ConnWrapper.record b).take n = ofNatBE 4 b.length ++ b.take (n - 4) := by
      rw [ConnWrapper.record, List.take_append, List.take_of_length_le (hlen.trans_le (not_lt.mp
        hshort)), hlen]
    have hfirst : EipcFrame.recvAll 4 ((ConnWrapper.record b).take n)
        = some (ofNatBE 4 b.length, b.take (n - 4)) := by
      rw [htake, EipcFrame.recvAll, if_pos (by
        rw [List.length_append, hlen]
        exact Nat.le_add_right _ _), List.take_left' hlen, List.drop_left' hlen]
    have hsecond : EipcFrame.recvAll b.length (b.take (n - 4)) = none := by
      refine if_neg (not_le.mpr ?_)
      exact (List.length_take_le _ b).trans_lt (by omega)
    rw [hfirst]
    simp only [toNat_load32_length (h.trans_lt (by decide)), hsecond]
    rw [if_neg (not_lt.mpr h)]
    rfl

end Receive

/-! ## Sending -/

section Send

variable {W} {sock : ω} {f : EipcFrame}

/-- What a frame is on the wire. -/
def record (f : EipcFrame) : Bytes := ConnWrapper.record f.toFrame.wire

/-- A frame that is encoded is within its arrays. -/
theorem fits_of_encode {encoded : Bytes} (h : f.eipcFrameEncode eipcFrameBufSize = .ok encoded) :
    Fits f ∧ encoded = f.toFrame.wire := by
  have hfits : Fits f := by
    unfold eipcFrameEncode at h
    split at h
    · cases h
    · next hlarge =>
      rw [not_or, not_lt, not_lt] at hlarge
      exact ⟨hlarge.1, hlarge.2⟩
  exact ⟨hfits, Except.ok.inj (h.symm.trans (eipcFrameEncode_eq hfits))⟩

theorem record_eq (f : EipcFrame) (h : Fits f) :
    record f = store32 (UInt32.ofNat f.toFrame.wire.length) ++ f.toFrame.wire := by
  have hlen : f.toFrame.wire.length < 2 ^ 32 := (length_wire_le h).trans_lt (by decide)
  rw [record, ConnWrapper.record, store32_eq, UInt32.toNat_ofNat_of_lt' hlen]

/-- **One frame**: it is sent as a whole, or a part of it is, or it cannot be encoded and nothing
happens. -/
theorem sendFrame_cases (W : Writer ω) (sock : ω) (f : EipcFrame) :
    ((sendFrame W sock f).1 = .ok () ∧ Fits f
        ∧ W.taken (sendFrame W sock f).2 = W.taken sock ++ record f)
      ∨ ((sendFrame W sock f).1 = .error .io ∧ Fits f ∧ ∃ n < (record f).length,
        W.taken (sendFrame W sock f).2 = W.taken sock ++ (record f).take n)
      ∨ ∃ rc, sendFrame W sock f = (.error rc, sock) := by
  unfold sendFrame
  cases hencode : f.eipcFrameEncode eipcFrameBufSize with
  | error rc => exact .inr (.inr ⟨rc, rfl⟩)
  | ok encoded =>
    obtain ⟨hfits, rfl⟩ := fits_of_encode hencode
    have hrecord := record_eq f hfits
    dsimp only [sendAll]
    generalize store32 (UInt32.ofNat f.toFrame.wire.length) = lenPrefix at hrecord ⊢
    have hlen : (record f).length = lenPrefix.length + f.toFrame.wire.length := by
      rw [hrecord, List.length_append]
    rcases hfirst : W.writeAll lenPrefix sock with ⟨_ | _, sock'⟩
    · -- the socket fails in the length
      obtain ⟨n, hn, htaken⟩ := Writer.taken_of_writeAll_false hfirst
      refine .inr (.inl ⟨rfl, hfits, n, by omega, ?_⟩)
      rw [htaken, hrecord, List.take_append_of_le_length hn.le]
    · have htaken := Writer.taken_of_writeAll_true hfirst
      dsimp only
      rcases hsecond : W.writeAll f.toFrame.wire sock' with ⟨_ | _, sock''⟩
      · -- it fails in the encoding
        obtain ⟨n, hn, htaken'⟩ := Writer.taken_of_writeAll_false hsecond
        refine .inr (.inl ⟨rfl, hfits, lenPrefix.length + n, by omega, ?_⟩)
        rw [htaken', htaken, hrecord, List.append_assoc, List.take_length_add_append]
      · have htaken' := Writer.taken_of_writeAll_true hsecond
        refine .inl ⟨rfl, hfits, ?_⟩
        rw [htaken', htaken, hrecord, List.append_assoc]

/-- The frames whose sending was answered with success. -/
def accepted (W : Writer ω) (sock : ω) (fs : List EipcFrame) : List EipcFrame :=
  (sender W).callsWith Except.isOk sock fs

theorem accepted_of_ok (h : (sendFrame W sock f).1 = .ok ()) (fs : List EipcFrame) :
    accepted W sock (f :: fs) = f :: accepted W (sendFrame W sock f).2 fs :=
  Machine.callsWith_cons_of_true (congrArg Except.isOk h) fs

theorem accepted_of_error {rc : EipcStatus} (h : (sendFrame W sock f).1 = .error rc)
    (fs : List EipcFrame) :
    accepted W sock (f :: fs) = accepted W (sendFrame W sock f).2 fs :=
  Machine.callsWith_cons_of_false (congrArg Except.isOk h) fs

/-- What is left behind the records: nothing, or the beginning of one. -/
def Remnant (b : Bytes) : Prop :=
  b = [] ∨ ∃ f : EipcFrame, Fits f ∧ ∃ n < (record f).length, b = (record f).take n

/-- **Nothing follows a failure**: once a frame was lost, the socket takes nothing more, because it
is broken or because the program has given up. -/
def EndsAtFailure (W : Writer ω) (sock : ω) (fs : List EipcFrame) : Prop :=
  ∀ sent f rest, fs = sent ++ f :: rest →
    (sendFrame W ((sender W).after sock sent) f).1 = .error .io →
      W.taken ((sender W).after sock fs) = W.taken ((sender W).after sock (sent ++ [f]))

theorem EndsAtFailure.tail {fs : List EipcFrame} (h : EndsAtFailure W sock (f :: fs)) :
    EndsAtFailure W (sendFrame W sock f).2 fs :=
  fun sent g rest heq hio => h (f :: sent) g rest (congrArg (List.cons f) heq) hio

theorem fits_of_mem_accepted {fs : List EipcFrame} (h : f ∈ accepted W sock fs) : Fits f := by
  induction fs generalizing sock with
  | nil => exact absurd h List.not_mem_nil
  | cons g fs ih =>
    rcases sendFrame_cases W sock g with ⟨hok, hfits, -⟩ | ⟨hio, -⟩ | ⟨rc, hrefused⟩
    · rw [accepted_of_ok hok] at h
      rcases List.mem_cons.mp h with rfl | hmem
      · exact hfits
      · exact ih hmem
    · rw [accepted_of_error hio] at h
      exact ih h
    · rw [accepted_of_error (congrArg Prod.fst hrefused)] at h
      exact ih h

theorem length_record_pos (f : EipcFrame) : 0 < (record f).length := by
  rw [record, ConnWrapper.record, List.length_append, length_ofNatBE]
  omega

/-- Every frame that is accepted has been taken. -/
theorem length_accepted_le (W : Writer ω) (sock : ω) (fs : List EipcFrame) :
    (W.taken sock).length + (accepted W sock fs).length
      ≤ (W.taken ((sender W).after sock fs)).length := by
  induction fs generalizing sock with
  | nil => exact Nat.le_refl _
  | cons f fs ih =>
    have hrest : (W.taken (sendFrame W sock f).2).length
        + (accepted W (sendFrame W sock f).2 fs).length
        ≤ (W.taken ((sender W).after sock (f :: fs))).length := ih (sendFrame W sock f).2
    rcases sendFrame_cases W sock f with ⟨hok, -, htaken⟩ | ⟨hio, -, n, -, htaken⟩
      | ⟨rc, hrefused⟩
    · have hpos := length_record_pos f
      rw [htaken, List.length_append] at hrest
      rw [accepted_of_ok hok, List.length_cons]
      omega
    · rw [htaken, List.length_append] at hrest
      rw [accepted_of_error hio]
      omega
    · rw [accepted_of_error (congrArg Prod.fst hrefused)]
      rw [hrefused] at hrest ⊢
      exact hrest

/-- **All that is sent**: the records of the frames that were accepted, and a remnant. -/
theorem taken_after (W : Writer ω) (sock : ω) (fs : List EipcFrame)
    (hends : EndsAtFailure W sock fs) :
    ∃ b, Remnant b ∧ W.taken ((sender W).after sock fs)
      = W.taken sock ++ (accepted W sock fs).flatMap record ++ b := by
  induction fs generalizing sock with
  | nil =>
    refine ⟨[], .inl rfl, ?_⟩
    rw [List.append_nil]
    exact (List.append_nil _).symm
  | cons f fs ih =>
    have hafter :
        (sender W).after sock (f :: fs) = (sender W).after (sendFrame W sock f).2 fs := rfl
    rcases sendFrame_cases W sock f with ⟨hok, hfits, htaken⟩ | ⟨hio, hfits, n, hn, htaken⟩
      | ⟨rc, hrefused⟩
    · obtain ⟨b, hb, hrest⟩ := ih _ hends.tail
      refine ⟨b, hb, ?_⟩
      rw [hafter, hrest, htaken, accepted_of_ok hok, List.flatMap_cons]
      simp only [List.append_assoc]
    · -- what was sent of this frame is the remnant, and nothing follows it
      have hlast : W.taken ((sender W).after sock (f :: fs)) = W.taken (sendFrame W sock f).2 :=
        hends [] f fs rfl hio
      have hnone : accepted W (sendFrame W sock f).2 fs = [] := by
        have hle := length_accepted_le W (sendFrame W sock f).2 fs
        rw [← hafter, hlast] at hle
        exact List.length_eq_zero_iff.mp (by omega)
      refine ⟨_, .inr ⟨f, hfits, n, hn, rfl⟩, ?_⟩
      rw [hlast, htaken, accepted_of_error hio, hnone, List.flatMap_nil, List.append_nil]
    · have htail := hends.tail
      rw [hafter, accepted_of_error (congrArg Prod.fst hrefused)]
      rw [hrefused] at htail ⊢
      exact ih sock htail

end Send

/-! ## Sockets that break for good -/

section Broken

variable {W} {sock : ω} {f : EipcFrame} {broken : ω → Prop}

theorem eq_frameTooLarge {size : ℕ} {rc : EipcStatus} (h : f.eipcFrameEncode size = .error rc) :
    rc = .frameTooLarge := by
  unfold eipcFrameEncode at h
  dsimp only at h
  split at h
  · exact (Except.error.inj h).symm
  · generalize (if hasHmac f.flags then _ else _) = total at h
    split at h
    · exact (Except.error.inj h).symm
    · cases h

theorem broken_of_io (hW : W.Breaks broken) (h : (sendFrame W sock f).1 = .error .io) :
    broken (sendFrame W sock f).2 := by
  unfold sendFrame at h ⊢
  cases hencode : f.eipcFrameEncode eipcFrameBufSize with
  | error rc =>
    rw [hencode] at h
    cases h
    exact absurd (eq_frameTooLarge hencode) (by decide)
  | ok encoded =>
    rw [hencode] at h
    dsimp only [sendAll] at h ⊢
    rcases hfirst : W.writeAll (store32 (UInt32.ofNat encoded.length)) sock with ⟨_ | _, sock'⟩
    · exact Writer.broken_of_writeAll_false hW hfirst
    · rw [hfirst] at h
      dsimp only at h ⊢
      rcases hsecond : W.writeAll encoded sock' with ⟨_ | _, sock''⟩
      · exact Writer.broken_of_writeAll_false hW hsecond
      · rw [hsecond] at h
        cases h

/-- On a broken connection nothing is sent. -/
theorem sendFrame_of_broken (hW : W.Breaks broken) (h : broken sock) (f : EipcFrame) :
    broken (sendFrame W sock f).2 ∧ W.taken (sendFrame W sock f).2 = W.taken sock := by
  unfold sendFrame
  cases f.eipcFrameEncode eipcFrameBufSize with
  | error rc => exact ⟨h, rfl⟩
  | ok encoded =>
    have hne : store32 (UInt32.ofNat encoded.length) ≠ [] := List.cons_ne_nil _ _
    obtain ⟨sock', hwrite, hbroken, htaken⟩ := Writer.writeAll_of_broken hW hne h
    dsimp only [sendAll]
    rw [hwrite]
    exact ⟨hbroken, htaken⟩

theorem endsAtFailure_of_breaks (hW : W.Breaks broken) (sock : ω) (fs : List EipcFrame) :
    EndsAtFailure W sock fs := by
  rintro sent f rest rfl hio
  have hbroken := broken_of_io hW hio
  rw [Machine.after_append, Machine.after_cons, Machine.after_concat]
  have hkeep := Machine.after_invariant (m := sender W)
    (I := fun s => broken s ∧ W.taken s = W.taken (sendFrame W ((sender W).after sock sent) f).2)
    (fun s g ⟨hs, htaken⟩ => (sendFrame_of_broken hW hs g).imp_right fun h => h.trans htaken)
    ⟨hbroken, rfl⟩ rest
  exact hkeep.2

end Broken

/-! ## Both ends -/

section Connection

variable {R} {sock : ρ}

/-- A frame that arrives as a whole is received. -/
theorem recvFrame_record (hR : R.Blocking) {f : EipcFrame} (hfits : Fits f)
    (hversion : f.version = eipcProtocolVer) {rest : Bytes}
    (h : R.content sock = record f ++ rest) :
    ∃ f', f'.toFrame = f.toFrame ∧ (recvFrame R true sock).1 = .ok f'
      ∧ R.content (recvFrame R true sock).2 = rest := by
  have hwell : f.toFrame.WellFormed := ⟨hversion, hfits.size, macFits_toFrame f⟩
  have hlen : f.toFrame.wire.length ≤ eipcMaxFrame := (length_wire_le hfits).trans (by decide)
  obtain ⟨f', hf'⟩ := exists_eipcFrameDecode_wire hwell
    ((length_toFrame_header hfits).trans_le hfits.header)
    ((length_toFrame_payload hfits).trans_le hfits.payload) []
  rw [List.append_nil] at hf'
  obtain ⟨hfst, hsnd⟩ := recvFrame_eq hR true sock
  rw [h, record, ConnWrapper.record, eipcTransportRecvFrame_record hlen, hf'] at hfst hsnd
  exact ⟨f', toFrame_of_decode_wire hwell hf', hfst, hsnd⟩

/-- A remnant is not taken for a frame. -/
theorem recvFrame_remnant (hR : R.Blocking) (h : Remnant (R.content sock)) :
    (recvFrame R true sock).1 = .error .io := by
  rw [(recvFrame_eq hR true sock).1]
  rcases h with hnil | ⟨f, hfits, n, hn, htake⟩
  · rw [hnil]
    rfl
  · have hlen : f.toFrame.wire.length ≤ eipcMaxFrame := (length_wire_le hfits).trans (by decide)
    rw [htake, record, eipcTransportRecvFrame_take hlen hn]

theorem answers_receiver (hR : R.Blocking) {fs : List EipcFrame}
    (hfs : ∀ f ∈ fs, Fits f ∧ f.version = eipcProtocolVer) {b : Bytes} (hb : Remnant b)
    (h : R.content sock = fs.flatMap record ++ b) :
    ∃ got : List EipcFrame, got.map toFrame = fs.map toFrame
      ∧ (receiver R).answers sock (List.replicate (fs.length + 1) true)
        = got.map .ok ++ [.error .io] := by
  induction fs generalizing sock with
  | nil =>
    have hfst : ((receiver R).step sock true).1 = .error .io := recvFrame_remnant hR (h ▸ hb)
    refine ⟨[], rfl, ?_⟩
    show [((receiver R).step sock true).1] = _
    rw [hfst]
    rfl
  | cons f fs ih =>
    rw [List.forall_mem_cons] at hfs
    rw [List.flatMap_cons, List.append_assoc] at h
    obtain ⟨f', hframe, hfst, hrest⟩ := recvFrame_record hR hfs.1.1 hfs.1.2 h
    obtain ⟨got, hgot, hanswers⟩ := ih hfs.2 hrest
    have hstep : ((receiver R).step sock true).1 = .ok f' := hfst
    refine ⟨f' :: got, congrArg₂ List.cons hframe hgot, ?_⟩
    rw [List.length_cons, List.replicate_succ, Machine.answers_cons, hstep]
    exact congrArg (List.cons _) hanswers

theorem Remnant.of_prefix {b c : Bytes} (hb : Remnant b) (h : c <+: b) : Remnant c := by
  rcases hb with rfl | ⟨f, hfits, n, hn, rfl⟩
  · exact .inl (List.prefix_nil.mp h)
  · refine .inr ⟨f, hfits, c.length, (h.length_le.trans (List.length_take_le n _)).trans_lt hn, ?_⟩
    exact List.prefix_iff_eq_take.mp (h.trans (List.take_prefix n _))

/-- A beginning of what is sent is some of the records, and a remnant. -/
theorem exists_of_prefix {fs : List EipcFrame} (hfs : ∀ f ∈ fs, Fits f) {b : Bytes}
    (hb : Remnant b) {c : Bytes} (h : c <+: fs.flatMap record ++ b) :
    ∃ n ≤ fs.length, ∃ b', Remnant b' ∧ c = (fs.take n).flatMap record ++ b'
      ∧ (c = fs.flatMap record ++ b → n = fs.length) := by
  induction fs generalizing c with
  | nil => exact ⟨0, Nat.le_refl _, c, hb.of_prefix h, rfl, fun _ => rfl⟩
  | cons f fs ih =>
    rw [List.forall_mem_cons] at hfs
    rw [List.flatMap_cons, List.append_assoc] at h ⊢
    by_cases hshort : c.length < (record f).length
    · -- the bytes end in the record of `f`
      have htake : c = (record f).take c.length :=
        List.prefix_iff_eq_take.mp (List.prefix_of_prefix_length_le h (List.prefix_append _ _)
          hshort.le)
      refine ⟨0, Nat.zero_le _, c, .inr ⟨f, hfs.1, c.length, hshort, htake⟩, rfl, fun hall => ?_⟩
      have hlen := congrArg List.length hall
      rw [List.length_append] at hlen
      omega
    · obtain ⟨c', rfl⟩ := List.prefix_of_prefix_length_le (List.prefix_append (record f) _) h
        (not_lt.mp hshort)
      obtain ⟨n, hn, b', hb', rfl, hall⟩ := ih hfs.2 ((List.prefix_append_right_inj _).mp h)
      refine ⟨n + 1, Nat.succ_le_succ hn, b', hb', ?_, fun heq => ?_⟩
      · rw [List.take_succ_cons, List.flatMap_cons, List.append_assoc]
      · exact congrArg Nat.succ (hall (List.append_cancel_left heq))

/-- **The frames that arrive are the frames that were sent.** Frames are sent over a socket that
takes bytes as it likes and may fail at any point, after which nothing follows. What it took, or a
beginning of that, is read from another one, cut in another way. Then the frames that were answered
with success are received, in their order, up to where the bytes end, and the next receive reports
that. If all bytes arrive, all these frames do. -/
theorem frames_delivered (W : Writer ω) (out : ω) (hnew : W.taken out = []) (fs : List EipcFrame)
    (hversion : ∀ f ∈ fs, f.version = eipcProtocolVer) (hends : EndsAtFailure W out fs)
    (R : Reader ρ) (hR : R.Blocking) (sock : ρ)
    (hstream : R.content sock <+: W.taken ((sender W).after out fs)) :
    ∃ n ≤ (accepted W out fs).length,
      (∃ got : List EipcFrame, got.map toFrame = ((accepted W out fs).take n).map toFrame
        ∧ (receiver R).answers sock (List.replicate (n + 1) true) = got.map .ok ++ [.error .io])
      ∧ (R.content sock = W.taken ((sender W).after out fs) → n = (accepted W out fs).length) := by
  obtain ⟨b, hb, htaken⟩ := taken_after W out fs hends
  rw [hnew, List.nil_append] at htaken
  rw [htaken] at hstream ⊢
  have hfits : ∀ f ∈ accepted W out fs, Fits f := fun f hf => fits_of_mem_accepted hf
  obtain ⟨n, hn, b', hb', hcontent, hall⟩ := exists_of_prefix hfits hb hstream
  refine ⟨n, hn, ?_, hall⟩
  have hlen : ((accepted W out fs).take n).length = n := List.length_take_of_le hn
  have hsent : ∀ f ∈ (accepted W out fs).take n, Fits f ∧ f.version = eipcProtocolVer := by
    intro f hf
    have hmem := List.mem_of_mem_take hf
    exact ⟨hfits f hmem, hversion f (Machine.mem_of_mem_callsWith hmem)⟩
  have hanswers := answers_receiver hR hsent hb' hcontent
  rwa [hlen] at hanswers

/-- The socket takes a byte, three bytes, a frame, and a part of the next one. -/
theorem frames_delivered_first :
    let out : Writer.Counts := ⟨[], [0, 2, 100, 3, 10]⟩
    let fs := [signedHeartbeat, signedHeartbeat]
    let ok := accepted Writer.ofCounts out fs
    let sock : Reader.Chunks := ⟨((sender Writer.ofCounts).after out fs).taken, [1, 0, 7]⟩
    ∃ got : List EipcFrame, got.map toFrame = ok.map toFrame
      ∧ (receiver Reader.ofChunks).answers sock (List.replicate (ok.length + 1) true)
        = got.map .ok ++ [.error .io] := by
  intro out fs ok sock
  obtain ⟨n, -, ⟨got, hgot, hanswers⟩, hall⟩ := frames_delivered Writer.ofCounts out rfl fs
    (List.forall_mem_cons.mpr ⟨rfl, List.forall_mem_singleton.mpr rfl⟩)
    (endsAtFailure_of_breaks Writer.breaks_ofCounts out fs) Reader.ofChunks
    Reader.blocking_ofChunks sock (List.prefix_refl _)
  obtain rfl := hall rfl
  rw [List.take_length] at hgot
  exact ⟨got, hgot, hanswers⟩

end Connection

end EipcSocket
