import Eipc.Lib.Machine

/-!
# The replay tracker

`replay.Tracker` (`security/replay/tracker.go`) refuses sequence numbers it
has already let through. It cannot remember them all: a number that opens a
new maximum makes it forget every number more than a window below, and a
number that far below the maximum is refused unseen. The cut-off of the
eviction and the test for being too old are two separate `uint64`
computations, and the tracker is right only because they meet exactly.

The specification is the tracker that never forgets (`History.machine`): it
keeps every number accepted since the last reset, and reads the rule off that
set. `Tracker.agrees_with_history` says the two answer alike along every
sequence of calls, for every window. That the tracker forgets enough is
`Tracker.seen_within_window`: what it stores fits the window below its maximum,
however the numbers jump.
-/

/-- The one error of the package: `replay detected`. -/
inductive ReplayError where
  | replay
  deriving DecidableEq, Repr

/-- The error's text. -/
def ReplayError.text : ReplayError → String
  | .replay => "replay detected"

/-- Detects replayed messages by a monotonic sequence number with a sliding
window. -/
structure Tracker where
  maxSeen : UInt64
  windowSize : UInt64
  seen : Finset UInt64

namespace Tracker

def defaultWindowSize : UInt64 := 128

/-- The window a tracker is created with: the argument as a `uint64`, and the
default when that is zero. -/
def effectiveWindow (windowSize : ℤ) : UInt64 :=
  let ws := UInt64.ofInt windowSize
  if ws = 0 then defaultWindowSize else ws

/-- `NewTracker`. -/
def new (windowSize : ℤ) : Tracker :=
  { maxSeen := 0, windowSize := effectiveWindow windowSize, seen := ∅ }

/-- The cut-off of `cleanup`, guarded against underflow. -/
def cutoff (t : Tracker) : UInt64 :=
  if t.maxSeen > t.windowSize then t.maxSeen - t.windowSize else 0

/-- `cleanup`: forget every number below the cut-off. -/
def cleanup (t : Tracker) : Tracker :=
  { t with seen := t.seen.filter (fun seq => ¬seq < t.cutoff) }

/-- `Check`: the verdict on a sequence number, and the tracker after it. -/
def check (t : Tracker) (seq : UInt64) : Except ReplayError Unit × Tracker :=
  if seq = 0 then (.error .replay, t)
  else if seq > t.maxSeen then
    let t := cleanup { t with maxSeen := seq }
    (.ok (), { t with seen := insert seq t.seen })
  else if t.maxSeen - seq > t.windowSize then (.error .replay, t)
  else if seq ∈ t.seen then (.error .replay, t)
  else (.ok (), { t with seen := insert seq t.seen })

/-- `Reset`. -/
def reset (t : Tracker) : Tracker := { t with maxSeen := 0, seen := ∅ }

/-- A call on the tracker. -/
inductive Call where
  | check (seq : UInt64)
  | reset
  deriving DecidableEq, Repr

/-- The tracker as a machine. A reset always succeeds. -/
def machine : Machine Tracker Call (Except ReplayError Unit) where
  step t
    | .check seq => t.check seq
    | .reset => (.ok (), t.reset)

/-- The numbers accepted since the last reset, read off the tracker's own
verdicts along a run. -/
def accepted (t : Tracker) (A : Finset UInt64) : List Call → Finset UInt64
  | [] => A
  | .check seq :: cs =>
    accepted (t.check seq).2 (if (t.check seq).1 = .ok () then insert seq A else A) cs
  | .reset :: cs => accepted t.reset ∅ cs

end Tracker

/-! ## The tracker that never forgets -/

namespace History

/-- The largest number of a history, zero for the empty one. -/
def largest (A : Finset UInt64) : ℕ := A.sup UInt64.toNat

theorem le_largest {A : Finset UInt64} {seq : UInt64} (h : seq ∈ A) :
    seq.toNat ≤ largest A :=
  Finset.le_sup (f := UInt64.toNat) h

@[simp] theorem largest_insert (A : Finset UInt64) (seq : UInt64) :
    largest (insert seq A) = max seq.toNat (largest A) :=
  Finset.sup_insert

/-- **The rule**, on the whole history: a number other than zero, not
accepted before, and not more than a window below the largest accepted. -/
def Fresh (w : UInt64) (A : Finset UInt64) (seq : UInt64) : Prop :=
  seq ≠ 0 ∧ seq ∉ A ∧ largest A ≤ seq.toNat + w.toNat

instance (w : UInt64) (A : Finset UInt64) (seq : UInt64) : Decidable (Fresh w A seq) :=
  inferInstanceAs (Decidable (_ ∧ _ ∧ _))

/-- The tracker that keeps every number accepted since the last reset. -/
def machine (w : UInt64) : Machine (Finset UInt64) Tracker.Call (Except ReplayError Unit) where
  step A
    | .check seq => if Fresh w A seq then (.ok (), insert seq A) else (.error .replay, A)
    | .reset => (.ok (), ∅)

end History

namespace Tracker

open History

/-! ## The eviction and the age test meet -/

/-- A number is below the cut-off exactly when the maximum exceeds it by more
than the window: the subtraction never wraps. -/
theorem lt_cutoff_iff (t : Tracker) (seq : UInt64) :
    seq < t.cutoff ↔ seq.toNat + t.windowSize.toNat < t.maxSeen.toNat := by
  unfold cutoff
  split
  · next h =>
    rw [gt_iff_lt, UInt64.lt_iff_toNat_lt] at h
    rw [UInt64.lt_iff_toNat_lt,
      UInt64.toNat_sub_of_le _ _ (UInt64.le_iff_toNat_le.mpr (by omega))]
    omega
  · next h =>
    rw [gt_iff_lt, UInt64.lt_iff_toNat_lt] at h
    rw [UInt64.lt_iff_toNat_lt, UInt64.toNat_zero]
    omega

/-- A number no larger than the maximum is too old exactly when the maximum
exceeds it by more than the window. -/
theorem tooOld_iff {t : Tracker} {seq : UInt64} (h : ¬seq > t.maxSeen) :
    t.maxSeen - seq > t.windowSize ↔ seq.toNat + t.windowSize.toNat < t.maxSeen.toNat := by
  rw [gt_iff_lt, UInt64.lt_iff_toNat_lt] at h
  rw [gt_iff_lt, UInt64.lt_iff_toNat_lt,
    UInt64.toNat_sub_of_le _ _ (UInt64.le_iff_toNat_le.mpr (by omega))]
  omega

/-- What is remembered after a clean-up is what was, inside the window. -/
theorem mem_cleanup {t : Tracker} {seq : UInt64} :
    seq ∈ t.cleanup.seen ↔
      seq ∈ t.seen ∧ t.maxSeen.toNat ≤ seq.toNat + t.windowSize.toNat := by
  rw [cleanup, Finset.mem_filter, lt_cutoff_iff, not_lt]

/-! ## The simulation -/

/-- **The tracker follows the history** `A`: it knows the largest number, and
remembers exactly the numbers inside the window. -/
structure Follows (w : UInt64) (t : Tracker) (A : Finset UInt64) : Prop where
  window : t.windowSize = w
  max : t.maxSeen.toNat = largest A
  seen : ∀ seq, seq ∈ t.seen ↔ seq ∈ A ∧ largest A ≤ seq.toNat + w.toNat

theorem follows_new (windowSize : ℤ) :
    Follows (effectiveWindow windowSize) (new windowSize) ∅ :=
  ⟨rfl, rfl, fun seq => by simp [new]⟩

theorem follows_reset {w : UInt64} {t : Tracker} {A : Finset UInt64} (h : Follows w t A) :
    Follows w t.reset ∅ :=
  ⟨h.window, rfl, fun seq => by simp [reset]⟩

/-- A number above the maximum is fresh, and the eviction that it causes
leaves the numbers of the new window. -/
theorem follows_advance {w : UInt64} {t : Tracker} {A : Finset UInt64} (h : Follows w t A)
    {seq : UInt64} (hgt : seq > t.maxSeen) :
    Fresh w A seq ∧ Follows w
      { cleanup { t with maxSeen := seq } with
        seen := insert seq (cleanup { t with maxSeen := seq }).seen } (insert seq A) := by
  rw [gt_iff_lt, UInt64.lt_iff_toNat_lt, h.max] at hgt
  have hmax : max seq.toNat (largest A) = seq.toNat := max_eq_left (by omega)
  refine ⟨⟨?_, ?_, by omega⟩, h.window, ?_, ?_⟩
  · rintro rfl
    rw [UInt64.toNat_zero] at hgt
    omega
  · intro hmem
    have hle := le_largest hmem
    omega
  · show seq.toNat = largest (insert seq A)
    rw [largest_insert, hmax]
  · intro s
    show s ∈ insert seq (cleanup { t with maxSeen := seq }).seen ↔ _
    rw [Finset.mem_insert, mem_cleanup, Finset.mem_insert, largest_insert, hmax]
    show s = seq ∨ (s ∈ t.seen ∧ seq.toNat ≤ s.toNat + t.windowSize.toNat) ↔ _
    rw [h.seen, h.window]
    constructor
    · rintro (rfl | ⟨⟨hs, -⟩, hw⟩)
      · exact ⟨.inl rfl, by omega⟩
      · exact ⟨.inr hs, hw⟩
    · rintro ⟨rfl | hs, hw⟩
      · exact .inl rfl
      · exact .inr ⟨⟨hs, by omega⟩, hw⟩

/-- A number inside the window that is not remembered is fresh, and is
remembered from then on. -/
theorem follows_fill {w : UInt64} {t : Tracker} {A : Finset UInt64} (h : Follows w t A)
    {seq : UInt64} (hzero : seq ≠ 0) (hle : ¬seq > t.maxSeen)
    (hwin : ¬t.maxSeen - seq > t.windowSize) (hseen : seq ∉ t.seen) :
    Fresh w A seq ∧ Follows w { t with seen := insert seq t.seen } (insert seq A) := by
  rw [tooOld_iff hle, h.window, h.max, not_lt] at hwin
  rw [gt_iff_lt, UInt64.lt_iff_toNat_lt, h.max, not_lt] at hle
  have hmem : seq ∉ A := fun hA => hseen ((h.seen seq).mpr ⟨hA, hwin⟩)
  have hmax : max seq.toNat (largest A) = largest A := max_eq_right hle
  refine ⟨⟨hzero, hmem, hwin⟩, h.window, ?_, ?_⟩
  · show t.maxSeen.toNat = largest (insert seq A)
    rw [largest_insert, hmax, h.max]
  · intro s
    show s ∈ insert seq t.seen ↔ _
    rw [Finset.mem_insert, Finset.mem_insert, h.seen, largest_insert, hmax]
    constructor
    · rintro (rfl | ⟨hs, hw⟩)
      · exact ⟨.inl rfl, hwin⟩
      · exact ⟨.inr hs, hw⟩
    · rintro ⟨rfl | hs, hw⟩
      · exact .inl rfl
      · exact .inr ⟨hs, hw⟩

/-- **What `Check` can do**: accept a fresh number and follow the grown
history, or refuse a stale one and stay as it is. -/
theorem check_cases {w : UInt64} {t : Tracker} {A : Finset UInt64} (h : Follows w t A)
    (seq : UInt64) :
    ((t.check seq).1 = .ok () ∧ Fresh w A seq ∧ Follows w (t.check seq).2 (insert seq A))
      ∨ (t.check seq = (.error .replay, t) ∧ ¬Fresh w A seq) := by
  unfold check
  by_cases hzero : seq = 0
  · rw [if_pos hzero]
    exact .inr ⟨rfl, fun hf => hf.1 hzero⟩
  rw [if_neg hzero]
  by_cases hgt : seq > t.maxSeen
  · rw [if_pos hgt]
    exact .inl ⟨rfl, follows_advance h hgt⟩
  rw [if_neg hgt]
  by_cases hold : t.maxSeen - seq > t.windowSize
  · rw [if_pos hold]
    rw [tooOld_iff hgt, h.window, h.max] at hold
    exact .inr ⟨rfl, fun hf => by have := hf.2.2; omega⟩
  rw [if_neg hold]
  by_cases hseen : seq ∈ t.seen
  · rw [if_pos hseen]
    exact .inr ⟨rfl, fun hf => hf.2.1 ((h.seen seq).mp hseen).1⟩
  rw [if_neg hseen]
  exact .inl ⟨rfl, follows_fill h hzero hgt hold hseen⟩

/-- A number that is refused leaves the tracker as it is. -/
theorem check_snd_of_error {t : Tracker} {seq : UInt64} {err : ReplayError}
    (h : (t.check seq).1 = .error err) : (t.check seq).2 = t := by
  unfold check at h ⊢
  by_cases hzero : seq = 0
  · rw [if_pos hzero]
  rw [if_neg hzero] at h ⊢
  by_cases hgt : seq > t.maxSeen
  · rw [if_pos hgt] at h
    exact (nomatch h)
  rw [if_neg hgt] at h ⊢
  by_cases hold : t.maxSeen - seq > t.windowSize
  · rw [if_pos hold]
  rw [if_neg hold] at h ⊢
  by_cases hseen : seq ∈ t.seen
  · rw [if_pos hseen]
  · rw [if_neg hseen] at h
    exact (nomatch h)

/-- A number above the maximum is accepted, and is the maximum from then on. -/
theorem check_of_gt {t : Tracker} {seq : UInt64} (h : seq > t.maxSeen) :
    (t.check seq).1 = .ok () ∧ (t.check seq).2.maxSeen = seq := by
  have hzero : seq ≠ 0 := (UInt64.ne_of_lt (UInt64.lt_of_le_of_lt UInt64.zero_le h)).symm
  unfold check
  rw [if_neg hzero, if_pos h]
  exact ⟨rfl, rfl⟩

theorem check_zero (t : Tracker) : t.check 0 = (.error .replay, t) := if_pos rfl

/-- One call keeps the tracker and the history together. -/
theorem step_follows {w : UInt64} (t : Tracker) (A : Finset UInt64) (c : Call)
    (h : Follows w t A) :
    (machine.step t c).1 = ((History.machine w).step A c).1
      ∧ Follows w (machine.step t c).2 ((History.machine w).step A c).2 := by
  cases c with
  | check seq =>
    show (t.check seq).1 = (if Fresh w A seq then _ else _ : _ × Finset UInt64).1
      ∧ Follows w (t.check seq).2 (if Fresh w A seq then _ else _ : _ × Finset UInt64).2
    rcases check_cases h seq with ⟨hok, hfresh, hfollows⟩ | ⟨hrej, hstale⟩
    · rw [if_pos hfresh]
      exact ⟨hok, hfollows⟩
    · rw [if_neg hstale, hrej]
      exact ⟨rfl, h⟩
  | reset => exact ⟨rfl, follows_reset h⟩

/-- The history a tracker follows is what it accepted since the last reset. -/
theorem accepted_eq_after {w : UInt64} {t : Tracker} {A : Finset UInt64}
    (h : Follows w t A) (cs : List Call) :
    t.accepted A cs = (History.machine w).after A cs := by
  induction cs generalizing t A with
  | nil => rfl
  | cons c cs ih =>
    have hstep := step_follows t A c h
    cases c with
    | check seq =>
      rw [Machine.after_cons, ← ih hstep.2, accepted]
      show accepted (t.check seq).2 _ cs = accepted (t.check seq).2
        (if Fresh w A seq then _ else _ : _ × Finset UInt64).2 cs
      rcases check_cases h seq with ⟨hok, hfresh, -⟩ | ⟨hrej, hstale⟩
      · rw [if_pos hok, if_pos hfresh]
      · rw [if_neg hstale, hrej, if_neg (fun h => nomatch h)]
    | reset => exact ih hstep.2

/-- Along every sequence of calls the tracker follows what it accepted. -/
theorem follows_after (windowSize : ℤ) (cs : List Call) :
    Follows (effectiveWindow windowSize) (machine.after (new windowSize) cs)
      ((new windowSize).accepted ∅ cs) := by
  rw [accepted_eq_after (follows_new windowSize)]
  exact (Machine.run_simulation step_follows (follows_new windowSize) cs).2

/-- **The tracker that forgets agrees with the one that remembers
everything.** Along every sequence of calls, with every window, the two give
the same verdicts; after it, with `A` the numbers accepted since the last
reset, a number is accepted exactly when it is not zero, not in `A`, and not
more than the window below the largest of `A`; and a refusal leaves the
tracker as it was. -/
theorem agrees_with_history (windowSize : ℤ) (cs : List Call) :
    let w := effectiveWindow windowSize
    let t := machine.after (new windowSize) cs
    let A := (new windowSize).accepted ∅ cs
    machine.answers (new windowSize) cs = (History.machine w).answers ∅ cs
      ∧ ∀ seq, ((t.check seq).1 = .ok () ↔
          seq ≠ 0 ∧ seq ∉ A ∧ largest A ≤ seq.toNat + w.toNat)
        ∧ ((t.check seq).1 ≠ .ok () → (t.check seq).2 = t) := by
  intro w t A
  refine ⟨(Machine.run_simulation step_follows (follows_new windowSize) cs).1, fun seq => ?_⟩
  rcases check_cases (follows_after windowSize cs) seq with ⟨hok, hfresh, -⟩ | ⟨hrej, hstale⟩
  · exact ⟨⟨fun _ => hfresh, fun _ => hok⟩, fun hne => absurd hok hne⟩
  · constructor
    · rw [hrej]
      exact ⟨fun h => (nomatch h), fun hf => absurd hf hstale⟩
    · rw [hrej]
      exact fun _ => rfl

/-! ## What is stored -/

/-- Zero is never accepted. -/
theorem zero_notMem_accepted (windowSize : ℤ) (cs : List Call) :
    0 ∉ (new windowSize).accepted ∅ cs := by
  rw [accepted_eq_after (follows_new windowSize)]
  refine Machine.after_invariant (I := fun A => 0 ∉ A) (fun A c hA => ?_) (Finset.notMem_empty 0) cs
  cases c with
  | check seq =>
    show 0 ∉ (if Fresh _ A seq then _ else _ : _ × Finset UInt64).2
    split
    · next hfresh =>
      rw [Finset.mem_insert, not_or]
      exact ⟨hfresh.1.symm, hA⟩
    · exact hA
  | reset => exact Finset.notMem_empty 0

namespace Follows

variable {w : UInt64} {t : Tracker} {A : Finset UInt64} (h : Follows w t A)

include h

/-- What is stored is at most a window below the maximum. -/
theorem mem_window {seq : UInt64} (hseq : seq ∈ t.seen) :
    t.maxSeen.toNat - w.toNat ≤ seq.toNat ∧ seq.toNat ≤ t.maxSeen.toNat := by
  obtain ⟨hA, hwin⟩ := (h.seen seq).mp hseq
  rw [h.max]
  exact ⟨Nat.sub_le_iff_le_add.mpr hwin, le_largest hA⟩

/-- The numbers at most a window below the maximum are one more than the window. -/
theorem card_seen_le : t.seen.card ≤ w.toNat + 1 := by
  have hwindow : t.seen.image UInt64.toNat
      ⊆ Finset.Icc (t.maxSeen.toNat - w.toNat) t.maxSeen.toNat :=
    Finset.image_subset_iff.mpr fun seq hseq => Finset.mem_Icc.mpr (h.mem_window hseq)
  calc t.seen.card
      = (t.seen.image UInt64.toNat).card :=
        (Finset.card_image_of_injective _ fun _ _ => UInt64.toNat_inj.mp).symm
    _ ≤ (Finset.Icc (t.maxSeen.toNat - w.toNat) t.maxSeen.toNat).card := Finset.card_le_card hwindow
    _ = t.maxSeen.toNat + 1 - (t.maxSeen.toNat - w.toNat) := Nat.card_Icc _ _
    _ ≤ w.toNat + 1 := by omega

/-- The maximum is the largest number of the history. -/
theorem isGreatest_maxSeen (hA : A.Nonempty) : IsGreatest (A : Set UInt64) t.maxSeen := by
  obtain ⟨seq, hseq, hmax⟩ := Finset.exists_mem_eq_sup A hA UInt64.toNat
  obtain rfl : seq = t.maxSeen := UInt64.toNat_inj.mp (hmax.symm.trans h.max.symm)
  refine ⟨hseq, fun s hs => ?_⟩
  rw [UInt64.le_iff_toNat_le, h.max]
  exact le_largest hs

end Follows

/-- **The tracker's memory is bounded by its window.** After every sequence of calls, with every
window `w`, what is stored lies between the maximum less `w`, or one, and the maximum; the maximum
is the largest number accepted since the last reset, and zero if there is none; and at most
`w + 1` numbers are stored. -/
theorem seen_within_window (windowSize : ℤ) (cs : List Call) :
    let w := effectiveWindow windowSize
    let t := machine.after (new windowSize) cs
    let A := (new windowSize).accepted ∅ cs
    (∀ seq ∈ t.seen, max 1 (t.maxSeen.toNat - w.toNat) ≤ seq.toNat
        ∧ seq.toNat ≤ t.maxSeen.toNat)
      ∧ (A.Nonempty → IsGreatest (A : Set UInt64) t.maxSeen)
      ∧ (A = ∅ → t.maxSeen = 0)
      ∧ t.seen.card ≤ w.toNat + 1 := by
  intro w t A
  have hfollows : Follows w t A := follows_after windowSize cs
  refine ⟨fun seq hseq => ?_, hfollows.isGreatest_maxSeen, fun hA => ?_, hfollows.card_seen_le⟩
  · obtain ⟨hlow, hhigh⟩ := hfollows.mem_window hseq
    have hpos : seq ≠ 0 := by
      rintro rfl
      exact zero_notMem_accepted windowSize cs ((hfollows.seen 0).mp hseq).1
    have hpos : 1 ≤ seq.toNat := Nat.one_le_iff_ne_zero.mpr fun hzero =>
      hpos (UInt64.toNat_inj.mp hzero)
    exact ⟨max_le hpos hlow, hhigh⟩
  · refine UInt64.toNat_inj.mp ?_
    rw [hfollows.max, hA]
    rfl

end Tracker
