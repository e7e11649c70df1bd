import Eipc.Lib.Reader

/-!
# The two ends of a byte stream

The counterpart of a reader is a writer: it is offered bytes and takes some of them, as many as it
likes. `Bytes.Writer` is what all of them have in common, with the laws as fields.
`Writer.writeAll` offers what is left until all is taken, or none is. It succeeds exactly if all
bytes were taken, and otherwise has left a beginning of them behind
(`Writer.taken_of_writeAll_true`, `Writer.taken_of_writeAll_false`). What is written next can still
be taken. Only a writer that breaks for good (`Writer.Breaks`) takes nothing from then on
(`Writer.writeAll_of_broken`).

A reader is **blocking** if it comes back with empty hands only at the end. `Reader.readAll` takes
an empty read as a failure, and for a blocking reader that is right (`Reader.readAll_eq`).
-/

namespace Bytes

/-- **A writer** with states in `ω`. -/
structure Writer (ω : Type) where
  /-- A write: how many of the bytes were taken. -/
  write : Bytes → ω → ℕ × ω
  /-- All that was taken so far. -/
  taken : ω → Bytes
  write_le : ∀ b w, (write b w).1 ≤ b.length
  taken_write : ∀ b w, taken (write b w).2 = taken w ++ b.take (write b w).1

namespace Writer

variable {ω : Type} (W : Writer ω)

/-- Writes until all is taken, or nothing more is. -/
def writeAll (b : Bytes) (w : ω) : Bool × ω :=
  if b = [] then (true, w)
  else
    let next := W.write b w
    if next.1 = 0 then (false, next.2) else writeAll (b.drop next.1) next.2
termination_by b.length
decreasing_by
  have hpos := List.length_pos_iff.mpr ‹¬b = []›
  rw [List.length_drop]
  exact Nat.sub_lt hpos (Nat.pos_of_ne_zero ‹¬next.1 = 0›)

variable {W} {b : Bytes} {w w' : ω}

/-- A write that succeeds has written all. -/
theorem taken_of_writeAll_true (h : W.writeAll b w = (true, w')) : W.taken w' = W.taken w ++ b := by
  fun_induction W.writeAll b w with
  | case1 w =>
    cases h
    exact (List.append_nil _).symm
  | case2 b w hb next hzero => cases h
  | case3 b w hb next hzero ih =>
    rw [ih h, W.taken_write, List.append_assoc, List.take_append_drop]

/-- One that fails has written a part. -/
theorem taken_of_writeAll_false (h : W.writeAll b w = (false, w')) :
    ∃ n < b.length, W.taken w' = W.taken w ++ b.take n := by
  fun_induction W.writeAll b w with
  | case1 w => cases h
  | case2 b w hb next hzero =>
    cases h
    refine ⟨0, List.length_pos_iff.mpr hb, ?_⟩
    rw [W.taken_write, show (W.write b w).1 = 0 from hzero]
  | case3 b w hb next hzero ih =>
    obtain ⟨n, hn, htaken⟩ := ih h
    rw [List.length_drop] at hn
    refine ⟨next.1 + n, by omega, ?_⟩
    rw [htaken, W.taken_write, List.append_assoc, List.take_add]

/-- **A writer that breaks for good**: one that takes nothing is broken, and stays so. -/
structure Breaks (W : Writer ω) (broken : ω → Prop) : Prop where
  of_zero : ∀ b w, b ≠ [] → (W.write b w).1 = 0 → broken (W.write b w).2
  stays : ∀ b w, broken w → (W.write b w).1 = 0 ∧ broken (W.write b w).2

theorem broken_of_writeAll_false {broken : ω → Prop} (hW : W.Breaks broken)
    (h : W.writeAll b w = (false, w')) : broken w' := by
  fun_induction W.writeAll b w with
  | case1 w => cases h
  | case2 b w hb next hzero =>
    cases h
    exact hW.of_zero b w hb hzero
  | case3 b w hb next hzero ih => exact ih h

/-- A broken writer takes nothing. -/
theorem writeAll_of_broken {broken : ω → Prop} (hW : W.Breaks broken) (hb : b ≠ [])
    (h : broken w) :
    ∃ w', W.writeAll b w = (false, w') ∧ broken w' ∧ W.taken w' = W.taken w := by
  obtain ⟨hzero, hbroken⟩ := hW.stays b w h
  rw [writeAll, if_neg hb]
  dsimp only
  rw [if_pos hzero]
  refine ⟨_, rfl, hbroken, ?_⟩
  rw [W.taken_write, hzero, List.take_zero, List.append_nil]

/-- A writer that takes so many bytes at a time, and then breaks. -/
structure Counts where
  taken : Bytes
  /-- One less than what the next writes take at most. -/
  counts : List ℕ

def ofCounts : Writer Counts where
  write b w :=
    match w.counts with
    | [] => (0, w)
    | n :: ns => (min (n + 1) b.length, ⟨w.taken ++ b.take (min (n + 1) b.length), ns⟩)
  taken w := w.taken
  write_le b w := by
    split
    · exact Nat.zero_le _
    · exact Nat.min_le_right _ _
  taken_write b w := by
    split
    · exact (List.append_nil _).symm
    · rfl

theorem breaks_ofCounts : ofCounts.Breaks fun w => w.counts = [] where
  of_zero b w hb := by
    have hpos := List.length_pos_iff.mpr hb
    unfold ofCounts
    dsimp only
    split
    · next hnil => exact fun _ => hnil
    · next n ns _ =>
      intro hzero
      have hmin : min (n + 1) b.length = 0 := hzero
      omega
  stays b w hw := by
    unfold ofCounts
    dsimp only
    rw [hw]
    exact ⟨rfl, hw⟩

end Writer

namespace Reader

variable {ρ : Type} (R : Reader ρ)

/-- **A blocking reader** waits for a byte, and gives up only at the end. -/
def Blocking : Prop := ∀ k r, 0 < k → (R.read k r).1.1 = [] → R.content r = []

/-- Reads until there are `n` bytes, or nothing more comes. -/
def readAll (n : ℕ) (got : Bytes) (r : ρ) : Option Bytes × ρ :=
  if n ≤ got.length then (some got, r)
  else
    let next := R.read (n - got.length) r
    if next.1.1 = [] then (none, next.2) else readAll n (got ++ next.1.1) next.2
termination_by n - got.length
decreasing_by
  have hpos : 0 < (R.read (n - got.length) r).1.1.length :=
    List.length_pos_iff.mpr ‹¬next.1.1 = []›
  rw [List.length_append]
  omega

variable {R} {n : ℕ} {got : Bytes} {r : ρ}

/-- **How the bytes were cut does not matter.** -/
theorem readAll_eq (hR : R.Blocking) (hgot : got.length ≤ n) :
    (n ≤ (got ++ R.content r).length →
      (R.readAll n got r).1 = some ((got ++ R.content r).take n)
        ∧ R.content (R.readAll n got r).2 = (got ++ R.content r).drop n)
    ∧ ((got ++ R.content r).length < n →
      (R.readAll n got r).1 = none ∧ R.content (R.readAll n got r).2 = []) := by
  fun_induction R.readAll n got r with
  | case1 got r hn =>
    have hlen : got.length = n := le_antisymm hgot hn
    refine ⟨fun _ => ⟨?_, ?_⟩, fun hlt => ?_⟩
    · rw [← hlen, List.take_left]
    · rw [← hlen, List.drop_left]
    · rw [List.length_append] at hlt
      omega
  | case2 got r hn next hnil =>
    have hend : R.content r = [] := hR _ _ (by omega) hnil
    have hrest : R.content next.2 = [] := by
      have hcontent := R.content_read (n - got.length) r
      rw [hend] at hcontent
      exact (List.append_eq_nil_iff.mp hcontent).2
    rw [hend, List.append_nil]
    exact ⟨fun hle => absurd hle hn, fun _ => ⟨rfl, hrest⟩⟩
  | case3 got r hn next hnil ih =>
    rw [← R.append_content_read n got r]
    exact ih (R.length_append_read got r hgot)

/-- A reader that delivers so many bytes at a time. -/
structure Chunks where
  content : Bytes
  /-- One less than what the next reads deliver at most; after that, all that is asked for. -/
  sizes : List ℕ

def ofChunks : Reader Chunks where
  read k r :=
    let n := min k (r.sizes.headD k + 1)
    ((r.content.take n, r.content.isEmpty), ⟨r.content.drop n, r.sizes.tail⟩)
  content r := r.content
  idle _ := 0
  length_read k r := by
    rw [List.length_take]
    exact (Nat.min_le_left _ _).trans (Nat.min_le_left _ _)
  content_read k r := List.take_append_drop _ _
  content_of_end k r hend := by
    show r.content.drop _ = []
    rw [List.isEmpty_iff.mp hend, List.drop_nil]
  idle_read k r hk hread := by
    have htake : r.content.take (min k (r.sizes.headD k + 1)) = [] := congrArg Prod.fst hread
    have hfalse : r.content.isEmpty = false := congrArg Prod.snd hread
    rcases List.take_eq_nil_iff.mp htake with hzero | hnil
    · omega
    · rw [hnil] at hfalse
      cases hfalse

theorem blocking_ofChunks : ofChunks.Blocking := by
  intro k r hk hread
  have htake : r.content.take (min k (r.sizes.headD k + 1)) = [] := hread
  rcases List.take_eq_nil_iff.mp htake with hzero | hnil
  · omega
  · exact hnil

end Reader

end Bytes
