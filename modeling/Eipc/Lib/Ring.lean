import Eipc.Lib.Wire

/-!
# Rings of slots

A queue that is kept in a ring: entry number `k` lives in cell `k % n`, and a
cell is used again once its entry has been taken. What a cell holds is left open
(`stores`), so that a ring is a queue in whatever form its entries are laid out
(`Ring.Holds`): putting an entry into the next cell appends it, if not all cells
are in use, and the entry that comes next is in the cell of its number.

The second part is the layout in which the cells are slots of one size in an
array of bytes, each with a record at its start (`Ring.StoredAt`).
-/

namespace Ring

variable {α : Type} {n r : ℕ} {stores stores' : ℕ → α → Prop} {q : List α} {a : α}

/-- **A ring of `n` cells holds the queue `q`**, whose first entry is entry number
`r`; `stores j a` says that cell `j` holds `a`. -/
structure Holds (n : ℕ) (stores : ℕ → α → Prop) (r : ℕ) (q : List α) : Prop where
  length_le : q.length ≤ n
  cell : ∀ i (h : i < q.length), stores ((r + i) % n) q[i]

theorem holds_nil : Holds n stores r [] := ⟨Nat.zero_le n, fun _ h => (nomatch h)⟩

/-- Fewer than `n` entries apart, two entries are in different cells. -/
theorem mod_ne_mod {i k : ℕ} (hik : i < k) (hk : k < i + n) : i % n ≠ k % n := by
  intro h
  have hdvd : n ∣ k - i := (Nat.modEq_iff_dvd' hik.le).mp h
  exact absurd (Nat.le_of_dvd (by omega) hdvd) (by omega)

/-- **An entry that is put into the next cell is appended**, if a cell is free and
the others are left alone. -/
theorem Holds.push (h : Holds n stores r q) (hlen : q.length < n)
    (hkeep : ∀ j b, j ≠ (r + q.length) % n → stores j b → stores' j b)
    (ha : stores' ((r + q.length) % n) a) : Holds n stores' r (q ++ [a]) where
  length_le := by
    rw [List.length_append]
    exact hlen
  cell i hi := by
    rw [List.length_append, List.length_singleton] at hi
    rcases Nat.lt_succ_iff_lt_or_eq.mp hi with hlt | rfl
    · rw [List.getElem_append_left hlt]
      exact hkeep _ _ (mod_ne_mod (by omega) (by omega)) (h.cell i hlt)
    · rw [List.getElem_concat_length rfl]
      exact ha

/-- **The next entry is in the cell of its number.** -/
theorem Holds.pop (h : Holds n stores r (a :: q)) :
    stores (r % n) a ∧ Holds n stores (r + 1) q := by
  refine ⟨h.cell 0 (Nat.zero_lt_succ _), (Nat.le_succ _).trans h.length_le, fun i hi => ?_⟩
  rw [Nat.add_right_comm]
  exact h.cell (i + 1) (Nat.succ_lt_succ hi)

end Ring

/-! ## Slots in an array of bytes -/

namespace Bytes

variable {b src : Bytes} {i j k : ℕ}

/-- The array after `src` was copied to index `i`. -/
def writeAt (b : Bytes) (i : ℕ) (src : Bytes) : Bytes := b.take i ++ overwrite (b.drop i) src

theorem length_writeAt (h : i + src.length ≤ b.length) : (b.writeAt i src).length = b.length := by
  rw [writeAt, List.length_append, List.length_take, length_overwrite, List.length_drop]
  · omega
  · rw [List.length_drop]
    omega

/-- What was written is there. -/
theorem slice_writeAt (h : i ≤ b.length) : (b.writeAt i src).slice i (i + src.length) = src :=
  slice_append_middle _ _ _ (List.length_take_of_le h) rfl

theorem take_writeAt (h : i ≤ b.length) : (b.writeAt i src).take i = b.take i :=
  List.take_left' (List.length_take_of_le h)

theorem drop_writeAt (h : i + src.length ≤ b.length) :
    (b.writeAt i src).drop (i + src.length) = b.drop (i + src.length) := by
  rw [writeAt, overwrite, ← List.append_assoc, List.drop_left', List.drop_drop]
  rw [List.length_append, List.length_take_of_le (by omega)]

/-- A slice before the bytes written is as it was. -/
theorem slice_writeAt_before (h : i ≤ b.length) (hk : k ≤ i) :
    (b.writeAt i src).slice j k = b.slice j k := by
  have hslice : ∀ b : Bytes, b.slice j k = slice (b.take i) j k := by
    intro b
    rw [slice, slice, List.drop_take, List.take_take, Nat.min_eq_left (by omega)]
  rw [hslice, take_writeAt h, ← hslice]

/-- A slice after the bytes written is as it was. -/
theorem slice_writeAt_after (h : i + src.length ≤ b.length) (hj : i + src.length ≤ j) :
    (b.writeAt i src).slice j k = b.slice j k := by
  have hslice : ∀ b : Bytes, b.drop j = (b.drop (i + src.length)).drop (j - (i + src.length)) := by
    intro b
    rw [List.drop_drop, Nat.add_sub_cancel' hj]
  rw [slice, slice, hslice, drop_writeAt h, ← hslice]

end Bytes

namespace Ring

open Bytes

variable {b rec rec' : Bytes} {n z j k : ℕ}

/-- The slot `k`, of size `z`, starts with the record. -/
structure StoredAt (b : Bytes) (z k : ℕ) (rec : Bytes) : Prop where
  length_le : rec.length ≤ z
  slice : b.slice (k * z) (k * z + rec.length) = rec

theorem slot_le (hk : k < n) : k * z + z ≤ n * z := by
  rw [← Nat.succ_mul]
  exact Nat.mul_le_mul_right z hk

/-- A record that fits is stored where it is written. -/
theorem storedAt_writeAt (hb : b.length = n * z) (hk : k < n) (hrec : rec.length ≤ z) :
    StoredAt (b.writeAt (k * z) rec) z k rec := by
  have hslot := slot_le (z := z) hk
  exact ⟨hrec, slice_writeAt (by omega)⟩

/-- The records of the other slots stay. -/
theorem StoredAt.writeAt_of_ne (h : StoredAt b z j rec) (hb : b.length = n * z) (hk : k < n)
    (hrec' : rec'.length ≤ z) (hne : j ≠ k) : StoredAt (b.writeAt (k * z) rec') z j rec := by
  have hslot := slot_le (z := z) hk
  have hlen := h.length_le
  refine ⟨hlen, ?_⟩
  rcases Nat.lt_or_gt_of_ne hne with hlt | hgt
  · have hbefore := slot_le (z := z) hlt
    rw [slice_writeAt_before (by omega) (by omega), h.slice]
  · have hafter := slot_le (z := z) hgt
    rw [slice_writeAt_after (by omega) (by omega), h.slice]

end Ring
