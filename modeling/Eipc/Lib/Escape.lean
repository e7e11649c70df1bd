import Mathlib

/-!
# Escapes that are never undone

A text is written unit by unit; a unit stands for itself or is escaped, and an escape starts with
a mark. A reader that cuts the written text to the room it has, and undoes no escapes, gives the
text back exactly when no unit was escaped – or when the text fills the room and the units that
were escaped are the marks at its end, whose escapes are marks as well
(`Escape.take_eq_iff`).
-/

namespace Escape

variable {α β : Type}

/-- A unit `u` stands for the text `raw u` and is written as `esc u`: as it is, or with a mark in
front. A mark itself is written twice. -/
structure Marked (raw esc : β → List α) (mark : α) : Prop where
  ne_nil : ∀ u, raw u ≠ []
  plain_or_marked : ∀ u, esc u = raw u ∨ ∃ t, esc u = mark :: t
  mark_twice : ∀ u t, raw u = mark :: t → t = [] ∧ esc u = [mark, mark]

variable {raw esc : β → List α} {mark : α}

/-- Marks that are written twice are marks again. -/
theorem Marked.flatMap_marks (h : Marked raw esc mark) {us : List β}
    (hus : ∀ u ∈ us, raw u = [mark]) :
    us.flatMap raw = List.replicate us.length mark
      ∧ us.flatMap esc = List.replicate (2 * us.length) mark := by
  induction us with
  | nil => exact ⟨rfl, rfl⟩
  | cons u us ih =>
    rw [List.forall_mem_cons] at hus
    obtain ⟨hraw, hesc⟩ := ih hus.2
    rw [List.flatMap_cons, List.flatMap_cons, hraw, hesc, hus.1, (h.mark_twice u [] hus.1).2]
    exact ⟨rfl, rfl⟩

/-- After a mark too many, only marks read as what they are, up to the end of the room. -/
theorem Marked.marks_of_take_eq (h : Marked raw esc mark) {us : List β} {j n : ℕ}
    (heq : (List.replicate (j + 1) mark ++ us.flatMap esc).take n = us.flatMap raw) :
    (us.flatMap raw).length = n ∧ ∀ u ∈ us, raw u = [mark] := by
  induction us generalizing j n with
  | nil =>
    cases n with
    | zero => exact ⟨rfl, List.forall_mem_nil _⟩
    | succ n => simp [List.replicate_succ] at heq
  | cons u us ih =>
    obtain ⟨a, t, hu⟩ := List.exists_cons_of_ne_nil (h.ne_nil u)
    rw [List.flatMap_cons, List.flatMap_cons, hu] at heq
    cases n with
    | zero => simp at heq
    | succ n =>
      rw [List.replicate_succ, List.cons_append, List.take_succ_cons, List.cons_append] at heq
      obtain ⟨rfl, hrest⟩ := List.cons.inj heq
      obtain ⟨rfl, hesc⟩ := h.mark_twice u t hu
      have hmarks : List.replicate j mark ++ ([mark, mark] ++ us.flatMap esc)
          = List.replicate (j + 1 + 1) mark ++ us.flatMap esc := by
        rw [← List.append_assoc, List.replicate_add j 2 mark]
        rfl
      rw [hesc, hmarks, List.nil_append] at hrest
      obtain ⟨hlen, hall⟩ := ih hrest
      rw [List.flatMap_cons, hu, List.forall_mem_cons]
      exact ⟨congrArg Nat.succ hlen, hu, hall⟩

/-- **When the escaped text, cut to the room, is the text**: nothing is escaped, or the text fills
the room and what is escaped are the marks it ends in. -/
theorem take_eq_iff (h : Marked raw esc mark) {us : List β} {n : ℕ}
    (hlen : (us.flatMap raw).length ≤ n) :
    (us.flatMap esc).take n = us.flatMap raw
      ↔ (∀ u ∈ us, esc u = raw u)
        ∨ (us.flatMap raw).length = n
          ∧ ∃ vs ws, us = vs ++ ws ∧ (∀ u ∈ vs, esc u = raw u) ∧ ∀ u ∈ ws, raw u = [mark] := by
  constructor
  · intro heq
    induction us generalizing n with
    | nil => exact .inl (List.forall_mem_nil _)
    | cons u us ih =>
      rw [List.flatMap_cons, List.length_append] at hlen
      rw [List.flatMap_cons, List.flatMap_cons] at heq
      by_cases hplain : esc u = raw u
      · rw [hplain, List.take_append, List.take_of_length_le (by omega)] at heq
        have hrest := ih (by omega) (List.append_cancel_left heq)
        rw [List.forall_mem_cons]
        refine hrest.imp (fun hall => ⟨hplain, hall⟩) ?_
        rintro ⟨hfull, vs, ws, rfl, hvs, hws⟩
        rw [List.flatMap_cons, List.length_append]
        refine ⟨by omega, u :: vs, ws, rfl, ?_, hws⟩
        exact List.forall_mem_cons.mpr ⟨hplain, hvs⟩
      · -- the first escape: what it starts with has to be what it stands for
        obtain ⟨t, ht⟩ := (h.plain_or_marked u).resolve_left hplain
        obtain ⟨a, r, hu⟩ := List.exists_cons_of_ne_nil (h.ne_nil u)
        rw [hu, List.length_cons] at hlen
        obtain ⟨n, rfl⟩ : ∃ m, n = m + 1 := ⟨n - 1, by omega⟩
        rw [ht, hu, List.cons_append, List.take_succ_cons, List.cons_append] at heq
        obtain ⟨rfl, hrest⟩ := List.cons.inj heq
        obtain ⟨rfl, hesc⟩ := h.mark_twice u r hu
        obtain rfl : t = [mark] := (List.cons.inj (ht.symm.trans hesc)).2
        obtain ⟨hfull, hall⟩ := h.marks_of_take_eq (j := 0) hrest
        refine .inr ⟨?_, [], u :: us, rfl, List.forall_mem_nil _,
          List.forall_mem_cons.mpr ⟨hu, hall⟩⟩
        rw [List.flatMap_cons, hu, List.length_append, hfull, List.length_singleton, add_comm]
  · rintro (hall | ⟨hfull, vs, ws, rfl, hvs, hws⟩)
    · rw [List.flatMap_congr hall]
      exact List.take_of_length_le hlen
    · obtain ⟨hraw, hesc⟩ := h.flatMap_marks hws
      rw [List.flatMap_append, hraw, List.length_append, List.length_replicate] at hfull
      rw [List.flatMap_append, List.flatMap_append, List.flatMap_congr hvs, hraw, hesc,
        List.take_append, List.take_of_length_le (by omega), List.take_replicate]
      congr 2
      omega

/-- Without the cut, the escaped text is the text when nothing is escaped. -/
theorem flatMap_eq_iff (h : Marked raw esc mark) {us : List β} :
    us.flatMap esc = us.flatMap raw ↔ ∀ u ∈ us, esc u = raw u := by
  constructor
  · intro heq
    have htake : (us.flatMap esc).take ((us.flatMap raw).length + 1) = us.flatMap raw := by
      rw [heq, List.take_of_length_le (Nat.le_succ _)]
    refine ((take_eq_iff h (Nat.le_succ _)).mp htake).resolve_right fun hfull => ?_
    exact absurd hfull.1 (Nat.succ_ne_self _).symm
  · exact fun hall => List.flatMap_congr hall

end Escape
