import Mathlib

/-!
# Where a quoted word occurs

A reader that looks for the first occurrence of a quoted word in a text finds it where the
word was written, or earlier, if it is also found in what was written before. This file says
where a pattern can occur: which occurrences start in a part of the text
(`Search.StartsIn`), and that in a string literal whose inner quotes are all escaped the
quoted word occurs only at the end, closed by the quote that closes the literal
(`Search.eq_of_isPrefix`).
-/

namespace Search

variable {α : Type} {pat x y : List α} {q e a : α}

/-- An occurrence of `pat` in `x ++ y` starts in `x`. -/
def StartsIn (pat x y : List α) : Prop := ∃ u v, x = u ++ v ∧ v ≠ [] ∧ pat <+: v ++ y

theorem not_startsIn_nil : ¬StartsIn pat [] y := by
  rintro ⟨u, v, h, hv, -⟩
  exact hv (List.append_eq_nil_iff.mp h.symm).2

theorem startsIn_cons :
    StartsIn pat (a :: x) y ↔ pat <+: a :: (x ++ y) ∨ StartsIn pat x y := by
  constructor
  · rintro ⟨u, v, h, hv, hpat⟩
    cases u with
    | nil =>
      rw [List.nil_append] at h
      exact .inl (by rw [← h] at hpat; exact hpat)
    | cons b u => exact .inr ⟨u, v, (List.cons.inj h).2, hv, hpat⟩
  · rintro (hpat | ⟨u, v, rfl, hv, hpat⟩)
    · exact ⟨[], a :: x, rfl, List.cons_ne_nil a x, hpat⟩
    · exact ⟨a :: u, v, rfl, hv, hpat⟩

/-- A pattern starts only where its first element is. -/
theorem not_startsIn_of_notMem {p : List α} (h : q ∉ x) : ¬StartsIn (q :: p) x y := by
  induction x with
  | nil => exact not_startsIn_nil
  | cons a x ih =>
    rw [List.mem_cons, not_or] at h
    rw [startsIn_cons, not_or, List.cons_prefix_cons]
    exact ⟨fun hpat => h.1 hpat.1, ih h.2⟩

/-- A word between quotes. -/
def quoted (q : α) (k : List α) : List α := q :: k ++ [q]

/-- Every `q` of `s` comes right after an `e`. -/
def Guarded (q e : α) (s : List α) : Prop := ∀ u v, s = u ++ q :: v → ∃ w, u = w ++ [e]

theorem guarded_of_notMem {s : List α} (h : q ∉ s) : Guarded q e s := by
  rintro u v rfl
  exact absurd (List.mem_append_right u List.mem_cons_self) h

section Literal

variable {k body z : List α} (hq : q ∉ k) (he : e ∉ q :: k) (hbody : Guarded q e body)

include hq he hbody

/-- **In a literal the quoted word is found only at the end**: what comes before the closing
quote is the opening quote or an escaped one, and the word. -/
theorem eq_of_isPrefix {u v : List α} (hsplit : q :: body = u ++ v) (hv : v ≠ [])
    (hpat : quoted q k <+: v ++ q :: z) : v = q :: k := by
  obtain ⟨t, ht⟩ := hpat
  obtain ⟨b, v, rfl⟩ := List.exists_cons_of_ne_nil hv
  obtain ⟨rfl, hword⟩ : q = b ∧ k ++ q :: t = v ++ q :: z := by simpa [quoted] using ht
  refine congrArg (q :: ·) ?_
  obtain ⟨s, rfl, hs⟩ | ⟨s, rfl, hs⟩ := List.append_eq_append_iff.mp hword
  · -- the word ends in the body: its closing quote is not escaped
    cases s with
    | nil => exact List.append_nil _
    | cons b s =>
      obtain rfl : q = b := (List.cons.inj hs).1
      have hmem : e ∈ q :: k := by
        cases u with
        | nil =>
          obtain ⟨w, rfl⟩ := hbody k s (by simpa using hsplit)
          simp
        | cons c u =>
          obtain ⟨w, hw⟩ := hbody (u ++ q :: k) s (by simpa using (List.cons.inj hsplit).2)
          have hlast := congrArg List.getLast? hw
          rw [List.getLast?_append_of_ne_nil _ (List.cons_ne_nil q k),
            List.getLast?_concat] at hlast
          exact List.mem_of_getLast? hlast
      exact absurd hmem he
  · cases s with
    | nil => exact (List.append_nil _).symm
    | cons b s =>
      obtain rfl : q = b := (List.cons.inj hs).1
      exact absurd (List.mem_append_right v List.mem_cons_self) hq

/-- It is found there exactly when the literal ends in it. -/
theorem startsIn_literal :
    StartsIn (quoted q k) (q :: body) (q :: z) ↔ (q :: k) <:+ (q :: body) := by
  constructor
  · rintro ⟨u, v, hsplit, hv, hpat⟩
    rw [eq_of_isPrefix hq he hbody hsplit hv hpat] at hsplit
    exact ⟨u, hsplit.symm⟩
  · rintro ⟨u, hu⟩
    exact ⟨u, q :: k, hu.symm, List.cons_ne_nil q k, z, by simp [quoted]⟩

/-- Nothing is found before that. -/
theorem not_startsIn_of_isSuffix {u : List α} (hsplit : q :: body = u ++ q :: k) :
    ¬StartsIn (quoted q k) u (quoted q k ++ z) := by
  rintro ⟨u₁, u₂, rfl, hne, hpat⟩
  have hv := eq_of_isPrefix (z := z) hq he hbody (u := u₁) (v := u₂ ++ q :: k)
    (by rw [hsplit, List.append_assoc]) (List.append_ne_nil_of_left_ne_nil hne _)
    (by simpa [quoted] using hpat)
  exact hne (List.append_left_eq_self.mp hv)

end Literal

end Search
