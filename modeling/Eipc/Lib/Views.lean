import Eipc.Lib.Machine

/-!
# A run seen from one component

A machine that is put together from components makes steps of which a component sees only
part: each step of the whole is, for the component, a list of steps of its own, which may be
empty. If every single step of the whole is seen like that, so is every run
(`Machine.after_viewed`), and what the component answers is what the whole shows of it
(`Machine.answers_viewed`).
-/

namespace Machine

variable {σ τ ι κ ο π ρ : Type} {m : Machine σ ι ο} {n : Machine τ κ π} {view : σ → ι → List κ}

theorem answers_append (s : σ) (is js : List ι) :
    m.answers s (is ++ js) = m.answers s is ++ m.answers (m.after s is) js := by
  induction is generalizing s with
  | nil => rfl
  | cons i is ih => exact congrArg _ (ih (m.step s i).2)

theorem run_append {s : σ} {is js : List ι} {os : List ο} {s' : σ} (h : m.run s is = (os, s')) :
    m.run s (is ++ js) = (os ++ m.answers s' js, m.after s' js) := by
  have hanswers : m.answers s is = os := congrArg Prod.fst h
  have hafter : m.after s is = s' := congrArg Prod.snd h
  rw [← hanswers, ← hafter]
  exact Prod.ext (answers_append s is js) (after_append s is js)

/-- What a component sees of a run, if a call in a state is `view` for it. -/
def viewed (m : Machine σ ι ο) (view : σ → ι → List κ) (s : σ) : List ι → List κ
  | [] => []
  | i :: is => view s i ++ m.viewed view (m.step s i).2 is

theorem viewed_append (s : σ) (is js : List ι) :
    m.viewed view s (is ++ js) = m.viewed view s is ++ m.viewed view (m.after s is) js := by
  induction is generalizing s with
  | nil => rfl
  | cons i is ih =>
    show view s i ++ m.viewed view (m.step s i).2 (is ++ js) = _
    rw [ih, ← List.append_assoc]
    rfl

theorem viewed_concat (s : σ) (is : List ι) (i : ι) :
    m.viewed view s (is ++ [i]) = m.viewed view s is ++ view (m.after s is) i := by
  rw [viewed_append]
  exact congrArg _ (List.append_nil _)

/-- What a component sees in the middle of a run, it sees of one call. -/
theorem exists_of_viewed_eq {s : σ} {is : List ι} {l₁ l₂ : List κ} {k : κ}
    (h : m.viewed view s is = l₁ ++ k :: l₂) :
    ∃ is₁ i is₂ w₁ w₂, is = is₁ ++ i :: is₂ ∧ view (m.after s is₁) i = w₁ ++ k :: w₂
      ∧ l₁ = m.viewed view s is₁ ++ w₁ := by
  induction is generalizing s l₁ with
  | nil => exact absurd h.symm (List.append_ne_nil_of_right_ne_nil l₁ (List.cons_ne_nil k l₂))
  | cons i is ih =>
    -- it is seen of the first call, or of a later one
    rcases List.append_eq_append_iff.mp h with ⟨w, rfl, hw⟩ | ⟨w, hview, hw⟩
    · obtain ⟨is₁, j, is₂, w₁, w₂, rfl, hview, rfl⟩ := ih hw
      exact ⟨i :: is₁, j, is₂, w₁, w₂, rfl, hview, (List.append_assoc _ _ _).symm⟩
    · cases w with
      | nil =>
        obtain ⟨is₁, j, is₂, w₁, w₂, rfl, hview', hl₁⟩ := @ih _ [] hw.symm
        refine ⟨i :: is₁, j, is₂, w₁, w₂, rfl, hview', ?_⟩
        show l₁ = (view s i ++ m.viewed view (m.step s i).2 is₁) ++ w₁
        rw [List.append_assoc, ← hl₁, List.append_nil, hview, List.append_nil]
      | cons k' w =>
        obtain ⟨rfl, -⟩ := List.cons.inj hw
        exact ⟨[], i, is, l₁, w, rfl, hview, rfl⟩

/-- **The component goes through what it sees of the run.** -/
theorem after_viewed {f : σ → τ} (hstep : ∀ s i, n.after (f s) (view s i) = f (m.step s i).2)
    (s : σ) (is : List ι) : n.after (f s) (m.viewed view s is) = f (m.after s is) := by
  induction is generalizing s with
  | nil => rfl
  | cons i is ih =>
    show n.after (f s) (view s i ++ m.viewed view (m.step s i).2 is) = _
    rw [after_append, hstep]
    exact ih (m.step s i).2

/-- **What the component answers is what can be seen of it in the run.** -/
theorem answers_viewed {f : σ → τ} {shown : ο → Option ρ} {shows : π → Option ρ}
    (hstep : ∀ s i, n.after (f s) (view s i) = f (m.step s i).2)
    (hshow : ∀ s i, (n.answers (f s) (view s i)).filterMap shows
      = (shown (m.step s i).1).toList) (s : σ) (is : List ι) :
    (n.answers (f s) (m.viewed view s is)).filterMap shows
      = (m.answers s is).filterMap shown := by
  induction is generalizing s with
  | nil => rfl
  | cons i is ih =>
    show (n.answers (f s) (view s i ++ m.viewed view (m.step s i).2 is)).filterMap shows = _
    rw [answers_append, List.filterMap_append, hshow, hstep, ih, answers_cons, List.filterMap_cons]
    cases shown (m.step s i).1 with
    | none => rfl
    | some o => rfl

end Machine
