import Mathlib

/-!
# Machines, runs and simulations

A component that is called again and again is a machine: a call and a state
give an answer and the next state. A run feeds it a finite sequence of calls,
and the two rules every statement about whole runs comes from are here: what
one step keeps holds after a run (`Machine.after_invariant`), and two machines
whose steps answer alike and keep a relation between their states answer alike
along every run (`Machine.run_simulation`).

Part of a state is often a register: each answer says whether the step set it,
and to what. Then what it holds after a run can be read off the answers alone
(`Machine.read_after`), as the last value that was set (`lastSet_eq_iff`). What calls do
and other calls undo holds if it was done and has not been undone since
(`Machine.after_iff_since`).
-/

/-- A machine with states `σ`, calls `ι` and answers `ο`. -/
structure Machine (σ ι ο : Type) where
  /-- One call: the answer, and the state after it. -/
  step : σ → ι → ο × σ

namespace Machine

variable {σ τ ι ο : Type} {m : Machine σ ι ο}

/-- The answers of a run, in order, and the state it ends in. -/
def run (m : Machine σ ι ο) (s : σ) : List ι → List ο × σ
  | [] => ([], s)
  | i :: is => ((m.step s i).1 :: (m.run (m.step s i).2 is).1, (m.run (m.step s i).2 is).2)

/-- The state a run ends in. -/
def after (m : Machine σ ι ο) (s : σ) (is : List ι) : σ := (m.run s is).2

/-- The answers of a run. -/
def answers (m : Machine σ ι ο) (s : σ) (is : List ι) : List ο := (m.run s is).1

/-- The calls of a run, each with its answer. -/
def trace (m : Machine σ ι ο) (s : σ) (is : List ι) : List (ι × ο) := is.zip (m.answers s is)

/-- The calls of a run whose answers satisfy `p`. -/
def callsWith (m : Machine σ ι ο) (p : ο → Bool) (s : σ) (is : List ι) : List ι :=
  ((m.trace s is).filter fun x => p x.2).map Prod.fst

@[simp] theorem after_nil (s : σ) : m.after s [] = s := rfl

@[simp] theorem after_cons (s : σ) (i : ι) (is : List ι) :
    m.after s (i :: is) = m.after (m.step s i).2 is := rfl

@[simp] theorem answers_nil (s : σ) : m.answers s [] = [] := rfl

@[simp] theorem answers_cons (s : σ) (i : ι) (is : List ι) :
    m.answers s (i :: is) = (m.step s i).1 :: m.answers (m.step s i).2 is := rfl

@[simp] theorem trace_cons (s : σ) (i : ι) (is : List ι) :
    m.trace s (i :: is) = (i, (m.step s i).1) :: m.trace (m.step s i).2 is := rfl

theorem callsWith_cons_of_true {p : ο → Bool} {s : σ} {i : ι} (h : p (m.step s i).1 = true)
    (is : List ι) : m.callsWith p s (i :: is) = i :: m.callsWith p (m.step s i).2 is := by
  unfold callsWith
  rw [trace_cons, List.filter_cons, if_pos h, List.map_cons]

theorem callsWith_cons_of_false {p : ο → Bool} {s : σ} {i : ι} (h : p (m.step s i).1 = false)
    (is : List ι) : m.callsWith p s (i :: is) = m.callsWith p (m.step s i).2 is := by
  unfold callsWith
  rw [trace_cons, List.filter_cons, if_neg (Bool.eq_false_iff.mp h)]

theorem mem_of_mem_callsWith {p : ο → Bool} {s : σ} {is : List ι} {i : ι}
    (h : i ∈ m.callsWith p s is) : i ∈ is := by
  obtain ⟨x, hx, rfl⟩ := List.mem_map.mp h
  exact (List.of_mem_zip (List.mem_of_mem_filter hx)).1

theorem after_concat (s : σ) (is : List ι) (i : ι) :
    m.after s (is ++ [i]) = (m.step (m.after s is) i).2 := by
  induction is generalizing s with
  | nil => rfl
  | cons j is ih => exact ih (m.step s j).2

theorem answers_concat (s : σ) (is : List ι) (i : ι) :
    m.answers s (is ++ [i]) = m.answers s is ++ [(m.step (m.after s is) i).1] := by
  induction is generalizing s with
  | nil => rfl
  | cons j is ih => exact congrArg _ (ih (m.step s j).2)

theorem after_append (s : σ) (is js : List ι) :
    m.after s (is ++ js) = m.after (m.after s is) js := by
  induction is generalizing s with
  | nil => rfl
  | cons i is ih => exact ih (m.step s i).2

/-- An answer in the middle of a run was given in the state after the calls before
it. -/
theorem exists_of_answers_eq {s : σ} {is : List ι} {l₁ l₂ : List ο} {o : ο}
    (h : m.answers s is = l₁ ++ o :: l₂) :
    ∃ is₁ i is₂, is = is₁ ++ i :: is₂ ∧ m.answers s is₁ = l₁
      ∧ (m.step (m.after s is₁) i).1 = o := by
  induction is generalizing s l₁ with
  | nil => exact absurd h.symm (List.append_ne_nil_of_right_ne_nil l₁ (List.cons_ne_nil o l₂))
  | cons i is ih =>
    cases l₁ with
    | nil => exact ⟨[], i, is, rfl, rfl, (List.cons.inj h).1⟩
    | cons o' l₁ =>
      obtain ⟨rfl, hrest⟩ := List.cons.inj h
      obtain ⟨is₁, j, is₂, rfl, rfl, hj⟩ := ih hrest
      exact ⟨i :: is₁, j, is₂, rfl, rfl, hj⟩

/-- An answer at a position of a run, likewise. -/
theorem exists_of_getElem?_answers {s : σ} {is : List ι} {j : ℕ} {o : ο}
    (h : (m.answers s is)[j]? = some o) :
    ∃ is₁ i is₂, is = is₁ ++ i :: is₂ ∧ m.answers s is₁ = (m.answers s is).take j
      ∧ (m.step (m.after s is₁) i).1 = o := by
  obtain ⟨hj, rfl⟩ := List.getElem?_eq_some_iff.mp h
  have hsplit : m.answers s is = (m.answers s is).take j
      ++ (m.answers s is)[j] :: (m.answers s is).drop (j + 1) := by
    rw [← List.drop_eq_getElem_cons, List.take_append_drop]
  exact exists_of_answers_eq hsplit

/-- **What one step keeps holds after every run.** -/
theorem after_invariant {I : σ → Prop} (hstep : ∀ s i, I s → I (m.step s i).2)
    {s : σ} (hs : I s) (is : List ι) : I (m.after s is) := by
  induction is generalizing s with
  | nil => exact hs
  | cons i is ih => exact ih (hstep s i hs)

/-- **Calls that change nothing can be left out**: the rest is answered as before, and
the run ends in the same state. -/
theorem run_callsWith {p : ο → Bool}
    (hstay : ∀ s i, p (m.step s i).1 = false → (m.step s i).2 = s) (s : σ) (is : List ι) :
    m.answers s (m.callsWith p s is) = (m.answers s is).filter p
      ∧ m.after s (m.callsWith p s is) = m.after s is := by
  induction is generalizing s with
  | nil => exact ⟨rfl, rfl⟩
  | cons i is ih =>
    rw [answers_cons, after_cons]
    cases hp : p (m.step s i).1 with
    | false =>
      rw [callsWith_cons_of_false hp, List.filter_cons_of_neg (Bool.eq_false_iff.mp hp),
        hstay s i hp]
      exact ih s
    | true =>
      rw [callsWith_cons_of_true hp, List.filter_cons_of_pos hp, answers_cons, after_cons]
      obtain ⟨hanswers, hafter⟩ := ih (m.step s i).2
      exact ⟨congrArg _ hanswers, hafter⟩

/-- **An account over a run.** If every answer that spends is paid for, by an answer
that earns or out of the credit of the state, then at most the credit is spent on top
of what is earned. -/
theorem countP_answers_le (spends earns : ο → Bool) (credit : σ → ℕ)
    (hstep : ∀ s i, (if spends (m.step s i).1 then 1 else 0) + credit (m.step s i).2
      ≤ (if earns (m.step s i).1 then 1 else 0) + credit s) (s : σ) (is : List ι) :
    (m.answers s is).countP spends + credit (m.after s is)
      ≤ (m.answers s is).countP earns + credit s := by
  induction is generalizing s with
  | nil => exact Nat.le_refl _
  | cons i is ih =>
    have hrest := ih (m.step s i).2
    have hfirst := hstep s i
    rw [answers_cons, after_cons, List.countP_cons, List.countP_cons]
    omega

/-- Two machines whose steps for the calls of a run keep a relation keep it along
the run. -/
theorem after_related_of_mem {n : Machine τ ι ο} {R : σ → τ → Prop} {is : List ι}
    (hstep : ∀ s t, ∀ i ∈ is, R s t → R (m.step s i).2 (n.step t i).2)
    {s : σ} {t : τ} (h : R s t) : R (m.after s is) (n.after t is) := by
  induction is generalizing s t with
  | nil => exact h
  | cons i is ih =>
    exact ih (fun s t j hj => hstep s t j (List.mem_cons_of_mem i hj))
      (hstep s t i List.mem_cons_self h)

/-- **Two machines that answer the calls of a run alike, step by step, answer the
run alike**, and their states stay related. -/
theorem run_simulation_of_mem {n : Machine τ ι ο} {R : σ → τ → Prop} {is : List ι}
    (hstep : ∀ s t, ∀ i ∈ is, R s t → (m.step s i).1 = (n.step t i).1
      ∧ R (m.step s i).2 (n.step t i).2)
    {s : σ} {t : τ} (h : R s t) :
    m.answers s is = n.answers t is ∧ R (m.after s is) (n.after t is) := by
  induction is generalizing s t with
  | nil => exact ⟨rfl, h⟩
  | cons i is ih =>
    obtain ⟨hans, hrel⟩ := hstep s t i List.mem_cons_self h
    obtain ⟨hrest, hend⟩ := ih (fun s t j hj => hstep s t j (List.mem_cons_of_mem i hj)) hrel
    exact ⟨by rw [answers_cons, answers_cons, hans, hrest], hend⟩

/-- Two machines that answer every call alike answer every run alike. -/
theorem run_simulation {n : Machine τ ι ο} {R : σ → τ → Prop}
    (hstep : ∀ s t i, R s t → (m.step s i).1 = (n.step t i).1
      ∧ R (m.step s i).2 (n.step t i).2)
    {s : σ} {t : τ} (h : R s t) (is : List ι) :
    m.answers s is = n.answers t is ∧ R (m.after s is) (n.after t is) :=
  run_simulation_of_mem (fun s t i _ => hstep s t i) h

/-- Every call of a run is answered in some state. -/
theorem exists_step_mem_answers {s : σ} {is : List ι} {i : ι} (h : i ∈ is) :
    ∃ s', (m.step s' i).1 ∈ m.answers s is := by
  induction is generalizing s with
  | nil => exact absurd h List.not_mem_nil
  | cons j is ih =>
    rcases List.mem_cons.mp h with rfl | hmem
    · exact ⟨s, List.mem_cons_self⟩
    · obtain ⟨s', hs'⟩ := ih (s := (m.step s j).2) hmem
      exact ⟨s', List.mem_cons_of_mem _ hs'⟩

end Machine

/-! ## Registers -/

section Register

variable {α β : Type}

/-- What a register that holds `v` holds after a list of entries, `f` saying
what an entry sets it to, if it does. -/
def lastSet (f : α → Option β) (v : β) (l : List α) : β :=
  l.foldl (fun v a => (f a).getD v) v

/-- **A register holds the last value that was set**, or its first one if none
was. -/
theorem lastSet_eq_iff {f : α → Option β} {v w : β} {l : List α} :
    lastSet f v l = w ↔
      (v = w ∧ ∀ a ∈ l, f a = none)
        ∨ ∃ l₁ a l₂, l = l₁ ++ a :: l₂ ∧ f a = some w ∧ ∀ b ∈ l₂, f b = none := by
  induction l generalizing v with
  | nil => simp [lastSet]
  | cons a l ih =>
    show lastSet f ((f a).getD v) l = w ↔ _
    rw [ih]
    constructor
    · rintro (⟨hv, hl⟩ | ⟨l₁, b, l₂, rfl, hb, hl⟩)
      · cases ha : f a with
        | none =>
          rw [ha] at hv
          exact .inl ⟨hv, List.forall_mem_cons.mpr ⟨ha, hl⟩⟩
        | some u =>
          rw [ha] at hv
          exact .inr ⟨[], a, l, rfl, ha.trans (congrArg some hv), hl⟩
      · exact .inr ⟨a :: l₁, b, l₂, rfl, hb, hl⟩
    · rintro (⟨rfl, hl⟩ | ⟨l₁, b, l₂, heq, hb, hl⟩)
      · obtain ⟨ha, hl⟩ := List.forall_mem_cons.mp hl
        exact .inl ⟨by rw [ha]; rfl, hl⟩
      · cases l₁ with
        | nil =>
          obtain ⟨rfl, rfl⟩ := List.cons.inj heq
          exact .inl ⟨by rw [hb]; rfl, hl⟩
        | cons a' l₁ =>
          obtain ⟨rfl, rfl⟩ := List.cons.inj heq
          exact .inr ⟨l₁, b, l₂, rfl, hb, hl⟩

/-- **What a register holds after a run is what the answers say**, if the steps for
the calls of the run set it. -/
theorem Machine.read_after_of_mem {σ ι ο : Type} {m : Machine σ ι ο} {r : σ → β}
    {f : ο → Option β} {is : List ι}
    (hstep : ∀ s, ∀ i ∈ is, r (m.step s i).2 = (f (m.step s i).1).getD (r s)) (s : σ) :
    r (m.after s is) = lastSet f (r s) (m.answers s is) := by
  induction is generalizing s with
  | nil => rfl
  | cons i is ih =>
    show r (m.after (m.step s i).2 is)
      = lastSet f ((f (m.step s i).1).getD (r s)) (m.answers (m.step s i).2 is)
    rw [ih (fun s j hj => hstep s j (List.mem_cons_of_mem i hj)), hstep s i List.mem_cons_self]

/-- What a register holds after a run, if every step sets it. -/
theorem Machine.read_after {σ ι ο : Type} {m : Machine σ ι ο} {r : σ → β} {f : ο → Option β}
    (hstep : ∀ s i, r (m.step s i).2 = (f (m.step s i).1).getD (r s)) (s : σ) (is : List ι) :
    r (m.after s is) = lastSet f (r s) (m.answers s is) :=
  Machine.read_after_of_mem (fun s i _ => hstep s i) s

end Register

/-! ## What is done and undone -/

section Since

variable {α : Type} {did undone : α → Prop} {l : List α} {a : α}

/-- Some entry did it, and no entry after that has undone it. -/
def Since (did undone : α → Prop) (l : List α) : Prop :=
  ∃ l₁ a l₂, l = l₁ ++ a :: l₂ ∧ did a ∧ ∀ b ∈ l₂, ¬undone b

theorem not_since_nil : ¬Since did undone [] := by
  rintro ⟨l₁, a, l₂, heq, -⟩
  exact absurd heq.symm (List.append_ne_nil_of_right_ne_nil l₁ (List.cons_ne_nil a l₂))

theorem since_concat : Since did undone (l ++ [a]) ↔ did a ∨ Since did undone l ∧ ¬undone a := by
  constructor
  · rintro ⟨l₁, b, l₂, heq, hb, hl₂⟩
    -- the entry that did it is the last one or not
    induction l₂ using List.reverseRecOn with
    | nil =>
      obtain ⟨-, hab⟩ := List.append_inj' heq rfl
      exact .inl ((List.singleton_inj.mp hab) ▸ hb)
    | append_singleton l₂ c _ =>
      rw [← List.cons_append, ← List.append_assoc] at heq
      obtain ⟨rfl, hac⟩ := List.append_inj' heq rfl
      obtain rfl := List.singleton_inj.mp hac
      exact .inr ⟨⟨l₁, b, l₂, rfl, hb, fun d hd => hl₂ d (List.mem_append_left _ hd)⟩,
        hl₂ a (List.mem_append_right _ (List.mem_singleton_self a))⟩
  · rintro (ha | ⟨⟨l₁, b, l₂, rfl, hb, hl₂⟩, ha⟩)
    · exact ⟨l, a, [], rfl, ha, by simp⟩
    · refine ⟨l₁, b, l₂ ++ [a], by simp, hb, fun d hd => ?_⟩
      obtain hd | hd := List.mem_append.mp hd
      · exact hl₂ d hd
      · exact List.mem_singleton.mp hd ▸ ha

/-- **What holds after a run was done by a call and not undone since**, if one step does
and undoes it like that, in the states that an invariant `I` holds in. -/
theorem Machine.after_iff_since {σ ο : Type} {m : Machine σ α ο} {I P : σ → Prop}
    (hI : ∀ s i, I s → I (m.step s i).2)
    (hstep : ∀ s i, I s → (P (m.step s i).2 ↔ did i ∨ P s ∧ ¬undone i)) {s : σ} (hs : I s)
    (hP : ¬P s) (is : List α) : P (m.after s is) ↔ Since did undone is := by
  induction is using List.reverseRecOn with
  | nil => exact iff_of_false hP not_since_nil
  | append_singleton is i ih =>
    rw [Machine.after_concat, hstep _ i (Machine.after_invariant hI hs is), since_concat, ih]

end Since
