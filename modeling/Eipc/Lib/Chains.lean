import Eipc.Lib.Machine

/-!
# Runs along a chain

A system of parties that wait for each other goes through a fixed chain of stages: in each of
them one party can move, to the next stage, and the moves of the others change nothing. Then
every run, in whatever order the parties are called, is at some stage of the chain; and it is at
the last one as soon as the parties have been called often enough, in the order in which they
move, with any other calls in between (`Machine.after_chain`).
-/

namespace Machine

variable {σ ι ο κ : Type} {m : Machine σ ι ο} {At : ℕ → σ → Prop} {who : ℕ → κ}
  {label : ι → Option κ} {n : ℕ}

/-- **A run along a chain** with the stages `At 0`, …, `At n`, where `who k` moves at stage
`k`. -/
theorem after_chain {is : List ι}
    (hmove : ∀ k < n, ∀ s, ∀ i ∈ is, At k s → label i = some (who k) → At (k + 1) (m.step s i).2)
    (hwait : ∀ k < n, ∀ s, ∀ i ∈ is, At k s → label i ≠ some (who k) → At k (m.step s i).2)
    (hend : ∀ s, ∀ i ∈ is, At n s → At n (m.step s i).2) {s : σ} {k : ℕ} (hk : k ≤ n) (h : At k s) :
    (∃ j ≤ n, At j (m.after s is))
      ∧ (((List.range' k (n - k)).map who).Sublist (is.filterMap label) →
        At n (m.after s is)) := by
  induction is generalizing s k with
  | nil =>
    refine ⟨⟨k, hk, h⟩, fun hsub => ?_⟩
    have hlen := List.eq_nil_of_sublist_nil hsub
    rw [List.map_eq_nil_iff, List.range'_eq_nil_iff] at hlen
    rw [Nat.le_antisymm hk (Nat.le_of_sub_eq_zero hlen)] at h
    exact h
  | cons i is ih =>
    replace ih := @ih (fun k hk s j hj => hmove k hk s j (List.mem_cons_of_mem i hj))
      (fun k hk s j hj => hwait k hk s j (List.mem_cons_of_mem i hj))
      (fun s j hj => hend s j (List.mem_cons_of_mem i hj))
    rcases Nat.eq_or_lt_of_le hk with rfl | hlt
    · obtain ⟨hstage, hlast⟩ := ih hk (hend s i List.mem_cons_self h)
      rw [Nat.sub_self] at hlast ⊢
      exact ⟨hstage, fun _ => hlast (List.nil_sublist _)⟩
    · have hrange : List.range' k (n - k) = k :: List.range' (k + 1) (n - (k + 1)) := by
        rw [← List.range'_succ]
        congr 1
        omega
      rw [hrange, List.map_cons]
      by_cases hlabel : label i = some (who k)
      · -- the party that can move
        obtain ⟨hstage, hlast⟩ := ih hlt (hmove k hlt s i List.mem_cons_self h hlabel)
        refine ⟨hstage, fun hsub => hlast ?_⟩
        rw [List.filterMap_cons_some hlabel] at hsub
        exact List.cons_sublist_cons.mp hsub
      · -- another one, or none
        obtain ⟨hstage, hlast⟩ := ih hk (hwait k hlt s i List.mem_cons_self h hlabel)
        rw [hrange, List.map_cons] at hlast
        refine ⟨hstage, fun hsub => hlast ?_⟩
        cases hi : label i with
        | none =>
          rw [List.filterMap_cons_none hi] at hsub
          exact hsub
        | some party =>
          rw [List.filterMap_cons_some hi] at hsub
          rcases List.sublist_cons_iff.mp hsub with hsub | ⟨r, heq, -⟩
          · exact hsub
          · rw [(List.cons.inj heq).1] at hlabel
            exact absurd hi hlabel

end Machine
