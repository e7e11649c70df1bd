import Mathlib

/-!
# Finite maps

What is looked up in a map after an update of one key; and the part of a map whose values
satisfy a test: what is looked up in it, what it lists, and how many entries it has left
out.
-/

namespace Finmap

variable {α β : Type} {p : β → Bool} {m : Finmap fun _ : α => β} {a : α} {b : β}

theorem lookup_insert_eq_ite [DecidableEq α] (m : Finmap fun _ : α => β) (a a' : α) (b : β) :
    (m.insert a b).lookup a' = if a' = a then some b else m.lookup a' := by
  split
  · next h => rw [h, lookup_insert]
  · next h => rw [lookup_insert_of_ne _ h]

theorem lookup_erase_eq_ite [DecidableEq α] (m : Finmap fun _ : α => β) (a a' : α) :
    (m.erase a).lookup a' = if a' = a then none else m.lookup a' := by
  split
  · next h => rw [h, lookup_erase]
  · next h => rw [lookup_erase_ne h]

/-- The entries whose values satisfy `p`. -/
def keep (p : β → Bool) (m : Finmap fun _ : α => β) : Finmap fun _ : α => β where
  entries := m.entries.filter fun e => p e.2
  nodupKeys := Multiset.nodup_keys.mp <|
    Multiset.nodup_of_le (Multiset.map_le_map (Multiset.filter_le _ _))
      (Multiset.nodup_keys.mpr m.nodupKeys)

theorem lookup_keep [DecidableEq α] :
    (keep p m).lookup a = some b ↔ m.lookup a = some b ∧ p b = true := by
  rw [lookup_eq_some_iff, lookup_eq_some_iff]
  exact Multiset.mem_filter

/-- What is left out and what is kept is the whole map. -/
theorem card_filter_add_card_keep (p : β → Bool) (m : Finmap fun _ : α => β) :
    (m.entries.filter fun e => ¬p e.2).card + (keep p m).entries.card = m.entries.card := by
  show _ + (Multiset.filter (fun e : Sigma fun _ : α => β => p e.2 = true) m.entries).card = _
  rw [← Multiset.card_add, add_comm, Multiset.filter_add_not]

/-- Different entries of a map have different keys. -/
theorem nodup_map_keep {γ : Type} {f : β → γ} {g : γ → α}
    (hg : ∀ a b, ⟨a, b⟩ ∈ (keep p m).entries → g (f b) = a) :
    ((keep p m).entries.map fun e => f e.2).Nodup := by
  have hkeys : ((keep p m).entries.map Sigma.fst).Nodup :=
    Multiset.nodup_keys.mpr (keep p m).nodupKeys
  refine Multiset.Nodup.of_map g ?_
  rw [Multiset.map_map]
  refine (Multiset.map_congr rfl fun e he => ?_) ▸ hkeys
  exact (hg e.1 e.2 he).symm

end Finmap
