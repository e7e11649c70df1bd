import Mathlib

/-!
# Insertion sort by swaps

Insertion sort as it is written for a slice, with two loops: the elements are taken from
left to right, and each is swapped with its left neighbour as long as its key is the
smaller one. The keys come from a linear order and elements may share them, so it matters
that the sort is **stable**: if the elements come in the order `before`, those with one key
still do afterwards.

Both loops keep a part of the slice in order. The inner one moves one element into it
(`exists_sink_eq`), and the outer one does this until nothing is left over.
-/

namespace SwapSort

variable {α κ : Type} [LinearOrder κ] (key : α → κ)

/-- The inner loop, with the element at the index on its way down. -/
def sink (l : List α) : ℕ → List α
  | 0 => l
  | j + 1 =>
    match l[j + 1]?, l[j]? with
    | some a, some b => if key a < key b then sink ((l.set (j + 1) b).set j a) j else l
    | _, _ => l

/-- The outer loop. -/
def sort (l : List α) : List α := (List.range' 1 (l.length - 1)).foldl (sink key) l

/-- The order of a stable sort: by the key, and otherwise as before. -/
def InOrder (before : α → α → Prop) (a b : α) : Prop :=
  key a < key b ∨ key a = key b ∧ before a b

variable {key} {before : α → α → Prop} {a b : α} {xs ys : List α}

theorem InOrder.le (h : InOrder key before a b) : key a ≤ key b := by
  obtain hlt | ⟨heq, -⟩ := h
  · exact hlt.le
  · exact heq.le

theorem inOrder_of_le (hle : key a ≤ key b) (h : before a b) : InOrder key before a b :=
  hle.lt_or_eq.imp_right fun heq => ⟨heq, h⟩

/-- One round of the inner loop. -/
theorem sink_concat (xs ys : List α) (b a : α) :
    sink key (xs ++ b :: a :: ys) (xs.length + 1)
      = if key a < key b then sink key (xs ++ a :: b :: ys) xs.length
        else xs ++ b :: a :: ys := by
  rw [sink]
  simp

/-- **The inner loop moves an element down** past those with a greater key, and no
further, if what is to its left is in order. -/
theorem exists_sink_eq (hxs : xs.Pairwise (key · ≤ key ·)) (a : α) (ys : List α) :
    ∃ us vs, xs = us ++ vs ∧ sink key (xs ++ a :: ys) xs.length = us ++ a :: vs ++ ys
      ∧ (∀ u ∈ us, key u ≤ key a) ∧ ∀ v ∈ vs, key a < key v := by
  -- the element meets those to its left from the last one on
  induction xs using List.reverseRecOn generalizing ys with
  | nil => exact ⟨[], [], rfl, rfl, by simp, by simp⟩
  | append_singleton xs b ih =>
    obtain ⟨hxs, -, hb⟩ := List.pairwise_append.mp hxs
    rw [List.append_assoc, List.length_append, List.length_singleton]
    show ∃ us vs, _ ∧ sink key (xs ++ b :: a :: ys) (xs.length + 1) = _ ∧ _
    rw [sink_concat]
    split
    · next hlt =>
      obtain ⟨us, vs, rfl, hsink, hus, hvs⟩ := ih hxs (b :: ys)
      refine ⟨us, vs ++ [b], by simp, hsink.trans (by simp), hus, fun v hv => ?_⟩
      obtain hv | hv := List.mem_append.mp hv
      · exact hvs v hv
      · rwa [List.mem_singleton.mp hv]
    · next hle =>
      refine ⟨xs ++ [b], [], by simp, by simp, fun u hu => ?_, by simp⟩
      obtain hu | hu := List.mem_append.mp hu
      · exact (hb u hu b (List.mem_singleton_self b)).trans (not_lt.mp hle)
      · exact List.mem_singleton.mp hu ▸ not_lt.mp hle

/-- One round of the outer loop: one more element is in its place. -/
theorem exists_sink_inOrder (ys : List α) (hxs : xs.Pairwise (InOrder key before))
    (ha : ∀ x ∈ xs, before x a) :
    ∃ zs, sink key (xs ++ a :: ys) xs.length = zs ++ ys ∧ zs.Perm (xs ++ [a])
      ∧ zs.Pairwise (InOrder key before) := by
  obtain ⟨us, vs, rfl, hsink, hus, hvs⟩ :=
    exists_sink_eq (hxs.imp fun h => InOrder.le h) a ys
  obtain ⟨husorted, hvsorted, hcross⟩ := List.pairwise_append.mp hxs
  refine ⟨us ++ a :: vs, hsink, ?_, ?_⟩
  · exact List.perm_middle.trans (List.perm_append_singleton a (us ++ vs)).symm
  · have hu : ∀ u ∈ us, InOrder key before u a := fun u hu =>
      inOrder_of_le (hus u hu) (ha u (List.mem_append_left vs hu))
    have hv : ∀ v ∈ vs, InOrder key before a v := fun v hv => .inl (hvs v hv)
    refine List.pairwise_append.mpr ⟨husorted, hvsorted.cons hv, fun u hmem x hx => ?_⟩
    obtain rfl | hx := List.mem_cons.mp hx
    · exact hu u hmem
    · exact hcross u hmem x hx

/-- The rounds of the outer loop that are left. -/
theorem foldl_sink (hxs : xs.Pairwise (InOrder key before))
    (hys : ys.Pairwise before) (hcross : ∀ x ∈ xs, ∀ y ∈ ys, before x y) :
    ((List.range' xs.length ys.length).foldl (sink key) (xs ++ ys)).Perm (xs ++ ys)
      ∧ ((List.range' xs.length ys.length).foldl (sink key) (xs ++ ys)).Pairwise
          (InOrder key before) := by
  induction ys generalizing xs with
  | nil => simpa using hxs
  | cons a ys ih =>
    obtain ⟨hays, hys⟩ := List.pairwise_cons.mp hys
    obtain ⟨zs, hsink, hperm, hzs⟩ := exists_sink_inOrder ys hxs fun x hx =>
      hcross x hx a List.mem_cons_self
    have hzcross : ∀ z ∈ zs, ∀ y ∈ ys, before z y := fun z hz y hy => by
      obtain hz | hz := List.mem_append.mp (hperm.mem_iff.mp hz)
      · exact hcross z hz y (List.mem_cons_of_mem a hy)
      · exact List.mem_singleton.mp hz ▸ hays y hy
    have hlength : zs.length = xs.length + 1 := by simpa using hperm.length_eq
    rw [List.length_cons, List.range'_succ, List.foldl_cons, hsink, ← hlength]
    obtain ⟨hrest, hsorted⟩ := ih hzs hys hzcross
    exact ⟨hrest.trans (by simpa using hperm.append_right ys), hsorted⟩

/-- **Sorting** loses and adds nothing, and is stable. -/
theorem sort_spec (key : α → κ) {l : List α} (h : l.Pairwise before) :
    (sort key l).Perm l ∧ (sort key l).Pairwise (InOrder key before) := by
  cases l with
  | nil => exact ⟨.refl _, .nil⟩
  | cons a l =>
    obtain ⟨ha, hl⟩ := List.pairwise_cons.mp h
    have hcross : ∀ x ∈ [a], ∀ y ∈ l, before x y := fun x hx y hy =>
      List.mem_singleton.mp hx ▸ ha y hy
    exact foldl_sink (List.pairwise_singleton _ a) hl hcross

example : sort Prod.fst [(2, 'a'), (1, 'b'), (2, 'c'), (1, 'd')]
    = [(1, 'b'), (1, 'd'), (2, 'a'), (2, 'c')] := by decide

end SwapSort
