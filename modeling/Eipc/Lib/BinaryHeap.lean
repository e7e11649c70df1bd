import Mathlib

/-!
# Binary heaps in a slice

A binary heap in a slice, with the operations as they are usually written for one: `down`
moves an element towards the leaves by swaps, `init` does so for every inner node from the
back, and `pop` swaps the root with the last element, moves that one down and takes the root
off the end. Elements are compared by a key from a linear order, and may share it.

The order of a heap is a property of the keys by index (`Ordered`), and a swap composes them
with a transposition. What `down` needs is that nothing is out of order but the edges below
one index (`DownReady`); a swap with the smaller child moves that index down, and stopping
restores the order. So what is popped until nothing is left (`drain`) is a sorted
permutation (`sorted_drain`, `perm_drain`).

It is not a stable one. The operations know of the elements only their keys (`drain_map`),
and where all keys are the same no element is ever moved down: the first element is popped
first, and then the others from the back (`drain_of_const`).
-/

namespace BinaryHeap

variable {α β κ : Type} [LinearOrder κ]

/-! ## Operations -/

section Operations

variable (key : α → κ)

/-- The element at `i` has a smaller key than the one at `j`. -/
def less (l : List α) (i j : ℕ) : Bool :=
  match l[i]?, l[j]? with
  | some a, some b => key a < key b
  | _, _ => false

/-- The elements at `i` and `j` change places. -/
def swap (l : List α) (i j : ℕ) : List α :=
  match l[i]?, l[j]? with
  | some a, some b => (l.set i b).set j a
  | _, _ => l

/-- The smaller child of `i` among the first `n` elements, the left one of equals. -/
def child (l : List α) (i n : ℕ) : ℕ :=
  if 2 * i + 2 < n ∧ less key l (2 * i + 2) (2 * i + 1) then 2 * i + 2 else 2 * i + 1

theorem lt_child (l : List α) (i n : ℕ) : i < child key l i n := by
  unfold child
  split <;> omega

/-- The element at `i` moves down, among the first `n`. -/
def down (l : List α) (i n : ℕ) : List α :=
  if 2 * i + 1 < n then
    let j := child key l i n
    if less key l j i then down (swap l i j) j n else l
  else l
termination_by n - i
decreasing_by
  have := lt_child key l i n
  omega

/-- The elements before `i` move down, from the last one on. -/
def initLoop : ℕ → List α → List α
  | 0, l => l
  | i + 1, l => initLoop i (down key l i l.length)

/-- The slice becomes a heap. -/
def init (l : List α) : List α := initLoop key (l.length / 2) l

/-- The root, and the heap without it. -/
def pop (l : List α) : Option (α × List α) :=
  let n := l.length - 1
  let l := down key (swap l 0 n) 0 n
  l.getLast?.map fun a => (a, l.dropLast)

end Operations

/-! ## Elements stay -/

variable {key : α → κ} {l : List α} {i j k n : ℕ}

theorem swap_eq (hi : i < l.length) (hj : j < l.length) :
    swap l i j = (l.set i l[j]).set j l[i] := by
  rw [swap, List.getElem?_eq_getElem hi, List.getElem?_eq_getElem hj]

@[simp] theorem length_swap : (swap l i j).length = l.length := by
  unfold swap
  split <;> simp

theorem perm_swap : (swap l i j).Perm l := by
  by_cases h : i < l.length ∧ j < l.length
  · rw [swap_eq h.1 h.2]
    exact List.set_set_perm h.1 h.2
  · have hnone : l[i]? = none ∨ l[j]? = none := by
      rw [List.getElem?_eq_none_iff, List.getElem?_eq_none_iff]
      omega
    rw [swap]
    split
    · next hi hj => simp [hi, hj] at hnone
    · exact List.Perm.refl l

/-- A swap composes with a transposition. -/
theorem getElem?_swap (hi : i < l.length) (hj : j < l.length) (m : ℕ) :
    (swap l i j)[m]? = l[Equiv.swap i j m]? := by
  rw [swap_eq hi hj, List.getElem?_set, List.getElem?_set, List.length_set]
  by_cases hmj : j = m
  · subst hmj
    rw [if_pos rfl, if_pos hj, Equiv.swap_apply_right, List.getElem?_eq_getElem hi]
  · rw [if_neg hmj]
    by_cases hmi : i = m
    · subst hmi
      rw [if_pos rfl, if_pos hi, Equiv.swap_apply_left, List.getElem?_eq_getElem hj]
    · rw [if_neg hmi, Equiv.swap_apply_of_ne_of_ne (Ne.symm hmi) (Ne.symm hmj)]

theorem perm_down (key : α → κ) (l : List α) (i n : ℕ) : (down key l i n).Perm l := by
  fun_induction down key l i n with
  | case1 l i _ j _ ih => exact ih.trans perm_swap
  | case2 => exact List.Perm.refl _
  | case3 => exact List.Perm.refl _

@[simp] theorem length_down (l : List α) (i n : ℕ) : (down key l i n).length = l.length :=
  (perm_down key l i n).length_eq

theorem perm_initLoop (key : α → κ) (i : ℕ) (l : List α) : (initLoop key i l).Perm l := by
  induction i generalizing l with
  | zero => exact List.Perm.refl l
  | succ i ih => exact (ih _).trans (perm_down key l i l.length)

theorem perm_init (key : α → κ) (l : List α) : (init key l).Perm l := perm_initLoop key _ l

/-- The child that is chosen is among the first elements. -/
theorem child_lt (h : 2 * i + 1 < n) : child key l i n < n := by
  unfold child
  split
  · next hc => exact hc.1
  · exact h

/-- What is behind the first `n` elements stays where it is. -/
theorem getElem?_down_of_le (hn : n ≤ l.length) {m : ℕ} (hm : n ≤ m) :
    (down key l i n)[m]? = l[m]? := by
  fun_induction down key l i n with
  | case1 l i hi j _ ih =>
    have hij := lt_child key l i n
    have hj : j < n := child_lt hi
    rw [ih (by rwa [length_swap]), getElem?_swap (by omega) (by omega),
      Equiv.swap_apply_of_ne_of_ne (by omega) (by omega)]
  | case2 => rfl
  | case3 => rfl

/-- What is popped is the first element, and the others are left. -/
theorem pop_cons (key : α → κ) (a : α) (t : List α) :
    ∃ l', pop key (a :: t) = some (a, l') ∧ l'.Perm t ∧
      down key (swap (a :: t) 0 t.length) 0 t.length = l' ++ [a] := by
  have hlen : t.length < (a :: t).length := Nat.lt_succ_self _
  have hlast : (down key (swap (a :: t) 0 t.length) 0 t.length)[t.length]? = some a := by
    rw [getElem?_down_of_le (by rw [length_swap]; exact hlen.le) le_rfl,
      getElem?_swap (Nat.succ_pos _) hlen, Equiv.swap_apply_right]
    rfl
  have hget : (down key (swap (a :: t) 0 t.length) 0 t.length).getLast? = some a := by
    rw [List.getLast?_eq_getElem?, length_down, length_swap]
    exact hlast
  have hsplit := List.dropLast_append_getLast? a hget
  refine ⟨_, ?_, ?_, hsplit.symm⟩
  · show Option.map _ (down key (swap (a :: t) 0 t.length) 0 t.length).getLast? = _
    rw [hget]
    rfl
  · have hperm := (perm_down key (swap (a :: t) 0 t.length) 0 t.length).trans perm_swap
    rw [← hsplit] at hperm
    exact ((List.perm_append_singleton a _).symm.trans hperm).cons_inv

theorem pop_nil (key : α → κ) : pop key [] = none := by
  rw [pop, show swap ([] : List α) 0 _ = [] from rfl, down]
  rfl

theorem length_of_pop {a : α} {l' : List α} (h : pop key l = some (a, l')) :
    l'.length + 1 = l.length := by
  cases l with
  | nil => exact (nomatch (pop_nil key).symm.trans h)
  | cons b t =>
    obtain ⟨l'', hpop, hperm, -⟩ := pop_cons key b t
    cases hpop.symm.trans h
    exact congrArg (· + 1) hperm.length_eq

/-- **Induction along `pop`.** -/
theorem pop_induction (key : α → κ) {P : List α → Prop} (nil : P [])
    (pop : ∀ a t l', pop key (a :: t) = some (a, l') → l'.Perm t → P l' → P (a :: t))
    (l : List α) : P l := by
  induction hn : l.length generalizing l with
  | zero =>
    rw [List.length_eq_zero_iff.mp hn]
    exact nil
  | succ n ih =>
    cases l with
    | nil => exact absurd hn.symm (Nat.succ_ne_zero n)
    | cons a t =>
      obtain ⟨l', hpop, hperm, -⟩ := pop_cons key a t
      exact pop a t l' hpop hperm (ih l' (hperm.length_eq.trans (Nat.succ.inj hn)))

/-- Popping until nothing is left. -/
def drain (key : α → κ) (l : List α) : List α :=
  match _h : pop key l with
  | none => []
  | some (a, l') => a :: drain key l'
termination_by l.length
decreasing_by
  have := length_of_pop ‹pop key l = some (a, l')›
  omega

theorem drain_nil (key : α → κ) : drain key [] = [] := by
  rw [drain]
  split
  · rfl
  · next h => exact (nomatch (pop_nil key).symm.trans h)

theorem drain_of_pop {a : α} {l' : List α} (h : pop key l = some (a, l')) :
    drain key l = a :: drain key l' := by
  rw [drain]
  split
  · next hnone => exact (nomatch hnone.symm.trans h)
  · next hpop =>
    cases hpop.symm.trans h
    rfl

theorem perm_drain (key : α → κ) (l : List α) : (drain key l).Perm l := by
  induction l using pop_induction key with
  | nil => rw [drain_nil]
  | pop a t l' hpop hperm ih =>
    rw [drain_of_pop hpop]
    exact (ih.trans hperm).cons a

/-! ## The order of a heap -/

/-- The parent of an index. -/
def parent (i : ℕ) : ℕ := (i - 1) / 2

theorem parent_lt (hi : 0 < i) : parent i < i := by
  unfold parent
  omega

section Order

variable {K : Type} [LinearOrder K] {f : ℕ → K}

/-- **The order of a heap**: no index below `n` has a smaller key than its parent, as far as
parents from `k` on go. -/
def Ordered (f : ℕ → K) (k n : ℕ) : Prop :=
  ∀ c, 0 < c → c < n → k ≤ parent c → f (parent c) ≤ f c

/-- **What `down` needs at `i`**: nothing is out of order but the edges below `i`, and what is
below these is not smaller than what is above `i`. -/
structure DownReady (f : ℕ → K) (k i n : ℕ) : Prop where
  elsewhere : ∀ c, 0 < c → c < n → k ≤ parent c → parent c ≠ i → f (parent c) ≤ f c
  above : ∀ c, 0 < c → c < n → parent c = i → 0 < i → k ≤ parent i → f (parent i) ≤ f c

/-- **A swap with the smaller child moves the trouble down.** -/
theorem DownReady.swap (h : DownReady f k i n) (hk : k ≤ i) (hj : 0 < j) (hjn : j < n)
    (hji : parent j = i) (hmin : ∀ c, 0 < c → c < n → parent c = i → f j ≤ f c)
    (hlt : f j < f i) : DownReady (f ∘ Equiv.swap i j) k j n := by
  have hij : i < j := by
    unfold parent at hji
    omega
  have hat : (f ∘ Equiv.swap i j) i = f j := by rw [Function.comp_apply, Equiv.swap_apply_left]
  have hat' : (f ∘ Equiv.swap i j) j = f i := by rw [Function.comp_apply, Equiv.swap_apply_right]
  have hother : ∀ c, c ≠ i → c ≠ j → (f ∘ Equiv.swap i j) c = f c := fun c hi hj => by
    rw [Function.comp_apply, Equiv.swap_apply_of_ne_of_ne hi hj]
  constructor
  · intro c hc hcn hkc hne
    have hpc := parent_lt hc
    by_cases hcj : c = j
    · -- the edge along which the swap was made
      rw [hcj, hji, hat, hat']
      exact hlt.le
    by_cases hci : c = i
    · -- the edge above it
      rw [hci] at hpc hkc hc ⊢
      rw [hat, hother _ hpc.ne (by omega)]
      exact h.above j hj hjn hji hc hkc
    rw [hother c hci hcj]
    by_cases hpi : parent c = i
    · -- the other child
      rw [hpi, hat]
      exact hmin c hc hcn hpi
    · rw [hother _ hpi hne]
      exact h.elsewhere c hc hcn hkc hpi
  · intro c hc hcn hpc _ _
    have hcj : j < c := by
      unfold parent at hpc
      omega
    have hedge := h.elsewhere c hc hcn (by omega) (by omega)
    rw [hji, hat, hother c (by omega) (by omega)]
    rwa [hpc] at hedge

/-- **Where there is no smaller child, there is no trouble.** -/
theorem DownReady.ordered (h : DownReady f k i n)
    (hmin : ∀ c, 0 < c → c < n → parent c = i → f i ≤ f c) : Ordered f k n := by
  intro c hc hcn hkc
  by_cases hpc : parent c = i
  · rw [hpc]
    exact hmin c hc hcn hpc
  · exact h.elsewhere c hc hcn hkc hpc

/-- **The root is least.** -/
theorem Ordered.root_le (h : Ordered f 0 n) (hi : i < n) : f 0 ≤ f i := by
  induction i using Nat.strong_induction_on with
  | h i ih =>
    rcases Nat.eq_zero_or_pos i with rfl | hpos
    · exact le_rfl
    · have hlt := parent_lt hpos
      exact (ih (parent i) hlt (hlt.trans hi)).trans (h i hpos hi (Nat.zero_le _))

end Order

/-! ## Keys by index -/

/-- The keys by index; there is none behind the end. -/
def rank (key : α → κ) (l : List α) (i : ℕ) : WithTop κ :=
  match l[i]? with
  | some a => key a
  | none => ⊤

omit [LinearOrder κ] in
theorem rank_of_lt (hi : i < l.length) : rank key l i = key l[i] := by
  rw [rank, List.getElem?_eq_getElem hi]

theorem less_iff (hi : i < l.length) (hj : j < l.length) :
    less key l i j = true ↔ rank key l i < rank key l j := by
  rw [less, List.getElem?_eq_getElem hi, List.getElem?_eq_getElem hj, decide_eq_true_iff,
    rank_of_lt hi, rank_of_lt hj, WithTop.coe_lt_coe]

omit [LinearOrder κ] in
theorem rank_swap (hi : i < l.length) (hj : j < l.length) :
    rank key (swap l i j) = rank key l ∘ Equiv.swap i j := by
  funext m
  rw [Function.comp_apply, rank, rank, getElem?_swap hi hj]

/-- **The child that is chosen** is a child, and none is smaller. -/
theorem child_spec (key : α → κ) (i : ℕ) (hn : n ≤ l.length) :
    parent (child key l i n) = i ∧ ∀ c, 0 < c → c < n → parent c = i →
      rank key l (child key l i n) ≤ rank key l c := by
  have hchildren : ∀ c, 0 < c → parent c = i → c = 2 * i + 1 ∨ c = 2 * i + 2 := by
    intro c hc hp
    unfold parent at hp
    omega
  unfold child
  split
  · next hc =>
    refine ⟨by unfold parent; omega, fun c hpos hcn hp => ?_⟩
    rcases hchildren c hpos hp with rfl | rfl
    · exact ((less_iff (by omega) (by omega)).mp hc.2).le
    · exact le_rfl
  · next hc =>
    refine ⟨by unfold parent; omega, fun c hpos hcn hp => ?_⟩
    rcases hchildren c hpos hp with rfl | rfl
    · exact le_rfl
    · exact not_lt.mp fun hlt => hc ⟨hcn, (less_iff (by omega) (by omega)).mpr hlt⟩

/-- **`down` restores the order.** -/
theorem ordered_down (hn : n ≤ l.length) (hk : k ≤ i) (h : DownReady (rank key l) k i n) :
    Ordered (rank key (down key l i n)) k n := by
  fun_induction down key l i n with
  | case1 l i hi j hless ih =>
    have hij : i < j := lt_child key l i n
    have hjn : j < n := child_lt hi
    obtain ⟨hparent, hmin⟩ := child_spec key i hn
    refine ih (by rwa [length_swap]) (hk.trans hij.le) ?_
    rw [rank_swap (by omega) (by omega)]
    exact h.swap hk (by omega) hjn hparent hmin ((less_iff (by omega) (by omega)).mp hless)
  | case2 l i hi j hless =>
    have hjn : j < n := child_lt hi
    obtain ⟨-, hmin⟩ := child_spec key i hn
    refine h.ordered fun c hc hcn hp => le_trans (not_lt.mp fun hlt => ?_) (hmin c hc hcn hp)
    exact hless ((less_iff (by omega) (by omega)).mpr hlt)
  | case3 l i hi =>
    refine h.ordered fun c hc hcn hp => ?_
    unfold parent at hp
    omega

/-- Going on from `i`, the loop restores the order of all that is before it. -/
theorem ordered_initLoop (h : Ordered (rank key l) i l.length) :
    Ordered (rank key (initLoop key i l)) 0 l.length := by
  induction i generalizing l with
  | zero => exact h
  | succ i ih =>
    have hready : DownReady (rank key l) i i l.length := by
      refine ⟨fun c hc hcn hkc hne => h c hc hcn (by omega), fun c _ _ _ hpos hle => ?_⟩
      unfold parent at hle
      omega
    have hnext := ordered_down le_rfl le_rfl hready
    have hlen : (down key l i l.length).length = l.length := length_down l i l.length
    have hall := ih (l := down key l i l.length) (by rwa [hlen])
    rwa [hlen] at hall

/-- **`init` makes a heap**: there is nothing below the second half. -/
theorem ordered_init (key : α → κ) (l : List α) :
    Ordered (rank key (init key l)) 0 (init key l).length := by
  rw [(perm_init key l).length_eq]
  refine ordered_initLoop fun c hc hcn hkc => ?_
  unfold parent at hkc
  omega

/-- **`pop` keeps a heap.** -/
theorem ordered_pop {a : α} {l' : List α} (h : Ordered (rank key l) 0 l.length)
    (hpop : pop key l = some (a, l')) : Ordered (rank key l') 0 l'.length := by
  cases l with
  | nil => exact (nomatch (pop_nil key).symm.trans hpop)
  | cons b t =>
    obtain ⟨l'', hpop', hperm, hdown⟩ := pop_cons key b t
    cases hpop'.symm.trans hpop
    have hlen : t.length < (a :: t).length := Nat.lt_succ_self _
    have hready : DownReady (rank key (swap (a :: t) 0 t.length)) 0 0 t.length := by
      rw [rank_swap (Nat.succ_pos _) hlen]
      refine ⟨fun c hc hcn _ hne => ?_, fun c _ _ _ hpos => absurd hpos (lt_irrefl 0)⟩
      -- neither end of the edge is the root or the last element
      rw [Function.comp_apply, Function.comp_apply,
        Equiv.swap_apply_of_ne_of_ne hne ((parent_lt hc).trans hcn).ne,
        Equiv.swap_apply_of_ne_of_ne hc.ne' hcn.ne]
      exact h c hc (hcn.trans hlen) (Nat.zero_le _)
    have hordered := ordered_down (by rw [length_swap]; exact hlen.le) le_rfl hready
    have hrank : ∀ c < l'.length, rank key (l' ++ [a]) c = rank key l' c := by
      intro c hc
      rw [rank, rank, List.getElem?_append_left hc]
    rw [hdown, ← hperm.length_eq] at hordered
    intro c hc hcn hk
    rw [← hrank _ ((parent_lt hc).trans hcn), ← hrank c hcn]
    exact hordered c hc hcn hk

/-- **What is popped first is least.** -/
theorem le_of_pop {a : α} {l' : List α} (h : Ordered (rank key l) 0 l.length)
    (hpop : pop key l = some (a, l')) {b : α} (hb : b ∈ l) : key a ≤ key b := by
  cases l with
  | nil => exact absurd hb List.not_mem_nil
  | cons c t =>
    obtain ⟨l'', hpop', -, -⟩ := pop_cons key c t
    cases hpop'.symm.trans hpop
    obtain ⟨i, hi, rfl⟩ := List.getElem_of_mem hb
    have hroot := h.root_le hi
    rwa [rank_of_lt (Nat.succ_pos _), rank_of_lt hi, WithTop.coe_le_coe] at hroot

/-- **A heap is drained in the order of the keys.** -/
theorem sorted_drain (h : Ordered (rank key l) 0 l.length) :
    (drain key l).Pairwise (key · ≤ key ·) := by
  induction l using pop_induction key with
  | nil =>
    rw [drain_nil]
    exact List.Pairwise.nil
  | pop a t l' hpop hperm ih =>
    rw [drain_of_pop hpop]
    refine List.pairwise_cons.mpr ⟨fun b hb => le_of_pop h hpop ?_, ih (ordered_pop h hpop)⟩
    exact List.mem_cons_of_mem a (hperm.subset ((perm_drain key l').subset hb))

/-! ## Only keys matter -/

section Map

variable (f : β → α) {l : List β}

theorem less_map (l : List β) (i j : ℕ) : less key (l.map f) i j = less (key ∘ f) l i j := by
  rw [less, less, List.getElem?_map, List.getElem?_map]
  cases l[i]? <;> cases l[j]? <;> rfl

theorem swap_map (l : List β) (i j : ℕ) : swap (l.map f) i j = (swap l i j).map f := by
  rw [swap, swap, List.getElem?_map, List.getElem?_map]
  cases l[i]? <;> cases l[j]? <;> simp [List.map_set]

theorem child_map (l : List β) (i n : ℕ) : child key (l.map f) i n = child (key ∘ f) l i n := by
  rw [child, child, less_map]

theorem down_map (l : List β) (i n : ℕ) :
    down key (l.map f) i n = (down (key ∘ f) l i n).map f := by
  fun_induction down (key ∘ f) l i n with
  | case1 l i hi j hless ih =>
    rw [down, if_pos hi]
    dsimp only
    rw [child_map, less_map, if_pos hless, swap_map]
    exact ih
  | case2 l i hi j hless =>
    rw [down, if_pos hi]
    dsimp only
    rw [child_map, less_map, if_neg hless]
  | case3 l i hi => rw [down, if_neg hi]

theorem init_map (l : List β) : init key (l.map f) = (init (key ∘ f) l).map f := by
  have hloop : ∀ i l, initLoop key i (l.map f) = (initLoop (key ∘ f) i l).map f := by
    intro i
    induction i with
    | zero => exact fun l => rfl
    | succ i ih =>
      intro l
      rw [initLoop, initLoop, List.length_map, down_map, ih]
  rw [init, init, List.length_map, hloop]

theorem pop_map (l : List β) :
    pop key (l.map f) = (pop (key ∘ f) l).map fun p => (f p.1, p.2.map f) := by
  rw [pop, pop, List.length_map, swap_map, down_map, List.getLast?_map, ← List.map_dropLast]
  cases (down (key ∘ f) (swap l 0 (l.length - 1)) 0 (l.length - 1)).getLast? <;> rfl

/-- **The operations know the keys only.** -/
theorem drain_map (l : List β) : drain key (l.map f) = (drain (key ∘ f) l).map f := by
  induction l using pop_induction (key ∘ f) with
  | nil => rw [List.map_nil, drain_nil, drain_nil, List.map_nil]
  | pop a t l' hpop hperm ih =>
    have hpop' : pop key ((a :: t).map f) = some (f a, l'.map f) := by
      rw [pop_map, hpop]
      rfl
    rw [drain_of_pop hpop, drain_of_pop hpop', List.map_cons, ih]

end Map

/-! ## Equal keys -/

/-- All elements have one key. -/
def Const (key : α → κ) (l : List α) : Prop := ∀ a ∈ l, ∀ b ∈ l, key a = key b

omit [LinearOrder κ] in
theorem Const.of_subset {l' : List α} (h : Const key l) (hsub : l' ⊆ l) : Const key l' :=
  fun a ha b hb => h a (hsub ha) b (hsub hb)

theorem Const.down (h : Const key l) (i n : ℕ) : BinaryHeap.down key l i n = l := by
  have hless : ∀ j, less key l j i = false := by
    intro j
    rw [less]
    split
    · next ha hb =>
      rw [decide_eq_false_iff_not, h _ (List.mem_of_getElem? ha) _ (List.mem_of_getElem? hb)]
      exact lt_irrefl _
    · rfl
  rw [BinaryHeap.down]
  split
  · dsimp only
    rw [hless, if_neg Bool.false_ne_true]
  · rfl

theorem Const.init (h : Const key l) : BinaryHeap.init key l = l := by
  have hloop : ∀ i, initLoop key i l = l := by
    intro i
    induction i with
    | zero => rfl
    | succ i ih => rw [initLoop, h.down, ih]
  exact hloop _

/-- The last element comes to the front when the first one is popped. -/
theorem Const.pop_concat {a b : α} {t : List α} (h : Const key (a :: (t ++ [b]))) :
    pop key (a :: (t ++ [b])) = some (a, b :: t) := by
  have hswap : swap (a :: (t ++ [b])) 0 (t ++ [b]).length = b :: (t ++ [a]) := by
    rw [swap_eq (Nat.succ_pos _) (Nat.lt_succ_self _)]
    simp
  have hconst : Const key (b :: (t ++ [a])) := by
    rw [← hswap]
    exact h.of_subset perm_swap.subset
  rw [pop, List.length_cons, Nat.add_sub_cancel, hswap, hconst.down, ← List.cons_append,
    List.getLast?_concat, List.dropLast_concat]
  rfl

/-- **With equal keys the first element comes first, and then the others from the back.** -/
theorem drain_of_const {a : α} {t : List α} (h : Const key (a :: t)) :
    drain key (a :: t) = a :: t.reverse := by
  induction hn : t.length generalizing a t with
  | zero =>
    rw [List.length_eq_zero_iff.mp hn]
    obtain ⟨l', hpop, hperm, -⟩ := pop_cons key a []
    rw [drain_of_pop hpop, hperm.eq_nil, drain_nil]
    rfl
  | succ n ih =>
    rcases List.eq_nil_or_concat t with rfl | ⟨t, b, rfl⟩
    · exact absurd hn.symm (Nat.succ_ne_zero n)
    · rw [List.concat_eq_append] at hn h ⊢
      have hrest : Const key (b :: t) := h.of_subset (by simp)
      rw [drain_of_pop h.pop_concat, ih hrest (by simpa using hn), List.reverse_append]
      rfl

end BinaryHeap
