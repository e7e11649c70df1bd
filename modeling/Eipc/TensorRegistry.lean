import Eipc.Tensor
import Eipc.Lib.Machine

/-!
# The tensor registry

`TensorRegistry` (`protocol/tensor_registry.go`) tracks the live tensor spans
of a session, keyed by the name of the shared-memory segment. A single
descriptor is checked by `Validate`; that no two live descriptors claim the
same bytes is a property of the session, and only the registry sees it.

What the registry is for is said by `LiveMap`: a map from segment names to sets
of descriptors, whose spans are sets of addresses. The registry, which keeps
lists of records and tests the intersection with wrapping `uint64` sums,
refines it along every run (`TensorRegistry.refines_liveMap`).

The lists show the order of the calls, the map does not. Since the map determines
what `Spans` lists, neither does the listing (`TensorRegistry.any_order`).
-/

open Bytes

namespace TensorDescriptor

/-- The addresses a descriptor claims in its segment. -/
def span (d : TensorDescriptor) : Set ℕ :=
  Set.Ico d.offset.toNat (d.offset.toNat + d.size.toNat)

theorem span_nonempty {d : TensorDescriptor} (h : 0 < d.size) : d.span.Nonempty := by
  rw [UInt64.lt_iff_toNat_lt, UInt64.toNat_zero] at h
  exact Set.nonempty_Ico.mpr (Nat.lt_add_of_pos_right h)

/-- Non-empty spans that are disjoint start at different offsets. -/
theorem offset_ne_of_disjoint {d e : TensorDescriptor} (hd : 0 < d.size) (he : 0 < e.size)
    (h : Disjoint d.span e.span) : d.offset ≠ e.offset := by
  intro heq
  rw [UInt64.lt_iff_toNat_lt, UInt64.toNat_zero] at hd he
  have hmem : d.offset.toNat ∈ d.span := ⟨le_rfl, Nat.lt_add_of_pos_right hd⟩
  have hmem' : d.offset.toNat ∈ e.span := by
    rw [heq]
    exact ⟨le_rfl, Nat.lt_add_of_pos_right he⟩
  exact Set.disjoint_left.mp h hmem hmem'

end TensorDescriptor

/-- A live span, as `Register` records it. -/
structure RegisteredSpan where
  offset : UInt64
  size : UInt64
  desc : TensorDescriptor

/-- The registry: for each segment name, its live spans in the order in which
they were registered. -/
structure TensorRegistry where
  spans : Finmap (fun _ : Bytes => List RegisteredSpan)

namespace TensorRegistry

/-- `NewTensorRegistry`. -/
def new : TensorRegistry := ⟨∅⟩

/-- `r.spans[shmName]`, which is nil for a name without an entry. -/
def live (r : TensorRegistry) (shmName : Bytes) : List RegisteredSpan :=
  (r.spans.lookup shmName).getD []

/-- The assignment `r.spans[shmName] = live`. -/
def setLive (r : TensorRegistry) (shmName : Bytes) (live : List RegisteredSpan) :
    TensorRegistry :=
  ⟨r.spans.insert shmName live⟩

/-- The intersection test, with the wrapping sums of the source. -/
def intersects (d : TensorDescriptor) (s : RegisteredSpan) : Bool :=
  d.offset < s.offset + s.size ∧ s.offset < d.offset + d.size

/-- `Register`. -/
def register (r : TensorRegistry) (d : TensorDescriptor) :
    Except TensorError Unit × TensorRegistry :=
  match d.validate with
  | .error err => (.error err, r)
  | .ok () =>
    if d.size = 0 then (.error .zeroSize, r)
    else
      let live := r.live d.shmName
      match live.find? (intersects d) with
      | some s =>
        (.error (.overlap d.offset (d.offset + d.size) s.offset (s.offset + s.size) d.shmName), r)
      | none => (.ok (), r.setLive d.shmName (live ++ [⟨d.offset, d.size, d⟩]))

/-- `Deregister`. -/
def deregister (r : TensorRegistry) (shmName : Bytes) (offset : UInt64) :
    Bool × TensorRegistry :=
  let live := r.live shmName
  match live.findIdx? (·.offset = offset) with
  | some i => (true, r.setLive shmName (live.eraseIdx i))
  | none => (false, r)

/-- `Spans`: the live descriptors of a segment, sorted by offset. -/
def spansOf (r : TensorRegistry) (shmName : Bytes) : List TensorDescriptor :=
  ((r.live shmName).map (·.desc)).mergeSort (fun a b => a.offset ≤ b.offset)

/-- A call that changes the registry. -/
inductive Call where
  | register (d : TensorDescriptor)
  | deregister (shmName : Bytes) (offset : UInt64)

/-- The segment a call is about. -/
def Call.segment : Call → Bytes
  | .register d => d.shmName
  | .deregister shmName _ => shmName

/-- The registry as a machine that answers whether the call succeeded. -/
def machine : Machine TensorRegistry Call Bool where
  step r
    | .register d => ((r.register d).1.isOk, (r.register d).2)
    | .deregister shmName offset => r.deregister shmName offset

end TensorRegistry

/-! ## What the registry is for -/

/-- For each segment name, the set of its live spans. -/
abbrev LiveMap := Bytes → Set TensorDescriptor

namespace LiveMap

/-- A descriptor may be registered when it is valid, claims some bytes, and
claims none that a live span of its segment has. -/
def Admits (A : LiveMap) (d : TensorDescriptor) : Prop :=
  d.validate = .ok () ∧ 0 < d.size ∧ ∀ e ∈ A d.shmName, Disjoint d.span e.span

open Classical in
/-- The map as a machine. -/
noncomputable def machine : Machine LiveMap TensorRegistry.Call Bool where
  step A
    | .register d =>
      if A.Admits d then (true, Function.update A d.shmName (insert d (A d.shmName)))
      else (false, A)
    | .deregister seg off =>
      if ∃ e ∈ A seg, e.offset = off then
        (true, Function.update A seg {e ∈ A seg | e.offset ≠ off})
      else (false, A)

/-- The map without live spans. -/
def empty : LiveMap := fun _ => ∅

end LiveMap

namespace TensorRegistry

open TensorDescriptor

variable {r : TensorRegistry} {d : TensorDescriptor} {seg : Bytes} {off : UInt64}

@[simp] theorem live_new : new.live = fun _ => [] := by
  funext seg
  rw [live, new, Finmap.lookup_empty, Option.getD_none]

@[simp] theorem live_setLive (l : List RegisteredSpan) :
    (r.setLive seg l).live = Function.update r.live seg l := by
  funext seg'
  by_cases h : seg' = seg
  · subst h
    rw [Function.update_self, live, setLive, Finmap.lookup_insert, Option.getD_some]
  · rw [Function.update_of_ne h, live, setLive, Finmap.lookup_insert_of_ne _ h, live]

/-! ## The invariant of a segment -/

/-- **What holds of the live spans of a segment**: each record repeats its
descriptor's span, the descriptor was admitted for this segment, and no two
spans share an address. -/
structure Kept (seg : Bytes) (l : List RegisteredSpan) : Prop where
  segment : ∀ s ∈ l, s.desc.shmName = seg
  offset : ∀ s ∈ l, s.offset = s.desc.offset
  size : ∀ s ∈ l, s.size = s.desc.size
  valid : ∀ s ∈ l, s.desc.validate = .ok ()
  pos : ∀ s ∈ l, 0 < s.desc.size
  disjoint : l.Pairwise fun s t => Disjoint s.desc.span t.desc.span

theorem Kept.sublist {l l' : List RegisteredSpan} (h : Kept seg l) (hsub : l'.Sublist l) :
    Kept seg l' where
  segment s hs := h.segment s (hsub.subset hs)
  offset s hs := h.offset s (hsub.subset hs)
  size s hs := h.size s (hsub.subset hs)
  valid s hs := h.valid s (hsub.subset hs)
  pos s hs := h.pos s (hsub.subset hs)
  disjoint := h.disjoint.sublist hsub

/-- The live spans of a segment start at different offsets. -/
theorem Kept.nodup_offset {l : List RegisteredSpan} (h : Kept seg l) :
    (l.map (·.desc.offset)).Nodup :=
  List.pairwise_map.mpr (h.disjoint.imp_of_mem fun hs ht hst =>
    offset_ne_of_disjoint (h.pos _ hs) (h.pos _ ht) hst)

/-- **The intersection test is right on validated spans**: their sums do not
wrap. -/
theorem Kept.intersects_iff {l : List RegisteredSpan} (h : Kept seg l) {s : RegisteredSpan}
    (hs : s ∈ l) (hd : d.validate = .ok ()) (hpos : 0 < d.size) :
    intersects d s = true ↔ ¬Disjoint d.span s.desc.span := by
  have hdlt := span_lt_of_validate hd
  have hslt := span_lt_of_validate (h.valid s hs)
  have hspos := h.pos s hs
  rw [UInt64.lt_iff_toNat_lt, UInt64.toNat_zero] at hpos hspos
  rw [intersects, decide_eq_true_iff, h.offset s hs, h.size s hs, UInt64.lt_iff_toNat_lt,
    UInt64.lt_iff_toNat_lt, UInt64.toNat_add, UInt64.toNat_add, Nat.mod_eq_of_lt hdlt,
    Nat.mod_eq_of_lt hslt, span, span, Set.Ico_disjoint_Ico, not_le, max_lt_iff, lt_min_iff,
    lt_min_iff]
  omega

/-- A descriptor whose span meets none of a segment's extends it. -/
theorem Kept.append {l : List RegisteredSpan} (h : Kept d.shmName l) (hd : d.validate = .ok ())
    (hpos : 0 < d.size) (hdisj : ∀ s ∈ l, Disjoint d.span s.desc.span) :
    Kept d.shmName (l ++ [⟨d.offset, d.size, d⟩]) where
  segment := List.forall_mem_append.mpr ⟨h.segment, List.forall_mem_singleton.mpr rfl⟩
  offset := List.forall_mem_append.mpr ⟨h.offset, List.forall_mem_singleton.mpr rfl⟩
  size := List.forall_mem_append.mpr ⟨h.size, List.forall_mem_singleton.mpr rfl⟩
  valid := List.forall_mem_append.mpr ⟨h.valid, List.forall_mem_singleton.mpr hd⟩
  pos := List.forall_mem_append.mpr ⟨h.pos, List.forall_mem_singleton.mpr hpos⟩
  disjoint := List.pairwise_append.mpr ⟨h.disjoint, List.pairwise_singleton _ _,
    fun s hs t ht => by
      rw [List.mem_singleton.mp ht]
      exact (hdisj s hs).symm⟩

/-! ## The refinement -/

/-- The descriptors of a list of live spans. -/
def descs (l : List RegisteredSpan) : Set TensorDescriptor := {d | ∃ s ∈ l, s.desc = d}

theorem mem_descs {l : List RegisteredSpan} : d ∈ descs l ↔ ∃ s ∈ l, s.desc = d := Iff.rfl

/-- **The registry follows a map** `A`: every segment is kept, and holds the
spans of `A` live. -/
structure Follows (r : TensorRegistry) (A : LiveMap) : Prop where
  kept : ∀ seg, Kept seg (r.live seg)
  live : ∀ seg, A seg = descs (r.live seg)

theorem follows_new : Follows new LiveMap.empty where
  kept seg := by
    rw [live_new]
    exact ⟨nofun, nofun, nofun, nofun, nofun, .nil⟩
  live seg := by
    rw [live_new]
    ext d
    simp [LiveMap.empty, descs]

variable {A : LiveMap}

/-- An assignment to one segment. -/
theorem Follows.setLive (h : Follows r A) {l : List RegisteredSpan} (hl : Kept seg l) :
    Follows (r.setLive seg l) (Function.update A seg (descs l)) where
  kept seg' := by
    rw [live_setLive]
    by_cases hseg : seg' = seg
    · subst hseg
      rwa [Function.update_self]
    · rw [Function.update_of_ne hseg]
      exact h.kept seg'
  live seg' := by
    rw [live_setLive]
    by_cases hseg : seg' = seg
    · subst hseg
      rw [Function.update_self, Function.update_self]
    · rw [Function.update_of_ne hseg, Function.update_of_ne hseg]
      exact h.live seg'

theorem descs_append (l : List RegisteredSpan) (s : RegisteredSpan) :
    descs (l ++ [s]) = insert s.desc (descs l) := by
  ext d
  rw [Set.mem_insert_iff, mem_descs, mem_descs]
  simp only [List.mem_append, List.mem_singleton]
  constructor
  · rintro ⟨t, ht | rfl, rfl⟩
    · exact .inr ⟨t, ht, rfl⟩
    · exact .inl rfl
  · rintro (rfl | ⟨t, ht, rfl⟩)
    · exact ⟨s, .inr rfl, rfl⟩
    · exact ⟨t, .inl ht, rfl⟩

/-- **What `Register` can do**: admit the descriptor and grow its segment's
set, or refuse one that is not admissible and stay as it is. -/
theorem register_cases (h : Follows r A) (d : TensorDescriptor) :
    ((r.register d).1 = .ok () ∧ A.Admits d
        ∧ Follows (r.register d).2 (Function.update A d.shmName (insert d (A d.shmName))))
      ∨ ((∃ err, r.register d = (.error err, r)) ∧ ¬A.Admits d) := by
  cases hd : d.validate with
  | error err =>
    have hstep : r.register d = (.error err, r) := by rw [register, hd]
    exact .inr ⟨⟨err, hstep⟩, fun ha => nomatch hd.symm.trans ha.1⟩
  | ok u =>
    by_cases hzero : d.size = 0
    · have hstep : r.register d = (.error .zeroSize, r) := by simp only [register, hd, if_pos hzero]
      exact .inr ⟨⟨_, hstep⟩, fun ha => UInt64.ne_of_lt ha.2.1 hzero.symm⟩
    have hpos : 0 < d.size := UInt64.pos_iff_ne_zero.mpr hzero
    have hkept := h.kept d.shmName
    cases hfind : (r.live d.shmName).find? (intersects d) with
    | some s =>
      have hs := List.mem_of_find?_eq_some hfind
      have hmeet := (hkept.intersects_iff hs hd hpos).mp (List.find?_some hfind)
      refine .inr ⟨⟨.overlap d.offset (d.offset + d.size) s.offset (s.offset + s.size) d.shmName,
        by simp only [register, hd, if_neg hzero, hfind]⟩, fun ha => ?_⟩
      refine hmeet (ha.2.2 s.desc ?_)
      rw [h.live]
      exact ⟨s, hs, rfl⟩
    | none =>
      have hstep : r.register d
          = (.ok (), r.setLive d.shmName (r.live d.shmName ++ [⟨d.offset, d.size, d⟩])) := by
        simp only [register, hd, if_neg hzero, hfind]
      have hdisj : ∀ s ∈ r.live d.shmName, Disjoint d.span s.desc.span := fun s hs =>
        not_not.mp fun hmeet => List.find?_eq_none.mp hfind s hs
          ((hkept.intersects_iff hs hd hpos).mpr hmeet)
      have hgrown := h.setLive (hkept.append hd hpos hdisj)
      rw [descs_append, ← h.live] at hgrown
      rw [hstep]
      refine .inl ⟨rfl, ⟨hd, hpos, fun e he => ?_⟩, hgrown⟩
      rw [h.live] at he
      obtain ⟨s, hs, rfl⟩ := he
      exact hdisj s hs

/-- Removing the first span that starts at an offset removes every span that
does, since no two start there. -/
theorem Kept.mem_eraseIdx {l : List RegisteredSpan} (h : Kept seg l) {i : ℕ}
    (hi : l.findIdx? (·.offset = off) = some i) {s : RegisteredSpan} :
    s ∈ l.eraseIdx i ↔ s ∈ l ∧ s.offset ≠ off := by
  obtain ⟨hlt, hat, -⟩ := List.findIdx?_eq_some_iff_getElem.mp hi
  rw [decide_eq_true_iff] at hat
  have hinj : ∀ j (hj : j < l.length), l[j].offset = off ↔ j = i := by
    intro j hj
    rw [← hat, h.offset _ (List.getElem_mem hj), h.offset _ (List.getElem_mem hlt)]
    have hmap : ∀ {k}, k < l.length → k < (l.map (·.desc.offset)).length := by simp
    simpa only [List.getElem_map] using
      @List.Nodup.getElem_inj_iff _ _ h.nodup_offset j (hmap hj) i (hmap hlt)
  rw [List.mem_eraseIdx_iff_getElem]
  constructor
  · rintro ⟨j, hj, hne, rfl⟩
    exact ⟨List.getElem_mem hj, fun hoff => hne ((hinj j hj).mp hoff)⟩
  · rintro ⟨hs, hoff⟩
    obtain ⟨j, hj, rfl⟩ := List.getElem_of_mem hs
    exact ⟨j, hj, fun heq => hoff ((hinj j hj).mpr heq), rfl⟩

/-- **What `Deregister` can do**: remove the span that starts at the offset,
or find none and stay as it is. -/
theorem deregister_cases (h : Follows r A) (seg : Bytes) (off : UInt64) :
    ((r.deregister seg off).1 = true ∧ (∃ e ∈ A seg, e.offset = off)
        ∧ Follows (r.deregister seg off).2
            (Function.update A seg {e ∈ A seg | e.offset ≠ off}))
      ∨ (r.deregister seg off = (false, r) ∧ ¬∃ e ∈ A seg, e.offset = off) := by
  have hkept := h.kept seg
  cases hfind : (r.live seg).findIdx? (·.offset = off) with
  | none =>
    refine .inr ⟨by simp only [deregister, hfind], ?_⟩
    rw [h.live]
    rintro ⟨e, ⟨s, hs, rfl⟩, hoff⟩
    have hne := List.findIdx?_eq_none_iff.mp hfind s hs
    rw [hkept.offset s hs, hoff] at hne
    simp at hne
  | some i =>
    have hstep : r.deregister seg off = (true, r.setLive seg ((r.live seg).eraseIdx i)) := by
      simp only [deregister, hfind]
    obtain ⟨hlt, hat, -⟩ := List.findIdx?_eq_some_iff_getElem.mp hfind
    have hmem := List.getElem_mem hlt
    rw [decide_eq_true_iff, hkept.offset _ hmem] at hat
    have hleft : {e ∈ A seg | e.offset ≠ off} = descs ((r.live seg).eraseIdx i) := by
      ext e
      rw [mem_descs, h.live]
      constructor
      · rintro ⟨⟨s, hs, rfl⟩, hne⟩
        exact ⟨s, (hkept.mem_eraseIdx hfind).mpr ⟨hs, by rwa [hkept.offset s hs]⟩, rfl⟩
      · rintro ⟨s, hs, rfl⟩
        obtain ⟨hs, hne⟩ := (hkept.mem_eraseIdx hfind).mp hs
        exact ⟨⟨s, hs, rfl⟩, by rwa [hkept.offset s hs] at hne⟩
    rw [hstep, hleft]
    refine .inl ⟨rfl, ⟨_, ?_, hat⟩, h.setLive (hkept.sublist (List.eraseIdx_sublist _ i))⟩
    rw [h.live]
    exact ⟨_, hmem, rfl⟩

/-- One call keeps the registry and the map together. -/
theorem step_follows (r : TensorRegistry) (A : LiveMap) (c : Call) (h : Follows r A) :
    (machine.step r c).1 = (LiveMap.machine.step A c).1
      ∧ Follows (machine.step r c).2 (LiveMap.machine.step A c).2 := by
  cases c with
  | register d =>
    show (r.register d).1.isOk = _ ∧ Follows (r.register d).2 _
    rcases register_cases h d with ⟨hok, hadm, hnext⟩ | ⟨⟨err, herr⟩, hadm⟩
    · simp only [LiveMap.machine, if_pos hadm]
      exact ⟨by rw [hok]; rfl, hnext⟩
    · simp only [LiveMap.machine, if_neg hadm]
      rw [herr]
      exact ⟨rfl, h⟩
  | deregister seg off =>
    show (r.deregister seg off).1 = _ ∧ Follows (r.deregister seg off).2 _
    rcases deregister_cases h seg off with ⟨hok, hex, hnext⟩ | ⟨heq, hex⟩
    · simp only [LiveMap.machine, if_pos hex]
      exact ⟨hok, hnext⟩
    · simp only [LiveMap.machine, if_neg hex]
      rw [heq]
      exact ⟨rfl, h⟩

/-! ## The listing -/

theorem mem_spansOf : d ∈ r.spansOf seg ↔ d ∈ descs (r.live seg) := by
  rw [spansOf, List.mem_mergeSort, List.mem_map]
  rfl

/-- The listing is strictly sorted: it is sorted, and no offset occurs twice. -/
theorem Kept.spansOf_sorted (h : Kept seg (r.live seg)) :
    (r.spansOf seg).Pairwise (fun a b => a.offset < b.offset) := by
  have hsorted : (r.spansOf seg).Pairwise
      (fun a b => decide (a.offset ≤ b.offset) = true) := by
    refine List.pairwise_mergeSort ?_ ?_ _
    · intro a b c hab hbc
      rw [decide_eq_true_iff] at *
      exact UInt64.le_trans hab hbc
    · intro a b
      rw [Bool.or_eq_true, decide_eq_true_iff, decide_eq_true_iff]
      exact UInt64.le_total _ _
  have hdistinct : (r.spansOf seg).Pairwise (fun a b => a.offset ≠ b.offset) := by
    refine List.Pairwise.perm ?_ (List.mergeSort_perm _ _).symm Ne.symm
    rw [List.pairwise_map]
    exact List.pairwise_map.mp h.nodup_offset
  refine (hsorted.and hdistinct).imp fun {a b} hab => ?_
  rw [decide_eq_true_iff] at hab
  exact UInt64.lt_of_le_of_ne hab.1 hab.2

/-! ## Whole runs -/

/-- What a followed map shows of the registry: disjoint, non-empty spans that
do not wrap, listed in strictly increasing order. -/
theorem Follows.segment (h : Follows r A) (seg : Bytes) :
    (A seg).PairwiseDisjoint span
      ∧ (∀ d ∈ A seg, d.span.Nonempty ∧ d.offset.toNat + d.size.toNat < 2 ^ 64)
      ∧ (∀ d, d ∈ r.spansOf seg ↔ d ∈ A seg)
      ∧ (r.spansOf seg).Pairwise (fun a b => a.offset < b.offset) := by
  have hkept := h.kept seg
  rw [h.live]
  refine ⟨?_, ?_, fun d => mem_spansOf, hkept.spansOf_sorted⟩
  · rintro _ ⟨s, hs, rfl⟩ _ ⟨t, ht, rfl⟩ hne
    have : Std.Symm fun s t : RegisteredSpan => Disjoint s.desc.span t.desc.span :=
      ⟨fun _ _ hst => hst.symm⟩
    refine hkept.disjoint.forall hs ht ?_
    rintro rfl
    exact hne rfl
  · rintro _ ⟨s, hs, rfl⟩
    exact ⟨span_nonempty (hkept.pos s hs), span_lt_of_validate (hkept.valid s hs)⟩

/-- The live spans of a segment start at different offsets. -/
theorem Follows.offset_injOn (h : Follows r A) (seg : Bytes) :
    Set.InjOn TensorDescriptor.offset (A seg) := by
  intro d hd e he hoff
  by_contra hne
  have hdisj := (h.segment seg).1 hd he hne
  rw [h.live] at hd he
  obtain ⟨s, hs, rfl⟩ := hd
  obtain ⟨t, ht, rfl⟩ := he
  exact offset_ne_of_disjoint ((h.kept seg).pos s hs) ((h.kept seg).pos t ht) hdisj hoff

/-- A call leaves the live spans of every other segment as they are. -/
theorem live_step_of_ne (r : TensorRegistry) (c : Call) (h : seg ≠ c.segment) :
    (machine.step r c).2.live seg = r.live seg := by
  cases c with
  | register d =>
    show (r.register d).2.live seg = _
    unfold register
    split
    · rfl
    · split
      · rfl
      · dsimp only
        split
        · rfl
        · rw [live_setLive]
          exact Function.update_of_ne h _ _
  | deregister shmName offset =>
    show (r.deregister shmName offset).2.live seg = _
    unfold deregister
    dsimp only
    split
    · rw [live_setLive]
      exact Function.update_of_ne h _ _
    · rfl

/-- **The registry refines the map of live spans.** After every run from the
empty registry, with `A` the map the same run leads to: the calls were answered
alike; `Register` succeeds exactly on an admissible descriptor and `Deregister`
exactly when a live span starts at the offset, removing that one; a refused call
changes nothing, and no call touches another segment; and the live spans of each
segment are disjoint, non-empty, free of wrap-around and listed by `Spans` in
strictly increasing order. -/
theorem refines_liveMap (calls : List Call) :
    let r := machine.after new calls
    let A := LiveMap.machine.after LiveMap.empty calls
    machine.answers new calls = LiveMap.machine.answers LiveMap.empty calls
      ∧ (∀ d, ((r.register d).1 = .ok () ↔
            d.validate = .ok () ∧ 0 < d.size ∧ ∀ e ∈ A d.shmName, Disjoint d.span e.span)
          ∧ ((r.register d).1 = .ok () →
            ∀ e, e ∈ (r.register d).2.spansOf d.shmName ↔ e = d ∨ e ∈ A d.shmName)
          ∧ ((r.register d).1 ≠ .ok () → (r.register d).2 = r))
      ∧ (∀ seg off, ((r.deregister seg off).1 = true ↔ ∃ e ∈ A seg, e.offset = off)
          ∧ (∀ e ∈ A seg, e.offset = off →
            ∀ e', e' ∈ (r.deregister seg off).2.spansOf seg ↔ e' ∈ A seg ∧ e' ≠ e)
          ∧ ((r.deregister seg off).1 = false → (r.deregister seg off).2 = r))
      ∧ (∀ c seg, seg ≠ c.segment → (machine.step r c).2.spansOf seg = r.spansOf seg)
      ∧ ∀ seg, (A seg).PairwiseDisjoint span
          ∧ (∀ d ∈ A seg, d.span.Nonempty ∧ d.offset.toNat + d.size.toNat < 2 ^ 64)
          ∧ (∀ d, d ∈ r.spansOf seg ↔ d ∈ A seg)
          ∧ (r.spansOf seg).Pairwise (fun a b => a.offset < b.offset) := by
  intro r A
  obtain ⟨hans, h⟩ := Machine.run_simulation step_follows follows_new calls
  refine ⟨hans, fun d => ?_, fun seg off => ?_, fun c seg hne => ?_, h.segment⟩
  · rcases register_cases h d with ⟨hok, hadm, hnext⟩ | ⟨⟨err, herr⟩, hadm⟩
    · refine ⟨⟨fun _ => hadm, fun _ => hok⟩, fun _ e => ?_, fun hne => absurd hok hne⟩
      rw [(hnext.segment d.shmName).2.2.1, Function.update_self, Set.mem_insert_iff]
    · have hno : (r.register d).1 ≠ .ok () := by
        rw [herr]
        nofun
      exact ⟨⟨fun hok => absurd hok hno, fun ha => absurd ha hadm⟩,
        fun hok => absurd hok hno, fun _ => by rw [herr]⟩
  · rcases deregister_cases h seg off with ⟨hok, hex, hnext⟩ | ⟨heq, hex⟩
    · refine ⟨⟨fun _ => hex, fun _ => hok⟩, fun e he hoff e' => ?_,
        fun hno => absurd (hok.symm.trans hno) (by decide)⟩
      rw [(hnext.segment seg).2.2.1, Function.update_self]
      refine and_congr_right fun he' => not_congr ?_
      rw [← hoff]
      exact ⟨fun heq => h.offset_injOn seg he' he heq, fun heq => by rw [heq]⟩
    · refine ⟨⟨fun hok => ?_, fun hex' => absurd hex' hex⟩,
        fun e he hoff => absurd ⟨e, he, hoff⟩ hex, fun _ => by rw [heq]⟩
      rw [heq] at hok
      exact absurd hok Bool.false_ne_true
  · rw [spansOf, live_step_of_ne r c hne, spansOf]

/-! ## Any order -/

/-- The descriptors of a list, by segment. -/
def liveOf (ds : List TensorDescriptor) : LiveMap := fun seg => {d | d ∈ ds ∧ d.shmName = seg}

/-- The spans are disjoint within each segment. -/
def Apart (ds : List TensorDescriptor) : Prop :=
  ds.Pairwise fun d e => d.shmName = e.shmName → Disjoint d.span e.span

theorem Apart.perm {ds ds' : List TensorDescriptor} (h : Apart ds) (hperm : ds.Perm ds') :
    Apart ds' :=
  List.Pairwise.perm h hperm fun hde hseg => (hde hseg.symm).symm

/-- A span that is not empty is not apart from itself, so nothing is there twice. -/
theorem Apart.nodup {ds : List TensorDescriptor} (h : Apart ds) (hpos : ∀ d ∈ ds, 0 < d.size) :
    ds.Nodup := by
  refine List.Pairwise.imp_of_mem (fun {d e} hd _ hde heq => ?_) h
  subst heq
  exact (span_nonempty (hpos d hd)).ne_empty (disjoint_self.mp (hde rfl))

/-- **A map determines the listing.** Registries that follow the same map list the same
descriptors, whatever calls have led to them. -/
theorem Follows.spansOf_eq {r' : TensorRegistry} (h : Follows r A) (h' : Follows r' A)
    (seg : Bytes) : r.spansOf seg = r'.spansOf seg := by
  obtain ⟨-, -, hmem, hsorted⟩ := h.segment seg
  obtain ⟨-, -, hmem', hsorted'⟩ := h'.segment seg
  have : Std.Irrefl fun a b : TensorDescriptor => a.offset < b.offset :=
    ⟨fun _ => UInt64.lt_irrefl _⟩
  have : Std.Antisymm fun a b : TensorDescriptor => a.offset < b.offset :=
    ⟨fun _ _ hab hba => absurd hba (UInt64.lt_asymm hab)⟩
  exact hsorted.eq_of_mem_iff hsorted' fun d => (hmem d).trans (hmem' d).symm

theorem Follows.shmName_of_mem (h : Follows r A) (hd : d ∈ A seg) : d.shmName = seg := by
  rw [h.live] at hd
  obtain ⟨s, hs, rfl⟩ := hd
  exact (h.kept seg).segment s hs

/-- One more descriptor, in the map or in the list. -/
theorem union_liveOf_cons (A : LiveMap) (d : TensorDescriptor) (ds : List TensorDescriptor) :
    (fun seg => A seg ∪ liveOf (d :: ds) seg)
      = fun seg => Function.update A d.shmName (insert d (A d.shmName)) seg ∪ liveOf ds seg := by
  funext seg
  ext e
  by_cases hseg : seg = d.shmName
  · subst hseg
    simp only [Function.update_self, liveOf, Set.mem_union, Set.mem_insert_iff, Set.mem_ofPred_eq,
      List.mem_cons]
    constructor
    · rintro (he | ⟨rfl | he, hname⟩)
      · exact .inl (.inr he)
      · exact .inl (.inl rfl)
      · exact .inr ⟨he, hname⟩
    · rintro ((rfl | he) | ⟨he, hname⟩)
      · exact .inr ⟨.inl rfl, rfl⟩
      · exact .inl he
      · exact .inr ⟨.inr he, hname⟩
  · simp only [Function.update_of_ne hseg, liveOf, Set.mem_union, Set.mem_ofPred_eq, List.mem_cons]
    refine or_congr_right (and_congr_left fun hname => or_iff_right ?_)
    rintro rfl
    exact hseg hname.symm

/-- **One registration** of a descriptor that is apart from what is live. -/
theorem Follows.register_apart (h : Follows r A) (hvalid : d.validate = .ok ()) (hpos : 0 < d.size)
    (hlive : ∀ e ∈ A d.shmName, Disjoint d.span e.span) :
    (machine.step r (.register d)).1 = true
      ∧ Follows (machine.step r (.register d)).2
        (Function.update A d.shmName (insert d (A d.shmName))) := by
  rcases register_cases h d with ⟨hok, -, hnext⟩ | ⟨-, hno⟩
  · refine ⟨?_, hnext⟩
    show (r.register d).1.isOk = true
    rw [hok]
    rfl
  · exact absurd ⟨hvalid, hpos, hlive⟩ hno

/-- What is apart from the live spans and from one more is apart from all of them. -/
theorem disjoint_of_mem_update {e : TensorDescriptor}
    (hlive : ∀ e' ∈ A e.shmName, Disjoint e.span e'.span)
    (hd : d.shmName = e.shmName → Disjoint d.span e.span) :
    ∀ e' ∈ Function.update A d.shmName (insert d (A d.shmName)) e.shmName,
      Disjoint e.span e'.span := by
  intro e' he'
  by_cases hseg : e.shmName = d.shmName
  · rw [hseg, Function.update_self] at he'
    rcases he' with rfl | he'
    · exact (hd hseg.symm).symm
    · exact hlive e' (hseg ▸ he')
  · rw [Function.update_of_ne hseg] at he'
    exact hlive e' he'

/-- Registering descriptors that are apart from one another and from what is live. -/
theorem Follows.registerAll {ds : List TensorDescriptor} (h : Follows r A)
    (hvalid : ∀ d ∈ ds, d.validate = .ok () ∧ 0 < d.size)
    (hlive : ∀ d ∈ ds, ∀ e ∈ A d.shmName, Disjoint d.span e.span) (hapart : Apart ds) :
    (∀ b ∈ machine.answers r (ds.map .register), b = true)
      ∧ Follows (machine.after r (ds.map .register)) fun seg => A seg ∪ liveOf ds seg := by
  induction ds generalizing r A with
  | nil =>
    refine ⟨fun b hb => absurd hb List.not_mem_nil, ?_⟩
    have hsame : (fun seg => A seg ∪ liveOf [] seg) = A := by
      funext seg
      simp [liveOf]
    rw [hsame]
    exact h
  | cons d ds ih =>
    obtain ⟨⟨hd, hpos⟩, hvalid⟩ := List.forall_mem_cons.mp hvalid
    obtain ⟨hdlive, hlive⟩ := List.forall_mem_cons.mp hlive
    obtain ⟨hdapart, hapart⟩ := List.pairwise_cons.mp hapart
    obtain ⟨hok, hnext⟩ := h.register_apart hd hpos hdlive
    obtain ⟨hanswers, hafter⟩ := ih hnext hvalid
      (fun e he => disjoint_of_mem_update (hlive e he) (hdapart e he)) hapart
    refine ⟨List.forall_mem_cons.mpr ⟨hok, hanswers⟩, ?_⟩
    rw [union_liveOf_cons]
    exact hafter

/-- **One removal** of a live span: the span that starts at the offset of `d` is `d`. -/
theorem Follows.deregister_live (h : Follows r A) (hd : d ∈ A d.shmName) :
    (machine.step r (.deregister d.shmName d.offset)).1 = true
      ∧ Follows (machine.step r (.deregister d.shmName d.offset)).2
        fun seg => {e ∈ A seg | e ≠ d} := by
  rcases deregister_cases h d.shmName d.offset with ⟨hok, -, hnext⟩ | ⟨-, hno⟩
  · have hsame : Function.update A d.shmName {e ∈ A d.shmName | e.offset ≠ d.offset}
        = fun seg => {e ∈ A seg | e ≠ d} := by
      funext seg
      by_cases hseg : seg = d.shmName
      · subst hseg
        rw [Function.update_self]
        ext e
        refine and_congr_right fun he => not_congr ⟨fun hoff => ?_, fun heq => by rw [heq]⟩
        exact h.offset_injOn d.shmName he hd hoff
      · rw [Function.update_of_ne hseg]
        ext e
        refine ⟨fun he => ⟨he, ?_⟩, fun he => he.1⟩
        rintro rfl
        exact hseg (h.shmName_of_mem he).symm
    rw [hsame] at hnext
    exact ⟨hok, hnext⟩
  · exact absurd ⟨d, hd, rfl⟩ hno

/-- Removing live spans. -/
theorem Follows.deregisterAll {gone : List TensorDescriptor} (h : Follows r A)
    (hnodup : gone.Nodup) (hlive : ∀ d ∈ gone, d ∈ A d.shmName) :
    (∀ b ∈ machine.answers r (gone.map fun d => .deregister d.shmName d.offset), b = true)
      ∧ Follows (machine.after r (gone.map fun d => .deregister d.shmName d.offset))
        fun seg => {d ∈ A seg | d ∉ gone} := by
  induction gone generalizing r A with
  | nil =>
    refine ⟨fun b hb => absurd hb List.not_mem_nil, ?_⟩
    have hsame : (fun seg => {d ∈ A seg | d ∉ ([] : List TensorDescriptor)}) = A := by
      funext seg
      simp
    rw [hsame]
    exact h
  | cons d gone ih =>
    obtain ⟨hd, hlive⟩ := List.forall_mem_cons.mp hlive
    obtain ⟨hdgone, hnodup⟩ := List.nodup_cons.mp hnodup
    obtain ⟨hok, hnext⟩ := h.deregister_live hd
    have hlive' : ∀ e ∈ gone, e ∈ {e' ∈ A e.shmName | e' ≠ d} := by
      intro e he
      refine ⟨hlive e he, ?_⟩
      rintro rfl
      exact hdgone he
    obtain ⟨hanswers, hafter⟩ := ih hnext hnodup hlive'
    refine ⟨List.forall_mem_cons.mpr ⟨hok, hanswers⟩, ?_⟩
    have hrest : (fun seg => {e ∈ A seg | e ∉ d :: gone})
        = fun seg => {e ∈ {e' ∈ A seg | e' ≠ d} | e ∉ gone} := by
      funext seg
      ext e
      simp only [Set.mem_ofPred_eq, List.mem_cons, not_or, and_assoc]
    rw [hrest]
    exact hafter

/-- Registering descriptors in an empty registry. -/
theorem follows_registerAll {ds : List TensorDescriptor}
    (hvalid : ∀ d ∈ ds, d.validate = .ok () ∧ 0 < d.size) (hapart : Apart ds) :
    (∀ b ∈ machine.answers new (ds.map .register), b = true)
      ∧ Follows (machine.after new (ds.map .register)) (liveOf ds) := by
  have hall := follows_new.registerAll hvalid
    (fun d _ e he => absurd he (Set.notMem_empty e)) hapart
  have hsame : (fun seg => LiveMap.empty seg ∪ liveOf ds seg) = liveOf ds := by
    funext seg
    exact Set.empty_union _
  rwa [hsame] at hall

/-- **The order of the calls does not matter.** Descriptors that an empty registry accepts,
with spans that are disjoint within each segment, are all accepted in any order, with the
same listing of every segment in the end; and when some of them are removed, in any order,
every segment is listed as if they had never been registered. -/
theorem any_order {ds : List TensorDescriptor} (hreg : ∀ d ∈ ds, (new.register d).1 = .ok ())
    (hapart : Apart ds) {ds' : List TensorDescriptor} (hperm : ds'.Perm ds) :
    (∀ b ∈ machine.answers new (ds'.map .register), b = true)
      ∧ (∀ seg, (machine.after new (ds'.map .register)).spansOf seg
        = (machine.after new (ds.map .register)).spansOf seg)
      ∧ ∀ gone rest : List TensorDescriptor, (gone ++ rest).Perm ds →
        (∀ b ∈ machine.answers (machine.after new (ds'.map .register))
            (gone.map fun d => .deregister d.shmName d.offset), b = true)
        ∧ ∀ seg, (machine.after (machine.after new (ds'.map .register))
            (gone.map fun d => .deregister d.shmName d.offset)).spansOf seg
          = (machine.after new (rest.map .register)).spansOf seg := by
  have hvalid : ∀ d ∈ ds, d.validate = .ok () ∧ 0 < d.size := by
    intro d hd
    rcases register_cases follows_new d with ⟨-, hadm, -⟩ | ⟨⟨err, herr⟩, -⟩
    · exact ⟨hadm.1, hadm.2.1⟩
    · exact (nomatch (congrArg Prod.fst herr).symm.trans (hreg d hd))
  have hlists : ∀ {l : List TensorDescriptor}, l.Perm ds →
      (∀ d ∈ l, d.validate = .ok () ∧ 0 < d.size) ∧ Apart l :=
        fun hl => ⟨fun d hd => hvalid d (hl.mem_iff.mp hd), hapart.perm hl.symm⟩
  have hsame : liveOf ds' = liveOf ds := by
    funext seg
    ext d
    exact and_congr_left fun _ => hperm.mem_iff
  obtain ⟨hanswers, hafter⟩ := follows_registerAll (hlists hperm).1 (hlists hperm).2
  rw [hsame] at hafter
  refine ⟨hanswers, hafter.spansOf_eq (follows_registerAll hvalid hapart).2,
    fun gone rest hsplit => ?_⟩
  obtain ⟨hsplitValid, hsplitApart⟩ := hlists hsplit
  have hnodup : (gone ++ rest).Nodup := hsplitApart.nodup fun d hd => (hsplitValid d hd).2
  obtain ⟨hgone, -, hdisjoint⟩ := List.nodup_append.mp hnodup
  obtain ⟨hremoved, hleft⟩ := hafter.deregisterAll hgone fun d hd =>
    ⟨hsplit.mem_iff.mp (List.mem_append_left rest hd), rfl⟩
  have hrest : (fun seg => {d ∈ liveOf ds seg | d ∉ gone}) = liveOf rest := by
    funext seg
    ext d
    constructor
    · rintro ⟨⟨hd, hseg⟩, hno⟩
      exact ⟨(List.mem_append.mp (hsplit.mem_iff.mpr hd)).resolve_left hno, hseg⟩
    · rintro ⟨hd, hseg⟩
      exact ⟨⟨hsplit.mem_iff.mp (List.mem_append_right gone hd), hseg⟩,
        fun hg => hdisjoint d hg d hd rfl⟩
  rw [hrest] at hleft
  have hnever := follows_registerAll
    (fun d hd => hsplitValid d (List.mem_append_right gone hd))
    (List.pairwise_append.mp hsplitApart).2.1
  exact ⟨hremoved, hleft.spansOf_eq hnever.2⟩

/-- A span that ends where another starts, or before. -/
theorem disjoint_span_of_le {e : TensorDescriptor}
    (h : d.offset.toNat + d.size.toNat ≤ e.offset.toNat) : Disjoint d.span e.span :=
  Set.disjoint_left.mpr fun _ hd he => absurd (h.trans he.1) (not_le.mpr hd.2)

/-- Eight bytes of the segment `a`. -/
def eightBytes (offset : UInt64) : TensorDescriptor :=
  ⟨tensorINT8, [8], [1], ascii "a", offset, 8, [], []⟩

/-- Two adjacent spans, registered from the back, and the first one removed. -/
theorem any_order_adjacent :
    (∀ b ∈ machine.answers new [.register (eightBytes 8), .register (eightBytes 0)], b = true)
      ∧ ∀ seg, (machine.after (machine.after new
            [.register (eightBytes 8), .register (eightBytes 0)])
          [.deregister (ascii "a") 0]).spansOf seg
        = (machine.after new [.register (eightBytes 8)]).spansOf seg := by
  have hreg : ∀ d ∈ [eightBytes 0, eightBytes 8], (new.register d).1 = .ok () :=
    List.forall_mem_cons.mpr ⟨by decide +kernel, List.forall_mem_singleton.mpr (by decide +kernel)⟩
  have hapart : Apart [eightBytes 0, eightBytes 8] :=
    List.pairwise_pair.mpr fun _ => disjoint_span_of_le (by decide)
  obtain ⟨hanswers, -, hremoved⟩ :=
    any_order hreg hapart (List.Perm.swap (eightBytes 0) (eightBytes 8) [])
  exact ⟨hanswers, (hremoved [eightBytes 0] [eightBytes 8] (List.Perm.refl _)).2⟩

end TensorRegistry
