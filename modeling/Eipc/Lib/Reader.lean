import Eipc.Lib.Wire

/-!
# Readers that deliver in pieces

A reader hands out bytes when asked for some, in pieces of its own choosing: a piece may be
shorter than what was asked for, it may be empty, and the end may be reported along with
the last bytes or only afterwards. `Bytes.Reader` is what all of them have in common. The
laws are fields, so that there is no reader without them: what was read and what is still
to come are what was to come before, and a reader does not stay idle for ever.

`Reader.readFull` asks until it has as many bytes as it wants. How they were cut does not
matter to it (`Reader.readFull_eq`), and so it does not to a program that reads by it
alone: such a program **tracks** a function of the bytes that are to come
(`Reader.Tracks`), and the rules below follow its structure.
-/

namespace Bytes

/-- **A reader** with states in `ρ`. -/
structure Reader (ρ : Type) where
  /-- A read of at most `k` bytes: the bytes, and whether the end was reported. -/
  read : ℕ → ρ → (Bytes × Bool) × ρ
  /-- The bytes that are still to come. -/
  content : ρ → Bytes
  /-- A bound on the empty reads that are still to come. -/
  idle : ρ → ℕ
  length_read : ∀ k r, (read k r).1.1.length ≤ k
  content_read : ∀ k r, (read k r).1.1 ++ content (read k r).2 = content r
  content_of_end : ∀ k r, (read k r).1.2 = true → content (read k r).2 = []
  idle_read : ∀ k r, 0 < k → (read k r).1 = ([], false) → idle (read k r).2 < idle r

namespace Reader

variable {ρ ε α β : Type} (R : Reader ρ)

/-- The loop of a full read, which has got some bytes already. -/
def readLoop (n : ℕ) (got : Bytes) (r : ρ) : Except ReadError Bytes × ρ :=
  if n ≤ got.length then (.ok got, r)
  else
    let next := R.read (n - got.length) r
    let got' := got ++ next.1.1
    if next.1.2 then
      -- the end does not matter to a read that is complete
      if n ≤ got'.length then (.ok got', next.2)
      else (.error (if got' = [] then .eof else .unexpectedEOF), next.2)
    else readLoop n got' next.2
termination_by (n - got.length, R.idle r)
decreasing_by
  by_cases hnil : (R.read (n - got.length) r).1.1 = []
  · rw [hnil, List.append_nil]
    refine Prod.Lex.right _ (R.idle_read _ _ (by omega) (Prod.ext hnil ?_))
    exact Bool.not_eq_true _ ▸ ‹¬next.1.2 = true›
  · have hpos := List.length_pos_iff.mpr hnil
    refine Prod.Lex.left _ _ ?_
    rw [List.length_append]
    omega

/-- A read of exactly `n` bytes. -/
def readFull (n : ℕ) : ρ → Except ReadError Bytes × ρ := R.readLoop n []

theorem append_content_read (n : ℕ) (got : Bytes) (r : ρ) :
    got ++ (R.read (n - got.length) r).1.1 ++ R.content (R.read (n - got.length) r).2
      = got ++ R.content r := by
  rw [List.append_assoc, R.content_read]

theorem length_append_read {n : ℕ} (got : Bytes) (r : ρ) (h : got.length ≤ n) :
    (got ++ (R.read (n - got.length) r).1.1).length ≤ n := by
  have hle := R.length_read (n - got.length) r
  rw [List.length_append]
  omega

/-- What the loop makes of the bytes that are to come. -/
theorem readLoop_eq (n : ℕ) (got : Bytes) (r : ρ) (hgot : got.length ≤ n) :
    (n ≤ (got ++ R.content r).length →
      (R.readLoop n got r).1 = .ok ((got ++ R.content r).take n)
        ∧ R.content (R.readLoop n got r).2 = (got ++ R.content r).drop n)
    ∧ ((got ++ R.content r).length < n →
      (R.readLoop n got r).1
          = .error (if got ++ R.content r = [] then .eof else .unexpectedEOF)
        ∧ R.content (R.readLoop n got r).2 = []) := by
  fun_induction R.readLoop n got r with
  | case1 got r hn =>
    have hlen : got.length = n := le_antisymm hgot hn
    refine ⟨fun _ => ⟨?_, ?_⟩, fun hlt => ?_⟩
    · rw [← hlen, List.take_left]
    · rw [← hlen, List.drop_left]
    · rw [List.length_append] at hlt
      omega
  | case2 got r hn next got' hend hfull =>
    have hnil : R.content next.2 = [] := R.content_of_end _ _ hend
    have hlen : got'.length = n := le_antisymm (R.length_append_read got r hgot) hfull
    rw [← R.append_content_read n got r, show R.content _ = [] from hnil, List.append_nil]
    refine ⟨fun _ => ⟨?_, ?_⟩, fun hlt => absurd hfull (not_le.mpr hlt)⟩
    · exact congrArg Except.ok (List.take_of_length_le hlen.le).symm
    · exact (List.drop_eq_nil_of_le hlen.le).symm
  | case3 got r hn next got' hend hshort =>
    have hnil : R.content next.2 = [] := R.content_of_end _ _ hend
    rw [← R.append_content_read n got r, show R.content _ = [] from hnil, List.append_nil]
    exact ⟨fun h => absurd h hshort, fun _ => ⟨rfl, rfl⟩⟩
  | case4 got r hn next got' hend ih =>
    rw [← R.append_content_read n got r]
    exact ih (R.length_append_read got r hgot)

/-- **A full read does not depend on the pieces**: it takes what is to come, or fails and
has taken all there was. -/
theorem readFull_eq (n : ℕ) (r : ρ) :
    (R.readFull n r).1 = (Bytes.readFull n (R.content r)).map Prod.fst
      ∧ R.content (R.readFull n r).2 = (R.content r).drop n := by
  obtain ⟨hok, herr⟩ := R.readLoop_eq n [] r (Nat.zero_le n)
  unfold Bytes.readFull readFull
  split
  · next hn => exact hok hn
  · next hn =>
    obtain ⟨hres, hrest⟩ := herr (not_le.mp hn)
    exact ⟨hres, by rw [hrest, List.drop_eq_nil_of_le (not_le.mp hn).le]⟩

/-! ## Programs that read -/

/-- A program that reads, and may fail. -/
abbrev Prog (ρ ε α : Type) := ExceptT ε (StateM ρ) α

/-- A full read in a program. -/
def readFullAs (wrap : ReadError → ε) (n : ℕ) : Prog ρ ε Bytes := fun r =>
  ((R.readFull n r).1.mapError wrap, (R.readFull n r).2)

/-- A check in a program: it gives up when the condition holds. -/
def failIf (c : Prop) [Decidable c] (e : ε) : Prog ρ ε Unit := if c then throw e else pure ()

/-- **A program tracks a function of the bytes to come**: it returns what the function
returns and leaves what the function leaves, or fails as the function does. -/
def Tracks (m : Prog ρ ε α) (f : Bytes → Except ε (α × Bytes)) : Prop :=
  ∀ r, (∀ a rest, f (R.content r) = .ok (a, rest) →
      (m r).1 = .ok a ∧ R.content (m r).2 = rest)
    ∧ ∀ e, f (R.content r) = .error e → (m r).1 = .error e

variable {R} {m : Prog ρ ε α} {f : Bytes → Except ε (α × Bytes)}

theorem Tracks.fst_eq (h : R.Tracks m f) (r : ρ) :
    (m r).1 = (f (R.content r)).map Prod.fst := by
  cases hf : f (R.content r) with
  | error e => exact (h r).2 e hf
  | ok p => exact ((h r).1 p.1 p.2 hf).1

theorem tracks_pure (a : α) : R.Tracks (pure a : Prog ρ ε α) fun s => .ok (a, s) := by
  intro r
  refine ⟨fun a' rest h => ?_, fun e h => (nomatch h)⟩
  cases h
  exact ⟨rfl, rfl⟩

theorem tracks_throw (e : ε) : R.Tracks (throw e : Prog ρ ε α) fun _ => .error e := by
  intro r
  refine ⟨fun a rest h => (nomatch h), fun e' h => ?_⟩
  cases h
  rfl

theorem tracks_readFullAs (wrap : ReadError → ε) (n : ℕ) :
    R.Tracks (R.readFullAs wrap n) (Bytes.readFullAs wrap n) := by
  intro r
  obtain ⟨hres, hrest⟩ := R.readFull_eq n r
  constructor
  · intro a rest h
    obtain ⟨hcontent, hlen⟩ := readFullAs_eq_ok_iff.mp h
    have hfull : Bytes.readFull n (R.content r) = .ok (a, rest) :=
      readFull_eq_ok_iff.mpr ⟨hcontent, hlen⟩
    rw [hfull] at hres
    refine ⟨congrArg (Except.mapError wrap) hres, hrest.trans ?_⟩
    rw [hcontent, ← hlen, List.drop_left]
  · intro e h
    rw [Bytes.readFullAs] at h
    cases hfull : Bytes.readFull n (R.content r) with
    | ok p =>
      rw [hfull] at h
      cases h
    | error e' =>
      rw [hfull] at h hres
      cases h
      exact congrArg (Except.mapError wrap) hres

/-- A read that fails has taken all there was. -/
theorem content_readFullAs_of_error {wrap : ReadError → ε} {n : ℕ} {r : ρ} {e : ε}
    (h : Bytes.readFullAs wrap n (R.content r) = .error e) :
    R.content (R.readFullAs wrap n r).2 = [] := by
  refine (R.readFull_eq n r).2.trans (List.drop_eq_nil_of_le (not_lt.mp fun hlt => ?_))
  rw [Bytes.readFullAs, Bytes.readFull, if_pos hlt.le] at h
  cases h

theorem run_bind_of_ok {k : α → Prog ρ ε β} {r : ρ} {a : α} (h : (m r).1 = .ok a) :
    (m >>= k) r = k a (m r).2 := by
  have hrun : m r = (.ok a, (m r).2) := Prod.ext h rfl
  simp only [bind, ExceptT.bind, ExceptT.mk, StateT.bind]
  rw [hrun]
  rfl

theorem run_bind_of_error {k : α → Prog ρ ε β} {r : ρ} {e : ε} (h : (m r).1 = .error e) :
    (m >>= k) r = (.error e, (m r).2) := by
  have hrun : m r = (.error e, (m r).2) := Prod.ext h rfl
  simp only [bind, ExceptT.bind, ExceptT.mk, StateT.bind]
  rw [hrun]
  rfl

/-- One program after the other. -/
theorem Tracks.bind (h : R.Tracks m f) {k : α → Prog ρ ε β}
    {g : α × Bytes → Except ε (β × Bytes)} (hk : ∀ a, R.Tracks (k a) fun s => g (a, s)) :
    R.Tracks (m >>= k) fun s => f s >>= g := by
  intro r
  dsimp only
  cases hf : f (R.content r) with
  | error e =>
    refine ⟨fun b rest hb => (nomatch hb), fun e' he => ?_⟩
    cases he
    rw [run_bind_of_error ((h r).2 e hf)]
  | ok p =>
    obtain ⟨hres, hrest⟩ := (h r).1 p.1 p.2 hf
    rw [run_bind_of_ok hres]
    have hnext := hk p.1 (m r).2
    rw [hrest] at hnext
    exact hnext

/-- A check before a program. -/
theorem run_failIf_bind (c : Prop) [Decidable c] (e : ε) (k : Unit → Prog ρ ε α) (r : ρ) :
    (failIf c e >>= k) r = if c then (.error e, r) else k () r := by
  unfold failIf
  split <;> rfl

theorem Tracks.failIf_bind (h : R.Tracks m f) (c : Prop) [Decidable c] (e : ε) :
    R.Tracks (failIf c e >>= fun _ => m) fun s => Except.failIf c e >>= fun _ => f s := by
  intro r
  rw [run_failIf_bind]
  unfold Except.failIf
  split
  · exact tracks_throw e r
  · exact h r

/-! ## Pieces -/

/-- Bytes that come in pieces. -/
structure Pieces where
  /-- The pieces still to come, which may be empty ones. -/
  pieces : List Bytes
  /-- The end is reported along with the last piece. -/
  eager : Bool

/-- **The reader that delivers the pieces**: each read takes the next piece, or what it has
room for of it. -/
def ofPieces : Reader Pieces where
  read k r :=
    match r.pieces with
    | [] => (([], true), r)
    | b :: bs =>
      if b.length ≤ k then ((b, r.eager && bs.isEmpty), { r with pieces := bs })
      else ((b.take k, false), { r with pieces := b.drop k :: bs })
  content r := r.pieces.flatten
  idle r := r.pieces.length
  length_read k r := by
    split
    · exact Nat.zero_le k
    · split
      · assumption
      · exact List.length_take_le k _
  content_read k r := by
    split
    · rfl
    · next b bs hr =>
      rw [hr, List.flatten_cons]
      split
      · rfl
      · show b.take k ++ (b.drop k :: bs).flatten = _
        rw [List.flatten_cons, ← List.append_assoc, List.take_append_drop]
  content_of_end k r := by
    split
    · next hr => exact fun _ => by rw [hr, List.flatten_nil]
    · split
      · intro hend
        have hnil := List.isEmpty_iff.mp (Bool.and_eq_true_iff.mp hend).2
        rw [hnil, List.flatten_nil]
      · exact nofun
  idle_read k r hk := by
    split
    · exact fun hidle => (nomatch congrArg Prod.snd hidle)
    · next b bs hr =>
      split
      · intro _
        rw [hr]
        exact Nat.lt_succ_self _
      · next hlen =>
        -- a piece that is too long is not empty, and neither is its beginning
        intro hidle
        have hnil := congrArg (List.length ∘ Prod.fst) hidle
        simp only [Function.comp_apply, List.length_take, List.length_nil] at hnil
        omega

end Reader

end Bytes
