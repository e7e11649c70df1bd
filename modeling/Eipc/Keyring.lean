import Eipc.Auth

/-!
# The keyring

`keyring.Keyring` (`security/keyring/keyring.go`) holds named keys that expire, are
revoked, and are rotated. Nothing is forgotten at once: a key that is revoked or has
expired stays in the map until `Cleanup`, and `Rotate` moves the old key, revoked, to
another name in the same map. Three calls tell the active keys from the others, each by
a test of its own.

What it is for is a plain map of active keys (`KeyMap`), in which revoking, deleting and
rotating take effect at once and cleaning up does nothing. The two agree at every time
that the clock has not passed (`Keyring.refines_keyMap`), if no caller uses a name that a
rotation archives a key under. For a fixed time to come the keys that are active then
are all that matters, and each call changes them as it changes the plain map
(`Keyring.Refines.step`).

A rotation archives the old key before it makes the new one. Nobody gets to see the keyring
in between, because a random source that fails ends the process: a rotation that returns has
put a new key in the place of the old one (`Keyring.rotate_all_or_nothing`). It takes a name
that no other call would store a key under, the empty one (`Keyring.wellNamed_along_iff`).

The clock and the random source are inputs of the calls.
-/

open Bytes

/-- The zero time, from which instants are counted. -/
def Instant.zero : Instant := 0

/-- How a call can fail: it returns an error, or the process ends in it. -/
inductive Failure (ε : Type) where
  | returned (err : ε)
  | fatal (err : String)
  deriving DecidableEq

/-- What the random source does: it gives as many bytes as are asked for, or it fails. -/
abbrev RandomSource := Except String (ℕ → UInt8)

/-- `rand.Read` into a slice of `n` bytes. It is declared to return an error, and since Go 1.24
(`go.mod` asks for a later one) it never does: if the source fails, it ends the process. -/
def RandomSource.read (random : RandomSource) (n : ℕ) : Except (Failure String) Bytes :=
  match random with
  | .error err => .error (.fatal err)
  | .ok byte => .ok ((List.range n).map byte)

/-- A key. -/
structure KeyEntry where
  id : Bytes
  key : Bytes
  createdAt : Instant
  expiresAt : Instant
  revoked : Bool
  deriving DecidableEq

/-- The entry's expiry: the zero time, which stands for none, without a positive
lifetime. -/
def KeyEntry.expiry (now : Instant) (ttl : Int64) : Instant :=
  if ttl > 0 then now + ttl.toInt else .zero

/-- A time is after an expiry that is not the zero time. -/
def Instant.isAfterExpiry (now expiresAt : Instant) : Bool :=
  expiresAt ≠ Instant.zero ∧ now > expiresAt

/-- What the keyring's calls can fail with. -/
inductive KeyringError where
  | idRequired
  | idAndKeyRequired
  | generateRandomKey (err : String)
  | notFound (id : Bytes)
  | hasBeenRevoked (id : Bytes)
  | hasExpired (id : Bytes)
  | rotate (id : Bytes) (n : ℕ) (err : String)
  deriving DecidableEq

/-- The error's text. `quote` is the verb `%q`. -/
def KeyringError.text (quote : Bytes → String) : KeyringError → String
  | idRequired => "key id is required"
  | idAndKeyRequired => "id and key are required"
  | generateRandomKey err => "generate random key: " ++ err
  | notFound id => "key " ++ quote id ++ " not found"
  | hasBeenRevoked id => "key " ++ quote id ++ " has been revoked"
  | hasExpired id => "key " ++ quote id ++ " has expired"
  | rotate id n err =>
    "rotate " ++ quote id ++ ": read " ++ toString n ++ " random bytes: " ++ err

/-- The keyring. -/
structure Keyring where
  keys : Finmap (fun _ : Bytes => KeyEntry)

namespace Keyring

/-- `New`. -/
def new : Keyring := ⟨∅⟩

/-- The length of a key that is generated. -/
def keyLength (keyLen : ℤ) : ℕ := if keyLen ≤ 0 then 32 else keyLen.toNat

/-- `Generate`. -/
def generate (kr : Keyring) (now : Instant) (random : RandomSource) (id : Bytes) (keyLen : ℤ)
    (ttl : Int64) : Except (Failure KeyringError) KeyEntry × Keyring :=
  if id = [] then (.error (.returned .idRequired), kr)
  else
    match random.read (keyLength keyLen) with
    | .error (.fatal err) => (.error (.fatal err), kr)
    | .error (.returned err) => (.error (.returned (.generateRandomKey err)), kr)
    | .ok raw =>
      let entry : KeyEntry := ⟨id, raw, now, KeyEntry.expiry now ttl, false⟩
      (.ok entry, ⟨kr.keys.insert id entry⟩)

/-- `Store`. -/
def store (kr : Keyring) (now : Instant) (id key : Bytes) (ttl : Int64) :
    Except (Failure KeyringError) Unit × Keyring :=
  if id = [] ∨ key = [] then (.error (.returned .idAndKeyRequired), kr)
  else (.ok (), ⟨kr.keys.insert id ⟨id, key, now, KeyEntry.expiry now ttl, false⟩⟩)

/-- `Lookup`. -/
def lookup (kr : Keyring) (now : Instant) (id : Bytes) : Except KeyringError KeyEntry :=
  match kr.keys.lookup id with
  | none => .error (.notFound id)
  | some entry =>
    if entry.revoked then .error (.hasBeenRevoked id)
    else if now.isAfterExpiry entry.expiresAt then .error (.hasExpired id)
    else .ok entry

/-- `Revoke`. -/
def revoke (kr : Keyring) (id : Bytes) : Except (Failure KeyringError) Unit × Keyring :=
  match kr.keys.lookup id with
  | none => (.error (.returned (.notFound id)), kr)
  | some entry => (.ok (), ⟨kr.keys.insert id { entry with revoked := true }⟩)

/-- `Delete`. -/
def delete (kr : Keyring) (id : Bytes) : Keyring := ⟨kr.keys.erase id⟩

/-- The name that `Rotate` archives an old key under. -/
def archiveName (id suffix : Bytes) : Bytes := id ++ ascii ".prev." ++ toHex suffix

/-- The first part of `Rotate`: an old key is revoked and moved. -/
def archive (kr : Keyring) (id oldID : Bytes) : Keyring :=
  match kr.keys.lookup id with
  | none => kr
  | some old => ⟨(kr.keys.insert oldID { old with revoked := true }).erase id⟩

/-- `Rotate`. When `rand.Read` is called for the new key, the old one has been moved. The id
may be empty. -/
def rotate (kr : Keyring) (now : Instant) (random random' : RandomSource) (id : Bytes)
    (keyLen : ℤ) (ttl : Int64) : Except (Failure KeyringError) KeyEntry × Keyring :=
  match random.read 4 with
  | .error (.fatal err) => (.error (.fatal err), kr)
  | .error (.returned err) => (.error (.returned (.rotate id 4 err)), kr)
  | .ok suffix =>
    let kr := kr.archive id (archiveName id suffix)
    match random'.read (keyLength keyLen) with
    | .error (.fatal err) => (.error (.fatal err), kr)
    | .error (.returned err) => (.error (.returned (.generateRandomKey err)), kr)
    | .ok raw =>
      let entry : KeyEntry := ⟨id, raw, now, KeyEntry.expiry now ttl, false⟩
      (.ok entry, ⟨kr.keys.insert id entry⟩)

/-- `ListActive`, in no particular order. -/
def listActive (kr : Keyring) (now : Instant) : Multiset KeyEntry :=
  (kr.keys.entries.map Sigma.snd).filter fun e =>
    ¬e.revoked ∧ ¬now.isAfterExpiry e.expiresAt

/-- `Cleanup`: how many entries were removed, and what is left. -/
def cleanup (kr : Keyring) (now : Instant) : ℕ × Keyring :=
  ((kr.keys.entries.filter fun e => e.2.revoked ∨ now.isAfterExpiry e.2.expiresAt).card,
    ⟨kr.keys.keep fun e => ¬(e.revoked ∨ now.isAfterExpiry e.expiresAt)⟩)

/-! ## Sequences of calls -/

/-- A call that changes the keyring. -/
inductive Call where
  | generate (now : Instant) (random : RandomSource) (id : Bytes) (keyLen : ℤ) (ttl : Int64)
  | store (now : Instant) (id key : Bytes) (ttl : Int64)
  | rotate (now : Instant) (random random' : RandomSource) (id : Bytes) (keyLen : ℤ) (ttl : Int64)
  | revoke (id : Bytes)
  | delete (id : Bytes)
  | cleanup (now : Instant)

namespace Call

/-- When the call looked at the clock, if it did. -/
def time : Call → Option Instant
  | .generate now _ _ _ _ | .store now _ _ _ | .rotate now _ _ _ _ _ | .cleanup now => some now
  | .revoke _ | .delete _ => none

/-- The id that the caller supplied. -/
def suppliedID : Call → Option Bytes
  | .generate _ _ id _ _ | .store _ id _ _ | .rotate _ _ _ id _ _
    | .revoke id | .delete id => some id
  | .cleanup _ => none

end Call

/-- What a call did: how it failed, if it did, and the keyring after it. -/
def outcome {α : Type} :
    Except (Failure KeyringError) α × Keyring → Option (Failure KeyringError) × Keyring
  | (.error err, kr) => (some err, kr)
  | (.ok _, kr) => (none, kr)

/-- One call. -/
def perform (kr : Keyring) : Call → Option (Failure KeyringError) × Keyring
  | .generate now random id keyLen ttl => outcome (kr.generate now random id keyLen ttl)
  | .store now id key ttl => outcome (kr.store now id key ttl)
  | .rotate now random random' id keyLen ttl =>
    outcome (kr.rotate now random random' id keyLen ttl)
  | .revoke id => outcome (kr.revoke id)
  | .delete id => (none, kr.delete id)
  | .cleanup now => (none, (kr.cleanup now).2)

/-- The name that a call archives a key under, if it does. -/
def archived (kr : Keyring) : Call → Option Bytes
  | .rotate _ random _ id _ _ =>
    if id ∈ kr.keys then (random.read 4).toOption.map (archiveName id) else none
  | _ => none

/-- An entry of the log of a run. -/
structure Event where
  call : Call
  error : Option (Failure KeyringError)
  archived : Option Bytes

/-- The keyring and its calls. -/
def machine : Machine Keyring Call Event where
  step kr call := (⟨call, (kr.perform call).1, kr.archived call⟩, (kr.perform call).2)

end Keyring

/-! ## The plain map -/

/-- A key, and the last time at which it can be used, if there is one. -/
structure ActiveKey where
  key : Bytes
  deadline : Option Instant
  deriving DecidableEq

/-- **What a keyring is for**: a map of active keys. -/
abbrev KeyMap := Bytes → Option ActiveKey

namespace KeyMap

/-- The deadline of a key that is set at `now`. Without a positive lifetime there is none; nor is
the zero time one. -/
def deadline (now : Instant) (ttl : Int64) : Option Instant :=
  if 0 < ttl ∧ now + ttl.toInt ≠ 0 then some (now + ttl.toInt) else none

/-- The id that a call sets, and what it sets it to. -/
def sets : Keyring.Call → Option (Bytes × Option ActiveKey)
  | .generate now random id keyLen ttl | .rotate now _ random id keyLen ttl =>
    match random.read (Keyring.keyLength keyLen) with
    | .error _ => none
    | .ok raw => some (id, some ⟨raw, deadline now ttl⟩)
  | .store now id key ttl => some (id, some ⟨key, deadline now ttl⟩)
  | .revoke id | .delete id => some (id, none)
  | .cleanup _ => none

/-- What a call sets an id to, if it sets it. -/
def setsID (id : Bytes) (call : Keyring.Call) : Option (Option ActiveKey) :=
  (sets call).bind fun s => if s.1 = id then some s.2 else none

/-- One call. -/
def apply (m : KeyMap) (call : Keyring.Call) : KeyMap :=
  match sets call with
  | none => m
  | some (id, v) => Function.update m id v

/-- The map after a sequence of calls. -/
def after (calls : List Keyring.Call) : KeyMap := calls.foldl apply fun _ => none

/-- The entry for an id, if its deadline has not passed at `t`. -/
def unexpired (m : KeyMap) (t : Instant) (id : Bytes) : Option ActiveKey :=
  (m id).filter fun a => a.deadline.all (t ≤ ·)

theorem apply_eq (m : KeyMap) (call : Keyring.Call) (id : Bytes) :
    m.apply call id = (setsID id call).getD (m id) := by
  unfold apply setsID
  cases sets call with
  | none => rfl
  | some s =>
    show Function.update m s.1 s.2 id = (if s.1 = id then some s.2 else none).getD (m id)
    split
    · next h => rw [h, Function.update_self, Option.getD_some]
    · next h => rw [Function.update_of_ne (Ne.symm h), Option.getD_none]

/-- **An id has what the last call for it set it to.** -/
theorem after_eq_lastSet (calls : List Keyring.Call) (id : Bytes) :
    after calls id = lastSet (setsID id) none calls := by
  unfold after lastSet
  refine (List.foldl_hom (fun m : KeyMap => m id) fun m call => ?_).symm
  exact (apply_eq m call id).symm

/-- A key that the map holds was set by a call after which no call set its id. -/
theorem exists_of_after_eq_some {calls : List Keyring.Call} {id : Bytes} {a : ActiveKey}
    (h : after calls id = some a) :
    ∃ before call later, calls = before ++ call :: later ∧ sets call = some (id, some a)
      ∧ ∀ other ∈ later, ∀ v, sets other ≠ some (id, v) := by
  rw [after_eq_lastSet, lastSet_eq_iff] at h
  obtain ⟨hnone, -⟩ | ⟨before, call, later, heq, hcall, hlater⟩ := h
  · exact (nomatch hnone)
  · refine ⟨before, call, later, heq, ?_, fun other hother v hsets => ?_⟩
    · obtain ⟨⟨i, v⟩, hsets, hv⟩ := Option.bind_eq_some_iff.mp hcall
      grind
    · have hother := hlater other hother
      simp [setsID, hsets] at hother

end KeyMap

/-! ## The keys that are active at a time to come -/

/-- What the plain map has of an entry. -/
def KeyEntry.toActive (e : KeyEntry) : ActiveKey :=
  ⟨e.key, if e.expiresAt = .zero then none else some e.expiresAt⟩

/-- An entry has expired when its deadline has passed. -/
theorem KeyEntry.all_deadline (e : KeyEntry) (t : Instant) :
    e.toActive.deadline.all (t ≤ ·) = !t.isAfterExpiry e.expiresAt := by
  unfold toActive Instant.isAfterExpiry
  by_cases hzero : e.expiresAt = .zero
  · simp [hzero]
  · simp only [hzero, if_false, Option.all_some, ne_eq, not_false_eq_true, true_and, ← decide_not,
      not_lt]

/-- An entry that is made at `now` has the deadline that the plain map has. -/
theorem KeyEntry.toActive_expiry (id key : Bytes) (now : Instant) (ttl : Int64) (revoked : Bool) :
    KeyEntry.toActive ⟨id, key, now, KeyEntry.expiry now ttl, revoked⟩
      = ⟨key, KeyMap.deadline now ttl⟩ := by
  unfold toActive KeyEntry.expiry KeyMap.deadline
  by_cases httl : 0 < ttl
  · by_cases hzero : now + ttl.toInt = 0
    · simp [httl, hzero, Instant.zero]
    · simp [httl, hzero, Instant.zero]
  · simp [httl]

namespace Keyring

/-- An entry that is neither revoked nor, at `t`, expired. -/
def isActive (t : Instant) (e : KeyEntry) : Bool := !e.revoked && !t.isAfterExpiry e.expiresAt

/-- The entry for an id, if it is active at `t`. -/
def active (kr : Keyring) (t : Instant) (id : Bytes) : Option KeyEntry :=
  (kr.keys.lookup id).filter (isActive t)

variable {kr kr' : Keyring} {t now : Instant} {id : Bytes} {e : KeyEntry}

theorem active_eq_some_iff :
    kr.active t id = some e ↔ kr.keys.lookup id = some e ∧ isActive t e = true :=
  Option.filter_eq_some_iff

theorem active_insert (kr : Keyring) (t : Instant) (id i : Bytes) (e : KeyEntry) :
    active ⟨kr.keys.insert id e⟩ t i
      = if i = id then (some e).filter (isActive t) else kr.active t i := by
  unfold active
  rw [Finmap.lookup_insert_eq_ite]
  split <;> rfl

theorem active_erase (kr : Keyring) (t : Instant) (id i : Bytes) :
    active ⟨kr.keys.erase id⟩ t i = if i = id then none else kr.active t i := by
  unfold active
  rw [Finmap.lookup_erase_eq_ite]
  split <;> rfl

/-- An expiry that has passed has passed for good. -/
theorem isAfterExpiry_of_le {u expiresAt : Instant} (hle : u ≤ t)
    (h : u.isAfterExpiry expiresAt = true) : t.isAfterExpiry expiresAt = true := by
  simp only [Instant.isAfterExpiry, decide_eq_true_eq] at h ⊢
  exact ⟨h.1, lt_of_lt_of_le h.2 hle⟩

/-- **Cleaning up is not observable** from then on. -/
theorem active_cleanup (kr : Keyring) (hnow : now ≤ t) (id : Bytes) :
    (kr.cleanup now).2.active t id = kr.active t id := by
  refine Option.ext fun e => ?_
  rw [active_eq_some_iff, active_eq_some_iff]
  show (Finmap.keep _ kr.keys).lookup id = some e ∧ _ ↔ _
  rw [Finmap.lookup_keep]
  refine ⟨fun ⟨⟨hlookup, _⟩, hactive⟩ => ⟨hlookup, hactive⟩,
    fun ⟨hlookup, hactive⟩ => ⟨⟨hlookup, ?_⟩, hactive⟩⟩
  -- what had expired at the cleanup has expired at `t` as well
  simp only [isActive, Bool.and_eq_true, Bool.not_eq_true'] at hactive
  simp only [hactive.1, decide_eq_true_eq, Bool.false_eq_true, false_or]
  intro hexpired
  rw [isAfterExpiry_of_le hnow hexpired] at hactive
  exact (nomatch hactive.2)

/-! ## The two agree -/

/-- **The keyring refines the plain map**, for what is active at `t`. No key is under one
of the names `N`, which are those that keys are archived under. -/
structure Refines (t : Instant) (N : List Bytes) (kr : Keyring) (m : KeyMap) : Prop where
  active : ∀ id, (kr.active t id).map KeyEntry.toActive = m.unexpired t id
  own : ∀ id e, kr.active t id = some e → e.id = id
  archive : ∀ id ∈ N, m id = none

variable {N : List Bytes} {m : KeyMap}

theorem refines_new (t : Instant) (N : List Bytes) : Refines t N new fun _ => none :=
  ⟨fun _ => rfl, fun _ _ h => (nomatch h), fun _ _ => rfl⟩

/-- Nothing is active under an archive name. -/
theorem Refines.active_eq_none (h : Refines t N kr m) (hid : id ∈ N) : kr.active t id = none := by
  have hmap := h.active id
  unfold KeyMap.unexpired at hmap
  rw [h.archive id hid] at hmap
  exact Option.map_eq_none_iff.mp hmap

/-- A call that sets one id. -/
theorem Refines.update (h : Refines t N kr m) (hid : id ∉ N) {v : Option ActiveKey}
    (hother : ∀ i, i ≠ id → kr'.active t i = kr.active t i)
    (hsame : (kr'.active t id).map KeyEntry.toActive = v.filter fun a => a.deadline.all (t ≤ ·))
    (hown : ∀ e, kr'.active t id = some e → e.id = id) :
    Refines t N kr' (Function.update m id v) where
  active i := by
    unfold KeyMap.unexpired
    by_cases hi : i = id
    · rw [hi, Function.update_self, hsame]
    · rw [Function.update_of_ne hi, hother i hi]
      exact h.active i
  own i e he := by
    by_cases hi : i = id
    · exact hi ▸ hown e (hi ▸ he)
    · exact h.own i e (hother i hi ▸ he)
  archive i hi := by
    have hne : i ≠ id := fun heq => hid (heq ▸ hi)
    rw [Function.update_of_ne hne]
    exact h.archive i hi

/-- A new entry is put under an id. -/
theorem Refines.insert (h : Refines t N kr m) (hid : id ∉ N) (key : Bytes) (now : Instant)
    (ttl : Int64) :
    Refines t N ⟨kr.keys.insert id ⟨id, key, now, KeyEntry.expiry now ttl, false⟩⟩
      (Function.update m id (some ⟨key, KeyMap.deadline now ttl⟩)) := by
  refine h.update hid (fun i hi => ?_) ?_ fun e he => ?_
  · rw [active_insert, if_neg hi]
  · rw [active_insert, if_pos rfl, ← KeyEntry.toActive_expiry id key now ttl false]
    simp only [Option.filter_some, isActive, Bool.not_false, Bool.true_and,
      KeyEntry.all_deadline]
    split <;> rfl
  · rw [active_insert, if_pos rfl] at he
    obtain ⟨hentry, -⟩ := Option.filter_eq_some_iff.mp he
    exact congrArg KeyEntry.id (Option.some.inj hentry).symm

/-- Nothing is active under an id any more. -/
theorem Refines.remove (h : Refines t N kr m) (hid : id ∉ N)
    (hactive : ∀ i, kr'.active t i = if i = id then none else kr.active t i) :
    Refines t N kr' (Function.update m id none) := by
  refine h.update hid (fun i hi => ?_) ?_ fun e he => ?_
  · rw [hactive, if_neg hi]
  · rw [hactive, if_pos rfl]
    rfl
  · rw [hactive, if_pos rfl] at he
    exact (nomatch he)

/-- An entry that is marked as revoked is no longer active. -/
theorem active_insert_revoked (kr : Keyring) (t : Instant) (id i : Bytes) (e : KeyEntry) :
    active ⟨kr.keys.insert id { e with revoked := true }⟩ t i
      = if i = id then none else kr.active t i := by
  rw [active_insert]
  rfl

/-- Archiving a key removes it: nothing was active under the archive name before, and
nothing is after. -/
theorem Refines.archive_key (h : Refines t N kr m) {oldID : Bytes} (hid : id ∉ N)
    (hold : id ∈ kr.keys → oldID ∈ N) :
    Refines t N (kr.archive id oldID) (Function.update m id none) := by
  refine h.remove hid fun i => ?_
  unfold Keyring.archive
  cases hlookup : kr.keys.lookup id with
  | none =>
    show kr.active t i = _
    split
    · next hi =>
      unfold Keyring.active
      rw [hi, hlookup]
      rfl
    · rfl
  | some old =>
    -- the entry is still there, revoked and under a name that no call can ask for
    have hmem : oldID ∈ N := hold (Finmap.mem_of_lookup_eq_some hlookup)
    show Keyring.active ⟨(kr.keys.insert oldID { old with revoked := true }).erase id⟩ t i = _
    rw [active_erase ⟨kr.keys.insert oldID { old with revoked := true }⟩, active_insert_revoked]
    split
    · rfl
    · split
      · next hi => rw [hi, h.active_eq_none hmem]
      · rfl

/-! Calls that succeed. -/

@[simp] theorem outcome_snd {α : Type} (x : Except (Failure KeyringError) α × Keyring) :
    (outcome x).2 = x.2 := by
  unfold outcome
  split <;> rfl

theorem outcome_fst_eq_none {α : Type} {x : Except (Failure KeyringError) α × Keyring}
    (h : (outcome x).1 = none) : ∃ a, x.1 = .ok a := by
  obtain ⟨_ | a, _⟩ := x
  · exact (nomatch h)
  · exact ⟨a, rfl⟩

theorem generate_of_ok {random : RandomSource} {keyLen : ℤ} {ttl : Int64}
    (h : (kr.generate now random id keyLen ttl).1 = .ok e) :
    ∃ raw, random.read (keyLength keyLen) = .ok raw ∧ (kr.generate now random id keyLen ttl).2
      = ⟨kr.keys.insert id ⟨id, raw, now, KeyEntry.expiry now ttl, false⟩⟩ := by
  unfold generate at h ⊢
  split at h
  · exact (nomatch h)
  · next hid =>
    rw [if_neg hid]
    cases random with
    | error err => exact (nomatch h)
    | ok byte => exact ⟨_, rfl, rfl⟩

theorem store_of_ok {key : Bytes} {ttl : Int64} {u : Unit}
    (h : (kr.store now id key ttl).1 = .ok u) : (kr.store now id key ttl).2
      = ⟨kr.keys.insert id ⟨id, key, now, KeyEntry.expiry now ttl, false⟩⟩ := by
  unfold store at h ⊢
  split at h
  · exact (nomatch h)
  · next hid => rw [if_neg hid]

theorem rotate_of_ok {random random' : RandomSource} {keyLen : ℤ} {ttl : Int64}
    (h : (kr.rotate now random random' id keyLen ttl).1 = .ok e) :
    ∃ suffix raw, random.read 4 = .ok suffix ∧ random'.read (keyLength keyLen) = .ok raw
      ∧ (kr.rotate now random random' id keyLen ttl).2
        = ⟨(kr.archive id (archiveName id suffix)).keys.insert id
            ⟨id, raw, now, KeyEntry.expiry now ttl, false⟩⟩ := by
  cases random with
  | error err => exact (nomatch h)
  | ok byte =>
    cases random' with
    | error err => exact (nomatch h)
    | ok byte' => exact ⟨_, _, rfl, rfl, rfl⟩

theorem revoke_of_ok {u : Unit} (h : (kr.revoke id).1 = .ok u) :
    ∃ e : KeyEntry, (kr.revoke id).2 = ⟨kr.keys.insert id { e with revoked := true }⟩ := by
  unfold revoke at h ⊢
  cases hlookup : kr.keys.lookup id with
  | none =>
    rw [hlookup] at h
    exact (nomatch h)
  | some entry => exact ⟨entry, rfl⟩

/-- **One call** that succeeds changes both alike. -/
theorem Refines.step (h : Refines t N kr m) {call : Call} (hok : (kr.perform call).1 = none)
    (hsupplied : ∀ id ∈ call.suppliedID, id ∉ N) (harchived : ∀ n ∈ kr.archived call, n ∈ N)
    (htime : ∀ u ∈ call.time, u ≤ t) : Refines t N (kr.perform call).2 (m.apply call) := by
  unfold KeyMap.apply
  cases call with
  | generate now random id keyLen ttl =>
    obtain ⟨e, he⟩ := outcome_fst_eq_none hok
    obtain ⟨raw, hraw, hkr⟩ := generate_of_ok he
    show Refines t N (outcome _).2 _
    rw [outcome_snd, hkr, KeyMap.sets, hraw]
    exact h.insert (hsupplied id rfl) raw now ttl
  | store now id key ttl =>
    obtain ⟨e, he⟩ := outcome_fst_eq_none hok
    show Refines t N (outcome _).2 _
    rw [outcome_snd, store_of_ok he]
    exact h.insert (hsupplied id rfl) key now ttl
  | rotate now random random' id keyLen ttl =>
    obtain ⟨e, he⟩ := outcome_fst_eq_none hok
    obtain ⟨suffix, raw, hsuffix, hraw, hkr⟩ := rotate_of_ok he
    have hold : id ∈ kr.keys → archiveName id suffix ∈ N := fun hmem =>
      harchived _ (by simp [Keyring.archived, hmem, hsuffix, Except.toOption])
    have hid : id ∉ N := hsupplied id rfl
    -- between the two updates the id has no key, which nobody sees: the lock is held
    have hinsert := (h.archive_key hid hold).insert hid raw now ttl
    show Refines t N (outcome _).2 _
    rw [outcome_snd, hkr, KeyMap.sets, hraw]
    rw [Function.update_idem] at hinsert
    exact hinsert
  | revoke id =>
    obtain ⟨e, he⟩ := outcome_fst_eq_none hok
    obtain ⟨entry, hkr⟩ := revoke_of_ok he
    show Refines t N (outcome _).2 _
    rw [outcome_snd, hkr]
    exact h.remove (hsupplied id rfl) fun i => active_insert_revoked kr t id i entry
  | delete id => exact h.remove (hsupplied id rfl) fun i => active_erase kr t id i
  | cleanup now =>
    have hactive : ∀ id, (kr.cleanup now).2.active t id = kr.active t id :=
      active_cleanup kr (htime now rfl)
    exact ⟨fun id => (congrArg _ (hactive id)).trans (h.active id),
      fun id e he => h.own id e ((hactive id).symm.trans he), h.archive⟩

/-- **A run** of calls that succeed changes both alike. -/
theorem Refines.after {calls : List Call} (h : Refines t N kr m)
    (hok : ∀ ev ∈ machine.answers kr calls, ev.error = none)
    (hsupplied : ∀ call ∈ calls, ∀ id ∈ call.suppliedID, id ∉ N)
    (harchived : ∀ ev ∈ machine.answers kr calls, ∀ n ∈ ev.archived, n ∈ N)
    (htime : ∀ call ∈ calls, ∀ u ∈ call.time, u ≤ t) :
    Refines t N (machine.after kr calls) (calls.foldl KeyMap.apply m) := by
  induction calls generalizing kr m with
  | nil => exact h
  | cons call calls ih =>
    rw [Machine.answers_cons, List.forall_mem_cons] at hok harchived
    rw [List.forall_mem_cons] at hsupplied htime
    exact ih (h.step hok.1 hsupplied.1 harchived.1 htime.1) hok.2 hsupplied.2 harchived.2 htime.2

/-! ## What is seen of it -/

/-- `Lookup` returns the active keys. -/
theorem lookup_eq_ok_iff : kr.lookup t id = .ok e ↔ kr.active t id = some e := by
  rw [active_eq_some_iff]
  unfold Keyring.lookup isActive
  cases kr.keys.lookup id with
  | none => simp
  | some entry =>
    show (if entry.revoked = true then _
      else if t.isAfterExpiry entry.expiresAt = true then _ else _) = _ ↔ _
    split_ifs with hrevoked hexpired <;> grind

/-- `Cleanup` keeps the active entries. -/
theorem lookup_cleanup :
    (kr.cleanup t).2.keys.lookup id = some e
      ↔ kr.keys.lookup id = some e ∧ isActive t e = true := by
  show (Finmap.keep _ kr.keys).lookup id = some e ↔ _
  rw [Finmap.lookup_keep]
  simp [isActive]

/-- What `Cleanup` removes and what it keeps is all there was. -/
theorem cleanup_card :
    (kr.cleanup t).1 + (kr.cleanup t).2.keys.entries.card = kr.keys.entries.card := by
  rw [← Finmap.card_filter_add_card_keep
    (fun e => decide ¬(e.revoked = true ∨ t.isAfterExpiry e.expiresAt = true)) kr.keys]
  simp only [cleanup, decide_eq_true_eq, Decidable.not_not]

/-- `ListActive` lists the active entries. -/
theorem listActive_eq :
    kr.listActive t = (Finmap.keep (isActive t) kr.keys).entries.map Sigma.snd := by
  unfold listActive Finmap.keep
  rw [Multiset.filter_map]
  simp [isActive]

theorem mem_entries_keep_iff :
    (⟨id, e⟩ : Sigma fun _ : Bytes => KeyEntry) ∈ (Finmap.keep (isActive t) kr.keys).entries
      ↔ kr.active t id = some e := by
  rw [← Finmap.lookup_eq_some_iff, Finmap.lookup_keep, active_eq_some_iff]

/-- An id, and what the plain map has for it. -/
def listing (e : KeyEntry) : Bytes × ActiveKey := (e.id, e.toActive)

/-- **Lookup** finds what the plain map has. -/
theorem Refines.lookup_iff (h : Refines t N kr m) (id : Bytes) (a : ActiveKey) :
    (∃ e, kr.lookup t id = .ok e ∧ listing e = (id, a)) ↔ m.unexpired t id = some a := by
  rw [← h.active id, Option.map_eq_some_iff]
  refine exists_congr fun e => ?_
  rw [lookup_eq_ok_iff]
  refine and_congr_right fun he => ?_
  show (e.id, e.toActive) = (id, a) ↔ _
  rw [Prod.mk.injEq, h.own id e he]
  exact and_iff_right rfl

/-- **ListActive** lists what the plain map has. -/
theorem Refines.mem_listActive_iff (h : Refines t N kr m) (id : Bytes) (a : ActiveKey) :
    (id, a) ∈ (kr.listActive t).map listing ↔ m.unexpired t id = some a := by
  rw [← h.lookup_iff, listActive_eq, Multiset.map_map, Multiset.mem_map]
  constructor
  · rintro ⟨⟨i, e⟩, hmem, he⟩
    have hactive : kr.active t i = some e := mem_entries_keep_iff.mp hmem
    have hid : i = id := (h.own i e hactive).symm.trans (congrArg Prod.fst he)
    exact ⟨e, lookup_eq_ok_iff.mpr (hid ▸ hactive), he⟩
  · rintro ⟨e, hlookup, he⟩
    exact ⟨⟨id, e⟩, mem_entries_keep_iff.mpr (lookup_eq_ok_iff.mp hlookup), he⟩

/-- It lists nothing twice. -/
theorem Refines.nodup_listActive (h : Refines t N kr m) :
    ((kr.listActive t).map listing).Nodup := by
  rw [listActive_eq, Multiset.map_map]
  refine Finmap.nodup_map_keep (g := Prod.fst) fun id e hmem => ?_
  exact h.own id e (mem_entries_keep_iff.mp hmem)

/-- **Cleanup** keeps the entries that the plain map has. -/
theorem Refines.lookup_cleanup_iff (h : Refines t N kr m) (id : Bytes) (e : KeyEntry) :
    (kr.cleanup t).2.keys.lookup id = some e
      ↔ kr.keys.lookup id = some e ∧ m.unexpired t id = some e.toActive := by
  rw [lookup_cleanup, ← h.active id]
  refine and_congr_right fun hlookup => ?_
  unfold Keyring.active
  rw [hlookup, Option.filter_some]
  split
  · next hactive => simp [hactive]
  · next hactive => simp [hactive]

/-- **The keyring refines a plain map of active keys.** Whatever calls were made, if all
of them succeeded and no caller used a name that a key was archived under, then at every
time `t` that the clock had not passed:
* `Lookup` finds the keys that the map holds and that have not expired, and no others;
* `ListActive` lists the same keys, each once;
* `Cleanup` keeps the same keys, and returns how many entries it removed;
* a key that `Lookup` returns was set by a call after which no call has replaced,
  revoked or deleted it.
-/
theorem refines_keyMap (calls : List Call)
    (hok : ∀ ev ∈ machine.answers new calls, ev.error = none)
    (harchive : ∀ call ∈ calls, ∀ id ∈ call.suppliedID,
      ∀ ev ∈ machine.answers new calls, ev.archived ≠ some id)
    (t : Instant) (hclock : ∀ call ∈ calls, ∀ now ∈ call.time, now ≤ t) :
    let kr := machine.after new calls
    let m := KeyMap.after calls
    (∀ id a, (∃ e, kr.lookup t id = .ok e ∧ listing e = (id, a)) ↔ m.unexpired t id = some a)
      ∧ ((kr.listActive t).map listing).Nodup
      ∧ (∀ id a, (id, a) ∈ (kr.listActive t).map listing ↔ m.unexpired t id = some a)
      ∧ (∀ id e, (kr.cleanup t).2.keys.lookup id = some e
          ↔ kr.keys.lookup id = some e ∧ m.unexpired t id = some e.toActive)
      ∧ (kr.cleanup t).1 + (kr.cleanup t).2.keys.entries.card = kr.keys.entries.card
      ∧ ∀ id e, kr.lookup t id = .ok e → ∃ before call later, calls = before ++ call :: later
          ∧ KeyMap.sets call = some (id, some e.toActive)
          ∧ ∀ other ∈ later, ∀ v, KeyMap.sets other ≠ some (id, v) := by
  intro kr m
  -- the archive names of the whole run
  let N := (machine.answers new calls).filterMap Event.archived
  have hN : ∀ n, n ∈ N ↔ ∃ ev ∈ machine.answers new calls, ev.archived = some n := fun n =>
    List.mem_filterMap
  have h : Refines t N kr m := by
    refine (refines_new t N).after hok (fun call hcall id hid hmem => ?_) (fun ev hev n hn => ?_)
      hclock
    · obtain ⟨ev, hev, heq⟩ := (hN id).mp hmem
      exact harchive call hcall id hid ev hev heq
    · exact (hN n).mpr ⟨ev, hev, hn⟩
  refine ⟨h.lookup_iff, h.nodup_listActive, h.mem_listActive_iff, h.lookup_cleanup_iff,
    cleanup_card, fun id e he => ?_⟩
  -- the key is the map's own, and the map says which call set it
  have hlisting : listing e = (id, e.toActive) :=
    congrArg (·, e.toActive) (h.own id e (lookup_eq_ok_iff.mp he))
  have hm := (Option.filter_eq_some_iff.mp ((h.lookup_iff id _).mp ⟨e, he, hlisting⟩)).1
  exact KeyMap.exists_of_after_eq_some hm

/-- A key is rotated, and a second one expires. -/
def rotation : List Call :=
  [.store 5 (ascii "k") [1] 0, .rotate 6 (.ok fun _ => 0) (.ok fun _ => 2) (ascii "k") 1 10,
    .store 7 (ascii "s") [3] 1, .cleanup 9]

theorem refines_keyMap_rotation :
    ∃ e, (machine.after new rotation).lookup 9 (ascii "k") = .ok e
      ∧ listing e = (ascii "k", ⟨[2], some 16⟩) := by
  have h := refines_keyMap rotation (by decide +kernel) (by decide +kernel) 9 (by decide +kernel)
  exact (h.1 (ascii "k") ⟨[2], some 16⟩).mpr (by decide +kernel)

/-! ## A rotation that fails

The two draws of a rotation come before and after the old key is moved. The source has a branch
for an error of either, and neither is ever taken. -/

/-- What is under a name after a key was archived. -/
theorem lookup_archive (kr : Keyring) (id oldID i : Bytes) :
    (kr.archive id oldID).keys.lookup i
      = if i = id then none
        else if i = oldID then
          ((kr.keys.lookup id).map fun old => { old with revoked := true }).or (kr.keys.lookup i)
        else kr.keys.lookup i := by
  unfold archive
  cases hlookup : kr.keys.lookup id with
  | none =>
    dsimp only
    split
    · next hi => rw [hi, hlookup]
    · exact (ite_self _).symm
  | some old =>
    dsimp only
    rw [Finmap.lookup_erase_eq_ite, Finmap.lookup_insert_eq_ite]
    rfl

/-- What a rotation can do: each draw fails or gives bytes. -/
theorem rotate_cases (kr : Keyring) (now : Instant) (random random' : RandomSource) (id : Bytes)
    (keyLen : ℤ) (ttl : Int64) :
    (∃ err, random = .error err
        ∧ kr.rotate now random random' id keyLen ttl = (.error (.fatal err), kr))
      ∨ (∃ bytes err, random = .ok bytes ∧ random' = .error err
        ∧ kr.rotate now random random' id keyLen ttl = (.error (.fatal err),
            kr.archive id (archiveName id ((List.range 4).map bytes))))
      ∨ ∃ bytes bytes', random = .ok bytes ∧ random' = .ok bytes'
        ∧ kr.rotate now random random' id keyLen ttl
          = let entry : KeyEntry := ⟨id, (List.range (keyLength keyLen)).map bytes', now,
              KeyEntry.expiry now ttl, false⟩
            (.ok entry, ⟨(kr.archive id
              (archiveName id ((List.range 4).map bytes))).keys.insert id entry⟩) := by
  cases random with
  | error err => exact .inl ⟨err, rfl, rfl⟩
  | ok bytes =>
    cases random' with
    | error err => exact .inr (.inl ⟨bytes, err, rfl, rfl, rfl⟩)
    | ok bytes' => exact .inr (.inr ⟨bytes, bytes', rfl, rfl, rfl⟩)

section Rotate

variable (kr : Keyring) (now : Instant) (random random' : RandomSource) (id : Bytes) (keyLen : ℤ)
  (ttl : Int64)

/-- The branches for an error of `rand.Read` are never taken. -/
theorem rotate_ne_returned (err : KeyringError) :
    (kr.rotate now random random' id keyLen ttl).1 ≠ .error (.returned err) := by
  intro herr
  rcases rotate_cases kr now random random' id keyLen ttl with
    ⟨_, -, hrotate⟩ | ⟨_, _, -, -, hrotate⟩ | ⟨_, _, -, -, hrotate⟩
  · rw [hrotate] at herr
    cases herr
  · rw [hrotate] at herr
    cases herr
  · rw [hrotate] at herr
    cases herr

/-- The process ends in a rotation exactly if a draw fails. -/
theorem rotate_fatal_iff :
    (∃ err, (kr.rotate now random random' id keyLen ttl).1 = .error (.fatal err)) ↔
      (∃ err, random = .error err) ∨ ∃ err, random' = .error err := by
  rcases rotate_cases kr now random random' id keyLen ttl with
    ⟨err, rfl, hrotate⟩ | ⟨bytes, err, rfl, rfl, hrotate⟩ | ⟨bytes, bytes', rfl, rfl, hrotate⟩
  · exact iff_of_true ⟨err, by rw [hrotate]⟩ (.inl ⟨err, rfl⟩)
  · exact iff_of_true ⟨err, by rw [hrotate]⟩ (.inr ⟨err, rfl⟩)
  · rw [hrotate]
    refine iff_of_false (fun ⟨_, h⟩ => (nomatch h)) ?_
    rintro (⟨_, h⟩ | ⟨_, h⟩)
    · cases h
    · cases h

/-- **A rotation is all or nothing**, for every keyring and whatever each of the two draws does.
If it returned an error, the keyring would be as before, with everything that `Lookup` and
`ListActive` show of it. But it returns none: it ends the process exactly if one of the draws
fails, and otherwise it returns the new key, which is then under its name. The old key is under the
archive name, revoked, and nothing else has changed. -/
theorem rotate_all_or_nothing (kr : Keyring) (now : Instant) (random random' : RandomSource)
    (id : Bytes) (keyLen : ℤ) (ttl : Int64) :
    let rotated := kr.rotate now random random' id keyLen ttl
    (∀ err, rotated.1 = .error (.returned err) →
        rotated.2 = kr ∧ (∀ t i, rotated.2.lookup t i = kr.lookup t i)
          ∧ ∀ t, rotated.2.listActive t = kr.listActive t)
      ∧ (∀ err, rotated.1 ≠ .error (.returned err))
      ∧ ((∃ err, rotated.1 = .error (.fatal err)) ↔
        (∃ err, random = .error err) ∨ ∃ err, random' = .error err)
      ∧ ∀ e, rotated.1 = .ok e → ∃ bytes bytes', random = .ok bytes ∧ random' = .ok bytes'
        ∧ e = ⟨id, (List.range (keyLength keyLen)).map bytes', now, KeyEntry.expiry now ttl, false⟩
        ∧ ∀ i, rotated.2.keys.lookup i
          = if i = id then some e
            else if i = archiveName id ((List.range 4).map bytes) then
              ((kr.keys.lookup id).map fun old => { old with revoked := true }).or
                (kr.keys.lookup i)
            else kr.keys.lookup i := by
  have hnone := rotate_ne_returned kr now random random' id keyLen ttl
  refine ⟨fun err herr => absurd herr (hnone err), hnone,
    rotate_fatal_iff kr now random random' id keyLen ttl, fun e he => ?_⟩
  rcases rotate_cases kr now random random' id keyLen ttl with
    ⟨err, -, hrotate⟩ | ⟨bytes, err, -, -, hrotate⟩ | ⟨bytes, bytes', hrandom, hrandom', hrotate⟩
  · rw [hrotate] at he
    cases he
  · rw [hrotate] at he
    cases he
  · rw [hrotate] at he ⊢
    cases he
    refine ⟨bytes, bytes', hrandom, hrandom', rfl, fun i => ?_⟩
    dsimp only
    rw [Finmap.lookup_insert_eq_ite, lookup_archive]
    split
    · rfl
    · rfl

end Rotate

/-! ## What the inserting calls guard -/

/-- Every key has a name and at least one byte, and every key that has not been revoked is
under its own name. -/
structure WellNamed (kr : Keyring) : Prop where
  named : [] ∉ kr.keys
  nonempty : ∀ id e, kr.keys.lookup id = some e → e.key ≠ []
  own : ∀ id e, kr.keys.lookup id = some e → e.revoked = false → e.id = id

/-- The call rotates the key with the empty name, and both of its draws succeed. -/
def Call.RotatesUnnamed : Call → Prop
  | .rotate _ random random' id _ _ =>
    id = [] ∧ (∃ bytes, random = .ok bytes) ∧ ∃ bytes, random' = .ok bytes
  | _ => False

theorem keyLength_pos (keyLen : ℤ) : 0 < keyLength keyLen := by
  unfold keyLength
  split <;> omega

theorem read_ne_nil {random : RandomSource} {n : ℕ} {raw : Bytes} (hn : 0 < n)
    (h : random.read n = .ok raw) : raw ≠ [] := by
  cases random with
  | error err => exact (nomatch h)
  | ok bytes =>
    obtain rfl : (List.range n).map bytes = raw := Except.ok.inj h
    rw [Ne, List.map_eq_nil_iff, List.range_eq_nil]
    exact hn.ne'

theorem archiveName_ne_nil (id suffix : Bytes) : archiveName id suffix ≠ [] := by
  unfold archiveName
  simp [ascii]

namespace WellNamed

theorem of_new : WellNamed new :=
  ⟨Finmap.notMem_empty, fun _ _ h => (nomatch h), fun _ _ h => (nomatch h)⟩

/-- An entry is put under a name. -/
theorem insert (h : WellNamed kr) (hid : id ≠ []) (hkey : e.key ≠ [])
    (hown : e.revoked = false → e.id = id) : WellNamed ⟨kr.keys.insert id e⟩ where
  named hmem := (Finmap.mem_insert.mp hmem).elim (fun heq => hid heq.symm) h.named
  nonempty i e' hlookup := by
    rw [Finmap.lookup_insert_eq_ite] at hlookup
    split at hlookup
    · exact Option.some.inj hlookup ▸ hkey
    · exact h.nonempty i e' hlookup
  own i e' hlookup hrevoked := by
    rw [Finmap.lookup_insert_eq_ite] at hlookup
    split at hlookup
    · next hi =>
      obtain rfl := Option.some.inj hlookup
      exact hi ▸ hown hrevoked
    · exact h.own i e' hlookup hrevoked

/-- Entries are removed. -/
theorem of_subset (h : WellNamed kr)
    (hsub : ∀ id e, kr'.keys.lookup id = some e → kr.keys.lookup id = some e) : WellNamed kr' where
  named hmem := by
    obtain ⟨e, he⟩ := Finmap.mem_iff.mp hmem
    exact h.named (Finmap.mem_of_lookup_eq_some (hsub [] e he))
  nonempty id e he := h.nonempty id e (hsub id e he)
  own id e he := h.own id e (hsub id e he)

theorem erase (h : WellNamed kr) (id : Bytes) : WellNamed ⟨kr.keys.erase id⟩ :=
  h.of_subset fun i e he => by
    rw [Finmap.lookup_erase_eq_ite] at he
    split at he
    · exact (nomatch he)
    · exact he

theorem archive (h : WellNamed kr) (id suffix : Bytes) :
    WellNamed (kr.archive id (archiveName id suffix)) := by
  unfold Keyring.archive
  cases hlookup : kr.keys.lookup id with
  | none => exact h
  | some old =>
    have hinsert :
        WellNamed ⟨kr.keys.insert (archiveName id suffix) { old with revoked := true }⟩ :=
      h.insert (archiveName_ne_nil id suffix) (h.nonempty id old hlookup) (fun h => (nomatch h))
    exact hinsert.erase id

/-- **One call** keeps the names in order, unless it rotates the empty name. -/
theorem perform (h : WellNamed kr) {call : Call} (hcall : ¬call.RotatesUnnamed) :
    WellNamed (kr.perform call).2 := by
  cases call with
  | generate now random id keyLen ttl =>
    show WellNamed (outcome _).2
    rw [outcome_snd]
    unfold Keyring.generate
    split
    · exact h
    · next hid =>
      cases random with
      | error err => exact h
      | ok bytes =>
        have hraw : RandomSource.read (.ok bytes) (keyLength keyLen) = .ok _ := rfl
        exact h.insert hid (read_ne_nil (keyLength_pos keyLen) hraw) fun _ => rfl
  | store now id key ttl =>
    show WellNamed (outcome _).2
    rw [outcome_snd]
    unfold Keyring.store
    split
    · exact h
    · next hguard =>
      rw [not_or] at hguard
      exact h.insert hguard.1 hguard.2 fun _ => rfl
  | rotate now random random' id keyLen ttl =>
    show WellNamed (outcome _).2
    rw [outcome_snd]
    obtain ⟨err, -, hrotate⟩ | ⟨bytes, err, -, -, hrotate⟩
      | ⟨bytes, bytes', hrandom, hrandom', hrotate⟩ :=
        rotate_cases kr now random random' id keyLen ttl
    · rw [hrotate]
      exact h
    · rw [hrotate]
      exact h.archive id _
    · have hid : id ≠ [] := fun hid => hcall ⟨hid, ⟨bytes, hrandom⟩, bytes', hrandom'⟩
      have hraw : RandomSource.read (.ok bytes') (keyLength keyLen)
          = .ok ((List.range (keyLength keyLen)).map bytes') := rfl
      rw [hrotate]
      exact (h.archive id _).insert hid (read_ne_nil (keyLength_pos keyLen) hraw) fun _ => rfl
  | revoke id =>
    show WellNamed (outcome _).2
    rw [outcome_snd]
    unfold Keyring.revoke
    cases hlookup : kr.keys.lookup id with
    | none => exact h
    | some entry =>
      have hid : id ≠ [] := fun hid => h.named (hid ▸ Finmap.mem_of_lookup_eq_some hlookup)
      exact h.insert hid (h.nonempty id entry hlookup) fun h => (nomatch h)
  | delete id => exact h.erase id
  | cleanup now => exact h.of_subset fun id e he => (lookup_cleanup.mp he).1

end WellNamed

/-- A rotation of the empty name stores a key under it. -/
theorem mem_perform_of_rotatesUnnamed (kr : Keyring) {call : Call} (h : call.RotatesUnnamed) :
    [] ∈ (kr.perform call).2.keys := by
  cases call with
  | rotate now random random' id keyLen ttl =>
    obtain ⟨rfl, ⟨bytes, rfl⟩, bytes', rfl⟩ := h
    show [] ∈ (outcome _).2.keys
    rw [outcome_snd]
    exact Finmap.mem_insert.mpr (.inl rfl)
  | generate | store | revoke | delete | cleanup => exact h.elim

/-- **The names are in order along a run** – no key under the empty name, none without
bytes, none under another's name unless it is revoked – exactly when no call of the run
rotates the empty name. -/
theorem wellNamed_along_iff (calls : List Call) :
    (∀ earlier, earlier <+: calls → WellNamed (machine.after new earlier))
      ↔ ∀ call ∈ calls, ¬call.RotatesUnnamed := by
  constructor
  · intro h call hcall hrotates
    obtain ⟨before, later, rfl⟩ := List.append_of_mem hcall
    have hprefix : before ++ [call] <+: before ++ call :: later := ⟨later, by simp⟩
    have hnamed := (h _ hprefix).named
    rw [Machine.after_concat] at hnamed
    exact hnamed (mem_perform_of_rotatesUnnamed _ hrotates)
  · rintro h earlier ⟨later, rfl⟩
    have hearlier : ∀ call ∈ earlier, ¬call.RotatesUnnamed := fun call hcall =>
      h call (List.mem_append_left later hcall)
    clear h
    -- one call at a time, from the last one
    induction earlier using List.reverseRecOn with
    | nil => exact WellNamed.of_new
    | append_singleton earlier call ih =>
      rw [Machine.after_concat]
      rw [List.forall_mem_append, List.forall_mem_singleton] at hearlier
      exact (ih hearlier.1).perform hearlier.2

/-- The empty name is rotated on a new keyring: a key is stored under it. -/
theorem rotate_stores_unnamed :
    let kr := machine.after new [.rotate 5 (.ok fun _ => 0) (.ok fun _ => 1) [] 1 0]
    kr.keys.lookup [] = some ⟨[], [1], 5, .zero, false⟩ ∧ ¬WellNamed kr := by
  refine ⟨by decide +kernel, fun h => h.named ?_⟩
  exact Finmap.mem_of_lookup_eq_some (b := ⟨[], [1], 5, .zero, false⟩) (by decide +kernel)

end Keyring
