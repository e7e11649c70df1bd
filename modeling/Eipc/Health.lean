import Eipc.Auth

/-!
# The health service

`health.Service` (`services/health/health.go`) keeps, for every service that a heartbeat has
named, the status and the time of the last one. A service is alive while that time is not
longer ago than the timeout.

After any sequence of heartbeats a service is alive exactly if the last heartbeat that names
it is recent enough (`Health.Service.isAlive_after_iff`), and `LivePeers` has one entry for each
service that is alive, with what that heartbeat said (`Health.Service.livePeers_after`). If the
clock does not run backwards any heartbeat will do (`Health.Service.isAlive_after_iff_exists`), so
that a service whose heartbeats come at most the timeout apart is alive at every time from the
first one on (`Health.Service.isAlive_of_regular`).
-/

namespace Health

/-- `PeerStatus`: what is known of a service. -/
structure PeerStatus where
  serviceID : Bytes
  status : Bytes
  lastSeen : Instant
  deriving DecidableEq

/-- `Service`. The durations are in nanoseconds. -/
structure Service where
  peers : Finmap (fun _ : Bytes => PeerStatus)
  interval : Int64
  timeout : Int64

namespace Service

/-- `NewService`: five seconds and fifteen, unless they are given. -/
def new (interval timeout : Int64) : Service where
  peers := ∅
  interval := if interval = 0 then 5000000000 else interval
  timeout := if timeout = 0 then 15000000000 else timeout

/-- `RecordHeartbeat`. -/
def recordHeartbeat (s : Service) (now : Instant) (serviceID status : Bytes) : Service :=
  { s with peers := s.peers.insert serviceID ⟨serviceID, status, now⟩ }

/-- The service has been heard from within the timeout. -/
def isRecent (s : Service) (now : Instant) (p : PeerStatus) : Bool :=
  Instant.since now p.lastSeen ≤ s.timeout.toInt

/-- `IsAlive`. -/
def isAlive (s : Service) (now : Instant) (serviceID : Bytes) : Bool :=
  match s.peers.lookup serviceID with
  | none => false
  | some peer => s.isRecent now peer

/-- `AllPeers`. The order is the one of a map of the source, which is none. -/
def allPeers (s : Service) : Multiset PeerStatus := s.peers.entries.map Sigma.snd

/-- `LivePeers`. -/
def livePeers (s : Service) (now : Instant) : Multiset PeerStatus :=
  s.allPeers.filter fun p => s.isRecent now p = true

end Service

/-- A call of `RecordHeartbeat`. -/
structure Beat where
  now : Instant
  serviceID : Bytes
  status : Bytes
  deriving DecidableEq

/-- What the service knows after the heartbeat. -/
def Beat.peer (b : Beat) : PeerStatus := ⟨b.serviceID, b.status, b.now⟩

namespace Service

/-- The service, heartbeat by heartbeat. -/
def machine : Machine Service Beat Unit where
  step s b := ((), s.recordHeartbeat b.now b.serviceID b.status)

variable {s : Service} {beats : List Beat} {now : Instant} {id : Bytes}

theorem isAlive_iff :
    s.isAlive now id = true ↔ ∃ p, s.peers.lookup id = some p ∧ s.isRecent now p = true := by
  unfold isAlive
  cases s.peers.lookup id with
  | none => exact ⟨fun h => (nomatch h), fun ⟨_, h, _⟩ => (nomatch h)⟩
  | some peer =>
    refine ⟨fun h => ⟨peer, rfl, h⟩, ?_⟩
    rintro ⟨_, ⟨⟩, h⟩
    exact h

theorem lookup_step (s : Service) (b : Beat) (id : Bytes) :
    (machine.step s b).2.peers.lookup id
      = if id = b.serviceID then some b.peer else s.peers.lookup id :=
  Finmap.lookup_insert_eq_ite s.peers b.serviceID id b.peer

/-- Heartbeats do not change the configuration. -/
theorem timeout_after (s : Service) (beats : List Beat) :
    (machine.after s beats).timeout = s.timeout :=
  Machine.after_invariant (I := fun s' : Service => s'.timeout = s.timeout) (fun _ _ h => h) rfl
    beats

theorem isRecent_after_iff (p : PeerStatus) :
    (machine.after s beats).isRecent now p = true ↔
      Instant.since now p.lastSeen ≤ s.timeout.toInt := by
  rw [isRecent, timeout_after, decide_eq_true_iff]

/-- **What is known of a service after a run** is what the last heartbeat that names it
said. -/
theorem lookup_after_iff {p : PeerStatus} (hnone : s.peers.lookup id = none) :
    (machine.after s beats).peers.lookup id = some p ↔
      Since (fun b => b.serviceID = id ∧ b.peer = p) (fun b => b.serviceID = id) beats := by
  refine Machine.after_iff_since (m := machine) (I := fun _ => True)
    (P := fun s => s.peers.lookup id = some p) (fun _ _ _ => trivial) (fun s b _ => ?_) trivial
    (by rw [hnone]; exact nofun) beats
  rw [lookup_step]
  by_cases hid : id = b.serviceID
  · rw [if_pos hid, Option.some_inj]
    exact ⟨fun h => .inl ⟨hid.symm, h⟩, fun h => h.elim And.right fun h => absurd hid.symm h.2⟩
  · rw [if_neg hid]
    exact ⟨fun h => .inr ⟨h, fun h' => hid h'.symm⟩,
      fun h => h.elim (fun h => absurd h.1.symm hid) And.left⟩

/-- **A service is alive exactly if the last heartbeat that names it is recent.** -/
theorem isAlive_after_iff (hnone : s.peers.lookup id = none) :
    (machine.after s beats).isAlive now id = true ↔
      Since (fun b => b.serviceID = id ∧ Instant.since now b.now ≤ s.timeout.toInt)
        (fun b => b.serviceID = id) beats := by
  rw [isAlive_iff]
  constructor
  · rintro ⟨p, hlookup, hp⟩
    obtain ⟨l₁, b, l₂, rfl, ⟨hb, rfl⟩, hl₂⟩ := (lookup_after_iff hnone).mp hlookup
    exact ⟨l₁, b, l₂, rfl, ⟨hb, (isRecent_after_iff b.peer).mp hp⟩, hl₂⟩
  · rintro ⟨l₁, b, l₂, rfl, ⟨hb, htime⟩, hl₂⟩
    exact ⟨b.peer, (lookup_after_iff hnone).mpr ⟨l₁, b, l₂, rfl, ⟨hb, rfl⟩, hl₂⟩,
      (isRecent_after_iff b.peer).mpr htime⟩

/-- The same with the plain difference of the times. -/
theorem isAlive_after_iff_sub_le (hnone : s.peers.lookup id = none)
    (htimeout : s.timeout.toInt < 2 ^ 63 - 1) :
    (machine.after s beats).isAlive now id = true ↔
      Since (fun b => b.serviceID = id ∧ now - b.now ≤ s.timeout.toInt)
        (fun b => b.serviceID = id) beats := by
  rw [isAlive_after_iff hnone]
  simp only [Instant.since_le_iff_sub_le htimeout]

/-! ## The services that are alive -/

/-- `LivePeers` lists what is known of a service, if that is recent. -/
theorem mem_livePeers_iff {p : PeerStatus} (hnamed : ∀ id p, s.peers.lookup id = some p →
    p.serviceID = id) :
    p ∈ s.livePeers now ↔ s.peers.lookup p.serviceID = some p ∧ s.isRecent now p = true := by
  rw [livePeers, Multiset.mem_filter, allPeers, Multiset.mem_map]
  refine and_congr_left fun _ => ⟨?_, fun hlookup => ?_⟩
  · rintro ⟨⟨id, p'⟩, hmem, rfl⟩
    have hlookup := Finmap.lookup_eq_some_iff.mpr hmem
    obtain rfl := hnamed id p' hlookup
    exact hlookup
  · exact ⟨⟨p.serviceID, p⟩, Finmap.lookup_eq_some_iff.mp hlookup, rfl⟩

/-- Every service is listed once. -/
theorem nodup_livePeers (hnamed : ∀ id p, s.peers.lookup id = some p → p.serviceID = id)
    (now : Instant) : ((s.livePeers now).map PeerStatus.serviceID).Nodup := by
  have hkeys : s.allPeers.map PeerStatus.serviceID = s.peers.entries.keys := by
    rw [allPeers, Multiset.map_map]
    refine Multiset.map_congr rfl fun ⟨id, p⟩ hmem => ?_
    exact hnamed id p (Finmap.lookup_eq_some_iff.mpr hmem)
  refine Multiset.nodup_of_le (Multiset.map_le_map (Multiset.filter_le _ _)) ?_
  rw [hkeys]
  exact Multiset.nodup_keys.mpr s.peers.nodupKeys

/-- **The services that are alive**, after any heartbeats to a new service. `LivePeers` and
`IsAlive` agree; no service is listed twice; and it is listed exactly with what the last heartbeat
that names it said, if that one is recent. -/
theorem livePeers_after (interval timeout : Int64) (beats : List Beat) (now : Instant) :
    let s := machine.after (new interval timeout) beats
    (∀ id, s.isAlive now id = true ↔ ∃ p ∈ s.livePeers now, p.serviceID = id)
      ∧ ((s.livePeers now).map PeerStatus.serviceID).Nodup
      ∧ ∀ p, p ∈ s.livePeers now ↔
        Since (fun b => b.peer = p ∧ Instant.since now b.now ≤ (new interval timeout).timeout.toInt)
          (fun b => b.serviceID = p.serviceID) beats := by
  intro s
  have hlookup : ∀ id p, s.peers.lookup id = some p ↔
      Since (fun b => b.serviceID = id ∧ b.peer = p) (fun b => b.serviceID = id) beats :=
    fun id p => lookup_after_iff rfl
  have hnamed : ∀ id p, s.peers.lookup id = some p → p.serviceID = id := by
    intro id p h
    obtain ⟨_, b, _, _, ⟨hb, rfl⟩, _⟩ := (hlookup id p).mp h
    exact hb
  refine ⟨fun id => ?_, nodup_livePeers hnamed now, fun p => ?_⟩
  · rw [isAlive_iff]
    constructor
    · rintro ⟨p, hp, hrecent⟩
      obtain rfl := hnamed id p hp
      exact ⟨p, (mem_livePeers_iff hnamed).mpr ⟨hp, hrecent⟩, rfl⟩
    · rintro ⟨p, hp, rfl⟩
      exact ⟨p, (mem_livePeers_iff hnamed).mp hp⟩
  · rw [mem_livePeers_iff hnamed, hlookup, isRecent_after_iff]
    constructor
    · rintro ⟨⟨l₁, b, l₂, hl, ⟨-, rfl⟩, hl₂⟩, htime⟩
      exact ⟨l₁, b, l₂, hl, ⟨rfl, htime⟩, hl₂⟩
    · rintro ⟨l₁, b, l₂, hl, ⟨rfl, htime⟩, hl₂⟩
      exact ⟨⟨l₁, b, l₂, hl, ⟨rfl, rfl⟩, hl₂⟩, htime⟩

/-! ## A clock that does not run backwards -/

theorem since_le_of_le {t u : Instant} {d : ℤ} (htu : t ≤ u) (h : Instant.since now t ≤ d) :
    Instant.since now u ≤ d :=
  le_trans (max_le_max_left _ (min_le_min_left _ (Int.sub_le_sub_left htu now))) h

theorem since_le {t : Instant} {d : Int64} (h : now - t ≤ d.toInt) :
    Instant.since now t ≤ d.toInt :=
  max_le d.le_toInt ((min_le_right _ _).trans h)

/-- What some entry did and later entries do again has been done. -/
theorem since_of_mem {α : Type} {did names : α → Prop} {l : List α}
    (hagain : l.Pairwise fun a b => did a → names b → did b) (h : ∃ a ∈ l, did a) :
    Since did names l := by
  induction l with
  | nil =>
    obtain ⟨a, ha, -⟩ := h
    exact absurd ha List.not_mem_nil
  | cons a l ih =>
    obtain ⟨hhead, htail⟩ := List.pairwise_cons.mp hagain
    by_cases hlater : ∃ b ∈ l, did b
    · obtain ⟨l₁, b, l₂, rfl, hb, hl₂⟩ := ih htail hlater
      exact ⟨a :: l₁, b, l₂, rfl, hb, hl₂⟩
    · obtain ⟨b, hb, hdidb⟩ := h
      obtain rfl | hb := List.mem_cons.mp hb
      · exact ⟨[], b, l, rfl, hdidb, fun c hc hnames => hlater ⟨c, hc, hhead c hc hdidb hnames⟩⟩
      · exact absurd ⟨b, hb, hdidb⟩ hlater

/-- **With a clock that does not run backwards**, a service is alive exactly if some
heartbeat that names it is recent. -/
theorem isAlive_after_iff_exists (hnone : s.peers.lookup id = none)
    (hclock : beats.Pairwise fun b c => b.now ≤ c.now) :
    (machine.after s beats).isAlive now id = true ↔
      ∃ b ∈ beats, b.serviceID = id ∧ Instant.since now b.now ≤ s.timeout.toInt := by
  rw [isAlive_after_iff hnone]
  constructor
  · rintro ⟨l₁, b, l₂, rfl, hb, -⟩
    exact ⟨b, List.mem_append_right l₁ List.mem_cons_self, hb⟩
  · refine fun h => since_of_mem (hclock.imp ?_) h
    intro b c hbc hb hc
    exact ⟨hc, since_le_of_le hbc hb.2⟩

/-- **Regular heartbeats keep a service alive.** If they come at most the timeout apart, the
service is alive at every time from the first one on. -/
theorem isAlive_of_regular (hnone : s.peers.lookup id = none)
    (hclock : beats.Pairwise fun b c => b.now ≤ c.now) (arrival : ℕ → Instant)
    (hgap : ∀ k, arrival (k + 1) ≤ arrival k + s.timeout.toInt) (hfirst : arrival 0 ≤ now)
    (hlater : ∃ k, now < arrival k)
    (hheard : ∀ k, arrival k ≤ now → ∃ b ∈ beats, b.serviceID = id ∧ b.now = arrival k) :
    (machine.after s beats).isAlive now id = true := by
  -- the heartbeat that is due next is not the first one, and the one before it has come
  have hnext := Nat.find_spec hlater
  have hpast : ∀ k < Nat.find hlater, arrival k ≤ now := fun k hk =>
    not_lt.mp (Nat.find_min hlater hk)
  generalize Nat.find hlater = k at hnext hpast
  cases k with
  | zero => exact absurd hfirst (not_le.mpr hnext)
  | succ k =>
    obtain ⟨b, hb, hid, htime⟩ := hheard k (hpast k (Nat.lt_succ_self k))
    refine (isAlive_after_iff_exists hnone hclock).mpr ⟨b, hb, hid, since_le ?_⟩
    rw [htime]
    exact Int.sub_left_le_of_le_add (hnext.le.trans (hgap k))

/-- Heartbeats ten nanoseconds apart, and a timeout of fifteen. -/
theorem isAlive_of_regular_three :
    (machine.after (new 0 15) [⟨0, [1], []⟩, ⟨10, [1], []⟩, ⟨20, [1], []⟩]).isAlive 29 [1]
      = true := by
  refine isAlive_of_regular rfl (by decide) (fun k => 10 * k) (fun k => ?_) (by decide)
    ⟨3, by decide⟩ fun k hk => ?_
  · show (10 : ℤ) * (k + 1 : ℕ) ≤ 10 * k + 15
    omega
  · have hlt : k < 3 := by
      have hle : (10 : ℤ) * k ≤ 29 := hk
      omega
    interval_cases k
    · exact ⟨⟨0, [1], []⟩, by decide, rfl, rfl⟩
    · exact ⟨⟨10, [1], []⟩, by decide, rfl, rfl⟩
    · exact ⟨⟨20, [1], []⟩, by decide, rfl, rfl⟩

end Service

end Health
