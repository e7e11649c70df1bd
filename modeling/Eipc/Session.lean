import Eipc.Auth

/-!
# Sessions

What `ValidateSession` says of a token depends on the whole history of the
authenticator: on who was admitted under it and when, on the lifetime that was
configured then, and on whether it was revoked since. Three things make a session
go away – it expires, it is revoked, it is removed in the background after it
expired – and only the last leaves no trace in what can be observed.

For a fixed token and a fixed time to come, whether the session is live then
(`Authenticator.live`) is a register of the authenticator: opening the session sets
it, revoking clears it, and no other call touches it, `CleanupExpired` included
(`Authenticator.live_step`). So it can be read off the log of the calls
(`Authenticator.validateSession_iff`). The only assumption on the clock is that it
does not go back.
-/

open Bytes

/-! ## Lifetimes -/

/-- A session that was created at `createdAt` with the lifetime `ttl` has not
expired at `t`. -/
def Lives (ttl : Int64) (createdAt t : Instant) : Prop :=
  ttl ≤ 0 ∨ Instant.since t createdAt ≤ ttl.toInt

/-- Short of the longest lifetime it is the difference of the times that is compared with it. -/
theorem lives_iff_sub_le {ttl : Int64} (h : ttl.toInt < 2 ^ 63 - 1) (createdAt t : Instant) :
    Lives ttl createdAt t ↔ ttl ≤ 0 ∨ t - createdAt ≤ ttl.toInt :=
  or_congr_right (Instant.since_le_iff_sub_le h t createdAt)

namespace PeerIdentity

variable {p : PeerIdentity} {t u : Instant}

theorem isExpired_eq_false_iff : p.isExpired t = false ↔ Lives p.sessionTTL p.createdAt t := by
  unfold isExpired Lives
  split
  · next h => exact ⟨fun _ => .inl h, fun _ => rfl⟩
  · next h => rw [decide_eq_false_iff_not, not_lt, or_iff_right h]

/-- What has expired stays expired. -/
theorem isExpired_of_le (hut : u ≤ t) (h : p.isExpired u = true) : p.isExpired t = true := by
  by_contra hlive
  rw [Bool.not_eq_true, isExpired_eq_false_iff] at hlive
  rw [← Bool.not_eq_false, isExpired_eq_false_iff] at h
  refine h (hlive.imp_right fun hle => le_trans ?_ hle)
  unfold Instant.since
  gcongr

end PeerIdentity

namespace Authenticator

variable {Conn : Type} {a b : Authenticator} {t : Instant}

/-! ## Logs -/

/-- The time at which a call reads the clock. -/
def Call.time : Call → Option Instant
  | .createChallenge now _ _ => some now
  | .verifyResponse now _ _ _ => some now
  | .authenticate now _ _ => some now
  | .setSessionTTL _ => none
  | .revokeSession _ => none
  | .cleanupExpired now => some now

/-- No call of the sequence reads a later time than `t`. -/
def Until (t : Instant) (calls : List (Conn × Call)) : Prop :=
  ∀ i ∈ calls, ∀ u ∈ i.2.time, u ≤ t

namespace Event

/-- The peer that was admitted. -/
def peer (e : Event Conn) : Option PeerIdentity :=
  match e.answer with
  | .peer (.ok p) => some p
  | _ => none

/-- The token that was issued. -/
def token (e : Event Conn) : Option Bytes := e.peer.map (·.sessionToken)

/-- **A session was opened**: `Authenticate` or `VerifyResponse` was called for the
service at the time, and returned the token. -/
def Opens (e : Event Conn) (serviceID : Bytes) (now : Instant) (token : Bytes) : Prop :=
  e.token = some token
    ∧ ((∃ draw, e.call = .authenticate now draw serviceID)
      ∨ ∃ draw response, e.call = .verifyResponse now draw serviceID response)

/-- The session was revoked. -/
def revokes (e : Event Conn) (token : Bytes) : Bool :=
  match e.call with
  | .revokeSession tok => tok = token
  | _ => false

/-- What the call made of the session under the token, as far as it is live at
`t`. -/
def setsLive (t : Instant) (token : Bytes) (e : Event Conn) : Option (Option PeerIdentity) :=
  if e.revokes token then some none
  else
    match e.peer with
    | none => none
    | some p =>
      if p.sessionToken = token then some (if p.isExpired t then none else some p) else none

end Event

/-- The lifetime of new sessions after the log. -/
def ttlInForce (log : List (Event Conn)) : Int64 := lastSet (·.call.ttl) 3600000000000 log

/-! ## Live sessions -/

variable {token : Bytes}

/-- The session under the token, if it is valid at `t`. -/
def live (a : Authenticator) (t : Instant) (token : Bytes) : Option PeerIdentity :=
  (a.validateSession t token).toOption

theorem live_eq_some_iff {p : PeerIdentity} :
    a.live t token = some p ↔
      a.activeSessions.lookup token = some p ∧ p.isExpired t = false := by
  unfold live validateSession
  cases a.activeSessions.lookup token with
  | none => exact ⟨fun h => (nomatch h), fun h => (nomatch h.1)⟩
  | some q =>
    dsimp only
    by_cases hq : q.isExpired t = true
    · rw [if_pos hq]
      refine ⟨fun h => (nomatch h), ?_⟩
      rintro ⟨⟨⟩, h⟩
      exact absurd hq (Bool.eq_false_iff.mp h)
    · rw [if_neg hq]
      refine ⟨?_, ?_⟩
      · rintro ⟨⟩
        exact ⟨rfl, Bool.eq_false_iff.mpr hq⟩
      · rintro ⟨⟨⟩, -⟩
        rfl

theorem validateSession_eq_ok_iff {p : PeerIdentity} :
    a.validateSession t token = .ok p ↔ a.live t token = some p := by
  unfold live
  cases a.validateSession t token with
  | error err => exact ⟨fun h => (nomatch h), fun h => (nomatch h)⟩
  | ok q => exact ⟨fun h => congrArg some (Except.ok.inj h),
      fun h => congrArg _ (Option.some.inj h)⟩

/-- Whether a session is live depends on the sessions alone. -/
theorem live_congr (h : a.activeSessions = b.activeSessions) : a.live t token = b.live t token := by
  unfold live validateSession
  rw [h]

/-- What is live after a call that answered `res` and opened a session if it
succeeded. -/
def liveAfter (t : Instant) (token : Bytes) (old : Option PeerIdentity) :
    Except AuthError PeerIdentity → Option PeerIdentity
  | .error _ => old
  | .ok p => if p.sessionToken = token then (if p.isExpired t then none else some p) else old

theorem live_openSession (a : Authenticator) (now : Instant) (draw : Draw) (s : Bytes) :
    (a.openSession now draw s).2.live t token
      = liveAfter t token (a.live t token) (a.openSession now draw s).1 := by
  cases draw with
  | error err => rfl
  | ok b =>
    show live { a with activeSessions := a.activeSessions.insert (toHex b) _ } t token
      = if toHex b = token then _ else _
    by_cases h : toHex b = token
    · rw [if_pos h]
      unfold live validateSession
      rw [← h, Finmap.lookup_insert]
      dsimp only
      split <;> rfl
    · rw [if_neg h]
      unfold live validateSession
      rw [Finmap.lookup_insert_of_ne _ (Ne.symm h)]

theorem live_verifyResponse (a : Authenticator) (now : Instant) (draw : Draw) (s response : Bytes) :
    (a.verifyResponse now draw s response).2.live t token
      = liveAfter t token (a.live t token) (a.verifyResponse now draw s response).1 := by
  unfold verifyResponse
  cases a.pendingChallenges.lookup s with
  | none => rfl
  | some challenge =>
    dsimp only
    split
    · exact live_congr rfl
    · exact live_openSession { a with pendingChallenges := a.pendingChallenges.erase s } now draw s

theorem live_authenticate (a : Authenticator) (now : Instant) (draw : Draw) (s : Bytes) :
    (a.authenticate now draw s).2.live t token
      = liveAfter t token (a.live t token) (a.authenticate now draw s).1 := by
  unfold authenticate
  split
  · rfl
  · exact live_openSession a now draw s

theorem live_createChallenge (a : Authenticator) (now : Instant) (draw : Draw) (s : Bytes) :
    (a.createChallenge now draw s).2.live t token = a.live t token := by
  unfold createChallenge
  split
  · rfl
  · cases draw with
    | error err => rfl
    | ok nonce => exact live_congr rfl

theorem live_revokeSession (a : Authenticator) (tok : Bytes) :
    (a.revokeSession tok).live t token = if tok = token then none else a.live t token := by
  unfold live validateSession revokeSession
  by_cases h : tok = token
  · rw [if_pos h, h, Finmap.lookup_erase]
    rfl
  · rw [if_neg h, Finmap.lookup_erase_ne (Ne.symm h)]

/-- What `CleanupExpired` leaves are the sessions that have not expired. -/
theorem lookup_cleanupExpired {now : Instant} {a : Authenticator} {p : PeerIdentity} :
    (a.cleanupExpired now).2.activeSessions.lookup token = some p ↔
      a.activeSessions.lookup token = some p ∧ p.isExpired now = false := by
  rw [← Bool.not_eq_true']
  exact Finmap.lookup_keep

/-- **Removing expired sessions is not observable** from then on. -/
theorem live_cleanupExpired {now : Instant} (h : now ≤ t) (a : Authenticator) :
    (a.cleanupExpired now).2.live t token = a.live t token := by
  refine Option.ext fun p => ?_
  rw [live_eq_some_iff, live_eq_some_iff, lookup_cleanupExpired]
  refine ⟨fun ⟨⟨hp, _⟩, hlive⟩ => ⟨hp, hlive⟩, fun ⟨hp, hlive⟩ => ⟨⟨hp, ?_⟩, hlive⟩⟩
  by_contra hexpired
  rw [Bool.not_eq_false] at hexpired
  rw [PeerIdentity.isExpired_of_le h hexpired] at hlive
  exact (nomatch hlive)

/-- **One call, and whether a session is live.** -/
theorem live_step (token : Bytes) (a : Authenticator) {i : Conn × Call}
    (hi : ∀ u ∈ i.2.time, u ≤ t) :
    ((machine Conn).step a i).2.live t token
      = (((machine Conn).step a i).1.setsLive t token).getD (a.live t token) := by
  have hopened : ∀ res : Except AuthError PeerIdentity, ∀ c call,
      Event.revokes (⟨c, call, .peer res⟩ : Event Conn) token = false →
      liveAfter t token (a.live t token) res
        = (Event.setsLive t token ⟨c, call, .peer res⟩).getD (a.live t token) := by
    intro res c call hcall
    unfold Event.setsLive
    rw [hcall]
    cases res with
    | error err => rfl
    | ok p =>
      show (if p.sessionToken = token then _ else _)
        = Option.getD (if p.sessionToken = token then _ else _) _
      split <;> rfl
  obtain ⟨c, call⟩ := i
  cases call with
  | createChallenge now draw s => exact live_createChallenge a now draw s
  | verifyResponse now draw s response =>
    exact (live_verifyResponse a now draw s response).trans (hopened _ _ _ rfl)
  | authenticate now draw s => exact (live_authenticate a now draw s).trans (hopened _ _ _ rfl)
  | setSessionTTL ttl => exact live_congr rfl
  | revokeSession tok =>
    refine (live_revokeSession a tok).trans ?_
    show _ = Option.getD (if decide (tok = token) = true then some none else none) _
    by_cases h : tok = token
    · rw [if_pos h, if_pos (decide_eq_true h)]
      rfl
    · rw [if_neg h, if_neg (mt of_decide_eq_true h)]
      rfl
  | cleanupExpired now => exact live_cleanupExpired (hi now rfl) a

/-! ## Who is admitted -/

variable {known : Finmap (fun _ : Bytes => List Bytes)} {p : PeerIdentity}

/-- The services are those of the construction, and challenges are pending for them
only. -/
structure Serves (known : Finmap (fun _ : Bytes => List Bytes)) (a : Authenticator) : Prop where
  services : a.knownServices = known
  pending : ∀ s, a.pendingNonce s ≠ none → s ∈ known

theorem serves_new (secret : Bytes) (known : Finmap (fun _ : Bytes => List Bytes)) :
    Serves known (new secret known) :=
  ⟨rfl, fun _ hs => absurd rfl hs⟩

theorem serves_step (a : Authenticator) (i : Conn × Call) (h : Serves known a) :
    Serves known ((machine Conn).step a i).2 := by
  obtain ⟨sessions, challenges, hstep⟩ := exists_perform_eq a i.2
  refine ⟨?_, fun s hs => ?_⟩
  · show (a.perform i.2).2.knownServices = known
    rw [hstep]
    exact h.services
  · obtain ⟨c, call⟩ := i
    cases call with
    | createChallenge now draw s' =>
      change (a.createChallenge now draw s').2.pendingNonce s ≠ none at hs
      rw [pendingNonce_createChallenge] at hs
      unfold createChallenge at hs
      by_cases hs' : s' ∈ a.knownServices
      · rw [if_neg (not_not.mpr hs')] at hs
        cases draw with
        | error err => exact h.pending s hs
        | ok nonce =>
          by_cases heq : s' = s
          · exact heq ▸ h.services ▸ hs'
          · exact h.pending s (fun hnone => hs ((if_neg heq).trans hnone))
      · rw [if_pos hs'] at hs
        exact h.pending s hs
    | verifyResponse now draw s' response =>
      change (a.verifyResponse now draw s' response).2.pendingNonce s ≠ none at hs
      rw [pendingNonce_verifyResponse] at hs
      split at hs
      · exact absurd rfl hs
      · exact h.pending s hs
    | authenticate now draw s' =>
      change (a.authenticate now draw s').2.pendingNonce s ≠ none at hs
      rw [pendingNonce_authenticate] at hs
      exact h.pending s hs
    | setSessionTTL ttl => exact h.pending s hs
    | revokeSession token => exact h.pending s hs
    | cleanupExpired now => exact h.pending s hs

/-- Only a known service is sent a challenge. -/
theorem mem_of_createChallenge {now : Instant} {draw : Draw} {s : Bytes} {challenge : Challenge}
    (h : (a.createChallenge now draw s).1 = .ok challenge) : s ∈ a.knownServices := by
  unfold createChallenge at h
  split at h
  · exact (nomatch h)
  · next hs => exact not_not.mp hs

/-- What a session that is opened for a known service records. -/
theorem openSession_eq_ok {now : Instant} {draw : Draw} {s : Bytes} (hs : s ∈ a.knownServices)
    (h : (a.openSession now draw s).1 = .ok p) :
    p.serviceID = s ∧ p.createdAt = now ∧ a.knownServices.lookup s = some p.capabilities
      ∧ p.sessionTTL = a.sessionTTL := by
  obtain ⟨caps, hcaps⟩ := Finmap.mem_iff.mp hs
  cases draw with
  | error err => exact (nomatch h)
  | ok b =>
    cases h
    refine ⟨rfl, rfl, ?_, rfl⟩
    show _ = some ((a.knownServices.lookup s).getD [])
    rw [hcaps]
    rfl

/-- What is recorded of a peer whose response is accepted. -/
theorem Serves.verifyResponse (h : Serves known a) {now : Instant} {draw : Draw}
    {s response : Bytes} (hp : (a.verifyResponse now draw s response).1 = .ok p) :
    p.serviceID = s ∧ p.createdAt = now ∧ known.lookup s = some p.capabilities
      ∧ p.sessionTTL = a.sessionTTL := by
  unfold Authenticator.verifyResponse at hp
  split at hp
  · cases hp
  · next challenge hlookup =>
    have hs : s ∈ a.knownServices :=
      h.services ▸ h.pending s (by rw [pendingNonce, hlookup]; exact Option.some_ne_none _)
    dsimp only at hp
    split at hp
    · cases hp
    · rw [← h.services]
      exact openSession_eq_ok (a := { a with pendingChallenges := a.pendingChallenges.erase s })
        hs hp

/-- The session of a peer whose response is accepted is in the table. -/
theorem lookup_of_verifyResponse {now : Instant} {draw : Draw} {s response : Bytes}
    (h : a.verifyResponse now draw s response = (.ok p, b)) :
    b.activeSessions.lookup p.sessionToken = some p := by
  unfold verifyResponse at h
  split at h
  · exact (nomatch (Prod.mk.inj h).1)
  · dsimp only at h
    split at h
    · exact (nomatch (Prod.mk.inj h).1)
    · cases draw with
      | error err => exact (nomatch (Prod.mk.inj h).1)
      | ok bytes =>
        cases h
        exact Finmap.lookup_insert _

/-- **What is recorded of a peer that is admitted**: the service it was admitted
for, the time, what the service was given at construction, and the lifetime in
force. -/
theorem Serves.admits (h : Serves known a) {i : Conn × Call}
    (hp : ((machine Conn).step a i).1.peer = some p) :
    ((machine Conn).step a i).1.Opens p.serviceID p.createdAt p.sessionToken
      ∧ known.lookup p.serviceID = some p.capabilities ∧ p.sessionTTL = a.sessionTTL := by
  obtain ⟨c, call⟩ := i
  have hok : ∀ {res : Except AuthError PeerIdentity},
      Event.peer (⟨c, call, .peer res⟩ : Event Conn) = some p → res = .ok p := by
    intro res hres
    cases res with
    | error err => exact (nomatch hres)
    | ok q => exact congrArg _ (Option.some.inj hres)
  have htoken : ((machine Conn).step a (c, call)).1.token = some p.sessionToken :=
    congrArg (Option.map _) hp
  cases call with
  | createChallenge now draw s => exact (nomatch hp)
  | verifyResponse now draw s response =>
    obtain ⟨rfl, rfl, hcaps, httl⟩ := h.verifyResponse (hok hp)
    exact ⟨⟨htoken, .inr ⟨draw, response, rfl⟩⟩, hcaps, httl⟩
  | authenticate now draw s =>
    have hres : (a.authenticate now draw s).1 = .ok p := hok hp
    unfold authenticate at hres
    split at hres
    · exact (nomatch hres)
    · next hs =>
      obtain ⟨rfl, rfl, hcaps, httl⟩ := openSession_eq_ok (not_not.mp hs) hres
      exact ⟨⟨htoken, .inl ⟨draw, rfl⟩⟩, h.services ▸ hcaps, httl⟩
  | setSessionTTL ttl => exact (nomatch hp)
  | revokeSession tok => exact (nomatch hp)
  | cleanupExpired now => exact (nomatch hp)

/-- The configured lifetime is a register. -/
theorem sessionTTL_step (a : Authenticator) (i : Conn × Call) :
    ((machine Conn).step a i).2.sessionTTL
      = (((machine Conn).step a i).1.call.ttl).getD a.sessionTTL := by
  obtain ⟨sessions, challenges, h⟩ := exists_perform_eq a i.2
  show (a.perform i.2).2.sessionTTL = _
  rw [h]
  rfl

/-! ## What the log says of a token -/

namespace Event

variable {e : Event Conn}

theorem setsLive_eq_some_iff :
    e.setsLive t token = some (some p) ↔
      e.revokes token = false ∧ e.peer = some p ∧ p.sessionToken = token
        ∧ p.isExpired t = false := by
  unfold setsLive
  cases e.revokes token with
  | true => simp
  | false =>
    cases e.peer with
    | none => simp
    | some q => grind

theorem setsLive_eq_none_iff :
    e.setsLive t token = none ↔ e.revokes token = false ∧ e.token ≠ some token := by
  unfold setsLive Event.token
  cases e.revokes token with
  | true => simp
  | false =>
    cases e.peer with
    | none => simp
    | some q => simp

/-- The call says for which service and when a session was opened. -/
theorem Opens.eq {s s' tok tok' : Bytes} {now now' : Instant} (h : e.Opens s now tok)
    (h' : e.Opens s' now' tok') : s = s' ∧ now = now' := by
  rcases h.2 with ⟨draw, hcall⟩ | ⟨draw, response, hcall⟩ <;>
    rcases h'.2 with ⟨draw', hcall'⟩ | ⟨draw', response', hcall'⟩ <;>
    cases hcall.symm.trans hcall' <;> exact ⟨rfl, rfl⟩

theorem Opens.revokes_eq_false {s tok : Bytes} {now : Instant} (h : e.Opens s now tok)
    (token : Bytes) : e.revokes token = false := by
  unfold revokes
  rcases h.2 with ⟨draw, hcall⟩ | ⟨draw, response, hcall⟩ <;> rw [hcall]

/-- Where tokens do not repeat, a token was issued once. -/
theorem token_ne_of_nodup {log₁ log₂ : List (Event Conn)}
    (h : ((log₁ ++ e :: log₂).filterMap Event.token).Nodup) (he : e.token = some token) :
    ∀ e' ∈ log₁ ++ log₂, e'.token ≠ some token := by
  intro e' he' htoken
  rw [List.filterMap_append, List.filterMap_cons_some he, List.nodup_middle,
    ← List.filterMap_append] at h
  exact (List.nodup_cons.mp h).1 (List.mem_filterMap.mpr ⟨e', he', htoken⟩)

end Event

section Run

variable (secret : Bytes) {calls : List (Conn × Call)} {log₁ log₂ : List (Event Conn)}
  {e : Event Conn}

/-- **What is live after a run** is the session that was opened last under the
token, if it was not revoked since. -/
theorem live_after_iff (hcalls : Until t calls) :
    ((machine Conn).after (new secret known) calls).live t token = some p ↔
      ∃ log₁ e log₂, (machine Conn).answers (new secret known) calls = log₁ ++ e :: log₂
        ∧ (e.revokes token = false ∧ e.peer = some p ∧ p.sessionToken = token
          ∧ p.isExpired t = false)
        ∧ ∀ e' ∈ log₂, e'.revokes token = false ∧ e'.token ≠ some token := by
  have hread := Machine.read_after_of_mem (m := machine Conn) (r := fun a => a.live t token)
    (f := Event.setsLive t token) (fun a i hi => live_step token a (hcalls i hi)) (new secret known)
  have hnew : (new secret known).live t token ≠ some p := fun h => (nomatch h)
  simp only [hread, lastSet_eq_iff, Event.setsLive_eq_some_iff, Event.setsLive_eq_none_iff]
  exact or_iff_right fun h => hnew h.1

/-- What is recorded of a peer that is admitted in the middle of a run. -/
theorem admitted_of_answers_eq
    (h : (machine Conn).answers (new secret known) calls = log₁ ++ e :: log₂)
    (hp : e.peer = some p) :
    e.Opens p.serviceID p.createdAt p.sessionToken
      ∧ known.lookup p.serviceID = some p.capabilities ∧ p.sessionTTL = ttlInForce log₁ := by
  obtain ⟨calls₁, i, calls₂, rfl, rfl, rfl⟩ := Machine.exists_of_answers_eq h
  have hserves := Machine.after_invariant (m := machine Conn) serves_step
    (serves_new secret known) calls₁
  obtain ⟨hopens, hcaps, httl⟩ := hserves.admits hp
  exact ⟨hopens, hcaps,
    httl.trans (Machine.read_after sessionTTL_step (new secret known) calls₁)⟩

end Run

/-! ## Cleaning up -/

/-- The two differ in their sessions only, and not in those that are live at `t` -/
def Alike (t : Instant) (a b : Authenticator) : Prop :=
  (∃ sessions, b = { a with activeSessions := sessions })
    ∧ ∀ token, b.live t token = a.live t token

/-- The same result, and states that differ in their sessions only. -/
def SameButSessions {α : Type} (x y : α × Authenticator) : Prop :=
  (∃ sessions, y.2 = { x.2 with activeSessions := sessions }) ∧ y.1 = x.1

section Sessions

variable (a : Authenticator) (sessions : Finmap (fun _ : Bytes => PeerIdentity)) (now : Instant)
  (draw : Draw) (s : Bytes)

theorem openSession_withSessions :
    SameButSessions (a.openSession now draw s)
      ({ a with activeSessions := sessions }.openSession now draw s) := by
  cases draw with
  | error err => exact ⟨⟨_, rfl⟩, rfl⟩
  | ok bytes => exact ⟨⟨_, rfl⟩, rfl⟩

theorem createChallenge_withSessions :
    SameButSessions (a.createChallenge now draw s)
      ({ a with activeSessions := sessions }.createChallenge now draw s) := by
  unfold createChallenge
  by_cases hs : s ∈ a.knownServices
  · rw [if_neg (not_not.mpr hs), if_neg (not_not.mpr hs)]
    cases draw with
    | error err => exact ⟨⟨_, rfl⟩, rfl⟩
    | ok nonce => exact ⟨⟨_, rfl⟩, rfl⟩
  · rw [if_pos hs, if_pos hs]
    exact ⟨⟨_, rfl⟩, rfl⟩

theorem verifyResponse_withSessions (response : Bytes) :
    SameButSessions (a.verifyResponse now draw s response)
      ({ a with activeSessions := sessions }.verifyResponse now draw s response) := by
  unfold verifyResponse
  cases a.pendingChallenges.lookup s with
  | none => exact ⟨⟨_, rfl⟩, rfl⟩
  | some challenge =>
    dsimp only
    by_cases hmac : hmacSha256 a.sharedSecret challenge.nonce = response
    · rw [if_neg (not_not.mpr hmac), if_neg (not_not.mpr hmac)]
      exact openSession_withSessions { a with pendingChallenges := _ } sessions now draw s
    · rw [if_pos hmac, if_pos hmac]
      exact ⟨⟨_, rfl⟩, rfl⟩

theorem authenticate_withSessions :
    SameButSessions (a.authenticate now draw s)
      ({ a with activeSessions := sessions }.authenticate now draw s) := by
  unfold authenticate
  by_cases hs : s ∈ a.knownServices
  · rw [if_neg (not_not.mpr hs), if_neg (not_not.mpr hs)]
    exact openSession_withSessions a sessions now draw s
  · rw [if_pos hs, if_pos hs]
    exact ⟨⟨_, rfl⟩, rfl⟩

end Sessions

/-- A call does not depend on the sessions, but for what `CleanupExpired` counts. -/
theorem perform_withSessions (a : Authenticator)
    (sessions : Finmap (fun _ : Bytes => PeerIdentity)) (i : Conn × Call) :
    let b := { a with activeSessions := sessions }
    (∃ sessions', ((machine Conn).step b i).2
        = { ((machine Conn).step a i).2 with activeSessions := sessions' })
      ∧ ∀ t token, ((machine Conn).step b i).1.setsLive t token
        = ((machine Conn).step a i).1.setsLive t token := by
  intro b
  obtain ⟨c, call⟩ := i
  cases call with
  | createChallenge now draw s =>
    exact ⟨(createChallenge_withSessions a sessions now draw s).1, fun t token => rfl⟩
  | verifyResponse now draw s response =>
    obtain ⟨hstate, hresult⟩ := verifyResponse_withSessions a sessions now draw s response
    refine ⟨hstate, fun t token => ?_⟩
    show Event.setsLive t token ⟨c, _, .peer (b.verifyResponse now draw s response).1⟩ = _
    rw [hresult]
    rfl
  | authenticate now draw s =>
    obtain ⟨hstate, hresult⟩ := authenticate_withSessions a sessions now draw s
    refine ⟨hstate, fun t token => ?_⟩
    show Event.setsLive t token ⟨c, _, .peer (b.authenticate now draw s).1⟩ = _
    rw [hresult]
    rfl
  | setSessionTTL ttl => exact ⟨⟨_, rfl⟩, fun t token => rfl⟩
  | revokeSession tok => exact ⟨⟨_, rfl⟩, fun t token => rfl⟩
  | cleanupExpired now => exact ⟨⟨_, rfl⟩, fun t token => rfl⟩

theorem Alike.step {i : Conn × Call} (hi : ∀ u ∈ i.2.time, u ≤ t) (h : Alike t a b) :
    Alike t ((machine Conn).step a i).2 ((machine Conn).step b i).2 := by
  obtain ⟨⟨sessions, rfl⟩, hlive⟩ := h
  obtain ⟨hrest, hsets⟩ := perform_withSessions a sessions i
  refine ⟨hrest, fun token => ?_⟩
  rw [live_step token _ hi, live_step token a hi, hsets, hlive]

/-- **`CleanupExpired` could as well not have been called.** -/
theorem live_after_cleanupExpired (secret : Bytes) {calls₁ calls₂ : List (Conn × Call)} {c : Conn}
    {now : Instant} (hcalls : Until t (calls₁ ++ (c, .cleanupExpired now) :: calls₂)) :
    ((machine Conn).after (new secret known) (calls₁ ++ (c, .cleanupExpired now) :: calls₂)).live
        t token
      = ((machine Conn).after (new secret known) (calls₁ ++ calls₂)).live t token := by
  obtain ⟨-, hcalls⟩ := List.forall_mem_append.mp hcalls
  obtain ⟨hnow, hcalls⟩ := List.forall_mem_cons.mp hcalls
  rw [Machine.after_append, Machine.after_append, Machine.after_cons]
  refine (Machine.after_related_of_mem (R := Alike t)
    (fun a b i hi => Alike.step (hcalls i hi)) ⟨⟨_, rfl⟩, fun token => ?_⟩).2 token
  exact live_cleanupExpired (hnow now rfl) _

/-- What `CleanupExpired` returns is the number of sessions it drops, and those are
the expired ones. -/
theorem cleanupExpired_spec (a : Authenticator) (now : Instant) :
    (a.cleanupExpired now).1 + (a.cleanupExpired now).2.activeSessionCount = a.activeSessionCount
      ∧ ∀ token p, (a.cleanupExpired now).2.activeSessions.lookup token = some p ↔
        a.activeSessions.lookup token = some p ∧ p.isExpired now = false := by
  refine ⟨?_, fun token p => lookup_cleanupExpired⟩
  have hcard := Finmap.card_filter_add_card_keep (fun p : PeerIdentity => !p.isExpired now)
    a.activeSessions
  simp only [Bool.not_eq_true', Bool.not_eq_false] at hcard
  exact hcard

/-! ## When a session is valid -/

/-- **When `ValidateSession` succeeds.** After any sequence of calls, none of them
later than `t`, and if no token was issued twice: a token is valid at `t` exactly
when a session was opened under it, was not revoked since, and has not outlived the
lifetime in force when it was opened. Then what is returned is the service the
session was opened for, with the capabilities it was given at construction. Leaving
out a call of `CleanupExpired` changes none of this; it returns how many sessions it
drops, and drops those that have expired. -/
theorem validateSession_iff (secret : Bytes) (known : Finmap (fun _ : Bytes => List Bytes))
    (calls : List (Conn × Call)) (t : Instant) (token : Bytes) (hcalls : Until t calls)
    (htokens : (((machine Conn).answers (new secret known) calls).filterMap Event.token).Nodup) :
    let a := (machine Conn).after (new secret known) calls
    let log := (machine Conn).answers (new secret known) calls
    ((∃ p, a.validateSession t token = .ok p) ↔
        ∃ log₁ e log₂ s createdAt, log = log₁ ++ e :: log₂ ∧ e.Opens s createdAt token
          ∧ (∀ e' ∈ log₂, e'.revokes token = false) ∧ Lives (ttlInForce log₁) createdAt t)
      ∧ (∀ p, a.validateSession t token = .ok p → ∀ e ∈ log, ∀ s createdAt,
        e.Opens s createdAt token → p.serviceID = s ∧ known.lookup s = some p.capabilities)
      ∧ (∀ calls₁ c now calls₂, calls = calls₁ ++ (c, .cleanupExpired now) :: calls₂ →
        (a.validateSession t token).toOption
          = (((machine Conn).after (new secret known) (calls₁ ++ calls₂)).validateSession
            t token).toOption)
      ∧ ∀ now, (a.cleanupExpired now).1 + (a.cleanupExpired now).2.activeSessionCount
          = a.activeSessionCount
        ∧ ∀ tok p, (a.cleanupExpired now).2.activeSessions.lookup tok = some p ↔
          a.activeSessions.lookup tok = some p ∧ p.isExpired now = false := by
  intro a log
  have hlive : ∀ {p}, a.validateSession t token = .ok p ↔ _ :=
    validateSession_eq_ok_iff.trans (live_after_iff secret hcalls)
  refine ⟨⟨?_, ?_⟩, ?_, ?_, cleanupExpired_spec a⟩
  · rintro ⟨p, hp⟩
    obtain ⟨log₁, e, log₂, hlog, ⟨-, hpeer, rfl, hunexpired⟩, hlater⟩ := hlive.mp hp
    obtain ⟨hopens, -, httl⟩ := admitted_of_answers_eq secret hlog hpeer
    rw [PeerIdentity.isExpired_eq_false_iff, httl] at hunexpired
    exact ⟨log₁, e, log₂, _, _, hlog, hopens, fun e' he' => (hlater e' he').1, hunexpired⟩
  · rintro ⟨log₁, e, log₂, s, createdAt, hlog, hopens, hrevoked, hlives⟩
    obtain ⟨p, hpeer, htoken⟩ := Option.map_eq_some_iff.mp hopens.1
    obtain ⟨hadmitted, -, httl⟩ := admitted_of_answers_eq secret hlog hpeer
    obtain ⟨rfl, rfl⟩ := hopens.eq hadmitted
    refine ⟨p, hlive.mpr ⟨log₁, e, log₂, hlog,
      ⟨hopens.revokes_eq_false token, hpeer, htoken, ?_⟩, fun e' he' => ⟨hrevoked e' he', ?_⟩⟩⟩
    · rw [PeerIdentity.isExpired_eq_false_iff, httl]
      exact hlives
    · change (log.filterMap Event.token).Nodup at htokens
      rw [hlog] at htokens
      exact Event.token_ne_of_nodup htokens hopens.1 e' (List.mem_append_right log₁ he')
  · intro p hp e he s createdAt hopens
    obtain ⟨log₁, e', log₂, hlog, ⟨-, hpeer, htoken, -⟩, -⟩ := hlive.mp hp
    obtain ⟨hadmitted, hcaps, -⟩ := admitted_of_answers_eq secret hlog hpeer
    -- the token was issued once, so this is the event that issued it
    have heq : e = e' := by
      by_contra hne
      rw [hlog] at htokens
      change e ∈ (machine Conn).answers (new secret known) calls at he
      rw [hlog, List.mem_append, List.mem_cons, or_iff_right (a := e = e') hne] at he
      exact Event.token_ne_of_nodup htokens (hadmitted.1.trans (congrArg some htoken)) e
        (List.mem_append.mpr he) hopens.1
    obtain ⟨rfl, -⟩ := hopens.eq (heq ▸ hadmitted)
    exact ⟨rfl, hcaps⟩
  · rintro calls₁ c now calls₂ rfl
    exact live_after_cleanupExpired secret hcalls

/-- Two sessions with different lifetimes; the one that expired was removed, the
other is valid. -/
theorem validateSession_iff_two_sessions :
    let calls : List (ℕ × Call) :=
      [(0, .authenticate 0 (constantDraw 1) [0x73]), (0, .setSessionTTL 5),
        (1, .authenticate 1 (constantDraw 2) [0x73]), (2, .cleanupExpired 7)]
    ∃ p, ((machine ℕ).after (new [0x6b] oneService) calls).validateSession 8
      (toHex (List.replicate 32 1)) = .ok p := by
  intro calls
  refine (validateSession_iff [0x6b] oneService calls 8 (toHex (List.replicate 32 1)) ?_ ?_).1.mpr
    ⟨[], _, _, [0x73], 0, rfl, ⟨rfl, .inl ⟨_, rfl⟩⟩, ?_, ?_⟩
  · simp [Until, calls, Call.time]
  · decide +kernel
  · decide +kernel
  · exact (lives_iff_sub_le (by decide +kernel) _ _).mpr (.inr (by decide +kernel))

end Authenticator
