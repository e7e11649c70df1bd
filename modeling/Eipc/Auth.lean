import Eipc.Lib.Machine
import Eipc.Lib.Maps
import Eipc.Lib.Sha256

/-!
# The authenticator

`auth.Authenticator` (`security/auth/identity.go`) admits peers. A peer names
its service, is sent a nonce and answers it with the HMAC-SHA256 of the nonce
under the shared secret; then it is given a session token. One authenticator
serves all connections of a server, each in a goroutine of its own, and its lock
makes every call one step.

Neither call knows its connection. The challenge that a response is compared
with is kept under the name of the service, so what a response has to answer is
the nonce that was issued last for the service, to whichever connection, and it
can be answered once (`Authenticator.verifyResponse_iff_latest`). Two clients of
one service that connect at the same time share it
(`Authenticator.verifyResponse_other_connection`).

The clock and the random source are inputs of the calls.
-/

open Bytes

/-- An instant of the wall clock, in nanoseconds. -/
abbrev Instant := ℤ

/-- `now.Sub(t)`, which saturates at the ends of `time.Duration`. -/
def Instant.since (now t : Instant) : ℤ := max (-2 ^ 63) (min (2 ^ 63 - 1) (now - t))

/-- Short of the longest duration, at which `Sub` saturates, what is compared with a duration is
the difference of the times. -/
theorem Instant.since_le_iff_sub_le {d : Int64} (h : d.toInt < 2 ^ 63 - 1) (now t : Instant) :
    Instant.since now t ≤ d.toInt ↔ now - t ≤ d.toInt := by
  unfold Instant.since
  rw [max_le_iff, min_le_iff]
  exact ⟨fun hle => hle.2.resolve_left (not_le.mpr h), fun hle => ⟨d.le_toInt, .inr hle⟩⟩

/-- The outcome of drawing thirty-two bytes from the random source. -/
abbrev Draw := Except String { b : Bytes // b.length = 32 }

/-- An authenticated peer. -/
structure PeerIdentity where
  serviceID : Bytes
  capabilities : List Bytes
  sessionToken : Bytes
  createdAt : Instant
  sessionTTL : Int64
  deriving DecidableEq

/-- `IsExpired`. A session without a positive lifetime never expires. -/
def PeerIdentity.isExpired (p : PeerIdentity) (now : Instant) : Bool :=
  if p.sessionTTL ≤ 0 then false else Instant.since now p.createdAt > p.sessionTTL.toInt

/-- A pending challenge. -/
structure Challenge where
  serviceID : Bytes
  nonce : Bytes
  createdAt : Instant
  deriving DecidableEq

/-- What the authenticator's calls can fail with. -/
inductive AuthError where
  | unknownService (serviceID : Bytes)
  | generateNonce (err : String)
  | noPendingChallenge (serviceID : Bytes)
  | verificationFailed (serviceID : Bytes)
  | generateToken (err : String)
  | invalidToken
  | sessionExpired
  deriving DecidableEq

namespace AuthError

/-- The text of `core.ErrAuth`. -/
def errAuth : String := "eipc: authentication failed"

/-- The error's text. `quote` is the verb `%q`. -/
def text (quote : Bytes → String) : AuthError → String
  | unknownService serviceID => errAuth ++ ": unknown service " ++ quote serviceID
  | generateNonce err => "generate nonce: " ++ err
  | noPendingChallenge serviceID => errAuth ++ ": no pending challenge for " ++ quote serviceID
  | verificationFailed serviceID =>
    errAuth ++ ": challenge-response verification failed for " ++ quote serviceID
  | generateToken err => "generate token: " ++ err
  | invalidToken => errAuth ++ ": invalid session token"
  | sessionExpired => errAuth ++ ": session expired"

end AuthError

/-- The authenticator. -/
structure Authenticator where
  sharedSecret : Bytes
  knownServices : Finmap (fun _ : Bytes => List Bytes)
  activeSessions : Finmap (fun _ : Bytes => PeerIdentity)
  pendingChallenges : Finmap (fun _ : Bytes => Challenge)
  sessionTTL : Int64

namespace Authenticator

/-- `NewAuthenticator`. Sessions last an hour. -/
def new (sharedSecret : Bytes) (knownServices : Finmap (fun _ : Bytes => List Bytes)) :
    Authenticator where
  sharedSecret
  knownServices
  activeSessions := ∅
  pendingChallenges := ∅
  sessionTTL := 3600000000000

/-- `SetSessionTTL`. -/
def setSessionTTL (a : Authenticator) (ttl : Int64) : Authenticator :=
  { a with sessionTTL := ttl }

/-- `CreateChallenge`. A challenge that was pending for the service is
replaced. -/
def createChallenge (a : Authenticator) (now : Instant) (draw : Draw) (serviceID : Bytes) :
    Except AuthError Challenge × Authenticator :=
  if serviceID ∉ a.knownServices then (.error (.unknownService serviceID), a)
  else
    match draw with
    | .error err => (.error (.generateNonce err), a)
    | .ok nonce =>
      let challenge : Challenge := ⟨serviceID, nonce, now⟩
      (.ok challenge,
        { a with pendingChallenges := a.pendingChallenges.insert serviceID challenge })

/-- What `VerifyResponse` and `Authenticate` do for a service they admit. A token
is thirty-two random bytes in hexadecimal. -/
def openSession (a : Authenticator) (now : Instant) (draw : Draw) (serviceID : Bytes) :
    Except AuthError PeerIdentity × Authenticator :=
  match draw with
  | .error err => (.error (.generateToken err), a)
  | .ok b =>
    let peer : PeerIdentity :=
      { serviceID
        capabilities := (a.knownServices.lookup serviceID).getD []
        sessionToken := toHex b
        createdAt := now
        sessionTTL := a.sessionTTL }
    (.ok peer, { a with activeSessions := a.activeSessions.insert peer.sessionToken peer })

/-- `VerifyResponse`. The pending challenge is used up before it is looked
at. -/
def verifyResponse (a : Authenticator) (now : Instant) (draw : Draw) (serviceID response : Bytes) :
    Except AuthError PeerIdentity × Authenticator :=
  match a.pendingChallenges.lookup serviceID with
  | none => (.error (.noPendingChallenge serviceID), a)
  | some challenge =>
    let a := { a with pendingChallenges := a.pendingChallenges.erase serviceID }
    if hmacSha256 a.sharedSecret challenge.nonce ≠ response then
      (.error (.verificationFailed serviceID), a)
    else a.openSession now draw serviceID

/-- `Authenticate`, without a challenge. -/
def authenticate (a : Authenticator) (now : Instant) (draw : Draw) (serviceID : Bytes) :
    Except AuthError PeerIdentity × Authenticator :=
  if serviceID ∉ a.knownServices then (.error (.unknownService serviceID), a)
  else a.openSession now draw serviceID

/-- `ValidateSession`. -/
def validateSession (a : Authenticator) (now : Instant) (token : Bytes) :
    Except AuthError PeerIdentity :=
  match a.activeSessions.lookup token with
  | none => .error .invalidToken
  | some peer => if peer.isExpired now then .error .sessionExpired else .ok peer

/-- `RevokeSession`. -/
def revokeSession (a : Authenticator) (token : Bytes) : Authenticator :=
  { a with activeSessions := a.activeSessions.erase token }

/-- `CleanupExpired`: how many sessions were removed, and what is left. -/
def cleanupExpired (a : Authenticator) (now : Instant) : ℕ × Authenticator :=
  ((a.activeSessions.entries.filter (fun e => e.2.isExpired now)).card,
    { a with activeSessions := a.activeSessions.keep fun p => !p.isExpired now })

/-- `ActiveSessionCount`. -/
def activeSessionCount (a : Authenticator) : ℕ := a.activeSessions.entries.card

/-! ## Calls from many connections -/

/-- A call that changes the authenticator. -/
inductive Call where
  | createChallenge (now : Instant) (draw : Draw) (serviceID : Bytes)
  | verifyResponse (now : Instant) (draw : Draw) (serviceID response : Bytes)
  | authenticate (now : Instant) (draw : Draw) (serviceID : Bytes)
  | setSessionTTL (ttl : Int64)
  | revokeSession (token : Bytes)
  | cleanupExpired (now : Instant)

/-- What a call returns. -/
inductive Answer where
  | challenge (res : Except AuthError Challenge)
  | peer (res : Except AuthError PeerIdentity)
  | done
  | removed (n : ℕ)

/-- One call. -/
def perform (a : Authenticator) : Call → Answer × Authenticator
  | .createChallenge now draw serviceID =>
    (a.createChallenge now draw serviceID).map .challenge id
  | .verifyResponse now draw serviceID response =>
    (a.verifyResponse now draw serviceID response).map .peer id
  | .authenticate now draw serviceID => (a.authenticate now draw serviceID).map .peer id
  | .setSessionTTL ttl => (.done, a.setSessionTTL ttl)
  | .revokeSession token => (.done, a.revokeSession token)
  | .cleanupExpired now => (a.cleanupExpired now).map .removed id

/-- An entry of the log of a run: which connection called, what, and what it was
answered. -/
structure Event (Conn : Type) where
  conn : Conn
  call : Call
  answer : Answer

namespace Event

variable {Conn : Type}

/-- The nonce that the call issued for the service, if it did. -/
def issued (e : Event Conn) (serviceID : Bytes) : Option Bytes :=
  match e.call, e.answer with
  | .createChallenge _ _ s, .challenge (.ok challenge) =>
    if s = serviceID then some challenge.nonce else none
  | _, _ => none

/-- The call was a response for the service. -/
def responds (e : Event Conn) (serviceID : Bytes) : Bool :=
  match e.call with
  | .verifyResponse _ _ s _ => s = serviceID
  | _ => false

/-- What the call made of the nonce that is pending for the service, if
anything. -/
def setsPending (e : Event Conn) (serviceID : Bytes) : Option (Option Bytes) :=
  if e.responds serviceID then some none else (e.issued serviceID).map some

end Event

/-- The authenticator, called from any number of connections. -/
def machine (Conn : Type) : Machine Authenticator (Conn × Call) (Event Conn) where
  step a i := (⟨i.1, i.2, (a.perform i.2).1⟩, (a.perform i.2).2)

/-- The nonce `nonce` was issued for the service to the connection, and since then
the authenticator neither issued another one for this service nor checked a
response for it. -/
def Latest {Conn : Type} (log : List (Event Conn)) (conn : Conn) (serviceID nonce : Bytes) :
    Prop :=
  ∃ log₁ e log₂, log = log₁ ++ e :: log₂ ∧ e.conn = conn ∧ e.issued serviceID = some nonce
    ∧ ∀ e' ∈ log₂, e'.issued serviceID = none ∧ e'.responds serviceID = false

/-! ## What is pending -/

variable {Conn : Type} {a : Authenticator} {s : Bytes}

/-- The nonce that is pending for a service. -/
def pendingNonce (a : Authenticator) (serviceID : Bytes) : Option Bytes :=
  (a.pendingChallenges.lookup serviceID).map (·.nonce)

theorem pendingNonce_insert (a : Authenticator) (s s' : Bytes) (challenge : Challenge) :
    ({ a with pendingChallenges := a.pendingChallenges.insert s' challenge }
        : Authenticator).pendingNonce s
      = if s' = s then some challenge.nonce else a.pendingNonce s := by
  unfold pendingNonce
  simp only [Finmap.lookup_insert_eq_ite, eq_comm (a := s)]
  split <;> rfl

theorem pendingNonce_erase (a : Authenticator) (s s' : Bytes) :
    ({ a with pendingChallenges := a.pendingChallenges.erase s' } : Authenticator).pendingNonce s
      = if s' = s then none else a.pendingNonce s := by
  unfold pendingNonce
  simp only [Finmap.lookup_erase_eq_ite, eq_comm (a := s)]
  split <;> rfl

/-- Opening a session leaves the challenges alone. -/
theorem pendingNonce_openSession (a : Authenticator) (now : Instant) (draw : Draw)
    (s s' : Bytes) : (a.openSession now draw s').2.pendingNonce s = a.pendingNonce s := by
  cases draw with
  | error err => rfl
  | ok b => rfl

theorem pendingNonce_verifyResponse (a : Authenticator) (now : Instant) (draw : Draw)
    (s s' response : Bytes) :
    (a.verifyResponse now draw s' response).2.pendingNonce s
      = if s' = s then none else a.pendingNonce s := by
  unfold verifyResponse
  cases hlookup : a.pendingChallenges.lookup s' with
  | none =>
    by_cases h : s' = s
    · rw [if_pos h, pendingNonce, ← h]
      exact congrArg _ hlookup
    · rw [if_neg h]
  | some challenge =>
    rw [← pendingNonce_erase]
    dsimp only
    split
    · rfl
    · exact pendingNonce_openSession _ _ _ _ _

theorem pendingNonce_createChallenge (a : Authenticator) (now : Instant) (draw : Draw)
    (s s' : Bytes) :
    (a.createChallenge now draw s').2.pendingNonce s
      = match (a.createChallenge now draw s').1 with
        | .ok challenge => if s' = s then some challenge.nonce else a.pendingNonce s
        | .error _ => a.pendingNonce s := by
  unfold createChallenge
  split
  · rfl
  · cases draw with
    | error err => rfl
    | ok nonce => exact pendingNonce_insert a s s' _

theorem pendingNonce_authenticate (a : Authenticator) (now : Instant) (draw : Draw)
    (s s' : Bytes) : (a.authenticate now draw s').2.pendingNonce s = a.pendingNonce s := by
  unfold authenticate
  split
  · rfl
  · exact pendingNonce_openSession _ _ _ _ _

/-- **One call, and what is pending for a service.** -/
theorem pendingNonce_step (s : Bytes) (a : Authenticator) (i : Conn × Call) :
    ((machine Conn).step a i).2.pendingNonce s
      = (((machine Conn).step a i).1.setsPending s).getD (a.pendingNonce s) := by
  obtain ⟨c, call⟩ := i
  cases call with
  | createChallenge now draw s' =>
    refine (pendingNonce_createChallenge a now draw s s').trans ?_
    show _ = (Option.map some (Event.issued ⟨c, .createChallenge now draw s',
      .challenge (a.createChallenge now draw s').1⟩ s)).getD (a.pendingNonce s)
    cases (a.createChallenge now draw s').1 with
    | error err => rfl
    | ok challenge =>
      show (if s' = s then some challenge.nonce else a.pendingNonce s)
        = (Option.map some (if s' = s then some challenge.nonce else none)).getD _
      split <;> rfl
  | verifyResponse now draw s' response =>
    refine (pendingNonce_verifyResponse a now draw s s' response).trans ?_
    show _ = Option.getD (if decide (s' = s) = true then some none else none) _
    by_cases h : s' = s
    · rw [if_pos h, if_pos (decide_eq_true h)]
      rfl
    · rw [if_neg h, if_neg (mt of_decide_eq_true h)]
      rfl
  | authenticate now draw s' => exact pendingNonce_authenticate a now draw s s'
  | setSessionTTL ttl => rfl
  | revokeSession token => rfl
  | cleanupExpired now => rfl

/-- The lifetime that a call configures. -/
def Call.ttl : Call → Option Int64
  | .setSessionTTL ttl => some ttl
  | _ => none

/-- **What a call can change**: the sessions, the challenges, and the lifetime of new
sessions if it sets it. -/
theorem exists_perform_eq (a : Authenticator) (call : Call) :
    ∃ sessions challenges, (a.perform call).2
      = { a with
          activeSessions := sessions
          pendingChallenges := challenges
          sessionTTL := call.ttl.getD a.sessionTTL } := by
  have hopen : ∀ challenges now draw s, ∃ sessions challenges',
      (openSession { a with pendingChallenges := challenges } now draw s).2
        = { a with activeSessions := sessions, pendingChallenges := challenges' } := by
    intro challenges now draw s
    cases draw with
    | error err => exact ⟨_, _, rfl⟩
    | ok b => exact ⟨_, _, rfl⟩
  cases call with
  | createChallenge now draw s =>
    show ∃ sessions challenges, (a.createChallenge now draw s).2 = _
    unfold createChallenge
    split
    · exact ⟨_, _, rfl⟩
    · cases draw with
      | error err => exact ⟨_, _, rfl⟩
      | ok nonce => exact ⟨_, _, rfl⟩
  | verifyResponse now draw s response =>
    show ∃ sessions challenges, (a.verifyResponse now draw s response).2 = _
    unfold verifyResponse
    split
    · exact ⟨_, _, rfl⟩
    · dsimp only
      split
      · exact ⟨_, _, rfl⟩
      · exact hopen _ now draw s
  | authenticate now draw s =>
    show ∃ sessions challenges, (a.authenticate now draw s).2 = _
    unfold authenticate
    split
    · exact ⟨_, _, rfl⟩
    · exact hopen _ now draw s
  | setSessionTTL ttl => exact ⟨_, _, rfl⟩
  | revokeSession token => exact ⟨_, _, rfl⟩
  | cleanupExpired now => exact ⟨_, _, rfl⟩

/-- No call changes the secret. -/
theorem sharedSecret_step (a : Authenticator) (i : Conn × Call) :
    ((machine Conn).step a i).2.sharedSecret = a.sharedSecret := by
  obtain ⟨sessions, challenges, h⟩ := exists_perform_eq a i.2
  show (a.perform i.2).2.sharedSecret = _
  rw [h]

/-- The right response opens a session. -/
theorem verifyResponse_of_pending {challenge : Challenge}
    (h : a.pendingChallenges.lookup s = some challenge) (now : Instant) (draw : Draw) :
    a.verifyResponse now draw s (hmacSha256 a.sharedSecret challenge.nonce)
      = openSession { a with pendingChallenges := a.pendingChallenges.erase s } now draw s := by
  unfold verifyResponse
  rw [h]
  dsimp only
  rw [if_neg (not_not.mpr rfl)]

/-- When a response is accepted, in terms of what is pending. -/
theorem verifyResponse_eq_ok_iff {now : Instant} {draw : Draw} {response : Bytes} :
    (∃ peer, (a.verifyResponse now draw s response).1 = .ok peer) ↔
      (∃ b, draw = .ok b)
        ∧ ∃ nonce, a.pendingNonce s = some nonce
          ∧ response = hmacSha256 a.sharedSecret nonce := by
  unfold verifyResponse pendingNonce
  cases a.pendingChallenges.lookup s with
  | none => exact ⟨fun ⟨_, h⟩ => (nomatch h), fun ⟨_, _, h, _⟩ => (nomatch h)⟩
  | some challenge =>
    dsimp only
    by_cases h : hmacSha256 a.sharedSecret challenge.nonce = response
    · rw [if_neg (not_not.mpr h)]
      have hpending : ∃ nonce, some challenge.nonce = some nonce
          ∧ response = hmacSha256 a.sharedSecret nonce := ⟨_, rfl, h.symm⟩
      cases draw with
      | error err => exact ⟨fun ⟨_, h⟩ => (nomatch h), fun ⟨⟨_, h⟩, _⟩ => (nomatch h)⟩
      | ok b => exact ⟨fun _ => ⟨⟨b, rfl⟩, hpending⟩, fun _ => ⟨_, rfl⟩⟩
    · rw [if_pos h]
      refine ⟨fun ⟨_, h⟩ => (nomatch h), ?_⟩
      rintro ⟨-, _, ⟨⟩, rfl⟩
      exact absurd rfl h

/-- A response for which nothing is pending is refused. -/
theorem verifyResponse_of_none {now : Instant} {draw : Draw} {response : Bytes}
    (h : a.pendingNonce s = none) :
    a.verifyResponse now draw s response = (.error (.noPendingChallenge s), a) := by
  unfold verifyResponse
  rw [Option.map_eq_none_iff.mp h]

theorem step_verifyResponse_of_none {c : Conn} {now : Instant} {draw : Draw} {response : Bytes}
    (h : a.pendingNonce s = none) :
    ((machine Conn).step a (c, .verifyResponse now draw s response)).1.answer
      = .peer (.error (.noPendingChallenge s)) := by
  show Answer.peer (a.verifyResponse now draw s response).1 = _
  rw [verifyResponse_of_none h]

/-- Nothing is pending for a service after a response for it. -/
theorem pendingNonce_step_verifyResponse {c : Conn} {now : Instant} {draw : Draw}
    {response : Bytes} :
    ((machine Conn).step a (c, .verifyResponse now draw s response)).2.pendingNonce s = none :=
  (pendingNonce_verifyResponse a now draw s s response).trans (if_pos rfl)

/-- When a response of a connection is accepted. -/
theorem step_verifyResponse_iff {c : Conn} {now : Instant} {draw : Draw} {response : Bytes} :
    (∃ peer,
      ((machine Conn).step a (c, .verifyResponse now draw s response)).1.answer = .peer (.ok peer))
      ↔ (∃ b, draw = .ok b)
        ∧ ∃ nonce, a.pendingNonce s = some nonce
          ∧ response = hmacSha256 a.sharedSecret nonce := by
  rw [← verifyResponse_eq_ok_iff]
  exact ⟨fun ⟨peer, h⟩ => ⟨peer, Answer.peer.inj h⟩,
    fun ⟨peer, h⟩ => ⟨peer, congrArg Answer.peer h⟩⟩

/-! ## What is pending is what was issued last -/

namespace Event

theorem responds_of_issued {e : Event Conn} {nonce : Bytes} (h : e.issued s = some nonce) :
    e.responds s = false := by
  unfold issued at h
  unfold responds
  cases hcall : e.call with
  | verifyResponse now draw s' response =>
    rw [hcall] at h
    exact (nomatch h)
  | _ => rfl

theorem setsPending_eq_some_iff {e : Event Conn} {nonce : Bytes} :
    e.setsPending s = some (some nonce) ↔ e.issued s = some nonce := by
  unfold setsPending
  constructor
  · intro h
    split at h
    · exact (nomatch h)
    · simpa using h
  · intro h
    rw [if_neg (by rw [responds_of_issued h]; decide), h]
    rfl

theorem setsPending_eq_none_iff {e : Event Conn} :
    e.setsPending s = none ↔ e.issued s = none ∧ e.responds s = false := by
  unfold setsPending
  by_cases h : e.responds s = true
  · rw [if_pos h, h]
    exact ⟨fun h => (nomatch h), fun h => (nomatch h.2)⟩
  · rw [if_neg h, Option.map_eq_none_iff, Bool.eq_false_iff]
    exact ⟨fun hnone => ⟨hnone, h⟩, And.left⟩

end Event

/-- The latest nonce is what the log sets the pending one to. -/
theorem exists_latest_iff {log : List (Event Conn)} {nonce : Bytes} :
    (∃ c, Latest log c s nonce) ↔ lastSet (·.setsPending s) none log = some nonce := by
  rw [lastSet_eq_iff]
  constructor
  · rintro ⟨c, log₁, e, log₂, hlog, -, hissued, hlater⟩
    exact .inr ⟨log₁, e, log₂, hlog, Event.setsPending_eq_some_iff.mpr hissued,
      fun e' he' => Event.setsPending_eq_none_iff.mpr (hlater e' he')⟩
  · rintro (⟨h, -⟩ | ⟨log₁, e, log₂, hlog, hset, hlater⟩)
    · exact (nomatch h)
    · exact ⟨e.conn, log₁, e, log₂, hlog, rfl, Event.setsPending_eq_some_iff.mp hset,
        fun e' he' => Event.setsPending_eq_none_iff.mp (hlater e' he')⟩

section Run

variable (secret : Bytes) (known : Finmap (fun _ : Bytes => List Bytes))
  (calls : List (Conn × Call))

theorem sharedSecret_after :
    ((machine Conn).after (new secret known) calls).sharedSecret = secret :=
  Machine.after_invariant (I := fun a => a.sharedSecret = secret)
    (fun a i h => (sharedSecret_step a i).trans h) rfl calls

/-- **What is pending after a run** is the nonce that was issued last. -/
theorem pendingNonce_after_iff {nonce : Bytes} :
    ((machine Conn).after (new secret known) calls).pendingNonce s = some nonce ↔
      ∃ c, Latest ((machine Conn).answers (new secret known) calls) c s nonce := by
  have hread := Machine.read_after (r := fun a => a.pendingNonce s)
    (f := fun e : Event Conn => e.setsPending s) (pendingNonce_step s) (new secret known) calls
  rw [exists_latest_iff, hread]
  rfl

/-- **When a response is accepted.** After any interleaving of calls from any
number of connections, a response is accepted exactly when it is the HMAC-SHA256
of the nonce that was issued last for the service, to whichever connection, if no
response for the service was checked since, and the random source gives a token.
So a connection whose nonce is still the latest is answered as if it were
alone. -/
theorem verifyResponse_iff_latest (c : Conn) (now : Instant) (draw : Draw)
    (s response : Bytes) :
    let a := (machine Conn).after (new secret known) calls
    let log := (machine Conn).answers (new secret known) calls
    let accepted := ∃ peer,
      ((machine Conn).step a (c, .verifyResponse now draw s response)).1.answer = .peer (.ok peer)
    (accepted ↔ (∃ b, draw = .ok b)
        ∧ ∃ c' nonce, Latest log c' s nonce ∧ response = hmacSha256 secret nonce)
      ∧ ∀ nonce, Latest log c s nonce →
        (accepted ↔ (∃ b, draw = .ok b) ∧ response = hmacSha256 secret nonce) := by
  intro a log accepted
  have hsecret : a.sharedSecret = secret := sharedSecret_after secret known calls
  have hpending : ∀ {nonce}, a.pendingNonce s = some nonce ↔ ∃ c, Latest log c s nonce :=
    pendingNonce_after_iff secret known calls
  have haccepted : accepted ↔ (∃ b, draw = .ok b)
      ∧ ∃ nonce, a.pendingNonce s = some nonce ∧ response = hmacSha256 secret nonce := by
    rw [← hsecret]
    exact step_verifyResponse_iff
  constructor
  · rw [haccepted]
    refine and_congr_right fun _ => ?_
    constructor
    · rintro ⟨nonce, hnonce, hresponse⟩
      obtain ⟨c', hlatest⟩ := hpending.mp hnonce
      exact ⟨c', nonce, hlatest, hresponse⟩
    · rintro ⟨c', nonce, hlatest, hresponse⟩
      exact ⟨nonce, hpending.mpr ⟨c', hlatest⟩, hresponse⟩
  · intro nonce hlatest
    have hnonce : a.pendingNonce s = some nonce := hpending.mpr ⟨c, hlatest⟩
    rw [haccepted, hnonce]
    exact and_congr_right fun _ =>
      ⟨fun ⟨_, h, hresponse⟩ => Option.some.inj h ▸ hresponse, fun h => ⟨nonce, rfl, h⟩⟩

end Run

/-! ## Two clients of one service -/

/-- A service that is known, with no capabilities. -/
def oneService : Finmap (fun _ : Bytes => List Bytes) := Finmap.singleton [0x73] []

/-- A nonce, or a token, of thirty-two equal bytes. -/
def constantDraw (b : UInt8) : Draw := .ok ⟨List.replicate 32 b, List.length_replicate⟩

/-- The connection that was issued the last nonce authenticates, although another one asked for
the same service before it. -/
theorem verifyResponse_latest_second :
    ∃ peer, ((machine ℕ).step
      ((machine ℕ).after (new [0x6b] oneService)
        [(1, .createChallenge 0 (constantDraw 2) [0x73]),
          (0, .createChallenge 0 (constantDraw 1) [0x73])])
      (0, .verifyResponse 1 (constantDraw 9) [0x73]
        (hmacSha256 [0x6b] (List.replicate 32 1)))).1.answer = .peer (.ok peer) :=
  ((verifyResponse_iff_latest [0x6b] oneService
      [((1 : ℕ), .createChallenge 0 (constantDraw 2) [0x73]),
        (0, .createChallenge 0 (constantDraw 1) [0x73])] 0 1 (constantDraw 9) [0x73]
      (hmacSha256 [0x6b] (List.replicate 32 1))).2 (List.replicate 32 1)
    ⟨[_], _, [], rfl, rfl, rfl, fun _ h => (nomatch h)⟩).mpr ⟨⟨_, rfl⟩, rfl⟩

/-- **Two connections of one service.** Each is issued a nonce, and the second one
answers its own. Then the first, which answers its own too, is refused. Had it
answered the nonce of the second instead, before the second did, it would have
been accepted. -/
theorem verifyResponse_other_connection :
    let issue : List (ℕ × Call) :=
      [(0, .createChallenge 0 (constantDraw 1) [0x73]),
        (1, .createChallenge 0 (constantDraw 2) [0x73])]
    let answer (c : ℕ) (b : UInt8) : ℕ × Call :=
      (c, .verifyResponse 1 (constantDraw 9) [0x73] (hmacSha256 [0x6b] (List.replicate 32 b)))
    let after (calls : List (ℕ × Call)) := (machine ℕ).after (new [0x6b] oneService) calls
    ((after issue).pendingNonce [0x73] = some (List.replicate 32 2))
      ∧ (∃ peer, ((machine ℕ).step (after issue) (answer 1 2)).1.answer = .peer (.ok peer))
      ∧ ((machine ℕ).step (after (issue ++ [answer 1 2])) (answer 0 1)).1.answer
          = .peer (.error (.noPendingChallenge [0x73]))
      ∧ ∃ peer, ((machine ℕ).step (after issue) (answer 0 2)).1.answer = .peer (.ok peer) := by
  intro issue answer after
  have hpending : (after issue).pendingNonce [0x73] = some (List.replicate 32 2) := rfl
  have hsecret : (after issue).sharedSecret = [0x6b] := sharedSecret_after _ _ _
  have haccept : ∀ c, ∃ peer,
      ((machine ℕ).step (after issue) (answer c 2)).1.answer = .peer (.ok peer) := fun c =>
    step_verifyResponse_iff.mpr ⟨⟨_, rfl⟩, _, hpending, by rw [hsecret]⟩
  -- the response of the second connection used up the challenge
  have hnone : (after (issue ++ [answer 1 2])).pendingNonce [0x73] = none := by
    show ((machine ℕ).after _ (issue ++ [answer 1 2])).pendingNonce [0x73] = none
    rw [Machine.after_concat]
    exact pendingNonce_step_verifyResponse
  exact ⟨hpending, haccept 1, step_verifyResponse_of_none hnone, haccept 0⟩

end Authenticator
