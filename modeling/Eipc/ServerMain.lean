import Eipc.Admission
import Eipc.Health
import Eipc.Lib.Views

/-!
# The server

`main` of `cmd/eipc-server`: a loop accepts connections and starts a handler for each, as long
as there is room in the channel `connSem`, and refuses them otherwise. The handlers share the
authenticator, the audit log and the health service, and a goroutine removes expired sessions
from time to time. All of them take their steps in any order (`EipcServer.Server.main`); a
step of a handler is a turn, as in `Eipc.HandleConnection`.

Whatever the others do, a connection of the server goes through a run of the machine of one
connection, in which the turns of the others are calls to the authenticator
(`EipcServer.Server.main_view`). So what holds of one connection under all interferences holds of
every connection of the server, as for the messages that are dispatched
(`EipcServer.Server.main_dispatched`). The channel bounds how many of them are served at a time
(`EipcServer.Server.main_limit`).
-/

open Bytes MessageType Audit

namespace EipcServer

/-! ## The accept loop -/

/-- A connection that is handled. -/
structure Seat (σ : Type) where
  handler : Handler σ
  /-- The value that was put into `connSem` has been taken out again. -/
  released : Bool

/-- What `main` and the goroutines that it starts work on. -/
structure Main (σ : Type) where
  authenticator : Authenticator
  health : Health.Service
  /-- What was handed to the audit logger. -/
  audit : List Entry
  /-- How many values `connSem` holds. -/
  connSem : ℕ
  /-- The connections that have been let in, in the order in which they came. -/
  seats : List (Seat σ)

/-- What happens next. -/
inductive Happening where
  /-- `Accept` returns a connection. -/
  | accept (remoteAddr : Bytes)
  /-- The handler of a connection makes a turn. -/
  | turn (i : ℕ) (r : Reading)
  /-- The timer of a connection fires. -/
  | timeout (i : ℕ)
  /-- A handler that has returned takes a value out of `connSem`. -/
  | release (i : ℕ)
  /-- The ticker of the goroutine that removes expired sessions. -/
  | cleanup (now : Instant)

/-- What can be seen of it. -/
inductive Observed (ε : Type) where
  | accepted
  | refused
  | turn (i : ℕ) (r : Reading) (t : Turn ε)
  | timedOut
  | released
  | cleaned (removed : ℕ)
  /-- There was nothing to do. -/
  | idle

/-- The handler has returned. -/
def Handler.ended {σ : Type} (h : Handler σ) : Bool :=
  match h.phase with
  | .closed => true
  | _ => false

/-- The heartbeats that a turn hands to the health service. -/
def Turn.heartbeats {ε : Type} (t : Turn ε) : List HeartbeatEvent :=
  match t.dispatched with
  | none => []
  | some (_, handled) => handled.heartbeats

/-- The calls to the health service. -/
def Observed.beats {ε : Type} : Observed ε → List Health.Beat
  | .turn _ r t => t.heartbeats.map fun hb => ⟨r.stamp, hb.service, hb.status⟩
  | _ => []

/-- The entry for a connection that is refused. -/
def limitEntry (remoteAddr : Bytes) : Entry :=
  ⟨[], remoteAddr, ascii "eipc-server", ascii "connect", .denied,
    ascii "connection limit exceeded"⟩

/-- What the command line and the environment set, and the connections that will be let
in. -/
structure Deployment (σ : Type) where
  sessionTTL : Int64
  maxConns : ℕ
  conns : ℕ → σ

namespace Server

variable {σ ε : Type} (srv : Server σ ε) (d : Deployment σ)

/-- The server when it starts to listen. -/
def mainStart : Main σ where
  authenticator := (Authenticator.new srv.secret srv.known).setSessionTTL d.sessionTTL
  health := .new 5000000000 15000000000
  audit := []
  connSem := 0
  seats := []

/-- The handler that a connection starts with. -/
def newHandler (i : ℕ) : Handler σ := .new srv.codec srv.hmacKey (d.conns i)

/-- A turn of connection `i`. -/
def seatTurn (m : Main σ) (i : ℕ) (seat : Seat σ) (r : Reading) : Observed ε × Main σ :=
  let (t, a, h) := srv.turn m.authenticator seat.handler r
  let o := Observed.turn i r t
  (o, { m with
    authenticator := a
    health := Health.Service.machine.after m.health o.beats
    audit := m.audit ++ t.audit
    seats := m.seats.set i { seat with handler := h } })

/-- **The server**, in all orders of what its goroutines do. -/
def main : Machine (Main σ) Happening (Observed ε) where
  step m
    | .accept remoteAddr =>
      if m.connSem < d.maxConns then
        (.accepted, { m with
          connSem := m.connSem + 1
          seats := m.seats ++ [⟨srv.newHandler d m.seats.length, false⟩] })
      else (.refused, { m with audit := m.audit ++ [limitEntry remoteAddr] })
    | .turn i r =>
      match m.seats[i]? with
      | none => (.idle, m)
      | some seat => srv.seatTurn m i seat r
    | .timeout i =>
      match m.seats[i]? with
      | none => (.idle, m)
      | some seat =>
        (.timedOut, { m with seats := m.seats.set i { seat with handler := seat.handler.timeout } })
    | .release i =>
      match m.seats[i]? with
      | none => (.idle, m)
      | some seat =>
        if seat.handler.ended && !seat.released then
          (.released, { m with
            connSem := m.connSem - 1
            seats := m.seats.set i { seat with released := true } })
        else (.idle, m)
    | .cleanup now =>
      let (removed, authenticator) := m.authenticator.cleanupExpired now
      (.cleaned removed, { m with authenticator })

/-- The server after a run. -/
def mainReached (hs : List Happening) : Main σ := (srv.main d).after (srv.mainStart d) hs

/-! ## The steps -/

variable {srv d} {m : Main σ} {i j : ℕ} {r : Reading} {seat : Seat σ} {hs : List Happening}

theorem mainReached_concat (hs : List Happening) (x : Happening) :
    srv.mainReached d (hs ++ [x]) = ((srv.main d).step (srv.mainReached d hs) x).2 :=
  Machine.after_concat _ hs x

theorem main_turn_of_some (h : m.seats[i]? = some seat) (r : Reading) :
    (srv.main d).step m (.turn i r) = srv.seatTurn m i seat r := by
  unfold main
  dsimp only
  rw [h]

theorem observed_turn (h : m.seats[i]? = some seat) (r : Reading) :
    ((srv.main d).step m (.turn i r)).1
      = .turn i r (srv.turn m.authenticator seat.handler r).1 :=
  congrArg Prod.fst (main_turn_of_some h r)

theorem main_turn_of_none (h : m.seats[i]? = none) (r : Reading) :
    (srv.main d).step m (.turn i r) = (.idle, m) := by
  unfold main
  dsimp only
  rw [h]

/-- **What a step of the server can be**, from a state `m`. -/
inductive MainStep (srv : Server σ ε) (d : Deployment σ) (m : Main σ) :
    Happening → Observed ε × Main σ → Prop
  /-- The connection is let in. -/
  | accepted (remoteAddr : Bytes) (hroom : m.connSem < d.maxConns) :
    MainStep srv d m (.accept remoteAddr)
      (.accepted, { m with
        connSem := m.connSem + 1
        seats := m.seats ++ [⟨srv.newHandler d m.seats.length, false⟩] })
  /-- There is no room for it. -/
  | refused (remoteAddr : Bytes) (hfull : ¬m.connSem < d.maxConns) :
    MainStep srv d m (.accept remoteAddr)
      (.refused, { m with audit := m.audit ++ [limitEntry remoteAddr] })
  /-- A handler makes a turn. -/
  | turn (i : ℕ) (r : Reading) (seat : Seat σ) (hseat : m.seats[i]? = some seat) :
    MainStep srv d m (.turn i r) (srv.seatTurn m i seat r)
  /-- The timer of a connection fires. -/
  | timedOut (i : ℕ) (seat : Seat σ) (hseat : m.seats[i]? = some seat) :
    MainStep srv d m (.timeout i)
      (.timedOut, { m with seats := m.seats.set i { seat with handler := seat.handler.timeout } })
  /-- A handler that has returned makes room for another one. -/
  | released (i : ℕ) (seat : Seat σ) (hseat : m.seats[i]? = some seat)
    (hended : seat.handler.ended = true) (hkept : seat.released = false) :
    MainStep srv d m (.release i)
      (.released, { m with
        connSem := m.connSem - 1
        seats := m.seats.set i { seat with released := true } })
  /-- Expired sessions are removed. -/
  | cleaned (now : Instant) :
    MainStep srv d m (.cleanup now)
      (.cleaned (m.authenticator.cleanupExpired now).1,
        { m with authenticator := (m.authenticator.cleanupExpired now).2 })
  /-- There is no such connection, or it has nothing to take out. -/
  | idleTurn (i : ℕ) (r : Reading) (hseat : m.seats[i]? = none) :
    MainStep srv d m (.turn i r) (.idle, m)
  | idleTimeout (i : ℕ) (hseat : m.seats[i]? = none) : MainStep srv d m (.timeout i) (.idle, m)
  | idleRelease (i : ℕ) : MainStep srv d m (.release i) (.idle, m)

theorem mainStep (srv : Server σ ε) (d : Deployment σ) (m : Main σ) (x : Happening) :
    MainStep srv d m x ((srv.main d).step m x) := by
  cases x with
  | accept remoteAddr =>
    by_cases h : m.connSem < d.maxConns
    · show MainStep srv d m _ (if _ then _ else _)
      rw [if_pos h]
      exact .accepted remoteAddr h
    · show MainStep srv d m _ (if _ then _ else _)
      rw [if_neg h]
      exact .refused remoteAddr h
  | turn i r =>
    cases hseat : m.seats[i]? with
    | none =>
      rw [main_turn_of_none hseat]
      exact .idleTurn i r hseat
    | some seat =>
      rw [main_turn_of_some hseat]
      exact .turn i r seat hseat
  | timeout i =>
    unfold main
    dsimp only
    cases hseat : m.seats[i]? with
    | none => exact .idleTimeout i hseat
    | some seat => exact .timedOut i seat hseat
  | release i =>
    unfold main
    dsimp only
    cases hseat : m.seats[i]? with
    | none => exact .idleRelease i
    | some seat =>
      dsimp only
      split
      · next h =>
        rw [Bool.and_eq_true, Bool.not_eq_true'] at h
        exact .released i seat hseat h.1 h.2
      · exact .idleRelease i
  | cleanup now => exact .cleaned now

/-! ## What the other connections do to the authenticator -/

/-- The call to the authenticator that a turn makes, if it makes one. -/
def callOf (srv : Server σ ε) (h : Handler σ) (r : Reading) : Option Authenticator.Call :=
  match h.phase, (srv.receive h).1 with
  | .awaitAuth, .ok msg =>
    if msg.type ≠ typeAuth then none
    else
      match srv.env.payloads.unmarshalAuthRequest msg.payload with
      | .error _ => none
      | .ok authReq => some (.createChallenge r.now r.draw authReq.serviceID)
  | .awaitResponse serviceID _, .ok msg =>
    if msg.type ≠ typeAuthResponse then none
    else
      match srv.env.payloads.unmarshalChallengeResponse msg.payload with
      | .error _ => none
      | .ok chalResp => (ofHex chalResp.response).map (.verifyResponse r.now r.draw serviceID)
  | _, _ => none

/-- The authenticator after a call, if there is one. -/
def called (a : Authenticator) : Option Authenticator.Call → Authenticator
  | none => a
  | some call => (a.perform call).2

/-- **To the authenticator a turn is the call that it makes.** -/
theorem authenticator_turn (srv : Server σ ε) (a : Authenticator) (h : Handler σ) (r : Reading) :
    (srv.turn a h r).2.1 = called a (srv.callOf h r) := by
  unfold callOf
  cases hphase : h.phase with
  | closed =>
    rw [turn_closed hphase]
    rfl
  | serving peer =>
    rw [(srv.turn_serving a r hphase).1]
    rfl
  | awaitAuth =>
    have hopen : h.phase ≠ .closed := by
      rw [hphase]
      intro hclosed
      cases hclosed
    cases hreceive : (srv.receive h).1 with
    | error err =>
      rw [turn_of_error hopen hreceive]
      rfl
    | ok msg =>
      rw [turn_of_ok hopen hreceive, onReceived, phase_receive, hphase]
      dsimp only [onAuth]
      by_cases htype : msg.type = typeAuth
      · rw [if_neg (not_not.mpr htype), if_neg (not_not.mpr htype)]
        cases srv.env.payloads.unmarshalAuthRequest msg.payload with
        | error err => rfl
        | ok req =>
          show _ = (a.createChallenge r.now r.draw req.serviceID).2
          dsimp only
          rcases a.createChallenge r.now r.draw req.serviceID with ⟨err | challenge, a'⟩
          · rfl
          · rfl
      · rw [if_pos htype, if_pos htype]
        rfl
  | awaitResponse s requestID =>
    have hopen : h.phase ≠ .closed := by
      rw [hphase]
      intro hclosed
      cases hclosed
    cases hreceive : (srv.receive h).1 with
    | error err =>
      rw [turn_of_error hopen hreceive]
      rfl
    | ok msg =>
      rw [turn_of_ok hopen hreceive, onReceived, phase_receive, hphase]
      dsimp only [onResponse]
      by_cases htype : msg.type = typeAuthResponse
      · rw [if_neg (not_not.mpr htype), if_neg (not_not.mpr htype)]
        cases srv.env.payloads.unmarshalChallengeResponse msg.payload with
        | error err => rfl
        | ok resp =>
          dsimp only
          cases ofHex resp.response with
          | none => rfl
          | some response =>
            show _ = (a.verifyResponse r.now r.draw s response).2
            dsimp only
            rcases a.verifyResponse r.now r.draw s response with ⟨err | peer, a'⟩
            · rfl
            · rfl
      · rw [if_pos htype, if_pos htype]
        rfl

/-! ## The server, seen from one connection -/

/-- What connection `i` sees of a step: its own turns, its timer, and what the others and the
cleanup do to the authenticator. -/
def view (srv : Server σ ε) (i : ℕ) (m : Main σ) : Happening → List Move
  | .accept _ => []
  | .release _ => []
  | .cleanup now => [.call (.cleanupExpired now)]
  | .turn j r =>
    match m.seats[j]? with
    | none => []
    | some seat =>
      if j = i then [.turn r] else ((srv.callOf seat.handler r).map Move.call).toList
  | .timeout j =>
    match m.seats[j]? with
    | none => []
    | some _ => if j = i then [.timeout] else []

/-- What connection `i` sees of a run of the server. The time to live of the sessions is set
before the server listens. -/
def movesOf (srv : Server σ ε) (d : Deployment σ) (i : ℕ) (hs : List Happening) : List Move :=
  .call (.setSessionTTL d.sessionTTL) :: (srv.main d).viewed (srv.view i) (srv.mainStart d) hs

/-- The handler of connection `i`, which may be yet to come. -/
def handlerOf (srv : Server σ ε) (d : Deployment σ) (m : Main σ) (i : ℕ) : Handler σ :=
  match m.seats[i]? with
  | none => srv.newHandler d i
  | some seat => seat.handler

/-- Connection `i`, and the authenticator it shares with the others. -/
def stateOf (srv : Server σ ε) (d : Deployment σ) (i : ℕ) (m : Main σ) : State σ :=
  ⟨m.authenticator, srv.handlerOf d m i⟩

/-- The turn that was one of connection `i`. -/
def turnOf (i : ℕ) : Observed ε → Option (Turn ε)
  | .turn j _ t => if j = i then some t else none
  | _ => none

/-- A turn of the connection itself. -/
def ownTurn : Event ε → Option (Turn ε)
  | .turn t => some t
  | .call _ => none
  | .timeout => none

theorem handlerOf_of_some (h : m.seats[i]? = some seat) : srv.handlerOf d m i = seat.handler := by
  unfold handlerOf
  rw [h]

/-- A handler that is put in the place of another one is the only one that changes. -/
theorem handlerOf_set {m' : Main σ} (hseat : m.seats[j]? = some seat) {seat' : Seat σ}
    (hset : m'.seats = m.seats.set j seat') :
    srv.handlerOf d m' i = if j = i then seat'.handler else srv.handlerOf d m i := by
  obtain ⟨hlt, -⟩ := List.getElem?_eq_some_iff.mp hseat
  unfold handlerOf
  rw [hset]
  by_cases hij : j = i
  · subst hij
    rw [List.getElem?_set_self hlt, if_pos rfl]
  · rw [List.getElem?_set_ne hij, if_neg hij]

/-- A connection that has been let in starts where `handlerOf` says it does. -/
theorem handlerOf_concat {m' : Main σ}
    (hseats : m'.seats = m.seats ++ [⟨srv.newHandler d m.seats.length, false⟩]) :
    srv.handlerOf d m' i = srv.handlerOf d m i := by
  unfold handlerOf
  rw [hseats]
  rcases lt_trichotomy i m.seats.length with hlt | rfl | hgt
  · rw [List.getElem?_append_left hlt]
  · rw [List.getElem?_concat_length, List.getElem?_eq_none (Nat.le_refl _)]
  · rw [List.getElem?_eq_none (Nat.le_of_lt hgt), List.getElem?_eq_none]
    rw [List.length_append]
    exact hgt

/-- **One step of the server is what the connection sees of it.** -/
theorem stateOf_step (srv : Server σ ε) (d : Deployment σ) (i : ℕ) (m : Main σ) (x : Happening) :
    srv.machine.after (srv.stateOf d i m) (srv.view i m x)
        = srv.stateOf d i ((srv.main d).step m x).2
      ∧ (srv.machine.answers (srv.stateOf d i m) (srv.view i m x)).filterMap ownTurn
        = (turnOf i ((srv.main d).step m x).1).toList := by
  have hstep := srv.mainStep d m x
  generalize (srv.main d).step m x = out at hstep
  cases hstep with
  | accepted remoteAddr hroom =>
    exact ⟨congrArg (State.mk m.authenticator) (handlerOf_concat rfl).symm, rfl⟩
  | refused remoteAddr hfull => exact ⟨rfl, rfl⟩
  | released j seat hseat hended hkept =>
    refine ⟨congrArg (State.mk m.authenticator) (Eq.symm ?_), rfl⟩
    rw [handlerOf_set hseat rfl]
    split
    · next hji =>
      subst hji
      exact (handlerOf_of_some hseat).symm
    · rfl
  | cleaned now => exact ⟨rfl, rfl⟩
  | idleRelease j => exact ⟨rfl, rfl⟩
  | idleTurn j r hseat =>
    unfold view
    dsimp only
    rw [hseat]
    exact ⟨rfl, rfl⟩
  | idleTimeout j hseat =>
    unfold view
    dsimp only
    rw [hseat]
    exact ⟨rfl, rfl⟩
  | timedOut j seat hseat =>
    unfold view
    dsimp only
    rw [hseat]
    dsimp only
    have hnext : srv.handlerOf d { m with
        seats := m.seats.set j { seat with handler := seat.handler.timeout } } i = _ :=
      handlerOf_set hseat rfl
    rw [stateOf, stateOf, hnext]
    by_cases hji : j = i
    · subst hji
      rw [if_pos rfl, if_pos rfl, handlerOf_of_some hseat]
      exact ⟨rfl, rfl⟩
    · rw [if_neg hji, if_neg hji]
      exact ⟨rfl, rfl⟩
  | turn j r seat hseat =>
    unfold view
    dsimp only
    rw [hseat]
    dsimp only
    by_cases hji : j = i
    · -- the connection's own turn
      subst hji
      have hown : srv.handlerOf d m j = seat.handler := handlerOf_of_some hseat
      have hnext : srv.handlerOf d (srv.seatTurn m j seat r).2 j = _ := handlerOf_set hseat rfl
      rw [if_pos rfl] at hnext ⊢
      rw [stateOf, stateOf, hown, hnext]
      refine ⟨rfl, ?_⟩
      show _ = (if j = j then some _ else none).toList
      rw [if_pos rfl]
      rfl
    · -- a turn of another connection is a call to the authenticator
      have hnext : srv.handlerOf d (srv.seatTurn m j seat r).2 i = _ := handlerOf_set hseat rfl
      have hcall := srv.authenticator_turn m.authenticator seat.handler r
      rw [if_neg hji] at hnext ⊢
      have hturn : turnOf i (srv.seatTurn m j seat r).1 = none := if_neg hji
      rw [hturn, stateOf, stateOf, hnext]
      show _ = State.mk (srv.turn m.authenticator seat.handler r).2.1 _ ∧ _
      rw [hcall]
      cases srv.callOf seat.handler r with
      | none => exact ⟨rfl, rfl⟩
      | some call => exact ⟨rfl, rfl⟩

/-- A connection has been through what it saw of the run. -/
theorem reached_movesOf (srv : Server σ ε) (d : Deployment σ) (i : ℕ) (hs : List Happening) :
    srv.reached (d.conns i) (srv.movesOf d i hs) = srv.stateOf d i (srv.mainReached d hs) :=
  Machine.after_viewed (f := srv.stateOf d i) (fun m x => (srv.stateOf_step d i m x).1)
    (srv.mainStart d) hs

/-- **Every connection of the server is a connection under interference.** In every run of
the server, connection `i` goes through a run of the machine of one connection: its state, and
that of the authenticator, are the ones that this run leads to, and its turns are the turns of
this run, one by one. -/
theorem main_view (srv : Server σ ε) (d : Deployment σ) (i : ℕ) (hs : List Happening) :
    srv.reached (d.conns i) (srv.movesOf d i hs) = srv.stateOf d i (srv.mainReached d hs)
      ∧ (srv.machine.answers (srv.start (d.conns i)) (srv.movesOf d i hs)).filterMap ownTurn
        = ((srv.main d).answers (srv.mainStart d) hs).filterMap (turnOf i) := by
  refine ⟨srv.reached_movesOf d i hs, ?_⟩
  exact Machine.answers_viewed (f := srv.stateOf d i) (fun m x => (srv.stateOf_step d i m x).1)
    (fun m x => (srv.stateOf_step d i m x).2) (srv.mainStart d) hs

/-! ## How many connections are served -/

/-- The values in `connSem` are those of the handlers that have not taken theirs out, and a
handler that has is done. -/
structure Limited (d : Deployment σ) (m : Main σ) : Prop where
  held : (m.seats.countP fun seat => !seat.released) = m.connSem
  bound : m.connSem ≤ d.maxConns
  ended : ∀ seat ∈ m.seats, seat.released = true → seat.handler.ended = true

/-- A handler that has returned makes no more turns. -/
theorem turn_of_ended {a : Authenticator} {h : Handler σ} (hended : h.ended = true) :
    srv.turn a h r = ({}, a, h) := by
  unfold Handler.ended at hended
  cases hphase : h.phase with
  | closed => exact turn_closed hphase
  | _ =>
    rw [hphase] at hended
    cases hended

/-- Nor does the timer change it. -/
theorem timeout_of_ended {h : Handler σ} (hended : h.ended = true) : h.timeout = h := by
  unfold Handler.ended at hended
  unfold Handler.timeout
  cases hphase : h.phase with
  | closed | serving => rfl
  | awaitAuth | awaitResponse =>
    rw [hphase] at hended
    cases hended

/-- How an update of one seat changes how many are held. -/
theorem countP_held_set (hseat : m.seats[i]? = some seat) (seat' : Seat σ) :
    ((m.seats.set i seat').countP fun s => !s.released) + (if seat.released then 0 else 1)
      = (m.seats.countP fun s => !s.released) + (if seat'.released then 0 else 1) := by
  obtain ⟨hlt, rfl⟩ := List.getElem?_eq_some_iff.mp hseat
  have hpos : m.seats[i].released = false → 0 < m.seats.countP fun s => !s.released :=
    fun h => List.countP_pos_iff.mpr ⟨_, List.getElem_mem hlt, by rw [h]; rfl⟩
  rw [List.countP_set hlt]
  revert hpos
  cases m.seats[i].released with
  | true =>
    intro _
    cases seat'.released with
    | true => rfl
    | false => rfl
  | false =>
    intro hpos
    have := hpos rfl
    cases seat'.released with
    | true => exact Nat.sub_add_cancel this
    | false => exact congrArg (· + 1) (Nat.sub_add_cancel this)

/-- A handler that goes on, and stays where it is once it has returned. -/
theorem Limited.set_handler {m' : Main σ} (h : Limited d m) (hseat : m.seats[i]? = some seat)
    {handler : Handler σ} (hended : seat.handler.ended = true → handler = seat.handler)
    (hsem : m'.connSem = m.connSem) (hseats : m'.seats = m.seats.set i { seat with handler }) :
    Limited d m' := by
  refine ⟨?_, hsem ▸ h.bound, fun seat' hmem hreleased => ?_⟩
  · rw [hseats, hsem]
    exact (Nat.add_right_cancel (countP_held_set hseat { seat with handler })).trans h.held
  · rw [hseats] at hmem
    rcases List.mem_or_eq_of_mem_set hmem with hmem | rfl
    · exact h.ended seat' hmem hreleased
    · have hbefore := h.ended seat (List.mem_of_getElem? hseat) hreleased
      show handler.ended = true
      rw [hended hbefore]
      exact hbefore

theorem limited_step (m : Main σ) (x : Happening) (h : Limited d m) :
    Limited d ((srv.main d).step m x).2 := by
  have hstep := srv.mainStep d m x
  generalize (srv.main d).step m x = out at hstep
  cases hstep with
  | accepted remoteAddr hroom =>
    refine ⟨?_, hroom, fun seat hmem hreleased => ?_⟩
    · show List.countP _ (m.seats ++ [_]) = m.connSem + 1
      rw [List.countP_append, h.held]
      rfl
    · rcases List.mem_append.mp hmem with hmem | hmem
      · exact h.ended seat hmem hreleased
      · rw [List.mem_singleton.mp hmem] at hreleased
        cases hreleased
  | refused remoteAddr hfull => exact ⟨h.held, h.bound, h.ended⟩
  | turn i r seat hseat =>
    have hstay : seat.handler.ended = true →
        (srv.turn m.authenticator seat.handler r).2.2 = seat.handler := by
      intro hended
      rw [turn_of_ended hended]
    exact h.set_handler hseat hstay rfl rfl
  | timedOut i seat hseat => exact h.set_handler hseat timeout_of_ended rfl rfl
  | released i seat hseat hended hkept =>
    have hcount := countP_held_set hseat { seat with released := true }
    rw [hkept, h.held] at hcount
    refine ⟨?_, (Nat.sub_le _ 1).trans h.bound, fun seat' hmem hreleased => ?_⟩
    · exact Nat.eq_sub_of_add_eq hcount
    · rcases List.mem_or_eq_of_mem_set hmem with hmem | rfl
      · exact h.ended seat' hmem hreleased
      · exact hended
  | cleaned now => exact ⟨h.held, h.bound, h.ended⟩
  | idleTurn i r hseat => exact h
  | idleTimeout i hseat => exact h
  | idleRelease i => exact h

theorem limited_reached (srv : Server σ ε) (d : Deployment σ) (hs : List Happening) :
    Limited d (srv.mainReached d hs) :=
  Machine.after_invariant (I := Limited d) (fun m x h => limited_step m x h)
    ⟨rfl, Nat.zero_le _, fun _ hmem => absurd hmem List.not_mem_nil⟩ hs

/-- A connection is let in if there is room. -/
theorem accept_of_lt (srv : Server σ ε) (d : Deployment σ) (remoteAddr : Bytes)
    (h : m.connSem < d.maxConns) :
    (srv.main d).step m (.accept remoteAddr)
      = (.accepted, { m with
          connSem := m.connSem + 1
          seats := m.seats ++ [⟨srv.newHandler d m.seats.length, false⟩] }) := if_pos h

/-- It is refused otherwise, and nothing but the log shows that it came. -/
theorem accept_of_not_lt (srv : Server σ ε) (d : Deployment σ) (remoteAddr : Bytes)
    (h : ¬m.connSem < d.maxConns) :
    (srv.main d).step m (.accept remoteAddr)
      = (.refused, { m with audit := m.audit ++ [limitEntry remoteAddr] }) := if_neg h

/-- **At most `maxConns` connections are served at a time.** In every run of the server, in
which connections come and go in any order, `connSem` holds a value for each handler that has
not given back its place, and at most `maxConns` of them; so no more than `maxConns` handlers are
running. A connection that comes takes a place if there is one. If there is none, it is refused,
and an entry that says so is handed to the audit logger. After a handler has given back its
place, there is one. -/
theorem main_limit (srv : Server σ ε) (d : Deployment σ) (hs : List Happening)
    (remoteAddr : Bytes) :
    let m := srv.mainReached d hs
    m.connSem = (m.seats.countP fun seat => !seat.released)
      ∧ m.connSem ≤ d.maxConns
      ∧ (m.seats.countP fun seat => !seat.handler.ended) ≤ m.connSem
      ∧ (m.connSem < d.maxConns →
        (srv.main d).step m (.accept remoteAddr)
          = (.accepted, { m with
              connSem := m.connSem + 1
              seats := m.seats ++ [⟨srv.newHandler d m.seats.length, false⟩] }))
      ∧ (m.connSem = d.maxConns →
        (srv.main d).step m (.accept remoteAddr)
          = (.refused, { m with audit := m.audit ++ [limitEntry remoteAddr] }))
      ∧ ∀ i, ((srv.main d).step m (.release i)).1 = .released →
        ((srv.main d).step ((srv.main d).step m (.release i)).2 (.accept remoteAddr)).1
          = .accepted := by
  intro m
  have h : Limited d m := srv.limited_reached d hs
  refine ⟨h.held.symm, h.bound, ?_, fun hroom => accept_of_lt srv d remoteAddr hroom,
    fun hfull => accept_of_not_lt srv d remoteAddr hfull.not_lt, fun i hrelease => ?_⟩
  · rw [← h.held]
    refine List.countP_mono_left fun seat hmem hrunning => ?_
    rw [Bool.not_eq_true'] at hrunning ⊢
    refine Bool.eq_false_iff.mpr fun hreleased => ?_
    exact Bool.eq_false_iff.mp hrunning (h.ended seat hmem hreleased)
  · have hstep := srv.mainStep d m (.release i)
    revert hrelease
    generalize (srv.main d).step m (.release i) = out at hstep
    intro hrelease
    cases hstep with
    | idleRelease => cases hrelease
    | released i seat hseat hended hkept =>
      have hpos : 0 < m.connSem := by
        rw [← h.held]
        exact List.countP_pos_iff.mpr ⟨seat, List.mem_of_getElem? hseat, by rw [hkept]; rfl⟩
      have hroom : m.connSem - 1 < d.maxConns :=
        lt_of_lt_of_le (Nat.sub_lt hpos Nat.one_pos) h.bound
      exact congrArg Prod.fst (accept_of_lt srv d remoteAddr hroom)

/-! ## What is dispatched -/

/-- No turn changes the lifetime of sessions. -/
theorem sessionTTL_turn (srv : Server σ ε) (a : Authenticator) (h : Handler σ) (r : Reading) :
    (srv.turn a h r).2.1.sessionTTL = a.sessionTTL := by
  cases hphase : h.phase with
  | awaitAuth =>
    rcases (srv.turn_awaitAuth a r hphase).2.1 with heq | ⟨s, heq⟩
    · rw [heq]
    · rw [heq]
      exact Authenticator.sessionTTL_step a ((), .createChallenge r.now r.draw s)
  | awaitResponse s requestID =>
    rcases (srv.turn_awaitResponse a r hphase).2.1 with heq | ⟨response, heq⟩
    · rw [heq]
    · rw [heq]
      exact Authenticator.sessionTTL_step a ((), .verifyResponse r.now r.draw s response)
  | serving peer => rw [(srv.turn_serving a r hphase).1]
  | closed => rw [turn_closed hphase]

/-- The lifetime of sessions is the configured one. -/
theorem sessionTTL_reached (srv : Server σ ε) (d : Deployment σ) (hs : List Happening) :
    (srv.mainReached d hs).authenticator.sessionTTL = d.sessionTTL := by
  refine Machine.after_invariant (I := fun m : Main σ => m.authenticator.sessionTTL = d.sessionTTL)
    (fun m x h => ?_) rfl hs
  have hstep := srv.mainStep d m x
  generalize (srv.main d).step m x = out at hstep ⊢
  cases hstep with
  | turn i r seat hseat => exact (srv.sessionTTL_turn _ _ r).trans h
  | _ => exact h

/-- A turn that a connection sees as its own is its own. -/
theorem eq_turn_of_view {x : Happening} {w₁ w₂ : List Move}
    (h : srv.view i m x = w₁ ++ .turn r :: w₂) :
    x = .turn i r ∧ w₁ = [] ∧ ∃ seat, m.seats[i]? = some seat := by
  have hmem : Move.turn r ∈ srv.view i m x := h ▸ List.mem_append_right w₁ List.mem_cons_self
  cases x with
  | accept remoteAddr => cases hmem
  | release j => cases hmem
  | cleanup now => cases List.mem_singleton.mp hmem
  | timeout j =>
    unfold view at hmem
    dsimp only at hmem
    split at hmem
    · cases hmem
    · split at hmem
      · cases List.mem_singleton.mp hmem
      · cases hmem
  | turn j r' =>
    unfold view at h hmem
    dsimp only at h hmem
    cases hseat : m.seats[j]? with
    | none =>
      rw [hseat] at hmem
      cases hmem
    | some seat =>
      rw [hseat] at h hmem
      dsimp only at h hmem
      by_cases hji : j = i
      · subst hji
        rw [if_pos rfl] at h hmem
        cases List.mem_singleton.mp hmem
        refine ⟨rfl, ?_, seat, hseat⟩
        cases w₁ with
        | nil => rfl
        | cons k w₁ =>
          have hrest := (List.cons.inj h).2
          exact absurd hrest.symm
            (List.append_ne_nil_of_right_ne_nil w₁ (List.cons_ne_nil _ w₂))
      · rw [if_neg hji, Option.mem_toList] at hmem
        obtain ⟨call, -, heq⟩ := Option.map_eq_some_iff.mp hmem
        cases heq

/-- What a connection that has been admitted did in the run of the server: in a turn of its own
it answered the challenge that was pending for the service. -/
theorem exists_turn_of_admitted {s : Bytes} {peer : PeerIdentity} {later : List Move}
    (h : srv.Admitted (d.conns i) (srv.movesOf d i hs) s peer later) :
    ∃ hs₁ r₁ hs₂ seat, hs = hs₁ ++ .turn i r₁ :: hs₂
      ∧ (srv.mainReached d hs₁).seats[i]? = some seat
      ∧ srv.Proves srv.secret ⟨(srv.mainReached d hs₁).authenticator, seat.handler⟩ r₁ s peer := by
  obtain ⟨moves₁, r₁, hmoves, -, hproves, -⟩ := h
  cases moves₁ with
  | nil => cases (List.cons.inj hmoves).1
  | cons first moves₁ =>
    obtain ⟨rfl, hviewed⟩ := List.cons.inj hmoves
    obtain ⟨hs₁, x, hs₂, w₁, w₂, rfl, hview, rfl⟩ := Machine.exists_of_viewed_eq hviewed
    obtain ⟨rfl, rfl, seat, hseat⟩ := eq_turn_of_view hview
    have hreached := srv.reached_movesOf d i hs₁
    rw [stateOf, handlerOf_of_some (m := srv.mainReached d hs₁) hseat] at hreached
    refine ⟨hs₁, r₁, hs₂, seat, rfl, hseat, ?_⟩
    rw [List.append_nil] at hproves
    exact hreached ▸ hproves

theorem seats_turn (h : m.seats[i]? = some seat) (r : Reading) :
    ((srv.main d).step m (.turn i r)).2.seats[i]?
      = some { seat with handler := (srv.turn m.authenticator seat.handler r).2.2 } := by
  obtain ⟨hlt, -⟩ := List.getElem?_eq_some_iff.mp h
  rw [main_turn_of_some h]
  exact List.getElem?_set_self hlt

theorem view_turn (h : m.seats[i]? = some seat) (r : Reading) :
    srv.view i m (.turn i r) = [.turn r] := by
  unfold view
  dsimp only
  rw [h]
  exact if_pos rfl

/-- The first connection, if it is left alone, sees its own turns only. -/
theorem reached_alone (srv : Server σ ε) (hroom : 0 < d.maxConns) (remoteAddr : Bytes)
    (rs : List Reading) :
    ∃ seat, (srv.mainReached d (.accept remoteAddr :: rs.map (.turn 0))).seats[0]? = some seat
      ∧ srv.movesOf d 0 (.accept remoteAddr :: rs.map (.turn 0))
        = .call (.setSessionTTL d.sessionTTL) :: rs.map .turn := by
  induction rs using List.reverseRecOn with
  | nil =>
    have haccept : (srv.main d).step (srv.mainStart d) (.accept remoteAddr)
        = (.accepted, { srv.mainStart d with
            connSem := 1
            seats := [⟨srv.newHandler d 0, false⟩] }) := if_pos hroom
    refine ⟨⟨srv.newHandler d 0, false⟩, ?_, rfl⟩
    show ((srv.main d).step (srv.mainStart d) (.accept remoteAddr)).2.seats[0]? = _
    rw [haccept]
    rfl
  | append_singleton rs r ih =>
    obtain ⟨seat, hseat, hmoves⟩ := ih
    rw [List.map_append, ← List.cons_append, List.map_singleton, mainReached_concat]
    refine ⟨_, seats_turn hseat r, ?_⟩
    have hview : srv.view 0 (srv.mainReached d (.accept remoteAddr :: rs.map (.turn 0)))
        (.turn 0 r) = [.turn r] := view_turn hseat r
    unfold movesOf at hmoves ⊢
    rw [Machine.viewed_concat, ← List.cons_append, hmoves, List.map_append]
    exact congrArg _ hview

/-- **What the server dispatches.** In every run of the server, a message that a connection
has dispatched came over this connection, which had proved before, in a turn of its own, that
it knows the secret: it had answered the challenge that was then pending for its service. Since
then no more than the configured lifetime has passed, and the capability that the message
claims, if any, is one of those that the service was configured with. -/
theorem main_dispatched (srv : Server σ ε) (d : Deployment σ) (hs : List Happening) (i : ℕ)
    (r : Reading) (t : Turn ε) (msg : Message Instant) (handled : Handled)
    (hturn : ((srv.main d).step (srv.mainReached d hs) (.turn i r)).1 = .turn i r t)
    (hd : t.dispatched = some (msg, handled)) :
    ∃ hs₁ r₁ hs₂ seat₁ seat peer, hs = hs₁ ++ .turn i r₁ :: hs₂
      ∧ (srv.mainReached d hs₁).seats[i]? = some seat₁
      ∧ srv.Proves srv.secret ⟨(srv.mainReached d hs₁).authenticator, seat₁.handler⟩ r₁
        peer.serviceID peer
      ∧ (srv.mainReached d hs).seats[i]? = some seat
      ∧ (srv.receive seat.handler).1 = .ok msg
      ∧ Lives d.sessionTTL r₁.now r.now
      ∧ srv.known.lookup peer.serviceID = some peer.capabilities
      ∧ (msg.capability = [] ∨ msg.capability ∈ peer.capabilities) := by
  cases hseat : (srv.mainReached d hs).seats[i]? with
  | none =>
    rw [main_turn_of_none hseat] at hturn
    cases hturn
  | some seat =>
    rw [observed_turn hseat] at hturn
    have ht := (Observed.turn.inj hturn).2.2
    have hreached := srv.reached_movesOf d i hs
    rw [stateOf, handlerOf_of_some hseat] at hreached
    rw [← ht] at hd
    have hd' : (srv.turn (srv.reached (d.conns i) (srv.movesOf d i hs)).authenticator
        (srv.reached (d.conns i) (srv.movesOf d i hs)).handler r).1.dispatched
          = some (msg, handled) := by
      rw [hreached]
      exact hd
    obtain ⟨peer, later, hadmitted, hlookup, hphase, hcaps, hloop⟩ := loopTurn_of_dispatched hd'
    rw [hreached] at hphase hcaps hloop
    obtain ⟨hreceive, hexpired, hcap, -, -⟩ := hloop.of_dispatched hd
    rw [hcaps] at hcap
    obtain ⟨hs₁, r₁, hs₂, seat₁, rfl, hseat₁, hproves⟩ := exists_turn_of_admitted hadmitted
    refine ⟨hs₁, r₁, hs₂, seat₁, seat, peer, rfl, hseat₁, hproves, rfl, hreceive, ?_, hlookup, hcap⟩
    -- the session was opened at the time of the proof, with the configured lifetime
    obtain ⟨-, -, nonce, -, -, -, -, -, hverify⟩ := hproves
    have hserves := (srv.serves_reached (d.conns i) (srv.movesOf d i hs₁)).1
    rw [srv.reached_movesOf d i hs₁] at hserves
    obtain ⟨-, hcreated, -, httl⟩ := hserves.verifyResponse hverify
    rw [PeerIdentity.isExpired_eq_false_iff, hcreated, httl] at hexpired
    have hconfigured : (srv.stateOf d i (srv.mainReached d hs₁)).authenticator.sessionTTL
        = d.sessionTTL := srv.sessionTTL_reached d hs₁
    rw [hconfigured] at hexpired
    exact hexpired

/-- An hour is the lifetime that sessions have if none is set. -/
theorem reached_setSessionTTL (srv : Server σ ε) (s₀ : σ) (moves : List Move) :
    srv.reached s₀ (.call (.setSessionTTL 3600000000000) :: moves) = srv.reached s₀ moves := rfl

/-- A server that admits one connection at a time, over which an agent clicks. -/
def clicking : Deployment Script where
  sessionTTL := 3600000000000
  maxConns := 1
  conns _ := Script.sending Script.click 1

/-- The agent connects and is admitted. -/
def admission : List Happening :=
  .accept (ascii "127.0.0.1:40000")
    :: [⟨0, 0, Authenticator.constantDraw 1⟩, ⟨0, 0, Authenticator.constantDraw 2⟩].map (.turn 0)

theorem handler_admission :
    ∃ seat, (Script.server.mainReached clicking admission).seats[0]? = some seat
      ∧ seat.handler = Script.handler Script.tracker 2 Script.agent.capabilities
        ⟨[Script.frameFor 3 Script.click], 1⟩ (.serving Script.agent) := by
  obtain ⟨seat, hseat, hmoves⟩ := Script.server.reached_alone (d := clicking) Nat.one_pos
    (ascii "127.0.0.1:40000")
    [⟨0, 0, Authenticator.constantDraw 1⟩, ⟨0, 0, Authenticator.constantDraw 2⟩]
  refine ⟨seat, hseat, ?_⟩
  have hreached := Script.server.reached_movesOf clicking 0 admission
  unfold admission at hreached
  rw [stateOf, handlerOf_of_some hseat, hmoves] at hreached
  have hmoves : Script.server.reached (clicking.conns 0)
      (.call (.setSessionTTL clicking.sessionTTL) :: Script.handshake)
        = Script.server.reached (Script.sending Script.click 1) Script.handshake :=
    reached_setSessionTTL Script.server (Script.sending Script.click 1) Script.handshake
  exact (congrArg State.handler
    ((Script.reached_handshake Script.click 1).symm.trans (hmoves.symm.trans hreached))).symm

theorem dispatched_third {a : Authenticator} {h : Handler Script}
    (hh : h = Script.handler Script.tracker 2 Script.agent.capabilities
      ⟨[Script.frameFor 3 Script.click], 1⟩ (.serving Script.agent)) :
    ∃ handled, (Script.server.turn a h Script.third).1.dispatched
      = some (Script.click, handled) := by
  have hstate : (State.mk a h).handler = _ := hh
  exact ⟨_, (Script.controls_click.dispatched hstate).1⟩

/-- The click is dispatched. -/
theorem main_dispatched_click :
    ∃ hs₁ r₁ hs₂ seat₁ peer, admission = hs₁ ++ .turn 0 r₁ :: hs₂
      ∧ (Script.server.mainReached clicking hs₁).seats[0]? = some seat₁
      ∧ Script.server.Proves Script.server.secret
        ⟨(Script.server.mainReached clicking hs₁).authenticator, seat₁.handler⟩ r₁
        peer.serviceID peer
      ∧ ascii "ui:control" ∈ peer.capabilities := by
  obtain ⟨seat, hseat, hhandler⟩ := handler_admission
  obtain ⟨handled, hd⟩ := dispatched_third
    (a := (Script.server.mainReached clicking admission).authenticator) hhandler
  obtain ⟨hs₁, r₁, hs₂, seat₁, -, peer, hsplit, hseat₁, hproves, -, -, -, -, hcap⟩ :=
    main_dispatched Script.server clicking admission 0 Script.third _ Script.click handled
      (observed_turn hseat Script.third) hd
  rw [Script.controls_click.capability] at hcap
  exact ⟨hs₁, r₁, hs₂, seat₁, peer, hsplit, hseat₁, hproves, hcap.resolve_left (by decide)⟩

end Server

end EipcServer
