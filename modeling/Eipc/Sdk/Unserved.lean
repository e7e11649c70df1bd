import Eipc.Sdk.Interop
import Eipc.Conversation

/-!
# C clients at `eipc-server`

The client of the C SDK has no handshake: its first message is one of the five that its calls send,
and none of these asks for a challenge. So `handleConnection` ends such a connection in its first
turn, whatever the keys of the two sides are (`Interop.unserved`). The endpoint below it, used
on its own, does receive these messages (`Interop.server_receives`).
-/

open Bytes MessageType EipcFrame JsonField

namespace EipcServer

namespace Server

variable {σ ε : Type} {srv : Server σ ε}

/-- The first message, if there is one, does not ask for a challenge. -/
def Uninvited (srv : Server σ ε) (h : Handler σ) : Prop :=
  ∀ msg, (srv.receive h).1 = .ok msg → msg.type ≠ typeAuth

/-- The handler still waits for the first message, after moves among which there was no turn, or
it has ended and has at most received something. -/
def Turned (srv : Server σ ε) (h₀ : Handler σ) (moves : List Move) (h : Handler σ) : Prop :=
  h = h₀ ∧ Quiet moves
    ∨ h.phase = .closed ∧ (h.conn = h₀.conn ∨ h.conn = (srv.receive h₀).2.conn)

/-- A turn that does nothing but receive. -/
def Turn.Mute (t : Turn ε) : Prop := t.audit = [] ∧ t.dispatched = none ∧ t.sent = none

/-- **The first turn**, if no challenge is asked for: the connection ends. -/
theorem turn_of_uninvited {h₀ : Handler σ} (hphase : h₀.phase = .awaitAuth)
    (h : srv.Uninvited h₀) (a : Authenticator) (r : Reading) :
    ∃ received, srv.turn a h₀ r
      = ({ received := some received }, a, (srv.receive h₀).2.goto .closed) := by
  have hopen : h₀.phase ≠ .closed := by
    rw [hphase]
    intro hclosed
    cases hclosed
  cases hreceive : (srv.receive h₀).1 with
  | error err => exact ⟨.error err, turn_of_error hopen hreceive⟩
  | ok msg =>
    refine ⟨.ok msg, (turn_of_ok hopen hreceive).trans ?_⟩
    unfold onReceived
    rw [phase_receive, hphase]
    exact if_pos (h msg hreceive)

/-- **One move**: whatever it is, the peer is not served. -/
theorem Turned.step {h₀ : Handler σ} (hphase : h₀.phase = .awaitAuth) (h : srv.Uninvited h₀)
    {moves : List Move} {st : State σ} (hst : srv.Turned h₀ moves st.handler) (i : Move) :
    srv.Turned h₀ (moves ++ [i]) (srv.machine.step st i).2.handler
      ∧ ∀ t, (srv.machine.step st i).1 = .turn t → Turn.Mute t := by
  cases i with
  | call call =>
    refine ⟨hst.imp_left fun ⟨hsame, hquiet⟩ => ⟨hsame, hquiet.concat call⟩, fun t ht => ?_⟩
    cases ht
  | timeout =>
    refine ⟨.inr ?_, fun t ht => ?_⟩
    · have hnext : (srv.machine.step st .timeout).2.handler = st.handler.timeout := rfl
      rw [hnext, Handler.timeout]
      rcases hst with ⟨hsame, -⟩ | ⟨hclosed, hconn⟩
      · rw [hsame, hphase]
        exact ⟨rfl, .inl rfl⟩
      · rw [hclosed]
        exact ⟨hclosed, hconn⟩
    · cases ht
  | turn r =>
    rcases hst with ⟨hsame, -⟩ | ⟨hclosed, hconn⟩
    · obtain ⟨received, hturn⟩ := turn_of_uninvited hphase h st.authenticator r
      have hstep : srv.machine.step st (.turn r) = _ :=
        congrArg (fun x => (Event.turn x.1, State.mk x.2.1 x.2.2)) (hsame ▸ hturn)
      rw [hstep]
      refine ⟨.inr ⟨rfl, .inr (by rw [← hsame]; rfl)⟩, fun t ht => ?_⟩
      cases ht
      exact ⟨rfl, rfl, rfl⟩
    · have hstep : srv.machine.step st (.turn r) = _ :=
        congrArg (fun x => (Event.turn x.1, State.mk x.2.1 x.2.2)) (turn_closed hclosed)
      rw [hstep]
      refine ⟨.inr ⟨hclosed, hconn⟩, fun t ht => ?_⟩
      cases ht
      exact ⟨rfl, rfl, rfl⟩

/-- **A whole run**, one move after the other. -/
theorem Turned.run (st₀ : State σ) (hphase : st₀.handler.phase = .awaitAuth)
    (h : srv.Uninvited st₀.handler) (moves : List Move) :
    srv.Turned st₀.handler moves (srv.machine.after st₀ moves).handler
      ∧ ∀ t, Event.turn t ∈ srv.machine.answers st₀ moves → Turn.Mute t := by
  induction moves using List.reverseRecOn with
  | nil =>
    exact ⟨.inl ⟨rfl, List.forall_mem_nil _⟩, fun t ht => absurd ht List.not_mem_nil⟩
  | append_singleton moves i ih =>
    obtain ⟨hnext, hmute⟩ := ih.1.step hphase h i
    rw [Machine.after_concat, Machine.answers_concat]
    refine ⟨hnext, fun t ht => ?_⟩
    rcases List.mem_append.mp ht with ht | ht
    · exact ih.2 t ht
    · exact hmute t (List.mem_singleton.mp ht).symm

end Server

end EipcServer

namespace Interop

open EipcServer

variable {F : Type} {env : SendEnv F} {c : EipcSendingClient}

/-- What the calls write begins with the record of one of them, if they write anything. -/
theorem written_eq (hsend : ∀ bytes, env.sendAll bytes = true) (hconnected : c.connected = true)
    (calls : List (CallReading × ClientCall F)) :
    ((ClientCall.machine env).answers c calls).flatMap ClientCall.written = []
      ∨ ∃ (call : ClientCall F) (header payload rest : Bytes), header.length ≤ eipcMaxHeader
        ∧ payload.length ≤ eipcMaxPayload
        ∧ ((ClientCall.machine env).answers c calls).flatMap ClientCall.written
          = signedRecord c.hmacKey call.msgType header payload ++ rest := by
  induction calls generalizing c with
  | nil => exact .inl rfl
  | cons i calls ih =>
    obtain ⟨header, hheader, hperform⟩ := perform_eq (c := c) hsend hconnected i.1 i.2
    have hstep : (ClientCall.machine env).step c i = _ := hperform
    have hrest := ih (c := { c with sequence := c.sequence + 1 }) hconnected
    rw [Machine.answers_cons, List.flatMap_cons, hstep]
    cases hres : i.2.payload (env.reading i.1) c.serviceId with
    | none => exact hrest
    | some res =>
      cases res with
      | error e => exact hrest
      | ok payload =>
        exact .inr ⟨i.2, header, payload, _, (length_lt_of_printed hheader).le,
          length_payload_le hres, rfl⟩

/-- No call asks for a challenge. -/
theorem msgTypeFromByte_msgType_ne (call : ClientCall F) :
    msgTypeFromByte call.msgType ≠ typeAuth := by
  cases call with
  | intent => exact (show msgTypeFromByte eipcMsgIntent ≠ typeAuth by decide)
  | toolRequest => exact (show msgTypeFromByte eipcMsgToolRequest ≠ typeAuth by decide)
  | heartbeat => exact (show msgTypeFromByte eipcMsgHeartbeat ≠ typeAuth by decide)
  | chat => exact (show msgTypeFromByte eipcMsgChat ≠ typeAuth by decide)
  | complete => exact (show msgTypeFromByte eipcMsgComplete ≠ typeAuth by decide)

theorem exists_of_accept {v : ServerEndpoint} {Time ε : Type} {tf : TimeFormat Time} {f : Frame}
    {msg : Message Time} (h : (v.accept (ε := ε) tf f).1 = .ok msg) :
    ∃ hdr, msg = Endpoint.messageOf tf f hdr := by
  unfold ServerEndpoint.accept at h
  split at h
  · cases h
  · split at h
    · cases h
    · exact ⟨_, (Except.ok.inj h).symm⟩

theorem output_receive {srv : Server ConnWrapper.Stream TransportError}
    (hconn : srv.conn = ConnWrapper.connection) (h : Handler ConnWrapper.Stream) :
    (srv.receive h).2.conn.output = h.conn.output := by
  unfold Server.receive ServerEndpoint.receive
  rw [hconn]
  dsimp only [ConnWrapper.connection]
  cases (ConnWrapper.receive h.conn.input).1 with
  | error err => rfl
  | ok frame => rfl

/-- **The first message is none of the handshake's.** -/
theorem uninvited (hsend : ∀ bytes, env.sendAll bytes = true) (hconnected : c.connected = true)
    (calls : List (CallReading × ClientCall F)) {srv : Server ConnWrapper.Stream TransportError}
    (hconn : srv.conn = ConnWrapper.connection) (out : Bytes) :
    srv.Uninvited (Handler.new srv.codec srv.hmacKey
      ⟨((ClientCall.machine env).answers c calls).flatMap ClientCall.written, out⟩) := by
  intro msg hmsg
  unfold Server.receive ServerEndpoint.receive at hmsg
  rw [hconn] at hmsg
  dsimp only [ConnWrapper.connection, Handler.new] at hmsg
  rcases written_eq hsend hconnected calls with hnil | ⟨call, header, payload, rest, hh, hp, heq⟩
  · rw [hnil] at hmsg
    cases hmsg
  · rw [heq, read_signedRecord hh hp] at hmsg
    dsimp only at hmsg
    obtain ⟨hdr, rfl⟩ := exists_of_accept hmsg
    exact msgTypeFromByte_msgType_ne call

/-- **A client of the C SDK is never served.** Whatever calls it makes and whatever its key is, if
the socket takes all that it writes: `handleConnection` ends the connection in its first turn, the
one in which it receives the first message, unless the timer of the handshake has done so before.
No message is dispatched, nothing is logged, and not a byte is sent back. -/
theorem unserved (env : SendEnv F) (hsend : ∀ bytes, env.sendAll bytes = true)
    (c : EipcSendingClient) (hconnected : c.connected = true)
    (calls : List (CallReading × ClientCall F)) (srv : Server ConnWrapper.Stream TransportError)
    (hconn : srv.conn = ConnWrapper.connection) (moves : List Move) :
    let s₀ : ConnWrapper.Stream :=
      ⟨((ClientCall.machine env).answers c calls).flatMap ClientCall.written, []⟩
    let h := (srv.reached s₀ moves).handler
    ((∃ r, Move.turn r ∈ moves) → h.phase = .closed)
      ∧ (h.phase = .awaitAuth ∨ h.phase = .closed) ∧ h.conn.output = []
      ∧ ∀ t, Event.turn t ∈ srv.machine.answers (srv.start s₀) moves →
        t.audit = [] ∧ t.dispatched = none ∧ t.sent = none := by
  intro s₀ h
  have hrun := Server.Turned.run (srv.start s₀) rfl
    (uninvited hsend hconnected calls hconn []) moves
  refine ⟨?_, ?_, ?_, hrun.2⟩
  · rintro ⟨r, hr⟩
    rcases hrun.1 with ⟨-, hquiet⟩ | ⟨hclosed, -⟩
    · obtain ⟨call, hcall⟩ := hquiet _ hr
      cases hcall
    · exact hclosed
  · exact hrun.1.imp (fun hwaits => congrArg Handler.phase hwaits.1) And.left
  · rcases hrun.1 with ⟨hsame, -⟩ | ⟨-, hconn' | hconn'⟩
    · exact congrArg (fun x => x.conn.output) hsame
    · exact congrArg ConnWrapper.Stream.output hconn'
    · exact (congrArg ConnWrapper.Stream.output hconn').trans (output_receive hconn _)

/-- The keys are the same on both sides, and the server asks for two messages. -/
theorem unserved_two :
    let srv := Handshake.server EipcServer.Script.zeroTime (ascii "secret")
    let h := (srv.reached ⟨((ClientCall.machine openSocket).answers openClient twoCalls).flatMap
      ClientCall.written, []⟩ [.turn Script.third, .turn Script.third]).handler
    h.phase = .closed ∧ h.conn.output = [] := by
  have h := unserved openSocket (fun _ => rfl) openClient rfl twoCalls
    (Handshake.server EipcServer.Script.zeroTime (ascii "secret")) rfl
    [.turn Script.third, .turn Script.third]
  exact ⟨h.1 ⟨Script.third, List.mem_cons_self⟩, h.2.2.1⟩

end Interop
