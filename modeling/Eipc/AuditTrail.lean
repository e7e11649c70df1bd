import Eipc.Admission

/-!
# The audit trail

What the audit log says of the messages of a connection. The entries of the message
loop name the service that the connection authenticated as. The entries of the
handlers do not: they repeat the source that the message names, and the entry for an
intent also repeats the action that the payload names, whereas the action that was
checked is always `ui.cursor.move`. So what the entries of a connection are worth
depends on what its peer sends, and the results of this module say on what exactly
(`EipcServer.Server.allowed_permitted_iff`, `EipcServer.Server.source_authenticated_iff`).
-/

open Bytes MessageType Audit

namespace EipcServer

namespace Server

variable {σ ε : Type} {srv : Server σ ε} {s₀ : σ} {moves later : List Move} {st : State σ}
  {peer : PeerIdentity} {t : Turn ε} {msg : Message Instant} {handled : Handled}

/-! ## The turns of a connection -/

theorem loops_step (st : State σ) (i : Move) (h : Loops peer st.handler) :
    Loops peer (srv.machine.step st i).2.handler := by
  cases i with
  | turn r => exact (srv.loops_turn st.authenticator r h).2
  | call call => exact h
  | timeout => exact h.timeout

/-- **The turns of a connection that has authenticated** are turns of the message loop
with the same peer, until it ends. -/
theorem loopTurn_of_mem_answers (hloops : Loops peer st.handler)
    (ht : .turn t ∈ srv.machine.answers st later) :
    (t.dispatched = none ∧ t.audit = [])
      ∨ ∃ h r h', h.endpoint.peerCapabilities = peer.capabilities ∧ LoopTurn srv h r peer t h' := by
  obtain ⟨log₁, log₂, hlog⟩ := List.append_of_mem ht
  obtain ⟨later₁, i, later₂, rfl, -, hanswer⟩ := Machine.exists_of_answers_eq hlog
  have hloops₁ : Loops peer (srv.machine.after st later₁).handler :=
    Machine.after_invariant (I := fun st : State σ => Loops peer st.handler)
      loops_step hloops later₁
  generalize srv.machine.after st later₁ = st₁ at hanswer hloops₁
  cases i with
  | call call => exact (nomatch hanswer)
  | timeout => exact (nomatch hanswer)
  | turn r =>
    obtain rfl : (srv.turn st₁.authenticator st₁.handler r).1 = t := Event.turn.inj hanswer
    rcases hloops₁ with hclosed | ⟨hserving, hcaps⟩
    · rw [turn_closed hclosed]
      exact .inl ⟨rfl, rfl⟩
    · exact .inr ⟨_, r, _, hcaps, (srv.turn_serving st₁.authenticator r hserving).2⟩

/-- What is dispatched on such a connection. -/
theorem of_dispatched_mem_answers (hloops : Loops peer st.handler)
    (ht : .turn t ∈ srv.machine.answers st later) (hd : t.dispatched = some (msg, handled)) :
    (msg.capability = [] ∨ msg.capability ∈ peer.capabilities)
      ∧ (∃ now, handled = (router srv.env).dispatch now msg) ∧ t.audit = handled.audit := by
  rcases loopTurn_of_mem_answers hloops ht with ⟨hnone, -⟩ | ⟨h, r, h', hcaps, hturn⟩
  · exact (nomatch hnone.symm.trans hd)
  · obtain ⟨-, -, hcap, hhandled, haudit⟩ := hturn.of_dispatched hd
    rw [hcaps] at hcap
    exact ⟨hcap, ⟨_, hhandled⟩, haudit⟩

/-! ## What is logged as allowed -/

/-- **When the actions that are logged as allowed are permitted.** On a connection that
has authenticated, every action that a handler logs as allowed is permitted by a
capability of the peer exactly when this is so for what the intents ask for, as far as
their capability permits `ui.cursor.move`. -/
theorem allowed_permitted_iff (srv : Server σ ε) (s₀ : σ) (moves later : List Move)
    (peer : PeerIdentity) (hpeer : (srv.reached s₀ moves).handler.phase = .serving peer) :
    let log := srv.machine.answers (srv.reached s₀ moves) later
    (∀ t, .turn t ∈ log → ∀ msg handled, t.dispatched = some (msg, handled) →
        ∀ entry ∈ handled.audit, entry.decision = .allowed →
          capChecker.check peer.capabilities entry.action = .ok ())
      ↔ ∀ t, .turn t ∈ log → ∀ msg handled, t.dispatched = some (msg, handled) →
        msg.type = typeIntent →
          ∀ intent, srv.env.payloads.unmarshalIntent msg.payload = .ok intent →
          capChecker.check [msg.capability] (ascii "ui.cursor.move") = .ok () →
            capChecker.check peer.capabilities intent.intent = .ok () := by
  intro log
  have hloops := loops_reached hpeer
  constructor
  · intro hall t ht msg handled hd htype intent hread hcheck
    obtain ⟨-, ⟨now, rfl⟩, -⟩ := of_dispatched_mem_answers hloops ht hd
    obtain ⟨entry, hentry, hallowed, haction⟩ := exists_allowed_intent now htype hread hcheck
    exact haction ▸ hall t ht msg _ hd entry hentry hallowed
  · intro hall t ht msg handled hd entry hentry hallowed
    obtain ⟨hcap, ⟨now, rfl⟩, -⟩ := of_dispatched_mem_answers hloops ht hd
    obtain ⟨-, checked, hchecked, hlogs, hcheck⟩ := of_mem_audit hentry
    have hgranted := hcheck hallowed
    unfold LogsAction at hlogs
    by_cases htype : msg.type = typeIntent
    · rw [if_pos htype] at hlogs
      obtain ⟨intent, hread, haction⟩ := hlogs
      rw [htype] at hchecked
      cases hchecked
      rw [haction]
      exact hall t ht msg _ hd htype intent hread hgranted
    · -- the chat and complete handlers log what they have checked
      rw [if_neg htype] at hlogs
      rw [hlogs]
      exact Checker.check_of_mem (hcap.resolve_left (capability_ne_nil hgranted)) hgranted

/-- An agent that asks for a click, which it may do. -/
theorem allowed_permitted_iff_click :
    let st := Script.server.reached (Script.sending Script.click 1) Script.handshake
    st.handler.phase = .serving Script.agent
      ∧ ∀ t, .turn t ∈ Script.server.machine.answers st [.turn Script.third] →
        ∀ msg handled, t.dispatched = some (msg, handled) →
          ∀ entry ∈ handled.audit, entry.decision = .allowed →
            capChecker.check Script.agent.capabilities entry.action = .ok () := by
  have hclick := Script.controls_click
  generalize Script.click = click at hclick ⊢
  have hst := Script.handler_handshake click 1
  have hphase := congrArg Handler.phase hst
  refine ⟨hphase, (allowed_permitted_iff Script.server (Script.sending click 1) Script.handshake
    [.turn Script.third] Script.agent hphase).mpr ?_⟩
  intro t ht msg handled hd htype intent hread hcheck
  obtain rfl := hclick.eq_of_dispatched hst ht hd
  cases hclick.read.symm.trans hread
  decide +kernel

/-- **An agent reboots the system**, if the log is to be believed. The agent asks for a
reboot with the capability to control the user interface, and the log says that it was
allowed. -/
theorem allowed_reboot :
    let reboot := Script.intentMessage Script.service (ascii "ui:control") (ascii "system.reboot")
    let st := Script.server.reached (Script.sending reboot 1) Script.handshake
    st.handler.phase = .serving Script.agent
      ∧ capChecker.check Script.agent.capabilities (ascii "system.reboot") ≠ .ok ()
      ∧ ∃ handled, (Script.server.turn st.authenticator st.handler Script.third).1.dispatched
          = some (reboot, handled)
        ∧ ∃ entry ∈ handled.audit, entry.decision = .allowed
          ∧ entry.action = ascii "system.reboot" := by
  have hreboot := Script.controls_intentMessage Script.validUTF8_service
    (Json.validUTF8_of_ascii (s := ascii "system.reboot") rfl)
  generalize Script.intentMessage Script.service (ascii "ui:control") (ascii "system.reboot")
    = reboot
    at hreboot ⊢
  have hst := Script.handler_handshake reboot 1
  exact ⟨congrArg Handler.phase hst, by decide +kernel, _, (hreboot.dispatched hst).1,
    exists_allowed_intent _ hreboot.type hreboot.read hreboot.check⟩

/-! ## Whom the entries name -/

/-- **When the entries name the peer.** On a connection that has authenticated, every
entry that is written while its messages are handled has the authenticated service as
its source exactly when every dispatched intent, chat or completion that can be read
names it. -/
theorem source_authenticated_iff (srv : Server σ ε) (s₀ : σ) (moves later : List Move)
    (peer : PeerIdentity) (hpeer : (srv.reached s₀ moves).handler.phase = .serving peer) :
    let log := srv.machine.answers (srv.reached s₀ moves) later
    (∀ t, .turn t ∈ log → ∀ entry ∈ t.audit, entry.source = peer.serviceID)
      ↔ ∀ t, .turn t ∈ log → ∀ msg handled, t.dispatched = some (msg, handled) →
        readable srv.env msg = true → msg.source = peer.serviceID := by
  intro log
  have hloops := loops_reached hpeer
  constructor
  · intro hall t ht msg handled hd hread
    obtain ⟨-, ⟨now, rfl⟩, haudit⟩ := of_dispatched_mem_answers hloops ht hd
    obtain ⟨entry, hentry⟩ := List.exists_mem_of_ne_nil _ ((audit_ne_nil_iff _ now _).mpr hread)
    rw [← (of_mem_audit hentry).1]
    exact hall t ht entry (haudit ▸ hentry)
  · intro hall t ht entry hentry
    rcases loopTurn_of_mem_answers hloops ht with ⟨-, hnil⟩ | ⟨h, r, h', -, hturn⟩
    · rw [hnil] at hentry
      exact absurd hentry List.not_mem_nil
    · cases hturn with
      | gone _ _ _ hnil _ =>
        rw [hnil] at hentry
        exact absurd hentry List.not_mem_nil
      | expired _ _ haudit _ =>
        rw [haudit] at hentry
        rw [List.mem_singleton.mp hentry]
      | refused msg _ _ _ haudit _ _ _ =>
        rw [haudit] at hentry
        rw [List.mem_singleton.mp hentry]
      | dispatched msg _ _ _ hd haudit _ _ =>
        rw [haudit] at hentry
        have hread := (audit_ne_nil_iff _ _ _).mp (List.ne_nil_of_mem hentry)
        rw [(of_mem_audit hentry).1]
        exact hall t ht msg _ hd hread

/-- An agent that names itself. -/
theorem source_authenticated_iff_click :
    let st := Script.server.reached (Script.sending Script.click 1) Script.handshake
    st.handler.phase = .serving Script.agent
      ∧ ∀ t, .turn t ∈ Script.server.machine.answers st [.turn Script.third] →
        ∀ entry ∈ t.audit, entry.source = Script.agent.serviceID := by
  have hclick := Script.controls_click
  generalize Script.click = click at hclick ⊢
  have hst := Script.handler_handshake click 1
  have hphase := congrArg Handler.phase hst
  refine ⟨hphase, (source_authenticated_iff Script.server (Script.sending click 1) Script.handshake
    [.turn Script.third] Script.agent hphase).mpr ?_⟩
  intro t ht msg handled hd _
  rw [hclick.eq_of_dispatched hst ht hd]
  exact hclick.source

/-- **An agent poses as another service.** It authenticates as `ail.min.agent` and sends
an intent that names `nia.framework`, and so does the log. -/
theorem source_impostor :
    let click := Script.intentMessage (ascii "nia.framework") (ascii "ui:control")
      (ascii "ui.click")
    let st := Script.server.reached (Script.sending click 1) Script.handshake
    st.handler.phase = .serving Script.agent ∧ Script.agent.serviceID = ascii "ail.min.agent"
      ∧ ∃ entry ∈ (Script.server.turn st.authenticator st.handler Script.third).1.audit,
        entry.source = ascii "nia.framework" := by
  have hclick := Script.controls_intentMessage
    (Json.validUTF8_of_ascii (s := ascii "nia.framework") rfl)
    (Json.validUTF8_of_ascii (s := ascii "ui.click") rfl)
  generalize Script.intentMessage (ascii "nia.framework") (ascii "ui:control") (ascii "ui.click")
    = click at hclick ⊢
  have hst := Script.handler_handshake click 1
  obtain ⟨entry, hentry, -⟩ := exists_allowed_intent Script.third.stamp hclick.type hclick.read
    hclick.check
  refine ⟨congrArg Handler.phase hst, rfl, entry, ?_, ?_⟩
  · rw [(hclick.dispatched hst).2]
    exact hentry
  · rw [(of_mem_audit hentry).1, hclick.source]

end Server

end EipcServer
