import Eipc.Auth
import Eipc.Endpoint
import Eipc.Events

/-!
# The server's handlers

What `cmd/eipc-server` does with a message once the message loop has let it
through: the router (`core/router.go`) finds the handler of its type, and the
handlers of `main` check a capability (`security/capability/checker.go`), write an
entry to the audit log (`services/audit/audit.go`) and make a reply.

The intent, chat and complete handlers are one function (`EipcServer.controlled`)
at different values. For each of them there are two actions, the one that is checked
and the one that is logged. The chat and complete handlers give the same for both;
the intent handler checks `ui.cursor.move` and logs what the payload says.
-/

open Bytes MessageType

/-! ## Audit entries -/

namespace Audit

/-- A decision, which is a string in the source. -/
inductive Decision where
  | allowed
  | denied
  deriving DecidableEq

/-- The decision's text. -/
def Decision.text : Decision → Bytes
  | .allowed => ascii "allowed"
  | .denied => ascii "denied"

/-- `Entry`, without the time at which the logger writes it. -/
structure Entry where
  requestID : Bytes
  source : Bytes
  target : Bytes
  action : Bytes
  decision : Decision
  result : Bytes
  deriving DecidableEq

end Audit

open Audit

/-! ## The capability checker -/

/-- `Checker`: the actions that each capability permits. -/
structure Checker where
  allowlist : Finmap (fun _ : Bytes => Finset Bytes)

namespace Checker

/-- `NewChecker`. -/
def new (allowlist : List (Bytes × List Bytes)) : Checker where
  allowlist := (allowlist.map fun e =>
    (⟨e.1, e.2.toFinset⟩ : Sigma fun _ : Bytes => Finset Bytes)).toFinmap

/-- The capability permits the action. -/
def permits (c : Checker) (capability action : Bytes) : Bool :=
  match c.allowlist.lookup capability with
  | none => false
  | some actions => action ∈ actions

/-- `Check`. -/
def check (c : Checker) (peerCapabilities : List Bytes) (action : Bytes) :
    Except CapabilityError Unit :=
  if peerCapabilities.any (c.permits · action) then .ok () else .error (.notPermitted action)

variable {c : Checker} {caps : List Bytes} {action : Bytes}

theorem check_eq_ok_iff :
    c.check caps action = .ok () ↔ ∃ capability ∈ caps, c.permits capability action = true := by
  rw [← List.any_eq_true, check]
  split
  · next h => exact ⟨fun _ => h, fun _ => rfl⟩
  · next h => exact ⟨fun hok => (nomatch hok), fun hany => absurd hany h⟩

/-- What one of the capabilities permits, they permit together. -/
theorem check_of_mem {capability : Bytes} (hmem : capability ∈ caps)
    (h : c.check [capability] action = .ok ()) : c.check caps action = .ok () := by
  obtain ⟨capability', hcap, hpermits⟩ := check_eq_ok_iff.mp h
  rw [List.mem_singleton.mp hcap] at hpermits
  exact check_eq_ok_iff.mpr ⟨capability, hmem, hpermits⟩

end Checker

/-! ## Handlers and the router -/

/-- What a handler can fail with. -/
inductive HandlerError where
  | unmarshal (what err : String)
  | heartbeat (err : String)
  | capability (err : CapabilityError)
  | marshal (what err : String)
  deriving DecidableEq

/-- The error's text. -/
def HandlerError.text (quote : Bytes → String) : HandlerError → String
  | .unmarshal what err => "unmarshal " ++ what ++ ": " ++ err
  | .heartbeat err => err
  | .capability err => err.text quote
  | .marshal what err => "marshal " ++ what ++ ": " ++ err

/-- What a handler returns, and what it does on the way. -/
structure Handled where
  reply : Except HandlerError (Option (Message Instant))
  /-- The entries for the audit log. -/
  audit : List Entry
  /-- The heartbeats for the health service. -/
  heartbeats : List HeartbeatEvent

namespace Handled

/-- Nothing was done, and there is no reply. -/
def nothing : Handled := ⟨.ok none, [], []⟩

/-- The handler gave up. -/
def failed (err : HandlerError) : Handled := ⟨.error err, [], []⟩

end Handled

/-- `HandlerFunc`. The first argument is the time for the reply. -/
abbrev HandlerFunc := Instant → Message Instant → Handled

/-- `Router`. -/
structure Router where
  handlers : MessageType → Option HandlerFunc

namespace Router

/-- `NewRouter`. -/
def new : Router := ⟨fun _ => none⟩

/-- `Handle`. -/
def handle (r : Router) (msgType : MessageType) (handler : HandlerFunc) : Router :=
  ⟨Function.update r.handlers msgType (some handler)⟩

/-- `Dispatch`. A message of a type without a handler is dropped. -/
def dispatch (r : Router) : HandlerFunc := fun now msg =>
  match r.handlers msg.type with
  | none => .nothing
  | some handler => handler now msg

end Router

/-! ## The handlers of the server -/

namespace EipcServer

/-- The services that may connect, and what they are granted. -/
def knownServices : Finmap (fun _ : Bytes => List Bytes) :=
  List.toFinmap
    [⟨ascii "nia.min", [ascii "ui:control", ascii "device:read"]⟩,
      ⟨ascii "nia.framework", [ascii "ui:control", ascii "device:read", ascii "device:write"]⟩,
      ⟨ascii "ail.min.agent", [ascii "ui:control"]⟩,
      ⟨ascii "ail.framework", [ascii "ui:control", ascii "device:read", ascii "device:write",
        ascii "system:restricted"]⟩,
      ⟨ascii "ebot.client", [ascii "ai:chat"]⟩]

/-- The actions that the capabilities permit. -/
def capChecker : Checker :=
  .new
    [(ascii "ui:control", [ascii "ui.cursor.move", ascii "ui.click", ascii "ui.scroll"]),
      (ascii "device:read", [ascii "device.sensor.read", ascii "device.status"]),
      (ascii "device:write", [ascii "device.actuator.write"]),
      (ascii "system:restricted", [ascii "system.reboot", ascii "system.update"]),
      (ascii "ai:chat", [ascii "ai.chat.send", ascii "ai.complete.send"])]

/-- What the handlers are given from outside: the codec, and the verb `%q`. -/
structure Env where
  payloads : PayloadCodec
  quote : Bytes → String

/-- The reply to a message. -/
def reply (now : Instant) (msg : Message Instant) (type : MessageType) (priority : UInt8)
    (payload : Bytes) : Message Instant where
  version := 1
  type
  source := ascii "eipc-server"
  timestamp := now
  sessionID := msg.sessionID
  requestID := msg.requestID
  priority
  capability := []
  payload

/-- What the intent, chat and complete handlers do after they have read the payload:
the action `checked` has to be permitted by the message's capability, and the action
`logged` goes to the audit log. -/
def controlled (env : Env) (msg : Message Instant) (checked logged target result : Bytes)
    (what : String) (payload : Except String Bytes) (reply : Bytes → Message Instant) : Handled :=
  match capChecker.check [msg.capability] checked with
  | .error err =>
    { reply := .error (.capability err)
      audit := [⟨msg.requestID, msg.source, ascii "eipc-server", logged, .denied,
        utf8 (err.text env.quote)⟩]
      heartbeats := [] }
  | .ok () =>
    { reply := (payload.mapError (.marshal what)).map fun payload => some (reply payload)
      audit := [⟨msg.requestID, msg.source, target, logged, .allowed, result⟩]
      heartbeats := [] }

/-- The handler of `TypeIntent`. -/
def handleIntent (env : Env) : HandlerFunc := fun now msg =>
  match env.payloads.unmarshalIntent msg.payload with
  | .error err => .failed (.unmarshal "intent" err)
  | .ok intent =>
    controlled env msg (ascii "ui.cursor.move") intent.intent (ascii "eipc-server")
      (ascii "success") "ack" (env.payloads.marshalAck ⟨msg.requestID, ascii "ok", []⟩)
      (reply now msg typeAck Message.priorityP0)

/-- The handler of `TypeHeartbeat`. -/
def handleHeartbeat (env : Env) : HandlerFunc := fun _ msg =>
  match env.payloads.unmarshalHeartbeat msg.payload with
  | .error err => .failed (.heartbeat err)
  | .ok hb => ⟨.ok none, [], [hb]⟩

/-- The handler of `TypeChat`. -/
def handleChat (env : Env) : HandlerFunc := fun now msg =>
  match env.payloads.unmarshalChatRequest msg.payload with
  | .error err => .failed (.unmarshal "chat request" err)
  | .ok chatReq =>
    controlled env msg (ascii "ai.chat.send") (ascii "ai.chat.send") (ascii "eai")
      (ascii "forwarded") "chat response"
      (env.payloads.marshalChatResponse
        ⟨chatReq.sessionID, ascii "[EIPC] Chat received: " ++ chatReq.userPrompt, chatReq.model, 0⟩)
      (reply now msg typeChat Message.priorityP1)

/-- The handler of `TypeComplete`. -/
def handleComplete (env : Env) : HandlerFunc := fun now msg =>
  match env.payloads.unmarshalCompleteRequest msg.payload with
  | .error err => .failed (.unmarshal "complete request" err)
  | .ok completeReq =>
    controlled env msg (ascii "ai.complete.send") (ascii "ai.complete.send") (ascii "eai")
      (ascii "forwarded") "complete response"
      (env.payloads.marshalCompleteResponse
        ⟨completeReq.sessionID, ascii "[EIPC] Completion received: " ++ completeReq.prompt,
          completeReq.model, 0⟩)
      (reply now msg typeComplete Message.priorityP1)

/-- The router of `main`. -/
def router (env : Env) : Router :=
  (((Router.new.handle typeIntent (handleIntent env)).handle typeHeartbeat
    (handleHeartbeat env)).handle typeChat (handleChat env)).handle typeComplete
    (handleComplete env)

/-! ## What the handlers do -/

variable {env : Env} {now : Instant} {msg : Message Instant}

/-- **What the common part of the handlers can do**: refuse, or let the action
through; either way one entry is written, with the source that the message names. -/
theorem controlled_cases (env : Env) (msg : Message Instant)
    (checked logged target result : Bytes) (what : String) (payload : Except String Bytes)
    (reply : Bytes → Message Instant) :
    let handled := controlled env msg checked logged target result what payload reply
    (∃ err, capChecker.check [msg.capability] checked = .error err
        ∧ handled.reply = .error (.capability err)
        ∧ handled.audit = [⟨msg.requestID, msg.source, ascii "eipc-server", logged, .denied,
          utf8 (err.text env.quote)⟩])
      ∨ (capChecker.check [msg.capability] checked = .ok ()
        ∧ handled.audit = [⟨msg.requestID, msg.source, target, logged, .allowed, result⟩]) := by
  intro handled
  dsimp only [handled, controlled]
  cases capChecker.check [msg.capability] checked with
  | error err => exact .inl ⟨err, rfl, rfl, rfl⟩
  | ok u => exact .inr ⟨rfl, rfl⟩

/-- The action that the handler of a type checks, if it checks one. -/
def checkedAction (type : MessageType) : Option Bytes :=
  if type = typeIntent then some (ascii "ui.cursor.move")
  else if type = typeChat then some (ascii "ai.chat.send")
  else if type = typeComplete then some (ascii "ai.complete.send")
  else none

/-- The action that the handler of a message logs: for an intent, what the payload
says. -/
def LogsAction (env : Env) (msg : Message Instant) (checked logged : Bytes) : Prop :=
  if msg.type = typeIntent then
    ∃ intent, env.payloads.unmarshalIntent msg.payload = .ok intent ∧ logged = intent.intent
  else logged = checked

/-- The message is an intent, a chat or a completion whose payload can be read. -/
def readable (env : Env) (msg : Message Instant) : Bool :=
  if msg.type = typeIntent then (env.payloads.unmarshalIntent msg.payload).isOk
  else if msg.type = typeChat then (env.payloads.unmarshalChatRequest msg.payload).isOk
  else if msg.type = typeComplete then (env.payloads.unmarshalCompleteRequest msg.payload).isOk
  else false

/-- The handler that a message is given to. -/
theorem dispatch_router (env : Env) (now : Instant) (msg : Message Instant) :
    (router env).dispatch now msg
      = if msg.type = typeIntent then handleIntent env now msg
        else if msg.type = typeHeartbeat then handleHeartbeat env now msg
        else if msg.type = typeChat then handleChat env now msg
        else if msg.type = typeComplete then handleComplete env now msg
        else .nothing := by
  have hic : typeIntent ≠ typeComplete := by decide
  have hit : typeIntent ≠ typeChat := by decide
  have hih : typeIntent ≠ typeHeartbeat := by decide
  have hhc : typeHeartbeat ≠ typeComplete := by decide
  have hht : typeHeartbeat ≠ typeChat := by decide
  have htc : typeChat ≠ typeComplete := by decide
  unfold Router.dispatch router Router.handle Router.new
  dsimp only
  split_ifs with hi hh ht hc
  all_goals simp [*]

/-- **What the handlers can do with a message.** Either the common part decides
about the action of the message's type, or nothing is logged – and then a handler
that checks an action has failed, since it could not read the payload. -/
theorem dispatch_cases (env : Env) (now : Instant) (msg : Message Instant) :
    (∃ checked logged target result what payload reply,
        (router env).dispatch now msg
            = controlled env msg checked logged target result what payload reply
          ∧ checkedAction msg.type = some checked ∧ LogsAction env msg checked logged
          ∧ readable env msg = true)
      ∨ (((router env).dispatch now msg).audit = []
        ∧ (checkedAction msg.type ≠ none →
          ∃ err, ((router env).dispatch now msg).reply = .error err)
        ∧ readable env msg = false) := by
  rw [dispatch_router]
  unfold readable
  by_cases hi : msg.type = typeIntent
  · rw [if_pos hi, if_pos hi, handleIntent]
    cases hread : env.payloads.unmarshalIntent msg.payload with
    | error err => exact .inr ⟨rfl, fun _ => ⟨_, rfl⟩, rfl⟩
    | ok intent =>
      refine .inl ⟨_, _, _, _, _, _, _, rfl, if_pos hi, ?_, rfl⟩
      rw [LogsAction, if_pos hi]
      exact ⟨intent, hread, rfl⟩
  · rw [if_neg hi, if_neg hi]
    by_cases hh : msg.type = typeHeartbeat
    · rw [if_pos hh, handleHeartbeat]
      refine .inr ⟨?_, fun h => absurd (hh ▸ rfl) h, hh ▸ rfl⟩
      cases env.payloads.unmarshalHeartbeat msg.payload <;> rfl
    · rw [if_neg hh]
      by_cases ht : msg.type = typeChat
      · rw [if_pos ht, if_pos ht, handleChat]
        cases env.payloads.unmarshalChatRequest msg.payload with
        | error err => exact .inr ⟨rfl, fun _ => ⟨_, rfl⟩, rfl⟩
        | ok chatReq => exact .inl ⟨_, _, _, _, _, _, _, rfl, ht ▸ rfl, (if_neg hi).mpr rfl, rfl⟩
      · rw [if_neg ht, if_neg ht]
        by_cases hc : msg.type = typeComplete
        · rw [if_pos hc, if_pos hc, handleComplete]
          cases env.payloads.unmarshalCompleteRequest msg.payload with
          | error err => exact .inr ⟨rfl, fun _ => ⟨_, rfl⟩, rfl⟩
          | ok completeReq =>
            exact .inl ⟨_, _, _, _, _, _, _, rfl, hc ▸ rfl, (if_neg hi).mpr rfl, rfl⟩
        · rw [if_neg hc, if_neg hc]
          refine .inr ⟨rfl, fun h => absurd ?_ h, rfl⟩
          rw [checkedAction, if_neg hi, if_neg ht, if_neg hc]

/-- An entry is written for a message exactly when its payload is read. -/
theorem audit_ne_nil_iff (env : Env) (now : Instant) (msg : Message Instant) :
    ((router env).dispatch now msg).audit ≠ [] ↔ readable env msg = true := by
  rcases dispatch_cases env now msg with
    ⟨checked, logged, target, result, what, payload, reply, hdispatch, -, -, hread⟩
      | ⟨hnil, -, hread⟩
  · refine iff_of_true ?_ hread
    rw [hdispatch]
    rcases controlled_cases env msg checked logged target result what payload reply with
      ⟨err, -, -, haudit⟩ | ⟨-, haudit⟩
    · rw [haudit]
      exact List.cons_ne_nil _ _
    · rw [haudit]
      exact List.cons_ne_nil _ _
  · exact iff_of_false (not_not.mpr hnil) (Bool.eq_false_iff.mp hread)

/-- **A handler that checks an action succeeds only if the message's capability
permits it.** -/
theorem check_of_reply_ok {checked : Bytes} (hchecked : checkedAction msg.type = some checked)
    {rep : Option (Message Instant)} (h : ((router env).dispatch now msg).reply = .ok rep) :
    capChecker.check [msg.capability] checked = .ok () := by
  rcases dispatch_cases env now msg with
    ⟨checked', logged, target, result, what, payload, reply, hdispatch, hchecked', -⟩
      | ⟨-, hfail, -⟩
  · cases hchecked.symm.trans hchecked'
    rcases controlled_cases env msg checked logged target result what payload reply with
      ⟨err, -, hreply, -⟩ | ⟨hcheck, -⟩
    · rw [hdispatch] at h
      exact (nomatch hreply.symm.trans h)
    · exact hcheck
  · obtain ⟨err, herr⟩ := hfail (by rw [hchecked]; exact Option.some_ne_none _)
    exact (nomatch herr.symm.trans h)

/-- **What a handler logs**: the source that the message names, and an action that it
allows only if the message's capability permits the one that is checked. -/
theorem of_mem_audit {entry : Entry} (h : entry ∈ ((router env).dispatch now msg).audit) :
    entry.source = msg.source
      ∧ ∃ checked, checkedAction msg.type = some checked ∧ LogsAction env msg checked entry.action
        ∧ (entry.decision = .allowed → capChecker.check [msg.capability] checked = .ok ()) := by
  rcases dispatch_cases env now msg with
    ⟨checked, logged, target, result, what, payload, reply, hdispatch, hchecked, hlogs, -⟩
      | ⟨hnil, -⟩
  · rw [hdispatch] at h
    rcases controlled_cases env msg checked logged target result what payload reply with
      ⟨err, -, -, haudit⟩ | ⟨hcheck, haudit⟩
    · rw [haudit] at h
      cases List.mem_singleton.mp h
      exact ⟨rfl, checked, hchecked, hlogs, fun hallowed => (nomatch hallowed)⟩
    · rw [haudit] at h
      cases List.mem_singleton.mp h
      exact ⟨rfl, checked, hchecked, hlogs, fun _ => hcheck⟩
  · rw [hnil] at h
    exact absurd h List.not_mem_nil

/-- An intent that is let through is logged as allowed, whatever it is. -/
theorem exists_allowed_intent (now : Instant) {intent : IntentEvent} (htype : msg.type = typeIntent)
    (hread : env.payloads.unmarshalIntent msg.payload = .ok intent)
    (hcheck : capChecker.check [msg.capability] (ascii "ui.cursor.move") = .ok ()) :
    ∃ entry ∈ ((router env).dispatch now msg).audit,
      entry.decision = .allowed ∧ entry.action = intent.intent := by
  rw [dispatch_router, if_pos htype, handleIntent, hread]
  dsimp only
  rw [controlled, hcheck]
  exact ⟨_, List.mem_singleton_self _, rfl, rfl⟩

/-- The empty capability permits nothing. -/
theorem capability_ne_nil {action : Bytes} (h : capChecker.check [msg.capability] action = .ok ()) :
    msg.capability ≠ [] := by
  intro hnil
  obtain ⟨capability, hmem, hpermits⟩ := Checker.check_eq_ok_iff.mp h
  rw [List.mem_singleton.mp hmem, hnil] at hpermits
  have hnone : capChecker.allowlist.lookup [] = none := by decide +kernel
  rw [Checker.permits, hnone] at hpermits
  exact (nomatch hpermits)

end EipcServer
