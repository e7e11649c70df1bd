import Eipc.Message
import Eipc.Lib.Machine
import Eipc.Lib.Maps
import Eipc.Lib.SwapSort

/-!
# The broker

`broker.Broker` (`services/broker/broker.go`) passes messages on to services. A service
subscribes with an endpoint and a priority, and a route says which services a type of
message goes to. `Route` sends a message to those of them that are subscribed, the most
urgent ones first.

Routes are lists, and `RemoveRoute` takes out one occurrence of a target. That this is
enough is a property of the broker and not of the call: `AddRoute` never lets a target in
twice, whatever it is given (`Broker.WellFormed`).

What is around the broker – the endpoints, and the audit logger – is a machine that answers
each `Send` and each `Log` with an error or without one. Nothing is assumed of it, so
deliveries may fail at any place and in any way (`Broker.route_correct`).
-/

open Bytes

/-- `Subscriber`, with `none` for an endpoint that is `nil`. -/
structure Subscriber (ε : Type) where
  serviceID : Bytes
  endpoint : Option ε
  priority : UInt8

/-- A subscriber that `Subscribe` has accepted. -/
structure Subscription (ε : Type) where
  serviceID : Bytes
  endpoint : ε
  priority : UInt8
  named : serviceID ≠ []

/-- The check that `Subscribe` makes of its argument, which may be `nil`. -/
def Subscription.ofSubscriber {ε : Type} : Option (Subscriber ε) → Option (Subscription ε)
  | none => none
  | some sub =>
    if named : sub.serviceID = [] then none
    else sub.endpoint.map fun endpoint => ⟨sub.serviceID, endpoint, sub.priority, named⟩

/-- What `Subscribe` can fail with. -/
inductive BrokerError where
  | invalidSubscriber
  deriving DecidableEq

/-- The error's text. -/
def BrokerError.text : BrokerError → String
  | invalidSubscriber => "invalid subscriber: service_id and endpoint required"

/-- The broker. `audited` says whether it has an audit logger. -/
structure Broker (ε : Type) where
  subscribers : Finmap (fun _ : Bytes => Subscription ε)
  routes : MessageType → List Bytes
  audited : Bool

/-- `RouteResult`. An error is known by its text. -/
structure RouteResult where
  serviceID : Bytes
  err : Option Bytes
  deriving DecidableEq

namespace Broker

variable {ε Time σ : Type}

/-- `NewBroker`. -/
def newBroker (audited : Bool) : Broker ε := ⟨∅, fun _ => [], audited⟩

/-- `Subscribe`. -/
def subscribe (b : Broker ε) (sub : Option (Subscriber ε)) : Except BrokerError Unit × Broker ε :=
  match Subscription.ofSubscriber sub with
  | none => (.error .invalidSubscriber, b)
  | some sub => (.ok (), { b with subscribers := b.subscribers.insert sub.serviceID sub })

/-- `Unsubscribe`, and the endpoint that it closes. -/
def unsubscribe (b : Broker ε) (serviceID : Bytes) : Option ε × Broker ε :=
  match b.subscribers.lookup serviceID with
  | none => (none, b)
  | some sub => (some sub.endpoint, { b with subscribers := b.subscribers.erase serviceID })

/-- The body of the loop of `AddRoute`. -/
def appendUnseen : List Bytes × Finset Bytes → Bytes → List Bytes × Finset Bytes
  | (existing, seen), t =>
    if t ∈ seen then (existing, seen) else (existing ++ [t], insert t seen)

/-- `AddRoute`. -/
def addRoute (b : Broker ε) (msgType : MessageType) (targets : List Bytes) : Broker ε :=
  let existing := b.routes msgType
  let seen := existing.foldl (fun seen t => insert t seen) ∅
  { b with
    routes := Function.update b.routes msgType (targets.foldl appendUnseen (existing, seen)).1 }

/-- `RemoveRoute`. -/
def removeRoute (b : Broker ε) (msgType : MessageType) (target : Bytes) : Broker ε :=
  let targets := b.routes msgType
  match targets.idxOf? target with
  | none => b
  | some i =>
    { b with routes := Function.update b.routes msgType (targets.take i ++ targets.drop (i + 1)) }

/-! ## Deliveries -/

/-- What the audit log says of a delivery. -/
inductive Decision where
  | delivered
  | failed
  deriving DecidableEq

/-- The decision's text. -/
def Decision.text : Decision → Bytes
  | .delivered => ascii "delivered"
  | .failed => ascii "failed"

/-- The audit entry of a delivery, without the time at which the logger writes it. -/
structure DeliveryEntry where
  requestID : Bytes
  source : Bytes
  target : Bytes
  action : Bytes
  decision : Decision
  result : Bytes
  deriving DecidableEq

/-- A call that the broker makes: to an endpoint, or to the audit logger. -/
inductive Action (ε Time : Type) where
  | send (endpoint : ε) (msg : Message Time)
  | log (entry : DeliveryEntry)

/-- The call is to an endpoint. -/
def Action.isSend : Action ε Time → Bool
  | .send _ _ => true
  | .log _ => false

/-- The entry for a delivery that ended with `err`. -/
def deliveryEntry (msg : Message Time) (sub : Subscription ε) (err : Option Bytes) :
    DeliveryEntry where
  requestID := msg.requestID
  source := msg.source
  target := sub.serviceID
  action := msg.type
  decision := if err.isSome then .failed else .delivered
  result := err.getD (ascii "ok")

/-- What a call of `Route` returned, the calls that it made, and what was around the broker
afterwards. -/
structure Routed (ε Time σ : Type) where
  results : List RouteResult
  actions : List (Action ε Time)
  world : σ

/-- The loop of `Route`. The logger's errors are ignored. -/
def deliver (world : Machine σ (Action ε Time) (Option Bytes)) (audited : Bool)
    (msg : Message Time) : List (Subscription ε) → σ → Routed ε Time σ
  | [], w => ⟨[], [], w⟩
  | sub :: subs, w =>
    let sent := world.step w (.send sub.endpoint msg)
    let logs := if audited then [.log (deliveryEntry msg sub sent.1)] else []
    let rest := deliver world audited msg subs (world.after sent.2 logs)
    ⟨⟨sub.serviceID, sent.1⟩ :: rest.results, .send sub.endpoint msg :: logs ++ rest.actions,
      rest.world⟩

/-- The subscribed targets of a type of message, in the order of its route. -/
def targets (b : Broker ε) (msgType : MessageType) : List (Subscription ε) :=
  (b.routes msgType).filterMap b.subscribers.lookup

/-- `sortByPriority`. -/
def sortByPriority (subs : List (Subscription ε)) : List (Subscription ε) :=
  SwapSort.sort (fun sub => sub.priority.toNat) subs

/-- `Route`. -/
def route (world : Machine σ (Action ε Time) (Option Bytes)) (b : Broker ε) (msg : Message Time)
    (w : σ) : Routed ε Time σ :=
  let subs := b.targets msg.type
  if subs.length = 0 then ⟨[], [], w⟩
  else deliver world b.audited msg (sortByPriority subs) w

/-! ## Sequences of calls -/

/-- A call that changes the broker. -/
inductive Call (ε : Type) where
  | subscribe (sub : Option (Subscriber ε))
  | unsubscribe (serviceID : Bytes)
  | addRoute (msgType : MessageType) (targets : List Bytes)
  | removeRoute (msgType : MessageType) (target : Bytes)

namespace Call

/-- The call adds a target to a route. -/
def Adds (msgType : MessageType) (target : Bytes) : Call ε → Prop
  | .addRoute ty targets => ty = msgType ∧ target ∈ targets
  | _ => False

/-- The call removes a target from a route. -/
def Removes (msgType : MessageType) (target : Bytes) : Call ε → Prop
  | .removeRoute ty t => ty = msgType ∧ t = target
  | _ => False

/-- The call subscribes a service. -/
def Subscribes (sub : Subscription ε) : Call ε → Prop
  | .subscribe s => Subscription.ofSubscriber s = some sub
  | _ => False

/-- The call ends a service's subscription, with a new one or without. -/
def Ends (serviceID : Bytes) : Call ε → Prop
  | .subscribe s => ∃ sub, Subscription.ofSubscriber s = some sub ∧ sub.serviceID = serviceID
  | .unsubscribe id => id = serviceID
  | _ => False

end Call

/-- What a call returned, or closed. -/
inductive Answer (ε : Type) where
  | returned (result : Except BrokerError Unit)
  | closed (endpoint : Option ε)
  | done

/-- The broker and its calls. -/
def machine : Machine (Broker ε) (Call ε) (Answer ε) where
  step b
    | .subscribe sub => (.returned (b.subscribe sub).1, (b.subscribe sub).2)
    | .unsubscribe id => (.closed (b.unsubscribe id).1, (b.unsubscribe id).2)
    | .addRoute ty targets => (.done, b.addRoute ty targets)
    | .removeRoute ty target => (.done, b.removeRoute ty target)

/-! ## What a call does to the routes -/

variable {b : Broker ε} {ty : MessageType} {t : Bytes}

/-- The loop of `AddRoute` lets a target in once. -/
theorem foldl_appendUnseen (targets : List Bytes) {existing : List Bytes} {seen : Finset Bytes}
    (hnodup : existing.Nodup) (hseen : ∀ t, t ∈ seen ↔ t ∈ existing) :
    (targets.foldl appendUnseen (existing, seen)).1.Nodup
      ∧ ∀ t, t ∈ (targets.foldl appendUnseen (existing, seen)).1 ↔ t ∈ targets ∨ t ∈ existing := by
  induction targets generalizing existing seen with
  | nil => exact ⟨hnodup, by simp⟩
  | cons a targets ih =>
    rw [List.foldl_cons, appendUnseen]
    split
    · next hmem =>
      -- a target that was seen is passed over, and is in the list already
      obtain ⟨hrest, hiff⟩ := ih hnodup hseen
      refine ⟨hrest, fun t => ?_⟩
      rw [hiff, List.mem_cons, or_assoc]
      constructor
      · exact .inr
      · rintro (rfl | h)
        · exact .inr ((hseen t).mp hmem)
        · exact h
    · next hmem =>
      have hnew : a ∉ existing := fun h => hmem ((hseen a).mpr h)
      have hnodup' : (existing ++ [a]).Nodup := by
        rw [List.nodup_append_comm]
        exact hnodup.cons hnew
      have hseen' : ∀ t, t ∈ insert a seen ↔ t ∈ existing ++ [a] := fun t => by
        rw [Finset.mem_insert, hseen, List.mem_append, List.mem_singleton, or_comm]
      obtain ⟨hrest, hiff⟩ := ih hnodup' hseen'
      refine ⟨hrest, fun t => ?_⟩
      rw [hiff, List.mem_append, List.mem_singleton, List.mem_cons]
      tauto

theorem mem_seen (existing : List Bytes) (t : Bytes) :
    t ∈ existing.foldl (fun seen t => insert t seen) (∅ : Finset Bytes) ↔ t ∈ existing := by
  have h : ∀ seen : Finset Bytes,
      t ∈ existing.foldl (fun seen t => insert t seen) seen ↔ t ∈ seen ∨ t ∈ existing := by
    induction existing with
    | nil => simp
    | cons a existing ih =>
      intro seen
      rw [List.foldl_cons, ih, Finset.mem_insert, List.mem_cons]
      tauto
  simpa using h ∅

/-- `RemoveRoute` takes out the first occurrence of the target. -/
theorem routes_removeRoute (b : Broker ε) (ty : MessageType) (t : Bytes) :
    (b.removeRoute ty t).routes = Function.update b.routes ty ((b.routes ty).erase t) := by
  unfold removeRoute
  rw [List.erase_eq_eraseIdx]
  show Broker.routes (match (b.routes ty).idxOf? t with | none => _ | some i => _) = _
  cases (b.routes ty).idxOf? t with
  | none => exact (Function.update_eq_self ty b.routes).symm
  | some i =>
    show Function.update b.routes ty _ = Function.update b.routes ty ((b.routes ty).eraseIdx i)
    rw [List.eraseIdx_eq_take_drop_succ]

/-- **What holds of a broker at all times**: a route has no target twice, and a
subscription is filed under its service. -/
structure WellFormed (b : Broker ε) : Prop where
  nodup : ∀ ty, (b.routes ty).Nodup
  filed : ∀ id sub, b.subscribers.lookup id = some sub → sub.serviceID = id

theorem wellFormed_newBroker (audited : Bool) : WellFormed (newBroker audited : Broker ε) :=
  ⟨fun _ => List.nodup_nil, fun _ _ h => (nomatch h)⟩

/-- What `AddRoute` makes of a route. -/
theorem addRoute_spec (h : WellFormed b) (ty : MessageType) (targets : List Bytes) :
    ((b.addRoute ty targets).routes ty).Nodup
      ∧ ∀ t, t ∈ (b.addRoute ty targets).routes ty ↔ t ∈ targets ∨ t ∈ b.routes ty := by
  unfold addRoute
  simp only [Function.update_self]
  exact foldl_appendUnseen targets (h.nodup ty) (mem_seen (b.routes ty))

theorem routes_addRoute_of_ne {ty' : MessageType} (hne : ty' ≠ ty) (targets : List Bytes) :
    (b.addRoute ty targets).routes ty' = b.routes ty' :=
  Function.update_of_ne hne _ _

theorem subscribers_removeRoute (b : Broker ε) (ty : MessageType) (t : Bytes) :
    (b.removeRoute ty t).subscribers = b.subscribers := by
  unfold removeRoute
  dsimp only
  split <;> rfl

theorem routes_subscribe (b : Broker ε) (sub : Option (Subscriber ε)) :
    (b.subscribe sub).2.routes = b.routes := by
  unfold subscribe
  split <;> rfl

theorem routes_unsubscribe (b : Broker ε) (id : Bytes) :
    (b.unsubscribe id).2.routes = b.routes := by
  unfold unsubscribe
  split <;> rfl

theorem lookup_subscribe (b : Broker ε) (sub : Option (Subscriber ε)) (id : Bytes) :
    (b.subscribe sub).2.subscribers.lookup id
      = match Subscription.ofSubscriber sub with
        | none => b.subscribers.lookup id
        | some s => if id = s.serviceID then some s else b.subscribers.lookup id := by
  unfold subscribe
  cases Subscription.ofSubscriber sub with
  | none => rfl
  | some s => exact Finmap.lookup_insert_eq_ite b.subscribers s.serviceID id s

theorem lookup_unsubscribe (b : Broker ε) (id' id : Bytes) :
    (b.unsubscribe id').2.subscribers.lookup id
      = if id = id' then none else b.subscribers.lookup id := by
  unfold unsubscribe
  split
  · next h =>
    split
    · next heq => rw [heq, h]
    · rfl
  · exact Finmap.lookup_erase_eq_ite b.subscribers id' id

/-- **Every call keeps a broker well-formed.** -/
theorem WellFormed.step (h : WellFormed b) (call : Call ε) :
    WellFormed (machine.step b call).2 := by
  cases call with
  | subscribe sub =>
    refine ⟨fun ty => ?_, fun id s (hs : (b.subscribe sub).2.subscribers.lookup id = some s) => ?_⟩
    · show ((b.subscribe sub).2.routes ty).Nodup
      rw [routes_subscribe]
      exact h.nodup ty
    · rw [lookup_subscribe] at hs
      split at hs
      · exact h.filed id s hs
      · split at hs
        · next hid => exact (congrArg _ (Option.some.inj hs).symm).trans hid.symm
        · exact h.filed id s hs
  | unsubscribe id' =>
    refine ⟨fun ty => ?_,
      fun id s (hs : (b.unsubscribe id').2.subscribers.lookup id = some s) => ?_⟩
    · show ((b.unsubscribe id').2.routes ty).Nodup
      rw [routes_unsubscribe]
      exact h.nodup ty
    · rw [lookup_unsubscribe] at hs
      split at hs
      · exact (nomatch hs)
      · exact h.filed id s hs
  | addRoute ty targets =>
    refine ⟨fun ty' => ?_, h.filed⟩
    show ((b.addRoute ty targets).routes ty').Nodup
    by_cases heq : ty' = ty
    · exact heq ▸ (addRoute_spec h ty targets).1
    · rw [routes_addRoute_of_ne heq]
      exact h.nodup ty'
  | removeRoute ty t =>
    refine ⟨fun ty' => ?_, fun id s hs => h.filed id s (subscribers_removeRoute b ty t ▸ hs)⟩
    show ((b.removeRoute ty t).routes ty').Nodup
    rw [routes_removeRoute]
    by_cases heq : ty' = ty
    · rw [heq, Function.update_self]
      exact (h.nodup ty).erase t
    · rw [Function.update_of_ne heq]
      exact h.nodup ty'

/-- **The targets that one call adds and removes.** -/
theorem mem_routes_step (h : WellFormed b) (call : Call ε) :
    t ∈ (machine.step b call).2.routes ty
      ↔ call.Adds ty t ∨ t ∈ b.routes ty ∧ ¬call.Removes ty t := by
  cases call with
  | subscribe sub =>
    show t ∈ (b.subscribe sub).2.routes ty ↔ False ∨ _ ∧ ¬False
    rw [routes_subscribe]
    simp
  | unsubscribe id =>
    show t ∈ (b.unsubscribe id).2.routes ty ↔ False ∨ _ ∧ ¬False
    rw [routes_unsubscribe]
    simp
  | addRoute ty' targets =>
    show t ∈ (b.addRoute ty' targets).routes ty ↔ (ty' = ty ∧ t ∈ targets) ∨ _ ∧ ¬False
    by_cases heq : ty = ty'
    · rw [heq, (addRoute_spec h ty' targets).2]
      simp
    · rw [routes_addRoute_of_ne heq]
      simp [Ne.symm heq]
  | removeRoute ty' t' =>
    show t ∈ (b.removeRoute ty' t').routes ty ↔ False ∨ _ ∧ ¬(ty' = ty ∧ t' = t)
    rw [routes_removeRoute]
    by_cases heq : ty = ty'
    · -- the first occurrence is the only one
      rw [heq, Function.update_self, (h.nodup ty').mem_erase_iff]
      simp [and_comm, eq_comm]
    · rw [Function.update_of_ne heq]
      simp [Ne.symm heq]

/-- **The subscriptions that one call makes and ends.** -/
theorem lookup_step (sub : Subscription ε) (call : Call ε) :
    (machine.step b call).2.subscribers.lookup sub.serviceID = some sub
      ↔ call.Subscribes sub
        ∨ b.subscribers.lookup sub.serviceID = some sub ∧ ¬call.Ends sub.serviceID := by
  cases call with
  | subscribe s =>
    show (b.subscribe s).2.subscribers.lookup sub.serviceID = some sub
      ↔ Subscription.ofSubscriber s = some sub
        ∨ _ ∧ ¬∃ o, Subscription.ofSubscriber s = some o ∧ o.serviceID = sub.serviceID
    rw [lookup_subscribe]
    cases Subscription.ofSubscriber s with
    | none => simp
    | some o =>
      show (if sub.serviceID = o.serviceID then some o else _) = _ ↔ _
      split
      · next heq => simp [heq]
      · next heq =>
        -- another service's subscription, which leaves this one alone
        have hne : o ≠ sub := fun h => heq (congrArg _ h.symm)
        simp [hne, Ne.symm heq]
  | unsubscribe id =>
    show (b.unsubscribe id).2.subscribers.lookup sub.serviceID = some sub
      ↔ False ∨ _ ∧ ¬id = sub.serviceID
    rw [lookup_unsubscribe]
    by_cases heq : sub.serviceID = id
    · simp [heq]
    · simp [heq, Ne.symm heq]
  | addRoute ty targets =>
    show b.subscribers.lookup sub.serviceID = some sub ↔ False ∨ _ ∧ ¬False
    simp
  | removeRoute ty t =>
    show (b.removeRoute ty t).subscribers.lookup sub.serviceID = some sub ↔ False ∨ _ ∧ ¬False
    rw [subscribers_removeRoute]
    simp

/-! ## Who is sent a message, and in which order -/

theorem mem_targets_iff (h : WellFormed b) (sub : Subscription ε) :
    sub ∈ b.targets ty
      ↔ sub.serviceID ∈ b.routes ty ∧ b.subscribers.lookup sub.serviceID = some sub := by
  unfold targets
  rw [List.mem_filterMap]
  constructor
  · rintro ⟨id, hmem, hlookup⟩
    rw [h.filed id sub hlookup]
    exact ⟨hmem, hlookup⟩
  · rintro ⟨hmem, hlookup⟩
    exact ⟨sub.serviceID, hmem, hlookup⟩

/-- One target comes before another in a route. -/
def Precedes (route : List Bytes) (s₁ s₂ : Subscription ε) : Prop :=
  route.idxOf s₁.serviceID < route.idxOf s₂.serviceID

/-- The targets are in the order of the route. -/
theorem pairwise_targets (h : WellFormed b) (ty : MessageType) :
    (b.targets ty).Pairwise (Precedes (b.routes ty)) := by
  -- without duplicates the index of an entry is where it stands
  have hroute : (b.routes ty).Pairwise fun x y =>
      (b.routes ty).idxOf x < (b.routes ty).idxOf y := by
    refine List.pairwise_iff_getElem.mpr fun i j hi hj hij => ?_
    rw [(h.nodup ty).idxOf_getElem, (h.nodup ty).idxOf_getElem]
    exact hij
  refine List.pairwise_filterMap.mpr (hroute.imp fun hlt s₁ hs₁ s₂ hs₂ => ?_)
  unfold Precedes
  rw [h.filed _ s₁ hs₁, h.filed _ s₂ hs₂]
  exact hlt

/-- No service is among the targets twice. -/
theorem nodup_map_targets (h : WellFormed b) (ty : MessageType) :
    ((b.targets ty).map Subscription.serviceID).Nodup := by
  refine List.pairwise_map.mpr ((pairwise_targets h ty).imp fun hlt heq => ?_)
  unfold Precedes at hlt
  rw [heq] at hlt
  exact lt_irrefl _ hlt

/-- Sorted by priority, the targets are the same, in the order of their priorities and
then of the route. -/
theorem sortByPriority_targets (h : WellFormed b) (ty : MessageType) :
    (sortByPriority (b.targets ty)).Perm (b.targets ty)
      ∧ (sortByPriority (b.targets ty)).Pairwise fun s₁ s₂ => s₁.priority < s₂.priority
          ∨ s₁.priority = s₂.priority ∧ Precedes (b.routes ty) s₁ s₂ := by
  obtain ⟨hperm, hsorted⟩ := SwapSort.sort_spec (fun sub : Subscription ε => sub.priority.toNat)
    (pairwise_targets h ty)
  refine ⟨hperm, hsorted.imp fun hle => ?_⟩
  exact hle.imp UInt8.lt_iff_toNat_lt.mpr fun ⟨heq, hbefore⟩ => ⟨UInt8.toNat_inj.mp heq, hbefore⟩

/-- **The loop of `Route`** sends to each subscriber in turn, whatever the outcomes are, and
returns each outcome. -/
theorem deliver_spec (world : Machine σ (Action ε Time) (Option Bytes)) (audited : Bool)
    (msg : Message Time) (subs : List (Subscription ε)) (w : σ) :
    let r := deliver world audited msg subs w
    r.results.map RouteResult.serviceID = subs.map Subscription.serviceID
      ∧ (world.trace w r.actions).filter (fun x => x.1.isSend)
        = (subs.zip r.results).map (fun x => (.send x.1.endpoint msg, x.2.err))
      ∧ r.world = world.after w r.actions := by
  induction subs generalizing w with
  | nil => exact ⟨rfl, rfl, rfl⟩
  | cons sub subs ih =>
    cases audited with
    | false =>
      obtain ⟨hids, hsends, hworld⟩ := ih (world.step w (.send sub.endpoint msg)).2
      exact ⟨congrArg _ hids, congrArg _ hsends, hworld⟩
    | true =>
      obtain ⟨hids, hsends, hworld⟩ := ih (world.step (world.step w (.send sub.endpoint msg)).2
        (.log (deliveryEntry msg sub (world.step w (.send sub.endpoint msg)).1))).2
      exact ⟨congrArg _ hids, congrArg _ hsends, hworld⟩

/-- The loop does nothing when there is nobody to send to, so the early return makes no
difference. -/
theorem route_eq (world : Machine σ (Action ε Time) (Option Bytes)) (b : Broker ε)
    (msg : Message Time) (w : σ) :
    b.route world msg w = deliver world b.audited msg (sortByPriority (b.targets msg.type)) w := by
  unfold route
  dsimp only
  split
  · next h =>
    rw [List.length_eq_zero_iff.mp h]
    rfl
  · rfl

/-- **The broker routes messages as its calls say.** After any calls:
* a route has no target twice, and has the targets that were added to it and not removed
  since;
* `Route` sends the message once to each target that is subscribed and to nobody else, by
  priority and, among equals, in the order of the route;
* it returns one result for each `Send`, in that order, with the error that this `Send`
  returned, whatever the endpoints and the audit logger do.
-/
theorem route_correct (calls : List (Call ε)) (audited : Bool)
    (world : Machine σ (Action ε Time) (Option Bytes)) (msg : Message Time) (w : σ) :
    let b := machine.after (newBroker audited) calls
    let r := b.route world msg w
    (∀ ty, (b.routes ty).Nodup
        ∧ ∀ t, t ∈ b.routes ty ↔ Since (Call.Adds ty t) (Call.Removes ty t) calls)
      ∧ ∃ subs : List (Subscription ε),
        (∀ sub, sub ∈ subs ↔ sub.serviceID ∈ b.routes msg.type
          ∧ Since (Call.Subscribes sub) (Call.Ends sub.serviceID) calls)
        ∧ (subs.map Subscription.serviceID).Nodup
        ∧ subs.Pairwise (fun s₁ s₂ => s₁.priority < s₂.priority
          ∨ s₁.priority = s₂.priority ∧ Precedes (b.routes msg.type) s₁ s₂)
        ∧ r.results.map RouteResult.serviceID = subs.map Subscription.serviceID
        ∧ (world.trace w r.actions).filter (fun x => x.1.isSend)
          = (subs.zip r.results).map (fun x => (.send x.1.endpoint msg, x.2.err))
        ∧ r.world = world.after w r.actions := by
  intro b r
  have hnew : WellFormed (newBroker audited : Broker ε) := wellFormed_newBroker audited
  have hstep : ∀ (b : Broker ε) call, WellFormed b → WellFormed (machine.step b call).2 :=
    fun b call h => h.step call
  have h : WellFormed b := Machine.after_invariant hstep hnew calls
  have hroutes : ∀ ty t, t ∈ b.routes ty ↔ Since (Call.Adds ty t) (Call.Removes ty t) calls :=
    fun ty t => Machine.after_iff_since (P := fun b => t ∈ b.routes ty) hstep
      (fun b call hb => mem_routes_step hb call) hnew List.not_mem_nil calls
  have hsubscribers : ∀ sub, b.subscribers.lookup sub.serviceID = some sub
      ↔ Since (Call.Subscribes sub) (Call.Ends sub.serviceID) calls :=
    fun sub => Machine.after_iff_since
      (P := fun b => b.subscribers.lookup sub.serviceID = some sub) hstep
      (fun b call _ => lookup_step sub call) hnew (fun h => nomatch h) calls
  obtain ⟨hperm, hsorted⟩ := sortByPriority_targets h msg.type
  refine ⟨fun ty => ⟨h.nodup ty, hroutes ty⟩, sortByPriority (b.targets msg.type), fun sub => ?_,
    ?_, hsorted, ?_⟩
  · rw [hperm.mem_iff, mem_targets_iff h, hsubscribers]
  · exact (hperm.map _).nodup_iff.mpr (nodup_map_targets h msg.type)
  · rw [show r = _ from route_eq world b msg w]
    exact deliver_spec world b.audited msg _ w

end Broker
