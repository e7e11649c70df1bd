import Eipc.Handlers
import Eipc.Lib.BinaryHeap

/-!
# Dispatching a batch

`DispatchBatch` of `core/router.go` puts the messages of a batch in a heap by priority
(`container/heap`, with the `Less`, `Swap` and `Pop` of `priorityQueue`), pops them one by
one, dispatches each and stores what came back at the index that the message had.

Handlers may keep state, so that what `Dispatch` returns for a message can depend on what
was dispatched before it: here `Dispatch` takes a state and returns one, and reads the
handlers from it, so that a handler may also register others (`Router.Stateful`; the server's
router is one, `Router.stateful`).

A batch is dispatched in an order of its indices (`DispatchesIn`) that the priorities alone
determine (`dispatchOrder`). There is only one, since handlers that count can tell any two
apart by the results (`DispatchesIn.unique`). It is an order of the priorities
(`dispatchBatch_by_priority`), but in a lane it is not that of arrival: a batch of one lane is
dispatched from its first message to its last one and from there back to the second
(`keepsArrival_iff`).
-/

open BinaryHeap

/-! ## Routers with state -/

/-- `DispatchResult`. -/
structure DispatchResult (ε : Type) where
  response : Option (Message Instant)
  err : Option ε
  deriving DecidableEq

/-- `Router`, with handlers that keep a state. The handlers are looked up in the state. -/
structure Router.Stateful (σ ε : Type) where
  handlers : σ → MessageType → Option (Message Instant → σ → DispatchResult ε × σ)

/-- `priorityItem`. -/
structure PriorityItem where
  msg : Message Instant
  index : ℕ

/-- What `Less` compares: a lower value is a higher priority. -/
def PriorityItem.priority (item : PriorityItem) : ℕ := item.msg.priority.toNat

namespace Router.Stateful

variable {σ ε : Type} (r : Stateful σ ε)

/-- `Dispatch`. -/
def dispatch (msg : Message Instant) (s : σ) : DispatchResult ε × σ :=
  match r.handlers s msg.type with
  | none => (⟨none, none⟩, s)
  | some handler => handler msg s

/-- The loop of `DispatchBatch`: pop an item, dispatch its message, store the result. -/
def dispatchLoop (pq : List PriorityItem) (results : List (DispatchResult ε)) (s : σ) :
    List (DispatchResult ε) × σ :=
  match _h : pop PriorityItem.priority pq with
  | none => (results, s)
  | some (item, pq') =>
    let (result, s') := r.dispatch item.msg s
    dispatchLoop pq' (results.set item.index result) s'
termination_by pq.length
decreasing_by
  have := length_of_pop ‹pop PriorityItem.priority pq = some (item, pq')›
  omega

/-- `DispatchBatch`. -/
def dispatchBatch (messages : List (Message Instant)) (s : σ) : List (DispatchResult ε) × σ :=
  r.dispatchLoop (init PriorityItem.priority (messages.mapIdx fun i msg => ⟨msg, i⟩))
    (List.replicate messages.length ⟨none, none⟩) s

/-- `Dispatch`, called for one message after the other. -/
def dispatchAll : List (Message Instant) → σ → List (DispatchResult ε) × σ
  | [], s => ([], s)
  | msg :: messages, s =>
    let (result, s') := r.dispatch msg s
    let (results, s'') := dispatchAll messages s'
    (result :: results, s'')

end Router.Stateful

/-! ## The order of a batch -/

/-- **The batch is dispatched in this order**: every message once, the state going from one to
the next, and the result for a message is at the message's index. -/
structure DispatchesIn (messages : List (Message Instant))
    (order : List (Fin messages.length)) : Prop where
  perm : order.Perm (List.finRange messages.length)
  runs : ∀ {σ ε : Type} (r : Router.Stateful σ ε) (s : σ),
    (r.dispatchBatch messages s).2 = (r.dispatchAll (order.map messages.get) s).2 ∧
    (r.dispatchBatch messages s).1.length = messages.length ∧
    ∀ (k : ℕ) (i : Fin messages.length), order[k]? = some i →
      (r.dispatchBatch messages s).1[i.val]? = (r.dispatchAll (order.map messages.get) s).1[k]?

/-- The order in which the heap gives the indices of a batch. -/
def dispatchOrder (messages : List (Message Instant)) : List (Fin messages.length) :=
  drain (fun i => (messages.get i).priority.toNat)
    (init (fun i => (messages.get i).priority.toNat) (List.finRange messages.length))

namespace Router.Stateful

variable {σ ε : Type} (r : Stateful σ ε)

/-- The loop over the items in the order in which they are popped. -/
def dispatchItems : List PriorityItem → List (DispatchResult ε) → σ → List (DispatchResult ε) × σ
  | [], results, s => (results, s)
  | item :: items, results, s =>
    let (result, s') := r.dispatch item.msg s
    dispatchItems items (results.set item.index result) s'

theorem dispatchLoop_eq (pq : List PriorityItem) (results : List (DispatchResult ε)) (s : σ) :
    r.dispatchLoop pq results s
      = r.dispatchItems (drain PriorityItem.priority pq) results s := by
  induction pq using pop_induction PriorityItem.priority generalizing results s with
  | nil =>
    rw [drain_nil, dispatchLoop]
    split
    · rfl
    · next h => exact (nomatch (pop_nil _).symm.trans h)
  | pop item items pq' hpop _ ih =>
    rw [drain_of_pop hpop, dispatchLoop]
    split
    · next h => exact (nomatch h.symm.trans hpop)
    · next h =>
      cases h.symm.trans hpop
      exact ih _ _

end Router.Stateful

section Order

variable {messages : List (Message Instant)}

/-- The item of an index. -/
def PriorityItem.ofIndex (messages : List (Message Instant)) (i : Fin messages.length) :
    PriorityItem :=
  ⟨messages.get i, i⟩

theorem mapIdx_eq_map_ofIndex :
    messages.mapIdx (fun i msg => (⟨msg, i⟩ : PriorityItem))
      = (List.finRange messages.length).map (PriorityItem.ofIndex messages) := by
  refine List.ext_getElem (by simp) fun i h h' => ?_
  simp [PriorityItem.ofIndex]

/-- **A batch goes through the heap by its indices.** -/
theorem dispatchBatch_eq {σ ε : Type} (r : Router.Stateful σ ε) (s : σ) :
    r.dispatchBatch messages s
      = r.dispatchItems ((dispatchOrder messages).map (PriorityItem.ofIndex messages))
          (List.replicate messages.length ⟨none, none⟩) s := by
  rw [Router.Stateful.dispatchBatch, Router.Stateful.dispatchLoop_eq, mapIdx_eq_map_ofIndex,
    init_map, drain_map]
  rfl

variable {σ ε : Type} {r : Router.Stateful σ ε}

theorem dispatchItems_state (items : List PriorityItem) (results : List (DispatchResult ε))
    (s : σ) :
    (r.dispatchItems items results s).2 = (r.dispatchAll (items.map PriorityItem.msg) s).2 := by
  induction items generalizing results s with
  | nil => rfl
  | cons item items ih => exact ih _ _

theorem length_dispatchItems (items : List PriorityItem) (results : List (DispatchResult ε))
    (s : σ) : (r.dispatchItems items results s).1.length = results.length := by
  induction items generalizing results s with
  | nil => rfl
  | cons item items ih => exact (ih _ _).trans List.length_set

/-- Other results stay. -/
theorem dispatchItems_of_notMem {items : List PriorityItem} {i : ℕ}
    (hi : i ∉ items.map PriorityItem.index) (results : List (DispatchResult ε)) (s : σ) :
    (r.dispatchItems items results s).1[i]? = results[i]? := by
  induction items generalizing results s with
  | nil => rfl
  | cons item items ih =>
    rw [List.map_cons, List.mem_cons, not_or] at hi
    exact (ih hi.2 _ _).trans (List.getElem?_set_ne (Ne.symm hi.1))

/-- **Every result is where its message was**, as no later one is put there. -/
theorem dispatchItems_getElem? {items : List PriorityItem}
    (hnodup : (items.map PriorityItem.index).Nodup) {results : List (DispatchResult ε)}
    (hindex : ∀ item ∈ items, item.index < results.length) (s : σ) {k : ℕ} {item : PriorityItem}
    (hk : items[k]? = some item) :
    (r.dispatchItems items results s).1[item.index]?
      = (r.dispatchAll (items.map PriorityItem.msg) s).1[k]? := by
  induction items generalizing results s k with
  | nil => exact (nomatch hk)
  | cons first items ih =>
    rw [List.map_cons, List.nodup_cons] at hnodup
    cases k with
    | zero =>
      cases hk
      refine (dispatchItems_of_notMem hnodup.1 _ _).trans ?_
      rw [List.getElem?_set_self (hindex item List.mem_cons_self)]
      rfl
    | succ k =>
      refine ih hnodup.2 (fun item hitem => ?_) _ hk
      rw [List.length_set]
      exact hindex item (List.mem_cons_of_mem first hitem)

theorem perm_dispatchOrder (messages : List (Message Instant)) :
    (dispatchOrder messages).Perm (List.finRange messages.length) :=
  (perm_drain _ _).trans (perm_init _ _)

/-- **A batch is dispatched in the order of the heap.** -/
theorem dispatchesIn_dispatchOrder (messages : List (Message Instant)) :
    DispatchesIn messages (dispatchOrder messages) := by
  refine ⟨perm_dispatchOrder messages, fun r s => ?_⟩
  have hmsg : ((dispatchOrder messages).map (PriorityItem.ofIndex messages)).map PriorityItem.msg
      = (dispatchOrder messages).map messages.get := List.map_map
  have hindex : ((dispatchOrder messages).map (PriorityItem.ofIndex messages)).map
      PriorityItem.index = (dispatchOrder messages).map Fin.val := List.map_map
  have hnodup : ((dispatchOrder messages).map Fin.val).Nodup :=
    ((perm_dispatchOrder messages).nodup_iff.mpr (List.nodup_finRange _)).map Fin.val_injective
  rw [dispatchBatch_eq, ← hmsg]
  refine ⟨dispatchItems_state _ _ _, ?_, fun k i hk => ?_⟩
  · rw [length_dispatchItems, List.length_replicate]
  · have hat : ((dispatchOrder messages).map (PriorityItem.ofIndex messages))[k]?
        = some (PriorityItem.ofIndex messages i) := by
      rw [List.getElem?_map, hk]
      rfl
    refine dispatchItems_getElem? (by rwa [hindex]) (fun item hitem => ?_) s hat
    obtain ⟨j, -, rfl⟩ := List.mem_map.mp hitem
    rw [List.length_replicate]
    exact j.isLt

/-! ## There is only one order -/

/-- Every handler returns how many messages were dispatched before. -/
def Router.Stateful.counting : Router.Stateful ℕ ℕ where
  handlers _ _ := some fun _ count => (⟨none, some count⟩, count + 1)

theorem dispatchAll_counting {messages : List (Message Instant)} {k : ℕ}
    (hk : k < messages.length) (count : ℕ) :
    (Router.Stateful.counting.dispatchAll messages count).1[k]?
      = some ⟨none, some (count + k)⟩ := by
  induction messages generalizing k count with
  | nil => exact absurd hk (Nat.not_lt_zero k)
  | cons msg messages ih =>
    cases k with
    | zero => rfl
    | succ k =>
      rw [← Nat.add_assoc, Nat.add_right_comm]
      exact ih (Nat.lt_of_succ_lt_succ hk) (count + 1)

namespace DispatchesIn

variable {order order' : List (Fin messages.length)}

theorem mem (h : DispatchesIn messages order) (i : Fin messages.length) : i ∈ order :=
  h.perm.mem_iff.mpr (List.mem_finRange i)

/-- What is dispatched as the `k`-th message is told by counting handlers. -/
theorem counted (h : DispatchesIn messages order) {k : ℕ} {i : Fin messages.length}
    (hk : order[k]? = some i) :
    (Router.Stateful.counting.dispatchBatch messages 0).1[i.val]? = some ⟨none, some k⟩ := by
  have hlt : k < (order.map messages.get).length := by
    rw [List.length_map]
    exact (List.getElem?_eq_some_iff.mp hk).1
  rw [(h.runs Router.Stateful.counting 0).2.2 k i hk, dispatchAll_counting hlt, Nat.zero_add]

/-- **The order is determined.** -/
theorem unique (h : DispatchesIn messages order) (h' : DispatchesIn messages order') :
    order = order' := by
  have hle : ∀ {order order' : List (Fin messages.length)}, DispatchesIn messages order →
      DispatchesIn messages order' → ∀ (k : ℕ) i, order[k]? = some i → order'[k]? = some i := by
    intro order order' h h' k i hk
    obtain ⟨k', hk'⟩ := List.mem_iff_getElem?.mp (h'.mem i)
    have hcount := (h.counted hk).symm.trans (h'.counted hk')
    cases hcount
    exact hk'
  exact List.ext_getElem? fun k => Option.ext fun i => ⟨hle h h' k i, hle h' h k i⟩

end DispatchesIn

/-! ## Lanes -/

theorem sorted_dispatchOrder (messages : List (Message Instant)) :
    (dispatchOrder messages).Pairwise fun i j =>
      (messages.get i).priority ≤ (messages.get j).priority := by
  have hsorted := sorted_drain (ordered_init (fun i => (messages.get i).priority.toNat)
    (List.finRange messages.length))
  exact hsorted.imp UInt8.le_iff_toNat_le.mpr

/-- **A batch is dispatched by priority**: every message is dispatched once, none after one of
a higher value, and its result stands at its index. -/
theorem dispatchBatch_by_priority (messages : List (Message Instant)) :
    ∃ order : List (Fin messages.length), DispatchesIn messages order ∧
      order.Pairwise fun i j => (messages.get i).priority ≤ (messages.get j).priority :=
  ⟨dispatchOrder messages, dispatchesIn_dispatchOrder messages, sorted_dispatchOrder messages⟩

/-- **Lanes keep the order of arrival**: of two messages of one priority, the one that comes
first in the batch is dispatched first. -/
def KeepsArrival (messages : List (Message Instant)) : Prop :=
  ∃ order : List (Fin messages.length), DispatchesIn messages order ∧
    ∀ i j : Fin messages.length, i < j →
      (messages.get i).priority = (messages.get j).priority → [i, j].Sublist order

/-- **A batch of one lane**: the first message, and then the others from the back. -/
theorem dispatchOrder_of_lane {msg : Message Instant} {rest : List (Message Instant)}
    (h : ∀ m ∈ rest, m.priority = msg.priority) :
    dispatchOrder (msg :: rest)
      = 0 :: ((List.finRange rest.length).map Fin.succ).reverse := by
  have hconst : Const (fun i => ((msg :: rest).get i).priority.toNat)
      (List.finRange (msg :: rest).length) := by
    have hall : ∀ i, ((msg :: rest).get i).priority = msg.priority := by
      intro i
      rcases List.mem_cons.mp (List.get_mem (msg :: rest) i) with heq | hmem
      · rw [heq]
      · exact h _ hmem
    exact fun i _ j _ => congrArg UInt8.toNat ((hall i).trans (hall j).symm)
  have hrange : List.finRange (msg :: rest).length
      = 0 :: (List.finRange rest.length).map Fin.succ := List.finRange_succ
  rw [dispatchOrder, hconst.init]
  rw [hrange] at hconst ⊢
  exact drain_of_const hconst

/-- In a batch of one lane, no message but the first one is dispatched before a later one. -/
theorem not_sublist_of_lane {n : ℕ} {i j : Fin n} (hij : i < j) :
    ¬ [i.succ, j.succ].Sublist (0 :: ((List.finRange n).map Fin.succ).reverse) := by
  intro hsub
  cases hsub with
  | cons _ hsub =>
    have hrev : [j.succ, i.succ].Sublist ((List.finRange n).map Fin.succ) :=
      List.reverse_sublist.mp hsub
    have hsorted : ((List.finRange n).map Fin.succ).Pairwise (· < ·) :=
      (List.pairwise_lt_finRange n).map Fin.succ fun _ _ h => Fin.succ_lt_succ_iff.mpr h
    exact absurd (hsorted.forall_sublist hrev) (Fin.succ_lt_succ_iff.mpr hij).asymm

/-- A control-critical message. -/
def command (payload : Bytes) : Message Instant :=
  { Message.newMessage 0 .typeIntent [] payload with priority := Message.priorityP0 }

/-- A batch of one lane with three messages or more does not keep the order of arrival. -/
theorem not_keepsArrival_of_lane {msg : Message Instant} {rest : List (Message Instant)}
    (h : ∀ m ∈ rest, m.priority = msg.priority) (hlen : 1 < rest.length) :
    ¬ KeepsArrival (msg :: rest) := by
  rintro ⟨order, hin, hkeeps⟩
  have horder := hin.unique (dispatchesIn_dispatchOrder (msg :: rest))
  rw [dispatchOrder_of_lane h] at horder
  let second : Fin rest.length := ⟨0, Nat.zero_lt_of_lt hlen⟩
  let third : Fin rest.length := ⟨1, hlen⟩
  have hprio : ((msg :: rest).get second.succ).priority
      = ((msg :: rest).get third.succ).priority :=
    (h _ (List.get_mem rest second)).trans (h _ (List.get_mem rest third)).symm
  have hsub := hkeeps second.succ third.succ (Fin.succ_lt_succ_iff.mpr Nat.zero_lt_one) hprio
  rw [horder] at hsub
  exact not_sublist_of_lane (Nat.zero_lt_one : second < third) hsub

/-- Two messages of one priority are dispatched as they came. -/
theorem keepsArrival_of_length_le (h : messages.length ≤ 2) : KeepsArrival messages := by
  refine ⟨dispatchOrder messages, dispatchesIn_dispatchOrder messages, fun i j hij hprio => ?_⟩
  obtain ⟨i, hi⟩ := i
  obtain ⟨j, hj⟩ := j
  have hij : i < j := hij
  -- the only two indices that there can be
  obtain rfl : i = 0 := by omega
  obtain rfl : j = 1 := by omega
  obtain ⟨m, m', rfl⟩ : ∃ m m', messages = [m, m'] := List.length_eq_two.mp (by omega)
  rw [dispatchOrder_of_lane fun msg hmsg => by rw [List.mem_singleton.mp hmsg]; exact hprio.symm]
  exact List.Sublist.refl _

/-- **The lanes of a batch.** The order of arrival is kept in every batch of at most two
messages, and not in every batch of any other length. What a batch of one lane does instead:
the first message is dispatched first, and the others follow from the last one to the
second. -/
theorem keepsArrival_iff :
    (∀ n : ℕ, (∀ messages : List (Message Instant), messages.length = n → KeepsArrival messages)
      ↔ n ≤ 2) ∧
    ∀ (msg : Message Instant) (rest : List (Message Instant)),
      (∀ m ∈ rest, m.priority = msg.priority) →
      DispatchesIn (msg :: rest) (0 :: ((List.finRange rest.length).map Fin.succ).reverse) := by
  constructor
  · intro n
    constructor
    · intro hall
      by_contra hn
      obtain ⟨n, rfl⟩ : ∃ k, n = k + 3 := ⟨n - 3, by omega⟩
      have hkeeps := hall (command [] :: List.replicate (n + 2) (command []))
        (congrArg (· + 1) List.length_replicate)
      refine not_keepsArrival_of_lane (fun m hm => ?_) ?_ hkeeps
      · rw [List.eq_of_mem_replicate hm]
      · rw [List.length_replicate]
        omega
    · intro hn messages hlen
      exact keepsArrival_of_length_le (hlen.trans_le hn)
  · intro msg rest h
    have hin := dispatchesIn_dispatchOrder (msg :: rest)
    rwa [dispatchOrder_of_lane h] at hin

/-- The second of three commands is dispatched last. -/
theorem dispatchesIn_three_commands :
    DispatchesIn [command [0], command [1], command [2]] [0, 2, 1] ∧
      ¬ KeepsArrival [command [0], command [1], command [2]] := by
  have hlane : ∀ m ∈ [command [1], command [2]], m.priority = (command [0]).priority :=
    List.forall_mem_cons.mpr ⟨rfl, List.forall_mem_singleton.mpr rfl⟩
  refine ⟨?_, not_keepsArrival_of_lane hlane Nat.one_lt_two⟩
  have hin := dispatchesIn_dispatchOrder [command [0], command [1], command [2]]
  rwa [dispatchOrder_of_lane hlane] at hin

end Order

/-! ## The server's router -/

/-- What the server's handlers have left behind, and the times at which the next ones are
called. -/
structure Served where
  clock : Stream' Instant
  audit : List Audit.Entry
  heartbeats : List HeartbeatEvent

/-- What a handler of the server returns. -/
def Handled.result (h : Handled) : DispatchResult HandlerError :=
  match h.reply with
  | .ok response => ⟨response, none⟩
  | .error err => ⟨none, some err⟩

/-- A handler of the server has been called. -/
def Served.after (s : Served) (h : Handled) : Served :=
  ⟨s.clock.tail, s.audit ++ h.audit, s.heartbeats ++ h.heartbeats⟩

/-- The server's router, as one with state. -/
def Router.stateful (r : Router) : Router.Stateful Served HandlerError where
  handlers _ msgType := (r.handlers msgType).map fun handler msg s =>
    let handled := handler s.clock.head msg
    (handled.result, s.after handled)

theorem Router.dispatch_stateful (r : Router) (msg : Message Instant) (s : Served) :
    (r.stateful.dispatch msg s).1 = (r.dispatch s.clock.head msg).result ∧
    (r.stateful.dispatch msg s).2.audit = s.audit ++ (r.dispatch s.clock.head msg).audit := by
  rw [Router.Stateful.dispatch, Router.stateful, Router.dispatch]
  dsimp only
  cases r.handlers msg.type with
  | none => exact ⟨rfl, (List.append_nil s.audit).symm⟩
  | some handler => exact ⟨rfl, rfl⟩

theorem Router.audit_dispatchAll (r : Router) (messages : List (Message Instant)) (s : Served) :
    ∃ times : List Instant, times.length = messages.length ∧
      (r.stateful.dispatchAll messages s).2.audit
        = s.audit ++ (List.zipWith (fun now msg => (r.dispatch now msg).audit)
            times messages).flatten := by
  induction messages generalizing s with
  | nil => exact ⟨[], rfl, (List.append_nil s.audit).symm⟩
  | cons msg messages ih =>
    obtain ⟨times, hlen, haudit⟩ := ih (r.stateful.dispatch msg s).2
    refine ⟨s.clock.head :: times, congrArg (· + 1) hlen, haudit.trans ?_⟩
    rw [(r.dispatch_stateful msg s).2, List.append_assoc]
    rfl

/-- **The audit log of a batch** is written by priority. -/
theorem Router.audit_dispatchBatch (r : Router) (messages : List (Message Instant)) (s : Served) :
    ∃ (order : List (Fin messages.length)) (times : List Instant),
      order.Perm (List.finRange messages.length) ∧
      (order.Pairwise fun i j => (messages.get i).priority ≤ (messages.get j).priority) ∧
      times.length = messages.length ∧
      (r.stateful.dispatchBatch messages s).2.audit
        = s.audit ++ (List.zipWith (fun now i => (r.dispatch now (messages.get i)).audit)
            times order).flatten := by
  have hin := dispatchesIn_dispatchOrder messages
  obtain ⟨times, hlen, haudit⟩ :=
    r.audit_dispatchAll ((dispatchOrder messages).map messages.get) s
  refine ⟨dispatchOrder messages, times, hin.perm, sorted_dispatchOrder messages, ?_, ?_⟩
  · rw [hlen, List.length_map, hin.perm.length_eq, List.length_finRange]
  · rw [(hin.runs r.stateful s).1, haudit, List.zipWith_map_right]
