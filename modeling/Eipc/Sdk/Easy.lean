import Eipc.Sdk.Calls

/-!
# The server of `eipc_easy`

`eipc_easy.c` wraps a listening socket, one connection and some counters in a handle. There is room
for one connection: `eipc_easy_accept` has it overwritten by the next one, whether or not that one
comes about, and does not close what was there. `eipc_easy_close_server` closes what it finds. So of
all connections that were accepted it closes the last one, and not even that one if another
`eipc_easy_accept` was tried in vain (`EasyServer.closes_only_last`).
-/

open Bytes CString

/-- A socket, as the operating system names it. -/
abbrev Descriptor := ℕ

/-- `eipc_easy_stats_t`. -/
structure EasyStats where
  sentCount : UInt64
  receivedCount : UInt64
  ackCount : UInt64
  errorCount : UInt64
  deriving DecidableEq

namespace EasyStats

/-- What a call can be counted as. -/
inductive Counter where
  | sent
  | received
  | ack
  | error
  deriving DecidableEq

/-- One of the counters goes up. -/
def count (s : EasyStats) : Counter → EasyStats
  | .sent => { s with sentCount := s.sentCount + 1 }
  | .received => { s with receivedCount := s.receivedCount + 1 }
  | .ack => { s with ackCount := s.ackCount + 1 }
  | .error => { s with errorCount := s.errorCount + 1 }

def zero : EasyStats := ⟨0, 0, 0, 0⟩

end EasyStats

open EasyStats (Counter)

/-- `struct eipc_easy_server`. -/
structure EasyServer where
  /-- `server.listen_sock`. -/
  listenSock : Option Descriptor
  hmacKey : Bytes
  length_hmacKey : hmacKey.length ≤ EipcFrame.eipcMacSize
  /-- `conn.sock`, or nothing for `EIPC_INVALID_SOCKET`. -/
  sock : Option Descriptor
  /-- `conn.sequence`. -/
  sequence : UInt64
  hasClient : Bool
  listening : Bool
  stats : EasyStats

namespace EasyServer

/-- The handle that `eipc_easy_listen` returns. The connection is all zeros, and zero is a
descriptor. -/
def listen (hmacKey : Bytes) (h : hmacKey.length ≤ EipcFrame.eipcMacSize) (l : Descriptor) :
    EasyServer where
  listenSock := some l
  hmacKey
  length_hmacKey := h
  sock := some 0
  sequence := 0
  hasClient := false
  listening := true
  stats := .zero

/-- `conn`, as the functions of `eipc_server.c` see it. -/
def conn (h : EasyServer) : EipcConn :=
  ⟨h.hmacKey, h.sequence, h.sock.isSome, h.length_hmacKey⟩

/-- A call of the server's functions, with what it meets outside: a connection, the bytes that have
arrived, the environment of a send. -/
inductive Call (F : Type) where
  | accept (outcome : Option Descriptor)
  | recvIntent (a : Allocs) (arrived : Bytes)
  | recvChat (a : Allocs) (arrived : Bytes)
  | sendAck (env : SendEnv F) (requestId : Option Bytes) (status : Bytes)
  | sendChatResponse (env : SendEnv F) (sessionId : Option Bytes) (response : Bytes)
    (model : Option Bytes) (tokensUsed : Int32)

/-- A call that was made on a connection is counted: under `c` if it succeeded. -/
def counted {α : Type} (h : EasyServer) (c : Counter) : Except EipcStatus α → EasyServer
  | .ok _ => { h with stats := h.stats.count c }
  | .error _ => { h with stats := h.stats.count .error }

/-- `eipc_easy_accept`. The connection is cleared before it is known whether there is another. -/
def accept (h : EasyServer) (outcome : Option Descriptor) : Except EipcStatus Unit × EasyServer :=
  if ¬h.listening then (.error .invalid, h)
  else if h.listenSock = none then (.error .invalid, { h with stats := h.stats.count .error })
  else
    match outcome with
    | none =>
      (.error .connect, { h with sock := none, sequence := 0, stats := h.stats.count .error })
    | some d => (.ok (), { h with sock := some d, sequence := 0, hasClient := true })

/-- `eipc_easy_recv_intent` and `eipc_easy_recv_chat`, up to what the payload is read as: the reader
of the payload does not fail. Nothing comes back if the header or the payload is read past its
array. -/
def recvTyped (msgType : UInt8) (h : EasyServer) (a : Allocs) (arrived : Bytes) :
    Option (Except EipcStatus EipcMessage) × EasyServer :=
  if ¬h.hasClient then (some (.error .invalid), h)
  else
    match eipcServerReceive a h.conn arrived with
    | (none, _) => (none, h)
    | (some res, conn, _) =>
      let h := { h with sequence := conn.sequence }
      let res := res.bind fun msg => if msg.msgType ≠ msgType then .error .protocol else .ok msg
      match res with
      | .error rc => (some (.error rc), h.counted .received res)
      | .ok msg =>
        match CString.ofArray (arrayOf EipcFrame.eipcMaxPayload msg.payload) with
        | none => (none, h)
        | some _ => (some (.ok msg), h.counted .received res)

section Send

variable {F : Type} (env : SendEnv F)

/-- `eipc_easy_send_ack`. -/
def sendAck (h : EasyServer) (requestId : Option Bytes) (status : Bytes) :
    Except EipcStatus Bytes × EasyServer :=
  if ¬h.hasClient then (.error .invalid, h)
  else
    let requestId := if requestId.getD [] = [] then some env.requestId else requestId
    let (res, conn) := eipcServerSendAck env h.conn requestId status
    (res, { h with sequence := conn.sequence }.counted .ack res)

/-- `eipc_easy_send_chat_response`. -/
def sendChatResponse (h : EasyServer) (sessionId : Option Bytes) (response : Bytes)
    (model : Option Bytes) (tokensUsed : Int32) : Except EipcStatus Bytes × EasyServer :=
  if ¬h.hasClient then (.error .invalid, h)
  else
    let resp : EipcChatResponse :=
      { sessionId := strncpy (eipcSessionIdMax - 1) (sessionId.getD [])
        response := strncpy (EipcFrame.eipcMaxPayload - 1) response
        model := strncpy (eipcModelMax - 1) (model.getD [])
        tokensUsed }
    match eipcChatResponseToJson resp EipcFrame.eipcMaxPayload with
    | .error rc => (.error rc, h.counted .sent (.error rc : Except EipcStatus Unit))
    | .ok text =>
      let msg : EipcMessage :=
        { version := EipcFrame.eipcProtocolVer
          msgType := eipcMsgChat
          source := strncpy (eipcServiceIdMax - 1) (ascii "eipc-easy")
          sessionId := strncpy (eipcSessionIdMax - 1) (sessionId.getD [])
          requestId := []
          priority := 0
          capability := []
          payload := strlenBytes text }
      let (res, conn) := eipcServerSendMessage env h.conn msg
      (res, { h with sequence := conn.sequence }.counted .sent res)

end Send

/-- `eipc_easy_close_server`: the sockets that it closes. -/
def close (h : EasyServer) : List Descriptor :=
  (if h.hasClient then h.sock.toList else []) ++ if h.listening then h.listenSock.toList else []

/-! ## Runs -/

section Runs

variable {F : Type}

/-- The status that a call returns. -/
def perform (h : EasyServer) : Call F → Option (Except EipcStatus Unit) × EasyServer
  | .accept outcome => (h.accept outcome).map some id
  | .recvIntent a arrived =>
    (recvTyped eipcMsgIntent h a arrived).map (·.map (·.map fun _ => ())) id
  | .recvChat a arrived => (recvTyped eipcMsgChat h a arrived).map (·.map (·.map fun _ => ())) id
  | .sendAck env requestId status =>
    (sendAck env h requestId status).map (fun res => some (res.map fun _ => ())) id
  | .sendChatResponse env sessionId response model tokensUsed =>
    (sendChatResponse env h sessionId response model tokensUsed).map
      (fun res => some (res.map fun _ => ())) id

/-- The server as a machine over its calls. -/
def machine : Machine EasyServer (Call F) (Option (Except EipcStatus Unit)) where
  step h call := h.perform call

/-- What became of an `eipc_easy_accept`. -/
def Call.outcome : Call F → Option (Option Descriptor)
  | accept outcome => some outcome
  | _ => none

/-- The sockets are the same. -/
def SameSockets (h h' : EasyServer) : Prop :=
  h'.listening = h.listening ∧ h'.listenSock = h.listenSock ∧ h'.hasClient = h.hasClient
    ∧ h'.sock = h.sock

theorem SameSockets.refl (h : EasyServer) : SameSockets h h := ⟨rfl, rfl, rfl, rfl⟩

theorem sameSockets_counted {α : Type} (h : EasyServer) (n : UInt64) (c : Counter)
    (res : Except EipcStatus α) : SameSockets h ({ h with sequence := n }.counted c res) := by
  cases res with
  | ok a => exact ⟨rfl, rfl, rfl, rfl⟩
  | error e => exact ⟨rfl, rfl, rfl, rfl⟩

theorem sameSockets_recvTyped (msgType : UInt8) (h : EasyServer) (a : Allocs) (arrived : Bytes) :
    SameSockets h (recvTyped msgType h a arrived).2 := by
  unfold recvTyped
  split
  · exact .refl h
  · split
    · exact .refl h
    · dsimp only
      split
      · exact sameSockets_counted h _ _ _
      · split
        · exact ⟨rfl, rfl, rfl, rfl⟩
        · exact sameSockets_counted h _ _ _

theorem sameSockets_sendAck (env : SendEnv F) (h : EasyServer) (requestId : Option Bytes)
    (status : Bytes) : SameSockets h (sendAck env h requestId status).2 := by
  unfold sendAck
  split
  · exact .refl h
  · dsimp only
    generalize eipcServerSendAck env h.conn _ status = out
    exact sameSockets_counted h out.2.sequence .ack out.1

theorem sameSockets_sendChatResponse (env : SendEnv F) (h : EasyServer) (sessionId : Option Bytes)
    (response : Bytes) (model : Option Bytes) (tokensUsed : Int32) :
    SameSockets h (sendChatResponse env h sessionId response model tokensUsed).2 := by
  unfold sendChatResponse
  split
  · exact .refl h
  · dsimp only
    split
    · exact ⟨rfl, rfl, rfl, rfl⟩
    · generalize eipcServerSendMessage env h.conn _ = out
      exact sameSockets_counted h out.2.sequence .sent out.1

/-- **Only `eipc_easy_accept` touches the sockets.** -/
theorem sameSockets_perform (h : EasyServer) {call : Call F} (hcall : call.outcome = none) :
    SameSockets h (h.perform call).2 := by
  cases call with
  | accept outcome => cases hcall
  | recvIntent a arrived => exact sameSockets_recvTyped _ h a arrived
  | recvChat a arrived => exact sameSockets_recvTyped _ h a arrived
  | sendAck env requestId status => exact sameSockets_sendAck env h requestId status
  | sendChatResponse env sessionId response model tokensUsed =>
    exact sameSockets_sendChatResponse env h sessionId response model tokensUsed

/-- What `eipc_easy_accept` leaves behind when the server listens. -/
theorem accept_snd {h : EasyServer} {l : Descriptor} (hlistening : h.listening = true)
    (hsock : h.listenSock = some l) (outcome : Option Descriptor) :
    (h.accept outcome).2 = match outcome with
      | none => { h with sock := none, sequence := 0, stats := h.stats.count .error }
      | some d => { h with sock := some d, sequence := 0, hasClient := true } := by
  have hvalid : ¬h.listenSock = none := hsock ▸ Option.some_ne_none l
  unfold accept
  rw [if_neg (not_not.mpr hlistening), if_neg hvalid]
  cases outcome with
  | none => rfl
  | some d => rfl

/-- The connection that is at hand. -/
def current (h : EasyServer) : List Descriptor := if h.hasClient then h.sock.toList else []

/-- The server listens, and what is at hand is what the last accept brought. -/
structure Holds (l : Descriptor) (outcomes : List (Option Descriptor)) (h : EasyServer) : Prop where
  listening : h.listening = true
  listenSock : h.listenSock = some l
  current : h.current = outcomes.getLast?.join.toList

theorem Holds.step {l : Descriptor} {outcomes : List (Option Descriptor)} {h : EasyServer}
    (hh : Holds l outcomes h) (call : Call F) :
    Holds l (outcomes ++ call.outcome.toList) (h.perform call).2 := by
  cases hcall : call.outcome with
  | none =>
    obtain ⟨hlistening, hsock, hclient, hconn⟩ := sameSockets_perform h hcall
    rw [Option.toList_none, List.append_nil]
    refine ⟨hlistening.trans hh.listening, hsock.trans hh.listenSock, ?_⟩
    rw [← hh.current, EasyServer.current, EasyServer.current, hclient, hconn]
  | some outcome =>
    cases call with
    | accept o =>
      obtain rfl : o = outcome := Option.some.inj hcall
      have hperform : (h.perform (Call.accept (F := F) o)).2 = (h.accept o).2 := rfl
      rw [hperform, accept_snd hh.listening hh.listenSock, Option.toList_some]
      refine ⟨?_, ?_, ?_⟩
      · cases o <;> exact hh.listening
      · cases o <;> exact hh.listenSock
      · -- what was at hand is replaced in both cases, and closed in none
        rw [List.getLast?_append_of_ne_nil _ (List.cons_ne_nil _ _)]
        cases o with
        | none =>
          show (if h.hasClient then [] else []) = []
          exact ite_self _
        | some d => rfl
    | _ => cases hcall

theorem Holds.run {l : Descriptor} {outcomes : List (Option Descriptor)} {h : EasyServer}
    (hh : Holds l outcomes h) (calls : List (Call F)) :
    Holds l (outcomes ++ calls.filterMap Call.outcome) (machine.after h calls) := by
  induction calls generalizing h outcomes with
  | nil => rwa [List.filterMap_nil, List.append_nil]
  | cons call calls ih =>
    have hrest := ih (hh.step call)
    rw [List.append_assoc] at hrest
    have hcons : call.outcome.toList ++ calls.filterMap Call.outcome
        = (call :: calls).filterMap Call.outcome := by
      rw [List.filterMap_cons]
      cases call.outcome with
      | none => rfl
      | some outcome => rfl
    rw [hcons] at hrest
    exact hrest

/-- **The server closes the last connection at most.** Whatever calls were made, closing the server
closes the listening socket and the connection of the last accept, if that one succeeded; every
connection before it stays open. -/
theorem closes_only_last (hmacKey : Bytes) (hkey : hmacKey.length ≤ EipcFrame.eipcMacSize)
    (l : Descriptor) (calls : List (Call F)) :
    (machine.after (listen hmacKey hkey l) calls).close
      = (calls.filterMap Call.outcome).getLast?.join.toList ++ [l] := by
  have hstart : Holds l [] (listen hmacKey hkey l) := ⟨rfl, rfl, rfl⟩
  have hend := hstart.run calls
  rw [List.nil_append] at hend
  rw [close, ← hend.current, EasyServer.current, if_pos hend.listening, hend.listenSock]
  rfl

/-- Two peers are accepted and a third one is not: both stay open. -/
theorem closes_only_last_three :
    (machine.after (listen (ascii "secret") (by decide) 3)
      ([.accept (some 4), .accept (some 5), .accept none] : List (Call Unit))).close = [3] :=
  closes_only_last (ascii "secret") (by decide) 3 _

end Runs

end EasyServer
