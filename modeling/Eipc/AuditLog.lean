import Eipc.Lib.JsonLines
import Eipc.Handlers

/-!
# The audit log as a file

`FileLogger.Log` appends an entry to the file as a JSON object on a line of its own. Its strings
come from peers: the identifier of a request, the name of a service, a capability. They can hold
newlines and quotes, and none of that makes or hides a line: the file is read as the entries that
were in it before and those that were logged, in their order (`Audit.readLog_after`).

A write can fail, on a disk that is full, and can have put a part of the line into the file. The
caller gets an error then. The part does no harm as long as it is the last in the file; the next
line would be appended to it, and be lost with it.
-/

open Bytes

namespace Audit

/-- `Entry`, with all its fields. -/
structure LogEntry where
  timestamp : Bytes
  requestID : Bytes
  source : Bytes
  target : Bytes
  action : Bytes
  decision : Bytes
  result : Bytes
  deriving DecidableEq

namespace LogEntry

/-- An entry without a time gets the time at which it is logged. -/
def stamped (now : Bytes) (e : LogEntry) : LogEntry :=
  if e.timestamp = [] then { e with timestamp := now } else e

/-- The members that the encoder writes. -/
def members (e : LogEntry) : List (Bytes × Json.Value) :=
  [(ascii "timestamp", .str e.timestamp), (ascii "request_id", .str e.requestID),
    (ascii "source", .str e.source), (ascii "target", .str e.target),
    (ascii "action", .str e.action), (ascii "decision", .str e.decision),
    (ascii "result", .str e.result)]

/-- The strings are valid UTF-8. -/
structure Valid (e : LogEntry) : Prop where
  timestamp : Json.ValidUTF8 e.timestamp
  requestID : Json.ValidUTF8 e.requestID
  source : Json.ValidUTF8 e.source
  target : Json.ValidUTF8 e.target
  action : Json.ValidUTF8 e.action
  decision : Json.ValidUTF8 e.decision
  result : Json.ValidUTF8 e.result

theorem valid_members {e : LogEntry} (h : e.Valid) :
    ∀ kv ∈ e.members, Json.ValidUTF8 kv.1 ∧ kv.2.Valid := by
  unfold members
  simp only [List.forall_mem_cons, List.not_mem_nil, false_implies, implies_true, and_true]
  exact ⟨⟨Json.validUTF8_of_ascii rfl, h.timestamp⟩, ⟨Json.validUTF8_of_ascii rfl, h.requestID⟩,
    ⟨Json.validUTF8_of_ascii rfl, h.source⟩, ⟨Json.validUTF8_of_ascii rfl, h.target⟩,
    ⟨Json.validUTF8_of_ascii rfl, h.action⟩, ⟨Json.validUTF8_of_ascii rfl, h.decision⟩,
    Json.validUTF8_of_ascii rfl, h.result⟩

theorem Valid.stamped {e : LogEntry} {now : Bytes} (h : e.Valid) (hnow : Json.ValidUTF8 now) :
    (e.stamped now).Valid := by
  unfold LogEntry.stamped
  split
  · exact { h with timestamp := hnow }
  · exact h

end LogEntry

/-- What `Write` does with a line: it puts all of it into the file, or fails with an error when
so many of its bytes are there. -/
inductive Written where
  | all
  | failed (err : String) (count : ℕ)

/-- A call of `Log`: the text of the time at which it is made, the entry, and what `Write` does. -/
structure LogCall where
  now : Bytes
  entry : LogEntry
  written : Written

namespace LogCall

/-- The entry that is logged. -/
def logged (call : LogCall) : LogEntry := call.entry.stamped call.now

end LogCall

/-- `FileLogger`: what the file holds. -/
structure FileLogger where
  file : Bytes

namespace FileLogger

/-- `Log`. -/
def log (l : FileLogger) (call : LogCall) : Except String Unit × FileLogger :=
  match call.written with
  | .all => (.ok (), ⟨l.file ++ Json.line call.logged.members⟩)
  | .failed err count =>
    -- not all of the line is written, and its last byte is the newline
    (.error ("write audit entry: " ++ err),
      ⟨l.file ++ (Json.writeObject call.logged.members).take count⟩)

/-- The logger as a machine over its calls. -/
def machine : Machine FileLogger LogCall (Except String Unit) where
  step := log

/-- The entries of the calls that returned no error. -/
def entries (l : FileLogger) (calls : List LogCall) : List LogEntry :=
  (machine.callsWith Except.isOk l calls).map LogCall.logged

end FileLogger

end Audit
