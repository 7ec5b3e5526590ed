import Ichor.Http.Receive
import Ichor.Lib.Runs

/-! The client side: calls of `HttpConnectionService::sendAsync`, the list `_events` of those
that wait for a response, and the receive handler. Setting an event resumes the call that waits
for it inside the handler, so user code runs between two turns of the handler's loops. -/
namespace Ichor

/-- A call of `sendAsync`, numbered in the order of the calls. -/
abbrev SendCall := ℕ

/-- An entry of `_events`, with the call that waits for it. -/
structure ResponseEvent where
  call : SendCall
  isSet : Bool
  deriving DecidableEq

/-- What the running receive handler still has to do. -/
inductive HandlerTask where
  /-- Set the first event, if there is one, to the response and pop it. -/
  | deliver (resp : HttpResponse)
  /-- Set all events to the error, popping each. -/
  | failAll (error : HttpParseError)
  /-- The loop over all events after an overflow, at an index; nothing is popped. -/
  | overflow (index : ℕ)
  | crash

/-- The service, the calls of its clients and its connection. `sending` are the calls that wait
for `_connection->sendAsync`, `wire` those whose bytes have been put on the wire, `received` all
bytes that have come in, and `completed` the calls whose event was set, with what it was set to. -/
structure HttpConnection where
  connected : Bool
  buffer : Bytes
  events : List ResponseEvent
  handler : List HandlerTask
  /-- The handler has resumed a call and that call's coroutine runs. -/
  userCode : Bool
  calls : ℕ
  sending : List SendCall
  wire : List SendCall
  received : Bytes
  completed : List (SendCall × Except HttpParseError HttpResponse)
  terminated : Bool

inductive ConnectionAction where
  /-- `sendAsync` is called with a request that passes its checks. -/
  | send
  | transmit (call : SendCall)
  | sent (call : SendCall) (success : Bool)
  | receive (bytes : Bytes)
  /-- The handler goes on. -/
  | proceed
  | removeConnection
  | stop

namespace HttpConnection

def initial : HttpConnection where
  connected := true
  buffer := []
  events := []
  handler := []
  userCode := false
  calls := 0
  sending := []
  wire := []
  received := []
  completed := []
  terminated := false

/-- Set an event; a call that waits for it is resumed. -/
def setEvent (c : HttpConnection) (e : ResponseEvent)
    (result : Except HttpParseError HttpResponse) : HttpConnection :=
  if e.isSet then { c with userCode := false }
  else { c with completed := c.completed ++ [(e.call, result)], userCode := true }

/-- The tasks that the loop over the buffer comes to. -/
def tasks (r : Reception) : List HandlerTask :=
  r.responses.map .deliver ++ (r.error.map HandlerTask.failAll).toList ++
    if r.crashed then [.crash] else []

/-- The receive handler up to its first task. The buffer is not looked at before the handler is
over, so it is given its last value at once. -/
def receive (c : HttpConnection) (bytes : Bytes) : HttpConnection :=
  let c := { c with received := c.received ++ bytes }
  if c.terminated then c
  else if bufferCap < (c.buffer ++ bytes).length then
    { c with buffer := [], handler := [.overflow 0], userCode := false }
  else
    let r := receiveResponses (c.buffer ++ bytes)
    { c with buffer := r.rest, handler := tasks r, userCode := false }

theorem receive_eq {c : HttpConnection} {bytes : Bytes} (hrunning : c.terminated = false)
    (hcap : (c.buffer ++ bytes).length ≤ bufferCap) :
    c.receive bytes = { c with
      received := c.received ++ bytes
      buffer := (receiveResponses (c.buffer ++ bytes)).rest
      handler := tasks (receiveResponses (c.buffer ++ bytes))
      userCode := false } := by
  have hsmall : ¬bufferCap < (c.buffer ++ bytes).length := Nat.not_lt.mpr hcap
  simp only [receive, hrunning, if_neg hsmall, Bool.false_eq_true, if_false]

/-- One turn of the handler. -/
def proceed (c : HttpConnection) : HttpConnection :=
  match c.handler with
  | [] => c
  | .deliver resp :: rest =>
    match c.events with
    | [] => { c with handler := rest, userCode := false }
    | e :: events => { c.setEvent e (.ok resp) with events := events, handler := rest }
  | .failAll error :: rest =>
    match c.events with
    | [] => { c with handler := rest, userCode := false }
    | e :: events => { c.setEvent e (.error error) with events := events }
  | .overflow index :: rest =>
    match c.events[index]? with
    | none => { c with handler := rest, userCode := false }
    | some e =>
      { c.setEvent e (.error .bufferOverflow) with
        events := c.events.set index { e with isSet := true }
        handler := .overflow (index + 1) :: rest }
  | .crash :: _ => { c with handler := [], terminated := true }

/-- The loop over `_events` is running, so that an insertion leaves its iterator dangling. -/
def iterating (c : HttpConnection) : Bool :=
  match c.handler with
  | .overflow _ :: _ => true
  | _ => false

/-- `_connection->sendAsync` gives control back to the call. -/
def sent (c : HttpConnection) (call : SendCall) (success : Bool) : HttpConnection :=
  let c := { c with sending := c.sending.filter fun x => decide (x ≠ call) }
  if success then
    if c.iterating then { c with terminated := true }
    else { c with events := c.events ++ [⟨call, false⟩] }
  else c

/-- The connection goes away: every event is set, and the list is cleared. -/
def removeConnection (c : HttpConnection) : HttpConnection :=
  { c with
    connected := false
    completed := c.completed ++
      (c.events.filter fun e => !e.isSet).map fun e => (e.call, .error .quitting)
    events := [] }

def stop (c : HttpConnection) : HttpConnection :=
  if c.events ≠ [] then { c with terminated := true } else c

/-- Code of the clients can run. -/
def free (c : HttpConnection) : Bool := c.handler.isEmpty || c.userCode

def act : ConnectionAction → HttpConnection → Option HttpConnection
  | .send, c =>
    if c.terminated || !c.free || !c.connected then none
    else some { c with calls := c.calls + 1, sending := c.sending ++ [c.calls] }
  | .transmit call, c =>
    if c.terminated || !c.free || decide (call ∉ c.sending) || decide (call ∈ c.wire) then none
    else some { c with wire := c.wire ++ [call] }
  | .sent call success, c =>
    if c.terminated || !c.free || decide (call ∉ c.sending) ||
        decide (success = decide (call ∉ c.wire)) then none
    else some (c.sent call success)
  | .receive bytes, c =>
    if !c.handler.isEmpty || !c.connected then none else some (c.receive bytes)
  | .proceed, c => if c.terminated || c.handler.isEmpty then none else some c.proceed
  | .removeConnection, c =>
    if c.terminated || !c.handler.isEmpty || !c.connected then none
    else some c.removeConnection
  | .stop, c => if c.terminated || !c.handler.isEmpty then none else some c.stop

/-- What a step does. -/
def Effect (c c' : HttpConnection) : ConnectionAction → Prop
  | .send => c.terminated = false ∧ c.connected = true ∧
      c' = { c with calls := c.calls + 1, sending := c.sending ++ [c.calls] }
  | .transmit call => c.terminated = false ∧ call ∈ c.sending ∧ call ∉ c.wire ∧
      c' = { c with wire := c.wire ++ [call] }
  | .sent call success => c.terminated = false ∧ call ∈ c.sending ∧
      (success = true ↔ call ∈ c.wire) ∧ c' = c.sent call success
  | .receive bytes => c.handler = [] ∧ c.connected = true ∧ c' = c.receive bytes
  | .proceed => c.terminated = false ∧ c.handler ≠ [] ∧ c' = c.proceed
  | .removeConnection => c.terminated = false ∧ c.handler = [] ∧ c.connected = true ∧
      c' = c.removeConnection
  | .stop => c.terminated = false ∧ c.handler = [] ∧ c' = c.stop

theorem act_effect {c c' : HttpConnection} {a : ConnectionAction} (h : act a c = some c') :
    Effect c c' a := by
  cases a with
  | send =>
    obtain ⟨hguard, ⟨⟩⟩ := Option.ite_none_left_eq_some.mp h
    simp only [Bool.or_eq_true, Bool.not_eq_true', not_or, Bool.not_eq_true,
      Bool.not_eq_false] at hguard
    exact ⟨hguard.1.1, hguard.2, rfl⟩
  | transmit call =>
    obtain ⟨hguard, ⟨⟩⟩ := Option.ite_none_left_eq_some.mp h
    simp only [Bool.or_eq_true, Bool.not_eq_true', decide_eq_true_eq, not_or, Bool.not_eq_true,
      Bool.not_eq_false, Decidable.not_not] at hguard
    exact ⟨hguard.1.1.1, hguard.1.2, hguard.2, rfl⟩
  | sent call success =>
    obtain ⟨hguard, ⟨⟩⟩ := Option.ite_none_left_eq_some.mp h
    simp only [Bool.or_eq_true, Bool.not_eq_true', decide_eq_true_eq, not_or, Bool.not_eq_true,
      Bool.not_eq_false, Decidable.not_not] at hguard
    refine ⟨hguard.1.1.1, hguard.1.2, ?_, rfl⟩
    have hwire := hguard.2
    by_cases hmem : call ∈ c.wire
    · cases success <;> simp [hmem] at hwire ⊢
    · cases success <;> simp [hmem] at hwire ⊢
  | receive bytes =>
    obtain ⟨hguard, ⟨⟩⟩ := Option.ite_none_left_eq_some.mp h
    simp only [Bool.or_eq_true, Bool.not_eq_true', not_or, Bool.not_eq_false,
      List.isEmpty_iff] at hguard
    exact ⟨hguard.1, hguard.2, rfl⟩
  | proceed =>
    obtain ⟨hguard, ⟨⟩⟩ := Option.ite_none_left_eq_some.mp h
    simp only [Bool.or_eq_true, not_or, Bool.not_eq_true, List.isEmpty_eq_false_iff] at hguard
    exact ⟨hguard.1, hguard.2, rfl⟩
  | removeConnection =>
    obtain ⟨hguard, ⟨⟩⟩ := Option.ite_none_left_eq_some.mp h
    simp only [Bool.or_eq_true, Bool.not_eq_true', not_or, Bool.not_eq_true, Bool.not_eq_false,
      List.isEmpty_iff] at hguard
    exact ⟨hguard.1.1, hguard.1.2, hguard.2, rfl⟩
  | stop =>
    obtain ⟨hguard, ⟨⟩⟩ := Option.ite_none_left_eq_some.mp h
    simp only [Bool.or_eq_true, Bool.not_eq_true', not_or, Bool.not_eq_true, Bool.not_eq_false,
      List.isEmpty_iff] at hguard
    exact ⟨hguard.1, hguard.2, rfl⟩

theorem sent_true {c : HttpConnection} (hloop : c.iterating = false) (call : SendCall) :
    c.sent call true = { c with
      sending := c.sending.filter fun x => decide (x ≠ call)
      events := c.events ++ [⟨call, false⟩] } := by
  simp only [iterating] at hloop
  simp [sent, iterating, hloop]

/-- A run in which every step meets the condition. -/
def RunWhere (condition : HttpConnection → ConnectionAction → Prop) :
    HttpConnection → HttpConnection → Prop :=
  GuardedRuns.Run act condition

end HttpConnection

end Ichor
