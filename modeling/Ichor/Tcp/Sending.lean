import Ichor.Io.Errors
import Ichor.Lib.Runs
import Ichor.Stl.StringUtils

/-! `IOUringTcpConnectionService::sendAsync`, for a message and for a list of messages. A call
submits its bytes to the ring and is resumed by the completion; the kernel completes the pending
sends of the connection in any order and may write less than it was asked to. -/
namespace Ichor

structure TcpSend where
  /-- The overload for a list of messages. -/
  vectored : Bool
  /-- The message, or the messages one after the other. -/
  data : Bytes
  sentBytes : ℕ
  result : Option (Except IOError Unit)
  /-- What the kernel has put on the wire for this call. -/
  written : Bytes

structure SendOp where
  call : ℕ
  offset : ℕ
  length : ℕ

/-- The calls in their order, the ring and the wire. -/
structure UringSender where
  quit : Bool
  calls : List TcpSend
  pending : List SendOp
  /-- The answers of the kernel, each with its call. -/
  answers : List (ℕ × ℤ)
  wire : Bytes
  terminated : Bool

namespace UringSender

def initial : UringSender := ⟨false, [], [], [], [], false⟩

def finish (s : UringSender) (k : ℕ) (c : TcpSend) (result : Except IOError Unit) : UringSender :=
  { s with calls := s.calls.set k { c with result := some result } }

/-- The loop of the overload for one message, up to its `co_await`. The length of a submission has
32 bits. -/
def sendLoop (s : UringSender) (k : ℕ) (c : TcpSend) : UringSender :=
  if c.sentBytes < c.data.length then
    if s.quit then s.finish k c (.error .serviceQuitting)
    else { s with
      pending := s.pending ++ [⟨k, c.sentBytes, (c.data.length - c.sentBytes) % 2 ^ 32⟩] }
  else s.finish k c (.ok ())

def call (s : UringSender) (c : TcpSend) : UringSender := { s with calls := s.calls ++ [c] }

def sendAsync (s : UringSender) (msg : Bytes) : UringSender :=
  let c : TcpSend := ⟨false, msg, 0, none, []⟩
  let k := s.calls.length
  if s.quit then (s.call c).finish k c (.error .serviceQuitting) else (s.call c).sendLoop k c

def sendAsyncAll (s : UringSender) (msgs : List Bytes) : UringSender :=
  let c : TcpSend := ⟨true, msgs.flatten, 0, none, []⟩
  let k := s.calls.length
  if s.quit then (s.call c).finish k c (.error .serviceQuitting)
  else { s.call c with pending := s.pending ++ [⟨k, 0, msgs.flatten.length⟩] }

/-- The coroutine behind its `co_await`. -/
def resume (s : UringSender) (k : ℕ) (c : TcpSend) (res : ℤ) : UringSender :=
  if res < 0 then s.finish k c (.error (mapErrnoToError res))
  else if c.vectored then
    if res ≠ c.data.length then { s with terminated := true } else s.finish k c (.ok ())
  else
    let c := { c with sentBytes := c.sentBytes + res.toNat }
    { s with calls := s.calls.set k c }.sendLoop k c

/-- The kernel writes the first `res` bytes of a submission. -/
def write (s : UringSender) (index : ℕ) (x : SendOp) (c : TcpSend) (res : ℤ) : UringSender :=
  { s with
    pending := s.pending.eraseIdx index
    answers := s.answers ++ [(x.call, res)]
    wire := s.wire ++ (c.data.drop x.offset).take res.toNat
    calls := s.calls.set x.call
      { c with written := c.written ++ (c.data.drop x.offset).take res.toNat } }

inductive Act where
  | send (msg : Bytes)
  | sendAll (msgs : List Bytes)
  | complete (index : ℕ) (res : ℤ)
  | stop

def act : Act → UringSender → Option UringSender
  | .send msg, s => if s.terminated then none else some (s.sendAsync msg)
  | .sendAll msgs, s => if s.terminated then none else some (s.sendAsyncAll msgs)
  | .complete index res, s =>
    if s.terminated then none
    else
      match s.pending[index]? with
      | none => none
      | some x =>
        match s.calls[x.call]? with
        | none => none
        | some c =>
          if res ≤ x.length then
            some ((s.write index x c res).resume x.call
              { c with written := c.written ++ (c.data.drop x.offset).take res.toNat } res)
          else none
  | .stop, s => if s.terminated then none else some { s with quit := true }

/-- The kernel completes the sends in their order, and writes a part of one only if it is the only
one and has a single message; its errors are those that the table of errors does not know; and a
call with nothing to write is neither refused nor does it fail. -/
def CompletesInOrder (s : UringSender) : Act → Prop
  | .send msg => s.quit = true → msg ≠ []
  | .sendAll msgs => s.quit = true → msgs.flatten ≠ []
  | .complete index res => index = 0 ∧ ∀ x ∈ s.pending.head?, ∀ c, s.calls[x.call]? = some c →
      (res < 0 → mapErrnoToError (-res) = .failed ∧ c.data ≠ []) ∧
      (0 ≤ res → res = (c.data.length - x.offset : ℕ) ∨
        (c.vectored = false ∧ s.pending.length = 1))
  | .stop => True

/-- The states in which every step meets a condition. -/
def Reaches (condition : UringSender → Act → Prop) (s : UringSender) : Prop :=
  GuardedRuns.Run act condition initial s

end UringSender

end Ichor
