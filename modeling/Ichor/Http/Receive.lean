import Ichor.Http.Parse

/-! The loops of the two receivers over their buffer: `HttpConnectionService` takes responses
off its front, `HttpHostService` requests. -/
namespace Ichor
open Delimited

/-! ## The client -/

/-- Where the search for one response ends. -/
inductive Search where
  | waiting
  | malformed (error : HttpParseError)
  | found (resp : HttpResponse) (len : ℕ)
  /-- A view left the buffer, a vector threw, or the position check terminated the process. -/
  | crashed

/-- Parse behind each terminator from a position on; a chunked message that is not over moves
on to the next terminator. Fuel for the terminators. -/
def search : ℕ → Bytes → ℕ → Search
  | 0, _, _ => .waiting
  | n + 1, msg, start =>
    match find terminator (msg.drop start) with
    | none => .waiting
    | some i =>
      match parseResponse msg (start + i + 4) with
      | .failed .incompleteRequest _ => .waiting
      | .failed .chunked len => search n msg len
      | .failed error _ => .malformed error
      | .parsed resp len => if len ≤ msg.length then .found resp len else .crashed
      | .overrun _ _ => .crashed
      | .lengthError => .crashed

/-- What one run of the loop has found. -/
structure Reception where
  responses : List HttpResponse
  rest : Bytes
  error : Option HttpParseError
  crashed : Bool

/-- The loop of the receive handler. Fuel for the responses. -/
def receiveLoop : ℕ → Bytes → Reception
  | 0, msg => ⟨[], msg, none, false⟩
  | n + 1, msg =>
    match search msg.length msg 0 with
    | .waiting => ⟨[], msg, none, false⟩
    | .malformed error => ⟨[], msg, some error, false⟩
    | .crashed => ⟨[], [], none, true⟩
    | .found resp len =>
      let r := receiveLoop n (msg.drop len)
      { r with responses := resp :: r.responses }

def receiveResponses (msg : Bytes) : Reception := receiveLoop (msg.length + 1) msg

/-! ## The host -/

/-- What `receiveRequestHandler` finds at the front of its view. -/
inductive RequestSearch where
  | waiting
  | malformed
  | found (req : HttpRequest) (len : ℕ)
  | crashed

def searchRequest (msg : Bytes) : RequestSearch :=
  match find terminator msg with
  | none => .waiting
  | some i =>
    match parseRequest msg (i + 4) with
    | .failed .incompleteRequest _ => .waiting
    | .failed _ _ => .malformed
    | .parsed req len => if len ≤ msg.length then .found req len else .crashed
    | .overrun _ _ => .crashed
    | .lengthError => .crashed

end Ichor
