import Ichor.Http.Send

/-! Requests written by `HttpConnectionService::sendAsync` and read by `HttpHostService`: the
requests that are read are the ones that were written, one after the other. -/
namespace Ichor
open FiniteTable Delimited List

/-- The arguments of `sendAsync`. -/
structure OutgoingRequest where
  method : HttpMethod
  route : Bytes
  headers : Headers
  msg : Bytes

/-- A name or a value that `sendAsync` formats, and that holds neither a part of a line end nor
the separator of a header. -/
structure Unambiguous (t : Bytes) : Prop where
  accepted : refused t = false
  carriageReturn : 13 ∉ t
  lineFeed : 10 ∉ t
  separator : ¬colonSpace <:+: t

/-- A request that a client can send: the method is known and may have the body, the route is a
word, and the headers leave the length to the client. -/
structure OutgoingRequest.Sendable (address : Option Bytes) (r : OutgoingRequest) : Prop where
  method : r.method ≠ .unknown
  body : r.method = .get → r.msg = []
  route : r.route ≠ [] ∧ 32 ∉ r.route ∧ 13 ∉ r.route ∧ 10 ∉ r.route
  headers : ∀ h ∈ r.headers.entries, Unambiguous h.1 ∧ Unambiguous h.2 ∧ h.1 ≠ contentLengthName
  host : ∀ a, address = some a → Unambiguous a

/-- What the host makes of a request: the method and the route, the headers with the generated
ones behind them, and the body with a zero behind it. -/
structure OutgoingRequest.ReadAs (address : Option Bytes) (r : OutgoingRequest)
    (req : HttpRequest) : Prop where
  method : req.method = r.method
  route : req.route = r.route
  headers : req.headers.entries =
    r.headers.entries ++ hostHeader address r.headers ++ lengthHeader r.msg
  body : req.body = r.msg ++ [0]

/-- The requests that the loop of `receiveRequestHandler` takes off its view, at most so many, and
what is left of the view. -/
def takeRequests : ℕ → Bytes → List HttpRequest × Bytes
  | 0, msg => ([], msg)
  | n + 1, msg =>
    match searchRequest msg with
    | .found req len =>
      let r := takeRequests n (msg.drop len)
      (req :: r.1, r.2)
    | _ => ([], msg)

/-- The requests that `receiveRequestHandler` reads from the buffer of a connection, which it clears
beyond the cap. -/
def readRequests (n : ℕ) (msg : Bytes) : List HttpRequest × Bytes :=
  if bufferCap < msg.length then ([], []) else takeRequests n msg

/-! ## What is sent -/

theorem formatHeaders_accepted (resp : Bytes) {hs : List (Bytes × Bytes)}
    (h : ∀ e ∈ hs, refused e.1 = false ∧ refused e.2 = false) :
    ∃ out, formatHeaders resp hs = .ok out := by
  induction hs generalizing resp with
  | nil => exact ⟨resp, rfl⟩
  | cons e hs ih =>
    obtain ⟨hname, hvalue⟩ := h e mem_cons_self
    obtain ⟨out, hout⟩ := ih (resp ++ (headerText e ++ crlf)) fun x hx =>
      h x (mem_cons_of_mem e hx)
    refine ⟨out, ?_⟩
    unfold formatHeaders
    rw [hname, hvalue]
    exact hout

theorem methodText_known {method : HttpMethod} (h : method ≠ .unknown) :
    ∃ text, assoc method reverseMethodMatching = some text := by
  cases method with
  | unknown => exact absurd rfl h
  | _ => exact ⟨_, rfl⟩

variable {t : Bytes}

theorem not_infix_of_notMem {d : Bytes} {b : UInt8} (hd : b ∈ d) (ht : b ∉ t) : ¬d <:+: t :=
  fun h => ht (h.subset hd)

theorem Unambiguous.line (h : Unambiguous t) : ¬crlf <:+: t :=
  not_infix_of_notMem (by decide : 13 ∈ crlf) h.carriageReturn

theorem Unambiguous.fitsHeader (h : Unambiguous t) : FitsHeader t where
  ne_nil := by
    rintro rfl
    have hrefused := h.accepted
    cases hrefused
  line := h.line
  colon := h.separator

namespace OutgoingRequest
variable {address : Option Bytes} {r : OutgoingRequest}

theorem Sendable.sent (h : r.Sendable address) :
    ∃ bytes, sendAsync true address r.method r.route r.headers r.msg = .ok bytes := by
  obtain ⟨text, htext⟩ := methodText_known h.method
  obtain ⟨resp, hresp⟩ := formatHeaders_accepted (requestLineText text r.route ++ crlf)
    fun e he => ⟨(h.headers e he).1.accepted, (h.headers e he).2.1.accepted⟩
  refine ⟨formatRest resp address r.headers r.msg, ?_⟩
  have hbody : ¬(r.method = .get ∧ r.msg ≠ []) := fun hno => hno.2 (h.body hno.1)
  unfold sendAsync
  rw [if_neg (by simp), if_neg hbody, htext]
  dsimp only
  rw [hresp]
  rfl

theorem Sendable.readable (h : r.Sendable address) : Readable address r.route r.headers where
  path := by
    obtain ⟨_, hspace, hreturn, _⟩ := h.route
    exact ⟨not_infix_of_notMem (by decide : 32 ∈ space) hspace,
      not_infix_of_notMem (by decide : 13 ∈ crlf) hreturn⟩
  given e he := by
    obtain ⟨hname, hvalue, hlength⟩ := h.headers e he
    exact ⟨⟨hname.line, hname.separator⟩, ⟨hvalue.line, hvalue.separator⟩, hlength⟩
  host a ha _ := (h.host a ha).fitsHeader

/-! ## What is read -/

theorem Sendable.read (h : r.Sendable address) {bytes : Bytes}
    (hsend : sendAsync true address r.method r.route r.headers r.msg = .ok bytes) {rest : Bytes}
    (hcap : (bytes ++ rest).length ≤ bufferCap) :
    ∃ req, searchRequest (bytes ++ rest) = .found req bytes.length ∧ r.ReadAs address req := by
  have hmax : bufferCap ≤ maxSize := by decide
  have hsize : bytes.length ≤ maxSize := by
    rw [length_append] at hcap
    omega
  obtain ⟨req, hfound, hmethod, hroute, hbody, hheaders⟩ := h.readable.request hsend hsize rest
  exact ⟨req, hfound, hmethod, hroute, hheaders, hbody⟩

end OutgoingRequest

/-- Requests are written and read back: each is written, its bytes are parsed as one request with
its method, route, headers and body, and the bytes of a list of requests are read as that list,
whatever bytes follow within the cap of the host. -/
theorem requests_round_trip (address : Option Bytes) (requests : List OutgoingRequest)
    (h : ∀ r ∈ requests, r.Sendable address) :
    ∃ texts : List Bytes, List.Forall₂ (fun r text =>
        sendAsync true address r.method r.route r.headers r.msg = .ok text ∧
        ∀ rest, (text ++ rest).length ≤ bufferCap → ∃ i req, find terminator (text ++ rest) = some i ∧
          parseRequest (text ++ rest) (i + 4) = .parsed req text.length ∧
          r.ReadAs address req) requests texts ∧
      ∀ rest, (texts.flatten ++ rest).length ≤ bufferCap →
        ∃ read, readRequests requests.length (texts.flatten ++ rest) = (read, rest) ∧
          List.Forall₂ (OutgoingRequest.ReadAs address) requests read := by
  induction requests with
  | nil => exact ⟨[], .nil, fun rest hcap => ⟨[], if_neg (Nat.not_lt.mpr hcap), .nil⟩⟩
  | cons r requests ih =>
    have hr := h r mem_cons_self
    obtain ⟨text, hsend⟩ := hr.sent
    obtain ⟨texts, htexts, hread⟩ := ih fun x hx => h x (mem_cons_of_mem r hx)
    refine ⟨text :: texts, .cons ⟨hsend, fun rest hcap => ?_⟩ htexts, fun rest hcap => ?_⟩
    · obtain ⟨req, hfound, hreq⟩ := hr.read hsend hcap
      obtain ⟨i, hi, _, hparsed, _⟩ := searchRequest_found hfound
      exact ⟨i, req, hi, hparsed, hreq⟩
    · rw [flatten_cons, append_assoc] at hcap ⊢
      have hrest : (texts.flatten ++ rest).length ≤ bufferCap := by
        rw [length_append] at hcap
        omega
      obtain ⟨req, hfound, hreq⟩ := hr.read hsend hcap
      obtain ⟨read, hloop, hall⟩ := hread rest hrest
      refine ⟨req :: read, ?_, .cons hreq hall⟩
      rw [readRequests, if_neg (Nat.not_lt.mpr hrest)] at hloop
      rw [readRequests, if_neg (Nat.not_lt.mpr hcap), length_cons, takeRequests, hfound]
      dsimp only
      rw [drop_left, hloop]

/-- A request with a body that looks like the end of a head, and a request without one. -/
theorem requests_round_trip_two : ∃ texts : List Bytes, texts.length = 2 ∧ ∃ first second,
      readRequests 2 (texts.flatten ++ ascii "PUT") = ([first, second], ascii "PUT") ∧
      first.route = ascii "/a" ∧ first.body = ascii "x\r\n\r\ny" ++ [0] ∧
      second.method = .get := by
  have hsendable : ∀ r ∈ ([⟨.post, ascii "/a", ⟨[(ascii "X-Id", ascii "7")], by decide⟩,
      ascii "x\r\n\r\ny"⟩, ⟨.get, ascii "/b", Table.empty, []⟩] : List OutgoingRequest),
      r.Sendable (some (ascii "localhost")) := by
    have hhost : Unambiguous (ascii "localhost") := ⟨rfl, by decide, by decide, by decide⟩
    intro r hr
    rcases mem_cons.mp hr with rfl | hr
    · refine ⟨by decide, nofun, by decide, ?_, fun a ha => Option.some.inj ha ▸ hhost⟩
      intro e he
      rw [mem_singleton.mp he]
      exact ⟨⟨rfl, by decide, by decide, by decide⟩, ⟨rfl, by decide, by decide, by decide⟩,
        by decide⟩
    · rw [mem_singleton.mp hr]
      exact ⟨by decide, fun _ => rfl, by decide, nofun, fun a ha => Option.some.inj ha ▸ hhost⟩
  obtain ⟨texts, htexts, hread⟩ := requests_round_trip _ _ hsendable
  refine ⟨texts, htexts.length_eq.symm, ?_⟩
  have hcap : (texts.flatten ++ ascii "PUT").length ≤ bufferCap := by
    obtain - | ⟨⟨hfirst, -⟩, - | ⟨⟨hsecond, -⟩, - | -⟩⟩ := htexts
    cases hfirst
    cases hsecond
    decide +kernel
  obtain ⟨read, hloop, - | ⟨hfirst, - | ⟨hsecond, - | -⟩⟩⟩ := hread _ hcap
  exact ⟨_, _, hloop, hfirst.route, hfirst.body, hsecond.method⟩

/-- The host clears a buffer of more than 512 MiB, so a larger request is not read. -/
theorem requests_round_trip_overflow :
    let r : OutgoingRequest := ⟨.post, ascii "/", Table.empty, List.replicate (bufferCap + 1) 0⟩
    r.Sendable none ∧ ∃ text, sendAsync true none r.method r.route r.headers r.msg = .ok text ∧
      readRequests 1 text = ([], []) := by
  intro r
  have hr : r.Sendable none :=
    ⟨by decide, by rintro ⟨⟩, by decide, by rintro _ ⟨⟩, by rintro _ ⟨⟩⟩
  obtain ⟨text, hsend⟩ := hr.sent
  obtain ⟨_, -, htext, -⟩ := sendAsync_ok hsend
  refine ⟨hr, text, hsend, if_pos ?_⟩
  rw [htext, length_append, show r.msg.length = bufferCap + 1 from length_replicate]
  omega

end Ichor
