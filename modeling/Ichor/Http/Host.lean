import Ichor.Http.Routes

/-! One connection of `HttpHostService`. A receive call appends to the connection's buffer and
queues a run of `receiveRequestHandler`; a run takes a view of the buffer, is suspended in the
route handlers and in the sends, and writes what is left of its view back when it ends. -/
namespace Ichor

/-- A suspended run: where it waits, and the bytes that its view held when it was taken. -/
inductive HostRun where
  /-- In the handler of the request at the front of the view, which is `pos` bytes long. -/
  | handling (msg : Bytes) (pos : ℕ) (req : HttpRequest)
  /-- In the send of the response to it; the view is empty after a malformed request. -/
  | sending (msg : Bytes) (pos : ℕ)
  /-- In the send of the response to a buffer that was too large. -/
  | refusing

/-- `buffer` is the entry of `_connectionBuffers`, `queued` the runs that have not started;
`received`, `dispatched` and `written` are all the bytes that have come in, the requests that were
taken out of a view with the route whose handler was called, and the responses that were handed to
the connection, each with the request that it answers. -/
structure HttpHost where
  routes : HttpRoutes
  connected : Bool
  buffer : Bytes
  queued : ℕ
  runs : List HostRun
  received : Bytes
  dispatched : List (HttpRequest × Option RouteId)
  written : List (Option HttpRequest × HttpResponse)
  terminated : Bool

inductive HostAction where
  | addRoute (method : HttpMethod) (matcher : RouteMatcher)
  | removeRoute (method : HttpMethod) (id : RouteId)
  | receive (bytes : Bytes)
  /-- A queued run starts. -/
  | start (walk : Walk)
  /-- The handler that a run waits for returns. -/
  | handled (run : ℕ) (resp : HttpResponse)
  /-- The send that a run waits for is over. -/
  | sent (run : ℕ) (walk : Walk)
  | close

namespace HttpHost

def initial : HttpHost where
  routes := HttpRoutes.initial
  connected := true
  buffer := []
  queued := 0
  runs := []
  received := []
  dispatched := []
  written := []
  terminated := false

def statusOnly (status : HttpStatus) : HttpResponse := ⟨status, none, [], FiniteTable.Table.empty⟩

/-- `sendResponse`, up to the point where the run waits for the connection. -/
def write (h : HttpHost) (req : Option HttpRequest) (resp : HttpResponse) : HttpHost :=
  if h.connected then { h with written := h.written ++ [(req, resp)] } else h

/-- The loop of a run, from a view on to where it is suspended or over. -/
def serve (h : HttpHost) (walk : Walk) (msg : Bytes) : HttpHost :=
  match searchRequest msg with
  | .waiting => { h with buffer := msg }
  | .malformed =>
    { h.write none (statusOnly HttpStatus.badRequest) with runs := h.runs ++ [.sending [] 0] }
  | .found req len =>
    match h.routes.select walk req with
    | some r =>
      { h with
        dispatched := h.dispatched ++ [(req, some r.id)]
        runs := h.runs ++ [.handling msg len req] }
    | none =>
      { h.write (some req) (h.routes.fallback req) with
        dispatched := h.dispatched ++ [(req, none)]
        runs := h.runs ++ [.sending msg len] }
  | .crashed => { h with terminated := true }

def start (h : HttpHost) (walk : Walk) : HttpHost :=
  let h := { h with queued := h.queued - 1 }
  if bufferCap < h.buffer.length then
    let h := { h with buffer := [] }
    { h.write none (statusOnly HttpStatus.internalServerError) with runs := h.runs ++ [.refusing] }
  else h.serve walk h.buffer

/-- A run behind its send. -/
def sent (h : HttpHost) (walk : Walk) : HostRun → HttpHost
  | .handling _ _ _ => h
  | .refusing => h
  | .sending msg pos =>
    if !h.connected then h
    else if msg = [] then { h with buffer := [] }
    else h.serve walk (msg.drop pos)

def act : HostAction → HttpHost → Option HttpHost
  | .addRoute method matcher, h =>
    if h.terminated then none else some { h with routes := h.routes.addRoute method matcher }
  | .removeRoute method id, h =>
    if h.terminated then none else some { h with routes := h.routes.removeRoute method id }
  | .receive bytes, h =>
    if h.terminated || !h.connected then none
    else some { h with
      buffer := h.buffer ++ bytes
      queued := h.queued + 1
      received := h.received ++ bytes }
  | .start walk, h => if h.terminated || h.queued = 0 then none else some (h.start walk)
  | .handled run resp, h =>
    if h.terminated then none
    else
      match h.runs[run]? with
      | some (.handling msg pos req) =>
        some { h.write (some req) resp with runs := h.runs.set run (.sending msg pos) }
      | _ => none
  | .sent run walk, h =>
    if h.terminated then none
    else
      match h.runs[run]? with
      | some (.handling _ _ _) => none
      | some r => some ({ h with runs := h.runs.eraseIdx run }.sent walk r)
      | none => none
  | .close, h =>
    if h.terminated || !h.connected then none
    else some { h with connected := false, buffer := [] }

/-- What a step does. -/
def Effect (h h' : HttpHost) : HostAction → Prop
  | .addRoute method matcher => h' = { h with routes := h.routes.addRoute method matcher }
  | .removeRoute method id => h' = { h with routes := h.routes.removeRoute method id }
  | .receive bytes => h.connected = true ∧ h' = { h with
      buffer := h.buffer ++ bytes
      queued := h.queued + 1
      received := h.received ++ bytes }
  | .start walk => h.queued ≠ 0 ∧ h' = h.start walk
  | .handled run resp => ∃ msg pos req, h.runs[run]? = some (.handling msg pos req) ∧
      h' = { h.write (some req) resp with runs := h.runs.set run (.sending msg pos) }
  | .sent run walk =>
      (∃ msg pos, h.runs[run]? = some (.sending msg pos) ∧
        h' = { h with runs := h.runs.eraseIdx run }.sent walk (.sending msg pos)) ∨
      (h.runs[run]? = some .refusing ∧ h' = { h with runs := h.runs.eraseIdx run })
  | .close => h.connected = true ∧ h' = { h with connected := false, buffer := [] }

theorem act_effect {h h' : HttpHost} {a : HostAction} (hact : act a h = some h') :
    h.terminated = false ∧ Effect h h' a := by
  cases a with
  | addRoute method matcher | removeRoute method id =>
    obtain ⟨hterm, ⟨⟩⟩ := Option.ite_none_left_eq_some.mp hact
    exact ⟨by simpa using hterm, rfl⟩
  | receive bytes | close =>
    obtain ⟨hterm, ⟨⟩⟩ := Option.ite_none_left_eq_some.mp hact
    simp only [Bool.or_eq_true, Bool.not_eq_true', not_or, Bool.not_eq_true,
      Bool.not_eq_false] at hterm
    exact ⟨hterm.1, hterm.2, rfl⟩
  | start walk =>
    obtain ⟨hterm, ⟨⟩⟩ := Option.ite_none_left_eq_some.mp hact
    simp only [Bool.or_eq_true, decide_eq_true_eq, not_or, Bool.not_eq_true] at hterm
    exact ⟨hterm.1, hterm.2, rfl⟩
  | handled run resp =>
    simp only [act] at hact
    split at hact
    · cases hact
    · next hterm =>
      split at hact
      · next msg pos req hrun =>
        cases hact
        exact ⟨by simpa using hterm, msg, pos, req, hrun, rfl⟩
      · cases hact
  | sent run walk =>
    simp only [act] at hact
    split at hact
    · cases hact
    · next hterm =>
      refine ⟨by simpa using hterm, ?_⟩
      cases hrun : h.runs[run]? with
      | none => simp [hrun] at hact
      | some r =>
        cases r with
        | handling msg pos req => simp [hrun] at hact
        | sending msg pos =>
          simp only [hrun, Option.some.injEq] at hact
          exact .inl ⟨msg, pos, hrun, hact.symm⟩
        | refusing =>
          simp only [hrun, Option.some.injEq] at hact
          exact .inr ⟨hrun, hact.symm⟩

/-- A run of the host in which every step meets the condition. -/
def RunWhere (condition : HttpHost → HostAction → Prop) : HttpHost → HttpHost → Prop :=
  GuardedRuns.Run act condition

/-- Nothing is queued and nothing is suspended. -/
def Settled (h : HttpHost) : Prop := h.queued = 0 ∧ h.runs = []

end HttpHost

end Ichor
