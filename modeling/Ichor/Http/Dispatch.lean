import Ichor.Http.Host
import Ichor.Http.Streams

/-! The host and a stream of requests: as long as nothing comes in and no other run starts while a
run is suspended, every request is served once, in the order of the stream. -/
namespace Ichor
open List

namespace HttpHost

/-- Bytes come in and a run starts only while no run is suspended, and a run starts on a buffer
within the cap; the connection stays open. -/
def OneRunAtATime (h : HttpHost) : HostAction → Prop
  | .receive _ => h.runs = []
  | .start _ => h.runs = [] ∧ h.buffer.length ≤ bufferCap
  | .close => False
  | _ => True

/-- Between two runs: the requests that were taken off the stream have been dispatched and
answered, and the buffer holds the rest of what has come in. -/
structure Idle (h : HttpHost) (done todo : List (Bytes × HttpRequest)) : Prop where
  connected : h.connected = true
  running : h.terminated = false
  runs : h.runs = []
  received : h.received = streamBytes done ++ h.buffer
  dispatched : h.dispatched.map Prod.fst = done.map Prod.snd
  written : h.written.map Prod.fst = done.map fun x => some x.2
  /-- When no run is queued, the next request has not come in. -/
  waiting : h.queued = 0 → ∀ x ∈ todo.head?, h.buffer.length < x.1.length

/-- During a run: the next request is being served. -/
structure Busy (h : HttpHost) (done : List (Bytes × HttpRequest)) (x : Bytes × HttpRequest)
    (rest : Bytes) : Prop where
  connected : h.connected = true
  running : h.terminated = false
  received : h.received = streamBytes done ++ (x.1 ++ rest)
  dispatched : h.dispatched.map Prod.fst = (done ++ [x]).map Prod.snd
  serving : (h.runs = [.handling (x.1 ++ rest) x.1.length x.2] ∧
      h.written.map Prod.fst = done.map fun x => some x.2) ∨
    (h.runs = [.sending (x.1 ++ rest) x.1.length] ∧
      h.written.map Prod.fst = (done ++ [x]).map fun x => some x.2)

/-- A place in the stream. -/
def At (stream : List (Bytes × HttpRequest)) (h : HttpHost) : Prop :=
  (∃ done todo, stream = done ++ todo ∧ Idle h done todo) ∨
    ∃ done x rest todo, stream = done ++ x :: todo ∧ Busy h done x rest

section
variable {h : HttpHost} {done todo : List (Bytes × HttpRequest)}

theorem serve_at (hconnected : h.connected = true) (hrunning : h.terminated = false)
    (hruns : h.runs = []) {msg : Bytes} (hreceived : h.received = streamBytes done ++ msg)
    (hdispatched : h.dispatched.map Prod.fst = done.map Prod.snd)
    (hwritten : h.written.map Prod.fst = done.map fun x => some x.2)
    (htodo : ∀ x ∈ todo, IsRequest x) (hmsg : msg <+: streamBytes todo) (walk : Walk) :
    At (done ++ todo) (h.serve walk msg) := by
  rcases search_stream htodo hmsg with ⟨hwait, hshort⟩ | ⟨x, rest, todo', rfl, rfl, hfound, hrest⟩
  · have hserve : h.serve walk msg = { h with buffer := msg } := by
      simp only [HttpHost.serve, hwait]
    rw [hserve]
    exact .inl ⟨done, todo, rfl, hconnected, hrunning, hruns, hreceived, hdispatched, hwritten,
      fun _ => hshort⟩
  · refine .inr ⟨done, x, rest, todo', rfl, ?_⟩
    cases hselect : h.routes.select walk x.2 with
    | some r =>
      have hserve : h.serve walk (x.1 ++ rest) = { h with
          dispatched := h.dispatched ++ [(x.2, some r.id)]
          runs := h.runs ++ [.handling (x.1 ++ rest) x.1.length x.2] } := by
        simp only [HttpHost.serve, hfound, hselect]
      rw [hserve]
      refine ⟨hconnected, hrunning, hreceived, ?_, .inl ⟨?_, hwritten⟩⟩
      · simp [hdispatched]
      · simp [hruns]
    | none =>
      have hserve : h.serve walk (x.1 ++ rest) = { h with
          written := h.written ++ [(some x.2, h.routes.fallback x.2)]
          dispatched := h.dispatched ++ [(x.2, none)]
          runs := h.runs ++ [.sending (x.1 ++ rest) x.1.length] } := by
        simp only [HttpHost.serve, hfound, hselect, HttpHost.write, hconnected, if_true]
      rw [hserve]
      refine ⟨hconnected, hrunning, hreceived, ?_, .inr ⟨?_, ?_⟩⟩
      · simp [hdispatched]
      · simp [hruns]
      · simp [hwritten]

end

/-! ## The steps -/

theorem received_write (h : HttpHost) (req : Option HttpRequest) (resp : HttpResponse) :
    (h.write req resp).received = h.received := by
  unfold HttpHost.write
  split <;> rfl

theorem received_serve (h : HttpHost) (walk : Walk) (msg : Bytes) :
    (h.serve walk msg).received = h.received := by
  unfold HttpHost.serve
  split
  · rfl
  · exact received_write h _ _
  · split
    · rfl
    · exact received_write h _ _
  · rfl

section
variable {h h' : HttpHost}

variable {a : HostAction}

theorem received_act (hact : HttpHost.act a h = some h') : h.received <+: h'.received := by
  have heffect := (act_effect hact).2
  cases a with
  | addRoute method matcher | removeRoute method id =>
    cases heffect
    exact prefix_rfl
  | receive bytes =>
    obtain ⟨-, rfl⟩ := heffect
    exact prefix_append _ _
  | start walk =>
    obtain ⟨-, rfl⟩ := heffect
    simp only [HttpHost.start]
    split
    · show _ <+: (HttpHost.write _ _ _).received
      rw [received_write]
    · rw [received_serve]
  | handled run resp =>
    obtain ⟨msg, pos, req, -, rfl⟩ := heffect
    show _ <+: (HttpHost.write _ _ _).received
    rw [received_write]
  | sent run walk =>
    rcases heffect with ⟨msg, pos, -, rfl⟩ | ⟨-, rfl⟩
    · simp only [HttpHost.sent]
      split
      · exact prefix_rfl
      · split
        · exact prefix_rfl
        · rw [received_serve]
    · exact prefix_rfl
  | close =>
    obtain ⟨-, rfl⟩ := heffect
    exact prefix_rfl

theorem Idle.act {done todo : List (Bytes × HttpRequest)} (hi : Idle h done todo)
    (hstream : ∀ x ∈ done ++ todo, IsRequest x) (hquiet : h.OneRunAtATime a)
    (hact : HttpHost.act a h = some h') (hreceived : h.received <+: streamBytes (done ++ todo)) :
    At (done ++ todo) h' := by
  have heffect := (act_effect hact).2
  have htodo : ∀ x ∈ todo, IsRequest x := fun x hx => hstream x (mem_append_right done hx)
  cases a with
  | addRoute method matcher | removeRoute method id =>
    cases heffect
    exact .inl ⟨done, todo, rfl, hi.connected, hi.running, hi.runs, hi.received, hi.dispatched,
      hi.written, hi.waiting⟩
  | receive bytes =>
    obtain ⟨-, rfl⟩ := heffect
    refine .inl ⟨done, todo, rfl, hi.connected, hi.running, hi.runs, ?_, hi.dispatched, hi.written,
      fun hzero => absurd hzero (Nat.succ_ne_zero _)⟩
    show h.received ++ bytes = streamBytes done ++ (h.buffer ++ bytes)
    rw [hi.received, append_assoc]
  | start walk =>
    obtain ⟨-, rfl⟩ := heffect
    have hcap : ¬bufferCap < h.buffer.length := by
      have hle := hquiet.2
      omega
    have hstart : h.start walk = { h with queued := h.queued - 1 }.serve walk h.buffer := by
      simp only [HttpHost.start, if_neg hcap]
    rw [hi.received, streamBytes_append, prefix_append_right_inj] at hreceived
    rw [hstart]
    exact serve_at (h := { h with queued := h.queued - 1 }) hi.connected hi.running hi.runs
      hi.received hi.dispatched hi.written htodo hreceived walk
  | handled run resp =>
    obtain ⟨msg, pos, req, hrun, -⟩ := heffect
    rw [hi.runs] at hrun
    cases hrun
  | sent run walk =>
    rcases heffect with ⟨msg, pos, hrun, -⟩ | ⟨hrun, -⟩
    · rw [hi.runs] at hrun
      cases hrun
    · rw [hi.runs] at hrun
      cases hrun
  | close => exact hquiet.elim

theorem Busy.act {done todo : List (Bytes × HttpRequest)} {x : Bytes × HttpRequest} {rest : Bytes}
    (hb : Busy h done x rest) (hstream : ∀ y ∈ done ++ x :: todo, IsRequest y)
    (hquiet : h.OneRunAtATime a) (hact : HttpHost.act a h = some h')
    (hreceived : h.received <+: streamBytes (done ++ x :: todo)) : At (done ++ x :: todo) h' := by
  have heffect := (act_effect hact).2
  have hne : h.runs ≠ [] := by
    rcases hb.serving with ⟨hruns, -⟩ | ⟨hruns, -⟩ <;> simp [hruns]
  cases a with
  | addRoute method matcher | removeRoute method id =>
    cases heffect
    exact .inr ⟨done, x, rest, todo, rfl, hb.connected, hb.running, hb.received, hb.dispatched,
      hb.serving⟩
  | receive bytes => exact absurd hquiet hne
  | start walk => exact absurd hquiet.1 hne
  | handled run resp =>
    obtain ⟨msg, pos, req, hrun, rfl⟩ := heffect
    rcases hb.serving with ⟨hruns, hwritten⟩ | ⟨hruns, -⟩
    · rw [hruns] at hrun
      cases run with
      | succ run => simp at hrun
      | zero =>
        simp only [getElem?_cons_zero, Option.some.injEq, HostRun.handling.injEq] at hrun
        obtain ⟨rfl, rfl, rfl⟩ := hrun
        refine .inr ⟨done, x, rest, todo, rfl, ?_⟩
        simp only [HttpHost.write, hb.connected, if_true, hruns]
        exact ⟨rfl, hb.running, hb.received, hb.dispatched, .inr ⟨rfl, by simp [hwritten]⟩⟩
    · rw [hruns] at hrun
      cases run with
      | succ run => simp at hrun
      | zero => simp at hrun
  | sent run walk =>
    rcases hb.serving with ⟨hruns, -⟩ | ⟨hruns, hwritten⟩
    · rw [Effect, hruns] at heffect
      cases run with
      | succ run | zero => simp at heffect
    · have hx : x.1 ++ rest ≠ [] := by
        have hnil := IsRequest.ne_nil (hstream x (by simp))
        simp [hnil]
      have hnext : h' = { h with runs := [] }.serve walk rest := by
        rw [Effect, hruns] at heffect
        cases run with
        | succ run => simp at heffect
        | zero =>
          rcases heffect with ⟨msg, pos, hrun, hh'⟩ | ⟨hrun, -⟩
          · simp only [getElem?_cons_zero, Option.some.injEq, HostRun.sending.injEq] at hrun
            obtain ⟨rfl, rfl⟩ := hrun
            rw [hh']
            simp only [HttpHost.sent, hb.connected, if_neg hx, eraseIdx_zero, tail_cons, drop_left]
            rfl
          · simp at hrun
      rw [hnext]
      have hplace : done ++ x :: todo = (done ++ [x]) ++ todo := by simp
      have hbytes : streamBytes (done ++ [x]) = streamBytes done ++ x.1 := by simp [streamBytes]
      rw [hplace] at hreceived hstream ⊢
      rw [hb.received, streamBytes_append, hbytes, ← append_assoc,
        prefix_append_right_inj] at hreceived
      refine serve_at (h := { h with runs := [] }) hb.connected hb.running rfl ?_ hb.dispatched
        hwritten (fun y hy => hstream y (mem_append_right _ hy)) hreceived walk
      show h.received = _
      rw [hb.received, hbytes, append_assoc]
  | close => exact hquiet.elim

variable {stream : List (Bytes × HttpRequest)}

theorem at_initial (hstream : ∀ x ∈ stream, IsRequest x) : At stream initial := by
  refine .inl ⟨[], stream, rfl, rfl, rfl, rfl, rfl, rfl, rfl, fun _ x hx => ?_⟩
  have hmem : x ∈ stream := mem_of_mem_head? hx
  exact length_pos_of_ne_nil (hstream x hmem).ne_nil

theorem at_run (hstream : ∀ x ∈ stream, IsRequest x)
    (hrun : RunWhere OneRunAtATime initial h) (hreceived : h.received <+: streamBytes stream) :
    At stream h := by
  refine GuardedRuns.Run.invariant hrun (fun h => h.received <+: streamBytes stream → At stream h)
    (fun _ => at_initial hstream) ?_ hreceived
  intro x a y hx hquiet hact hy
  have hbefore := (received_act hact).trans hy
  rcases hx hbefore with ⟨done, todo, rfl, hidle⟩ | ⟨done, x, rest, todo, rfl, hbusy⟩
  · exact hidle.act hstream hquiet hact hbefore
  · exact hbusy.act hstream hquiet hact hbefore

/-- However a stream of requests is cut, and wherever the handlers and the sends are suspended: as
long as nothing comes in and no other run starts meanwhile, the requests are dispatched once each
and in order, the responses are written in the same order, and when everything has settled the
buffer holds what has come in of the next request. -/
theorem dispatched_in_order {stream : List (Bytes × HttpRequest)}
    (hstream : ∀ x ∈ stream, IsRequest x) (hrun : RunWhere OneRunAtATime initial h)
    (hreceived : h.received <+: streamBytes stream) :
    h.terminated = false ∧
      h.dispatched.map Prod.fst <+: stream.map Prod.snd ∧
      h.written.map Prod.fst <+: h.dispatched.map (fun d => some d.1) ∧
      (h.Settled → ∃ k ≤ stream.length, h.dispatched.map Prod.fst = (stream.take k).map Prod.snd ∧
        h.written.map Prod.fst = h.dispatched.map (fun d => some d.1) ∧
        h.received = streamBytes (stream.take k) ++ h.buffer ∧
        ∀ x, stream[k]? = some x → h.buffer.length < x.1.length) := by
  have hsome : ∀ l : List (Bytes × HttpRequest), h.dispatched.map Prod.fst = l.map Prod.snd →
      h.dispatched.map (fun d => some d.1) = l.map fun x => some x.2 := by
    intro l hl
    have hmap := congrArg (List.map some) hl
    simpa [map_map, Function.comp_def] using hmap
  rcases at_run hstream hrun hreceived with
    ⟨done, todo, rfl, hidle⟩ | ⟨done, x, rest, todo, rfl, hbusy⟩
  · refine ⟨hidle.running, ?_, ?_, fun hsettled => ⟨done.length, by simp, ?_, ?_, ?_, ?_⟩⟩
    · rw [hidle.dispatched, map_append]
      exact prefix_append _ _
    · rw [hsome done hidle.dispatched, hidle.written]
    · rw [take_left]
      exact hidle.dispatched
    · rw [hsome done hidle.dispatched]
      exact hidle.written
    · rw [take_left]
      exact hidle.received
    · intro x hx
      rw [getElem?_append_right (Nat.le_refl _), Nat.sub_self] at hx
      exact hidle.waiting hsettled.1 x (by rw [head?_eq_getElem?]; exact hx)
  · refine ⟨hbusy.running, ?_, ?_, fun hsettled => ?_⟩
    · rw [hbusy.dispatched]
      simp
    · rw [hsome (done ++ [x]) hbusy.dispatched]
      rcases hbusy.serving with ⟨-, hwritten⟩ | ⟨-, hwritten⟩
      · rw [hwritten, map_append]
        exact prefix_append _ _
      · rw [hwritten]
    · have hnil := hsettled.2
      rcases hbusy.serving with ⟨hruns, -⟩ | ⟨hruns, -⟩
      · rw [hruns] at hnil
        cases hnil
      · rw [hruns] at hnil
        cases hnil

end

/-- Two requests that come in three pieces, with handlers that are suspended. -/
theorem dispatched_in_order_pieces : ∃ h : HttpHost, RunWhere OneRunAtATime initial h ∧ h.Settled ∧
      h.received = ascii "GET /a HTTP/1.1\r\n\r\nGET /b HTTP/1.1\r\n\r\n" ∧
      h.dispatched.map (fun d => d.1.route) = [ascii "/a", ascii "/b"] ∧ h.terminated = false := by
  obtain ⟨reqa, ha⟩ : ∃ req, searchRequest (ascii "GET /a HTTP/1.1\r\n\r\n") = .found req 19 := ⟨_, rfl⟩
  obtain ⟨reqb, hb⟩ : ∃ req, searchRequest (ascii "GET /b HTTP/1.1\r\n\r\n") = .found req 19 := ⟨_, rfl⟩
  have hrun : RunWhere OneRunAtATime initial _ :=
    .tail (.tail (.tail (.tail (.tail (.tail (.tail (.tail (.tail (.tail (.tail (.tail .refl
      ⟨.addRoute .get (stringRouteMatcher (ascii "/a")), trivial, rfl⟩)
      ⟨.addRoute .get (stringRouteMatcher (ascii "/b")), trivial, rfl⟩)
      ⟨.receive (ascii "GET /a HT"), rfl, rfl⟩)
      ⟨.start Walk.inOrder, ⟨rfl, by decide⟩, rfl⟩)
      ⟨.receive (ascii "TP/1.1\r\n\r\nGET /b"), rfl, rfl⟩)
      ⟨.start Walk.inOrder, ⟨rfl, by decide⟩, rfl⟩)
      ⟨.handled 0 (statusOnly 200), trivial, rfl⟩)
      ⟨.sent 0 Walk.inOrder, trivial, rfl⟩)
      ⟨.receive (ascii " HTTP/1.1\r\n\r\n"), rfl, rfl⟩)
      ⟨.start Walk.inOrder, ⟨rfl, by decide⟩, rfl⟩)
      ⟨.handled 0 (statusOnly 404), trivial, rfl⟩)
      ⟨.sent 0 Walk.inOrder, trivial, rfl⟩
  have hstream : ∀ x ∈ [(ascii "GET /a HTTP/1.1\r\n\r\n", reqa), (ascii "GET /b HTTP/1.1\r\n\r\n", reqb)],
      IsRequest x := by
    intro x hx
    rcases mem_pair.mp hx with rfl | rfl
    · exact ha
    · exact hb
  have horder := dispatched_in_order hstream hrun prefix_rfl
  exact ⟨_, hrun, ⟨rfl, rfl⟩, rfl, rfl, horder.1⟩

/-- Two requests come in before the first run starts; while it is in the handler of the first
request, the second run dispatches that request again. -/
theorem dispatched_twice : ∃ h : HttpHost, RunWhere (fun _ _ => True) initial h ∧
      h.received = ascii "GET /a HTTP/1.1\r\n\r\nGET /b HTTP/1.1\r\n\r\n" ∧
      h.dispatched.map (fun d => d.1.route) = [ascii "/a", ascii "/a"] := by
  have hrun : RunWhere (fun _ _ => True) initial _ :=
    GuardedRuns.run_exec [.addRoute .get (stringRouteMatcher (ascii "/a")),
      .receive (ascii "GET /a HTTP/1.1\r\n\r\n"), .receive (ascii "GET /b HTTP/1.1\r\n\r\n"),
      .start Walk.inOrder, .start Walk.inOrder] rfl
  exact ⟨_, hrun, rfl, rfl⟩

end HttpHost

end Ichor
