import Ichor.Http.Client
import Ichor.Http.Streams

/-! Which call gets which response. A call enters `_events` when its send gives control back, and
not when its bytes go out, so the pairing is right in the runs where the one order is the other
and no response overtakes the end of the send that it answers. -/
namespace Ichor
open List

namespace HttpConnection

/-- The calls that were completed with a response, in that order. -/
def deliveries (c : HttpConnection) : List (SendCall × HttpResponse) :=
  c.completed.filterMap fun x => x.2.toOption.map fun resp => (x.1, resp)

/-- The calls on the wire whose send is over. -/
def sentCalls (c : HttpConnection) : List SendCall :=
  c.wire.filter fun call => decide (call ∉ c.sending)

/-- The sends end in the order in which the bytes went out, and what comes in are the answers to
requests whose send is over. -/
def InStep (stream : List (Bytes × HttpResponse)) (c : HttpConnection) : ConnectionAction → Prop
  | .sent call true => (c.wire.filter fun x => decide (x ∈ c.sending)).head? = some call
  | .receive bytes => c.received ++ bytes <+: streamBytes (stream.take c.sentCalls.length) ∧
      (c.buffer ++ bytes).length ≤ bufferCap
  | _ => True

/-- The connection is in use. Of the stream, the responses `done` have been given to the calls
`answered`, and the handler holds those of `found`; the calls of `waiting` wait for a response,
and those of `unsent` for the end of their send. -/
structure Live (stream : List (Bytes × HttpResponse)) (c : HttpConnection)
    (done found left : List (Bytes × HttpResponse))
    (answered waiting unsent : List SendCall) : Prop where
  stream_eq : stream = done ++ (found ++ left)
  wire_eq : c.wire = answered ++ (waiting ++ unsent)
  running : c.terminated = false
  received : c.received = streamBytes (done ++ found) ++ c.buffer
  partly : ∀ x ∈ left.head?, c.buffer.length < x.1.length
  handler : c.handler = found.map fun x => .deliver x.2
  events : c.events = waiting.map fun call => ⟨call, false⟩
  completed : c.completed = (answered.zip done).map fun x => (x.1, .ok x.2.2)
  answers : answered.length = done.length
  enough : found.length ≤ waiting.length
  sent : ∀ call ∈ answered ++ waiting, call ∉ c.sending
  still : ∀ call ∈ unsent, call ∈ c.sending
  wire_nodup : c.wire.Nodup
  wire_lt : ∀ call ∈ c.wire, call < c.calls
  sending_lt : ∀ call ∈ c.sending, call < c.calls

/-- The connection is gone, or the process is: nothing is delivered any more. -/
structure Over (stream : List (Bytes × HttpResponse)) (c : HttpConnection) : Prop where
  ended : c.connected = false ∨ c.terminated = true
  handler : c.handler = []
  delivered : ∃ m ≤ c.wire.length,
    c.deliveries = ((c.wire.zip stream).take m).map fun x => (x.1, x.2.2)
  wire_nodup : c.wire.Nodup

def Paired (stream : List (Bytes × HttpResponse)) (c : HttpConnection) : Prop :=
  (∃ done found left answered waiting unsent,
    Live stream c done found left answered waiting unsent) ∨ Over stream c

section
variable {stream done found left : List (Bytes × HttpResponse)}
  {answered waiting unsent : List SendCall} {c c' : HttpConnection}

section
variable (h : Live stream c done found left answered waiting unsent)
include h

theorem Live.delivered :
    c.deliveries = ((c.wire.zip stream).take done.length).map fun x => (x.1, x.2.2) := by
  have hzip : (c.wire.zip stream).take done.length = answered.zip done := by
    rw [h.wire_eq, h.stream_eq, zip_append h.answers, take_left']
    rw [length_zip, h.answers, Nat.min_self]
  rw [hzip, HttpConnection.deliveries, h.completed, filterMap_map]
  exact congrFun filterMap_eq_map _

theorem Live.sentCalls : c.sentCalls = answered ++ waiting := by
  have hkeep : (answered ++ waiting).filter (fun call => decide (call ∉ c.sending)) =
      answered ++ waiting :=
    filter_eq_self.mpr fun call hcall => decide_eq_true (h.sent call hcall)
  have hdrop : unsent.filter (fun call => decide (call ∉ c.sending)) = [] :=
    filter_eq_nil_iff.mpr fun call hcall => by simpa using h.still call hcall
  rw [HttpConnection.sentCalls, h.wire_eq, ← append_assoc, filter_append, hkeep, hdrop, append_nil]

theorem Live.unsentCalls : c.wire.filter (fun call => decide (call ∈ c.sending)) = unsent := by
  have hdrop : (answered ++ waiting).filter (fun call => decide (call ∈ c.sending)) = [] :=
    filter_eq_nil_iff.mpr fun call hcall => by simpa using h.sent call hcall
  have hkeep : unsent.filter (fun call => decide (call ∈ c.sending)) = unsent :=
    filter_eq_self.mpr fun call hcall => decide_eq_true (h.still call hcall)
  rw [h.wire_eq, ← append_assoc, filter_append, hkeep, hdrop, nil_append]

theorem Live.delivered_over (hover : c'.connected = false ∨ c'.terminated = true)
    (hhandler : c'.handler = []) (hdelivered : c'.deliveries = c.deliveries)
    (hwire : c'.wire = c.wire) : Over stream c' where
  ended := hover
  handler := hhandler
  delivered := by
    refine ⟨done.length, ?_, ?_⟩
    · rw [hwire, h.wire_eq, ← h.answers]
      simp
    · rw [hdelivered, hwire]
      exact h.delivered
  wire_nodup := hwire ▸ h.wire_nodup

/-! ## The steps of a connection in use -/

theorem Live.send : Live stream { c with calls := c.calls + 1, sending := c.sending ++ [c.calls] }
      done found left answered waiting unsent :=
  { h with
    sent := by
      intro call hcall hmem
      rcases mem_append.mp hmem with hmem | hmem
      · exact h.sent call hcall hmem
      · -- the new call is not on the wire
        have hwire : call ∈ c.wire := by
          rw [h.wire_eq, ← append_assoc]
          exact mem_append_left unsent hcall
        have hlt := h.wire_lt call hwire
        rw [mem_singleton] at hmem
        rw [hmem] at hlt
        exact Nat.lt_irrefl _ hlt
    still := fun call hcall => mem_append_left _ (h.still call hcall)
    wire_lt := fun call hcall => Nat.lt_succ_of_lt (h.wire_lt call hcall)
    sending_lt := by
      intro call hcall
      rcases mem_append.mp hcall with hcall | hcall
      · exact Nat.lt_succ_of_lt (h.sending_lt call hcall)
      · rw [mem_singleton.mp hcall]
        exact Nat.lt_succ_self _ }

end

variable {call : SendCall}

section
variable (h : Live stream c done found left answered waiting unsent)
include h

theorem Live.transmit (hsending : call ∈ c.sending) (hnew : call ∉ c.wire) :
    Live stream { c with wire := c.wire ++ [call] } done found left answered waiting
      (unsent ++ [call]) :=
  { h with
    wire_eq := by simp [h.wire_eq]
    still := by
      intro x hx
      rcases mem_append.mp hx with hx | hx
      · exact h.still x hx
      · rw [mem_singleton.mp hx]
        exact hsending
    wire_nodup := by
      refine nodup_append.mpr ⟨h.wire_nodup, nodup_singleton call, ?_⟩
      rintro x hx y hy rfl
      exact hnew (mem_singleton.mp hy ▸ hx)
    wire_lt := by
      intro x hx
      rcases mem_append.mp hx with hx | hx
      · exact h.wire_lt x hx
      · rw [mem_singleton.mp hx]
        exact h.sending_lt call hsending }

theorem Live.sent_failed (hwire : call ∉ c.wire) :
    Live stream (c.sent call false) done found left answered waiting unsent := by
  have hmem : ∀ x, x ∈ (c.sent call false).sending ↔ x ∈ c.sending ∧ x ≠ call := by
    intro x
    simp [HttpConnection.sent]
  refine { h with sent := ?_, still := ?_, sending_lt := ?_ }
  · intro x hx hsending
    exact h.sent x hx ((hmem x).mp hsending).1
  · intro x hx
    refine (hmem x).mpr ⟨h.still x hx, ?_⟩
    rintro rfl
    rw [h.wire_eq] at hwire
    exact hwire (mem_append_right _ (mem_append_right _ hx))
  · intro x hx
    exact h.sending_lt x ((hmem x).mp hx).1

theorem Live.iterating : c.iterating = false := by
  rw [HttpConnection.iterating, h.handler]
  cases found with
  | nil => rfl
  | cons x found => rfl

end

theorem Live.sent_first (h : Live stream c done found left answered waiting (call :: unsent)) :
    Live stream (c.sent call true) done found left answered (waiting ++ [call]) unsent := by
  have hsent : c.sent call true =
      { c with
        sending := c.sending.filter fun x => decide (x ≠ call)
        events := c.events ++ [⟨call, false⟩] } := by
    have hloop := h.iterating
    simp only [HttpConnection.iterating] at hloop
    simp [HttpConnection.sent, HttpConnection.iterating, hloop]
  have hnodup := h.wire_nodup
  rw [h.wire_eq, ← append_assoc] at hnodup
  have hapart := (nodup_append.mp hnodup).2.2
  rw [hsent]
  refine { h with wire_eq := ?_, events := ?_, enough := ?_, sent := ?_, still := ?_,
                  sending_lt := ?_ }
  · simp [h.wire_eq]
  · simp [h.events]
  · rw [length_append]
    exact Nat.le_add_right_of_le h.enough
  · intro x hx hmem
    obtain ⟨hmem, hne⟩ := mem_filter.mp hmem
    rw [← append_assoc] at hx
    rcases mem_append.mp hx with hx | hx
    · exact h.sent x hx hmem
    · exact of_decide_eq_true hne (mem_singleton.mp hx)
  · intro x hx
    refine mem_filter.mpr ⟨h.still x (mem_cons_of_mem call hx), decide_eq_true ?_⟩
    rintro rfl
    have hrest := (nodup_append.mp hnodup).2.1
    exact (nodup_cons.mp hrest).1 hx
  · intro x hx
    exact h.sending_lt x (mem_of_mem_filter hx)

theorem Live.receive (hstream : ∀ x ∈ stream, IsResponse x)
    (h : Live stream c done [] left answered waiting unsent) {bytes : Bytes}
    (hcap : (c.buffer ++ bytes).length ≤ bufferCap)
    (hpart : c.received ++ bytes <+: streamBytes (stream.take c.sentCalls.length)) :
    ∃ found left', Live stream (c.receive bytes) done found left' answered waiting unsent := by
  have hstream_eq := h.stream_eq
  rw [nil_append] at hstream_eq
  have htake : stream.take c.sentCalls.length = done ++ left.take waiting.length := by
    rw [hstream_eq, h.sentCalls, length_append, h.answers, take_length_add_append]
  have hmsg : c.buffer ++ bytes <+: streamBytes (left.take waiting.length) := by
    rw [htake, h.received, append_nil, streamBytes_append, append_assoc] at hpart
    exact (prefix_append_right_inj _).mp hpart
  have htodo : ∀ x ∈ left.take waiting.length, IsResponse x := by
    intro x hx
    refine hstream x ?_
    rw [hstream_eq]
    exact mem_append_right _ (mem_of_mem_take hx)
  obtain ⟨whole, behind, rest, hsplit, hsplit_msg, hreceive, hbehind⟩ :=
    receive_stream htodo hcap hmsg
  have hleft : left = whole ++ (behind ++ left.drop waiting.length) := by
    rw [← append_assoc, ← hsplit, take_append_drop]
  have hreceived : c.receive bytes = { c with
      received := c.received ++ bytes
      buffer := rest
      handler := tasks ⟨whole.map Prod.snd, rest, none, false⟩
      userCode := false } := by
    rw [receive_eq h.running hcap, hreceive]
  refine ⟨whole, behind ++ left.drop waiting.length, ?_⟩
  rw [hreceived]
  refine { h with stream_eq := ?_, received := ?_, partly := ?_, handler := ?_, enough := ?_ }
  · rw [hstream_eq, ← hleft]
  · have hold := h.received
    rw [append_nil] at hold
    rw [hold, append_assoc, hsplit_msg, streamBytes_append, append_assoc]
  · intro x hx
    cases behind with
    | cons y behind => exact hbehind x hx
    | nil =>
      -- everything that was asked for is there, so nothing of the next response is
      have hnil : rest = [] := by
        rw [hsplit, append_nil, hsplit_msg] at hmsg
        have hlen := hmsg.length_le
        rw [length_append] at hlen
        exact eq_nil_of_length_eq_zero (by omega)
      have hx : IsResponse x := by
        refine hstream x ?_
        rw [hstream_eq]
        exact mem_append_right _ (mem_of_mem_drop (mem_of_mem_head? hx))
      have hne : x.1 ≠ [] := hx.ne_nil
      change rest.length < x.1.length
      rw [hnil]
      exact length_pos_of_ne_nil hne
  · simp [tasks, Function.comp_def]
  · have hlen := congrArg List.length hsplit
    rw [length_append, length_take] at hlen
    omega

theorem Live.proceed {x : Bytes × HttpResponse}
    (h : Live stream c done (x :: found) left answered waiting unsent) :
    ∃ call waiting', waiting = call :: waiting' ∧
      Live stream c.proceed (done ++ [x]) found left (answered ++ [call]) waiting' unsent := by
  cases waiting with
  | nil =>
    have henough := h.enough
    cases henough
  | cons call waiting =>
    refine ⟨call, waiting, rfl, ?_⟩
    have hproceed : c.proceed = { c with
        completed := c.completed ++ [(call, .ok x.2)]
        userCode := true
        events := waiting.map fun call => ⟨call, false⟩
        handler := found.map fun x => .deliver x.2 } := by
      simp [HttpConnection.proceed, h.handler, h.events, setEvent]
    rw [hproceed]
    refine { h with stream_eq := ?_, wire_eq := ?_, received := ?_, handler := rfl, events := rfl,
                    completed := ?_, answers := ?_, enough := ?_, sent := ?_ }
    · simp [h.stream_eq]
    · simp [h.wire_eq]
    · simp [h.received]
    · have hsnoc : (answered ++ [call]).zip (done ++ [x]) = answered.zip done ++ [(call, x)] :=
        zip_append h.answers
      simp [h.completed, hsnoc]
    · simp [h.answers]
    · exact Nat.le_of_succ_le_succ h.enough
    · intro y hy
      refine h.sent y ?_
      simpa using hy

theorem Live.removeConnection (h : Live stream c done [] left answered waiting unsent) :
    Over stream c.removeConnection := by
  refine h.delivered_over (.inl rfl) h.handler ?_ rfl
  have hfails : (c.events.filter (fun e => !e.isSet)).map
      (fun e => (e.call, (.error .quitting : Except HttpParseError HttpResponse))) =
      waiting.map fun call => (call, .error .quitting) := by
    rw [h.events]
    simp [filter_map, Function.comp_def]
  simp only [HttpConnection.deliveries, HttpConnection.removeConnection, hfails]
  rw [filterMap_append, filterMap_map]
  simp [Function.comp_def, Except.toOption]

theorem Live.stop (h : Live stream c done [] left answered waiting unsent) :
    Paired stream c.stop := by
  rw [HttpConnection.stop]
  split
  · exact .inr (h.delivered_over (.inr rfl) h.handler rfl rfl)
  · exact .inl ⟨_, _, _, _, _, _, h⟩

/-! ## Whole runs -/

theorem Live.act (hstream : ∀ x ∈ stream, IsResponse x)
    (h : Live stream c done found left answered waiting unsent) {a : ConnectionAction}
    (hguard : InStep stream c a) (hact : act a c = some c') : Paired stream c' := by
  have heffect := act_effect hact
  cases a with
  | send =>
    obtain ⟨-, -, rfl⟩ := heffect
    exact .inl ⟨_, _, _, _, _, _, h.send⟩
  | transmit call =>
    obtain ⟨-, hsending, hnew, rfl⟩ := heffect
    exact .inl ⟨_, _, _, _, _, _, h.transmit hsending hnew⟩
  | sent call success =>
    obtain ⟨-, -, hwire, rfl⟩ := heffect
    cases success with
    | false =>
      have hwire : call ∉ c.wire := fun hmem => Bool.false_ne_true (hwire.mpr hmem)
      exact .inl ⟨_, _, _, _, _, _, h.sent_failed hwire⟩
    | true =>
      -- the guard says that this is the first send that is not over
      simp only [InStep] at hguard
      rw [h.unsentCalls] at hguard
      cases unsent with
      | nil => cases hguard
      | cons first unsent =>
        cases hguard
        exact .inl ⟨_, _, _, _, _, _, h.sent_first⟩
  | receive bytes =>
    obtain ⟨hidle, -, rfl⟩ := heffect
    rw [h.handler, map_eq_nil_iff] at hidle
    subst hidle
    obtain ⟨found, left', hlive⟩ := h.receive hstream hguard.2 hguard.1
    exact .inl ⟨_, _, _, _, _, _, hlive⟩
  | proceed =>
    obtain ⟨-, hbusy, rfl⟩ := heffect
    cases found with
    | nil => exact absurd h.handler hbusy
    | cons x found =>
      obtain ⟨call, waiting', rfl, hlive⟩ := h.proceed
      exact .inl ⟨_, _, _, _, _, _, hlive⟩
  | removeConnection =>
    obtain ⟨-, hidle, -, rfl⟩ := heffect
    rw [h.handler, map_eq_nil_iff] at hidle
    subst hidle
    exact .inr h.removeConnection
  | stop =>
    obtain ⟨-, hidle, rfl⟩ := heffect
    rw [h.handler, map_eq_nil_iff] at hidle
    subst hidle
    exact h.stop

theorem Over.act (h : Over stream c) {a : ConnectionAction} (hact : act a c = some c') :
    Over stream c' := by
  have heffect := act_effect hact
  cases a with
  | send =>
    obtain ⟨-, -, rfl⟩ := heffect
    exact { h with }
  | transmit call =>
    obtain ⟨-, -, hnew, rfl⟩ := heffect
    obtain ⟨m, hm, hdelivered⟩ := h.delivered
    refine { h with delivered := ⟨m, ?_, ?_⟩, wire_nodup := ?_ }
    · rw [length_append]
      exact Nat.le_add_right_of_le hm
    · have hzip : ((c.wire ++ [call]).zip stream).take m = (c.wire.zip stream).take m := by
        simp only [List.zip, take_zipWith, take_append_of_le_length hm]
      rw [hzip]
      exact hdelivered
    · refine nodup_append.mpr ⟨h.wire_nodup, nodup_singleton call, ?_⟩
      rintro x hx y hy rfl
      exact hnew (mem_singleton.mp hy ▸ hx)
  | sent call success =>
    obtain ⟨-, -, -, rfl⟩ := heffect
    have hidle := h.handler
    cases success with
    | false => exact { h with }
    | true =>
      have hloop : c.iterating = false := by rw [iterating, hidle]
      rw [sent_true hloop]
      exact { h with }
  | receive bytes =>
    obtain ⟨-, hconnected, rfl⟩ := heffect
    have hdead : c.terminated = true := by
      rcases h.ended with hgone | hdead
      · rw [hconnected] at hgone
        cases hgone
      · exact hdead
    have hreceive : c.receive bytes = { c with received := c.received ++ bytes } := by
      simp [HttpConnection.receive, hdead]
    rw [hreceive]
    exact { h with }
  | proceed => exact absurd h.handler heffect.2.1
  | removeConnection =>
    obtain ⟨hrunning, -, hconnected, -⟩ := heffect
    rcases h.ended with hgone | hdead
    · rw [hconnected] at hgone
      cases hgone
    · rw [hrunning] at hdead
      cases hdead
  | stop =>
    obtain ⟨-, -, rfl⟩ := heffect
    rw [HttpConnection.stop]
    split
    · exact { h with ended := .inr rfl }
    · exact h

theorem paired_run (hstream : ∀ x ∈ stream, IsResponse x)
    (hrun : RunWhere (InStep stream) initial c) : Paired stream c := by
  have hstart : Live stream initial [] [] stream [] [] [] :=
    { stream_eq := rfl, wire_eq := rfl, running := rfl, received := rfl
      partly := fun x hx =>
        length_pos_of_ne_nil (hstream x (mem_of_mem_head? hx)).ne_nil
      handler := rfl, events := rfl, completed := rfl, answers := rfl, enough := Nat.le_refl _
      sent := fun call hcall => by cases hcall
      still := fun call hcall => by cases hcall
      wire_nodup := nodup_nil
      wire_lt := fun call hcall => by cases hcall
      sending_lt := fun call hcall => by cases hcall }
  refine GuardedRuns.Run.invariant hrun (Paired stream) (.inl ⟨_, _, _, _, _, _, hstart⟩) ?_
  intro x a y hx hguard hact
  rcases hx with ⟨_, _, _, _, _, _, hlive⟩ | hover
  · exact hlive.act hstream hguard hact
  · exact .inr (hover.act hact)

/-- A stream of responses comes in. As long as the sends end in the order of the wire and every
response comes in after the end of its own send, the responses complete the calls in the order
in which they went out on the wire, one each; and when the handler is idle, every response that
has come in whole has been given to its call. -/
theorem responses_paired (hstream : ∀ x ∈ stream, IsResponse x)
    (hrun : RunWhere (InStep stream) initial c) :
    c.wire.Nodup ∧ ∃ m, c.deliveries = (c.wire.zip (stream.map Prod.snd)).take m ∧
      (c.connected = true → c.terminated = false → c.handler = [] →
        c.deliveries.length = m ∧ c.received = streamBytes (stream.take m) ++ c.buffer ∧
        ∀ x, stream[m]? = some x → c.buffer.length < x.1.length) := by
  have hmap : ∀ m, ((c.wire.zip stream).take m).map (fun x => (x.1, x.2.2)) =
      (c.wire.zip (stream.map Prod.snd)).take m := by
    intro m
    rw [map_take, zip_map_right]
    rfl
  rcases paired_run hstream hrun with ⟨done, found, left, answered, waiting, unsent, h⟩ | h
  · refine ⟨h.wire_nodup, done.length, ?_, fun _ _ hidle => ⟨?_, ?_, ?_⟩⟩
    · rw [h.delivered, hmap]
    · rw [h.delivered, h.wire_eq, h.stream_eq, zip_append h.answers]
      simp [h.answers]
    · rw [h.handler, map_eq_nil_iff] at hidle
      subst hidle
      have hreceived := h.received
      rw [append_nil] at hreceived
      rw [hreceived, h.stream_eq, take_left]
    · intro x hx
      rw [h.handler, map_eq_nil_iff] at hidle
      subst hidle
      rw [h.stream_eq, nil_append, getElem?_append_right (Nat.le_refl _), Nat.sub_self] at hx
      exact h.partly x (by rw [head?_eq_getElem?]; exact hx)
  · obtain ⟨m, -, hdelivered⟩ := h.delivered
    refine ⟨h.wire_nodup, m, ?_, fun hconnected hrunning => ?_⟩
    · rw [hdelivered, hmap]
    · rcases h.ended with hgone | hdead
      · rw [hconnected] at hgone
        cases hgone
      · rw [hrunning] at hdead
        cases hdead

end

/-- Two calls whose responses come in in three pieces. -/
theorem responses_paired_two : ∃ c : HttpConnection, ∃ stream : List (Bytes × HttpResponse),
      (∀ x ∈ stream, IsResponse x) ∧ RunWhere (InStep stream) initial c ∧
      stream.length = 2 ∧ c.wire = [1, 0] ∧
      c.deliveries.map (fun x => (x.1, x.2.status)) = [(1, 200), (0, 404)] ∧ c.wire.Nodup := by
  obtain ⟨first, hfirst⟩ : ∃ resp, search 19 (ascii "HTTP/1.1 200 OK\r\n\r\n") 0 = .found resp 19 :=
    ⟨_, rfl⟩
  obtain ⟨second, hsecond⟩ :
      ∃ resp, search 26 (ascii "HTTP/1.1 404 Not Found\r\n\r\n") 0 = .found resp 26 := ⟨_, rfl⟩
  have hstream : ∀ x ∈ [(ascii "HTTP/1.1 200 OK\r\n\r\n", first),
      (ascii "HTTP/1.1 404 Not Found\r\n\r\n", second)], IsResponse x := by
    intro x hx
    rcases mem_pair.mp hx with rfl | rfl
    · exact hfirst
    · exact hsecond
  have hrun : RunWhere (InStep [(ascii "HTTP/1.1 200 OK\r\n\r\n", first),
      (ascii "HTTP/1.1 404 Not Found\r\n\r\n", second)]) initial _ :=
    .tail (.tail (.tail (.tail (.tail (.tail (.tail (.tail (.tail (.tail .refl
      ⟨.send, trivial, rfl⟩)
      ⟨.send, trivial, rfl⟩)
      ⟨.transmit 1, trivial, rfl⟩)
      ⟨.transmit 0, trivial, rfl⟩)
      ⟨.sent 1 true, rfl, rfl⟩)
      ⟨.receive (ascii "HTTP/1.1 2"), ⟨⟨ascii "00 OK\r\n\r\n", rfl⟩, by decide⟩, rfl⟩)
      ⟨.sent 0 true, rfl, rfl⟩)
      ⟨.receive (ascii "00 OK\r\n\r\nHTTP/1.1 404 Not Found\r\n\r\n"), ⟨⟨[], rfl⟩, by decide⟩, rfl⟩)
      ⟨.proceed, trivial, rfl⟩)
      ⟨.proceed, trivial, rfl⟩
  have hpaired := responses_paired hstream hrun
  exact ⟨_, _, hstream, hrun, rfl, rfl, rfl, hpaired.1⟩

/-- The response comes in before the send has given control back, and is dropped: the call waits
although everything that it asked for has come in. -/
theorem response_dropped : ∃ c : HttpConnection, RunWhere (fun _ _ => True) initial c ∧
      c.wire = [0] ∧ c.received = ascii "HTTP/1.1 200 OK\r\n\r\n" ∧
      (∃ resp, IsResponse (ascii "HTTP/1.1 200 OK\r\n\r\n", resp)) ∧
      c.handler = [] ∧ c.buffer = [] ∧ c.events = [⟨0, false⟩] ∧ c.deliveries = [] := by
  have hrun : RunWhere (fun _ _ => True) initial _ :=
    GuardedRuns.run_exec [.send, .transmit 0, .receive (ascii "HTTP/1.1 200 OK\r\n\r\n"), .proceed,
      .sent 0 true] rfl
  have hresp : ∃ resp, search 19 (ascii "HTTP/1.1 200 OK\r\n\r\n") 0 = .found resp 19 := ⟨_, rfl⟩
  exact ⟨_, hrun, rfl, rfl, hresp, rfl, rfl, rfl, rfl⟩

theorem responses_swapped : ∃ c : HttpConnection, RunWhere (fun _ _ => True) initial c ∧
      c.wire = [0, 1] ∧
      c.received = ascii "HTTP/1.1 200 OK\r\n\r\nHTTP/1.1 404 Not Found\r\n\r\n" ∧
      c.deliveries.map (fun x => (x.1, x.2.status)) = [(1, 200), (0, 404)] := by
  have hrun : RunWhere (fun _ _ => True) initial _ :=
    GuardedRuns.run_exec [.send, .send, .transmit 0, .transmit 1, .sent 1 true, .sent 0 true,
      .receive (ascii "HTTP/1.1 200 OK\r\n\r\nHTTP/1.1 404 Not Found\r\n\r\n"), .proceed,
      .proceed] rfl
  exact ⟨_, hrun, rfl, rfl, rfl⟩

end HttpConnection

end Ichor
