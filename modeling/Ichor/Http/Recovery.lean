import Ichor.Http.Client
import Ichor.Http.Streams

/-! What becomes of the calls that wait when something goes wrong: a malformed response, an
overflow of the buffer, or the loss of the connection. -/
namespace Ichor
open List

namespace HttpConnection

/-- The handler is in one of the loops that fail the calls that wait. -/
def failing (c : HttpConnection) : Bool :=
  match c.handler with
  | .failAll _ :: _ => true
  | .overflow _ :: _ => true
  | _ => false

/-- Nothing comes in behind a malformed response, the buffer overflows only when no call waits,
and a send ends with success only on a live connection and outside the loops that fail the
calls. -/
def NothingDropped (c : HttpConnection) : ConnectionAction → Prop
  | .receive bytes => (receiveResponses c.buffer).error = none ∧
      (bufferCap < (c.buffer ++ bytes).length → c.events = [])
  | .sent _ true => c.connected = true ∧ c.failing = false
  | _ => True

/-- The calls: each is still sending, waits or is completed, and only one of these. -/
structure CallsOnce (c : HttpConnection) : Prop where
  once : (c.completed.map Prod.fst ++ (c.events.map ResponseEvent.call ++ c.sending)).Nodup
  below : ∀ call ∈ c.completed.map Prod.fst ++ (c.events.map ResponseEvent.call ++ c.sending),
    call < c.calls
  unset : ∀ e ∈ c.events, e.isSet = false
  awaited : ∀ call ∈ c.wire,
    call ∈ c.completed.map Prod.fst ++ (c.events.map ResponseEvent.call ++ c.sending)
  overflow : ∀ index, .overflow index ∈ c.handler →
    c.handler = [.overflow index] ∧ c.events = [] ∧ c.buffer = []
  settled : ∃ error, receiveResponses c.buffer = ⟨[], c.buffer, error, false⟩

variable {bytes : Bytes}

section
variable {c c' : HttpConnection}

/-! ## The steps -/

theorem CallsOnce.send (h : CallsOnce c) :
    CallsOnce { c with calls := c.calls + 1, sending := c.sending ++ [c.calls] } := by
  have hassoc : c.completed.map Prod.fst ++
      (c.events.map ResponseEvent.call ++ (c.sending ++ [c.calls])) =
      c.completed.map Prod.fst ++ (c.events.map ResponseEvent.call ++ c.sending) ++ [c.calls] := by
    simp
  refine { h with once := ?_, below := ?_, awaited := ?_ }
  · rw [hassoc]
    refine nodup_append.mpr ⟨h.once, nodup_singleton _, ?_⟩
    rintro x hx y hy rfl
    rw [mem_singleton.mp hy] at hx
    exact Nat.lt_irrefl _ (h.below _ hx)
  · intro call hcall
    rw [hassoc] at hcall
    rcases mem_append.mp hcall with hcall | hcall
    · exact Nat.lt_succ_of_lt (h.below call hcall)
    · rw [mem_singleton.mp hcall]
      exact Nat.lt_succ_self _
  · intro call hcall
    rw [hassoc]
    exact mem_append_left _ (h.awaited call hcall)

variable {call : SendCall}

theorem CallsOnce.transmit (h : CallsOnce c) (hsending : call ∈ c.sending) :
    CallsOnce { c with wire := c.wire ++ [call] } := by
  refine { h with awaited := ?_ }
  intro x hx
  rcases mem_append.mp hx with hx | hx
  · exact h.awaited x hx
  · rw [mem_singleton.mp hx]
    exact mem_append_right _ (mem_append_right _ hsending)

theorem CallsOnce.sent_failed (h : CallsOnce c) (hwire : call ∉ c.wire) :
    CallsOnce (c.sent call false) := by
  have hsub : (c.completed.map Prod.fst ++ (c.events.map ResponseEvent.call ++
      c.sending.filter fun x => decide (x ≠ call))).Sublist
      (c.completed.map Prod.fst ++ (c.events.map ResponseEvent.call ++ c.sending)) :=
    List.Sublist.append_left (List.Sublist.append_left filter_sublist _) _
  refine { h with once := h.once.sublist hsub, below := ?_, awaited := ?_ }
  · intro x hx
    exact h.below x (hsub.subset hx)
  · intro x hx
    have hne : x ≠ call := by
      rintro rfl
      exact hwire hx
    have hold := h.awaited x hx
    simp only [mem_append] at hold ⊢
    rcases hold with hold | hold | hold
    · exact .inl hold
    · exact .inr (.inl hold)
    · exact .inr (.inr (mem_filter.mpr ⟨hold, decide_eq_true hne⟩))

theorem CallsOnce.sent (h : CallsOnce c) (hsending : call ∈ c.sending)
    (hcalm : c.failing = false) : CallsOnce (c.sent call true) := by
  have hloop : c.iterating = false := by
    rw [iterating]
    split
    · next hhandler => simp [failing, hhandler] at hcalm
    · rfl
  have hperm : (c.completed.map Prod.fst ++
      ((c.events ++ [(⟨call, false⟩ : ResponseEvent)]).map ResponseEvent.call ++
      c.sending.filter fun x => decide (x ≠ call))).Perm
      (c.completed.map Prod.fst ++ (c.events.map ResponseEvent.call ++ c.sending)) := by
    have hnodup : c.sending.Nodup := (nodup_append.mp (nodup_append.mp h.once).2.1).2.1
    have herase : c.sending.filter (fun x => decide (x ≠ call)) = c.sending.erase call := by
      rw [hnodup.erase_eq_filter]
      exact filter_congr fun x _ => by simp [bne, Bool.beq_eq_decide_eq]
    rw [herase, map_append, append_assoc]
    exact ((perm_cons_erase hsending).symm.append_left _).append_left _
  rw [sent_true hloop]
  refine { h with once := hperm.nodup_iff.mpr h.once, below := ?_, unset := ?_, awaited := ?_,
                  overflow := ?_ }
  · intro x hx
    exact h.below x (hperm.subset hx)
  · intro e he
    rcases mem_append.mp he with he | he
    · exact h.unset e he
    · rw [mem_singleton.mp he]
  · intro x hx
    exact hperm.symm.subset (h.awaited x hx)
  · intro index hmem
    have hhandler := (h.overflow index hmem).1
    simp [failing, hhandler] at hcalm

theorem overflow_notMem_tasks (r : Reception) (index : ℕ) : .overflow index ∉ tasks r := by
  unfold tasks
  cases r.error with
  | none | some error => cases r.crashed <;> simp

theorem CallsOnce.receive (h : CallsOnce c)
    (hover : bufferCap < (c.buffer ++ bytes).length → c.events = []) :
    CallsOnce (c.receive bytes) := by
  simp only [HttpConnection.receive]
  split
  · exact { h with }
  · split
    · next hlong =>
      refine { h with overflow := ?_, settled := ⟨none, rfl⟩ }
      intro index hmem
      cases mem_singleton.mp hmem
      exact ⟨rfl, hover hlong, rfl⟩
    · next hsmall =>
      exact { h with
        overflow := fun index hmem => absurd hmem (overflow_notMem_tasks _ index)
        settled := receiveResponses_left (Nat.not_lt.mp hsmall) }

theorem CallsOnce.complete (h : CallsOnce c) {e : ResponseEvent} {events : List ResponseEvent}
    (hevents : c.events = e :: events) (result : Except HttpParseError HttpResponse)
    (hcompleted : c'.completed = c.completed ++ [(e.call, result)]) (hrest : c'.events = events)
    (hsending : c'.sending = c.sending) (hcalls : c'.calls = c.calls) (hwire : c'.wire = c.wire)
    (hbuffer : c'.buffer = c.buffer) (hover : ∀ index, .overflow index ∉ c'.handler) : CallsOnce c' := by
  have hsame : c'.completed.map Prod.fst ++ (c'.events.map ResponseEvent.call ++ c'.sending) =
      c.completed.map Prod.fst ++ (c.events.map ResponseEvent.call ++ c.sending) := by
    rw [hcompleted, hrest, hsending, hevents]
    simp
  refine ⟨hsame ▸ h.once, ?_, ?_, ?_, fun index hmem => absurd hmem (hover index),
    hbuffer ▸ h.settled⟩
  · intro call hcall
    rw [hsame] at hcall
    rw [hcalls]
    exact h.below call hcall
  · intro x hx
    rw [hrest] at hx
    refine h.unset x ?_
    rw [hevents]
    exact mem_cons_of_mem e hx
  · intro call hcall
    rw [hwire] at hcall
    rw [hsame]
    exact h.awaited call hcall

variable {error : HttpParseError}

section
variable {task : HandlerTask} {rest : List HandlerTask} {e : ResponseEvent}
  {events : List ResponseEvent}

theorem proceed_idle (hhandler : c.handler = task :: rest) (hcrash : task ≠ .crash)
    (hevents : c.events = []) : c.proceed = { c with handler := rest, userCode := false } := by
  cases task with
  | crash => exact absurd rfl hcrash
  | _ => simp [HttpConnection.proceed, hhandler, hevents]

theorem proceed_fail (hhandler : c.handler = .failAll error :: rest)
    (hevents : c.events = e :: events) (hunset : e.isSet = false) :
    c.proceed = { c with
      completed := c.completed ++ [(e.call, .error error)], userCode := true, events := events } := by
  simp [HttpConnection.proceed, hhandler, hevents, setEvent, hunset]

end

theorem CallsOnce.proceed (h : CallsOnce c) : CallsOnce c.proceed := by
  cases hhandler : c.handler with
  | nil =>
    have hproceed : c.proceed = c := by rw [HttpConnection.proceed, hhandler]
    rw [hproceed]
    exact h
  | cons task rest =>
    have hrest : ∀ index, .overflow index ∉ rest := by
      intro index hmem
      have hall := (h.overflow index (hhandler ▸ mem_cons_of_mem _ hmem)).1
      rw [hhandler] at hall
      rw [(List.cons.inj hall).2] at hmem
      cases hmem
    by_cases hcrash : task = .crash
    · have hproceed : c.proceed = { c with handler := [], terminated := true } := by
        simp [HttpConnection.proceed, hhandler, hcrash]
      rw [hproceed]
      exact { h with overflow := fun index hmem => by cases hmem }
    · cases hevents : c.events with
      | nil =>
        rw [proceed_idle hhandler hcrash hevents]
        exact { h with overflow := fun index hmem => absurd hmem (hrest index) }
      | cons e events =>
        have hunset := h.unset e (hevents ▸ mem_cons_self)
        cases task with
        | deliver resp =>
          have hproceed : c.proceed = { c with
              completed := c.completed ++ [(e.call, .ok resp)]
              userCode := true, events := events, handler := rest } := by
            simp [HttpConnection.proceed, hhandler, hevents, setEvent, hunset]
          rw [hproceed]
          exact h.complete hevents (.ok resp) rfl rfl rfl rfl rfl rfl hrest
        | failAll error =>
          rw [proceed_fail hhandler hevents hunset]
          refine h.complete hevents (.error error) rfl rfl rfl rfl rfl rfl fun index => ?_
          simp [hhandler, hrest]
        | overflow index =>
          have hnil := (h.overflow index (hhandler ▸ mem_cons_self)).2.1
          rw [hevents] at hnil
          cases hnil
        | crash => exact absurd rfl hcrash

theorem CallsOnce.completed_removeConnection (h : CallsOnce c) : c.removeConnection.completed =
      c.completed ++ c.events.map fun e => (e.call, .error .quitting) := by
  have hall : c.events.filter (fun e => !e.isSet) = c.events :=
    filter_eq_self.mpr fun e he => by simp [h.unset e he]
  simp only [HttpConnection.removeConnection, hall]

theorem CallsOnce.removeConnection (h : CallsOnce c) (hidle : c.handler = []) :
    CallsOnce c.removeConnection := by
  have hsame : c.removeConnection.completed.map Prod.fst ++
      (c.removeConnection.events.map ResponseEvent.call ++ c.removeConnection.sending) =
      c.completed.map Prod.fst ++ (c.events.map ResponseEvent.call ++ c.sending) := by
    rw [h.completed_removeConnection]
    simp [HttpConnection.removeConnection, Function.comp_def]
  refine ⟨hsame ▸ h.once, ?_, ?_, ?_, ?_, h.settled⟩
  · intro call hcall
    rw [hsame] at hcall
    exact h.below call hcall
  · intro e he
    cases he
  · intro call hcall
    rw [hsame]
    exact h.awaited call hcall
  · intro index hmem
    have hhandler : c.removeConnection.handler = [] := hidle
    rw [hhandler] at hmem
    cases hmem

theorem CallsOnce.stop (h : CallsOnce c) : CallsOnce c.stop := by
  rw [HttpConnection.stop]
  split
  · exact { h with }
  · exact h

variable {a : ConnectionAction}

theorem CallsOnce.act (h : CallsOnce c) (hguard : NothingDropped c a)
    (hact : act a c = some c') : CallsOnce c' := by
  have heffect := act_effect hact
  cases a with
  | send =>
    obtain ⟨-, -, rfl⟩ := heffect
    exact h.send
  | transmit call =>
    obtain ⟨-, hsending, -, rfl⟩ := heffect
    exact h.transmit hsending
  | sent call success =>
    obtain ⟨-, hsending, hwire, rfl⟩ := heffect
    cases success with
    | false => exact h.sent_failed fun hmem => Bool.false_ne_true (hwire.mpr hmem)
    | true => exact h.sent hsending hguard.2
  | receive bytes =>
    obtain ⟨-, -, rfl⟩ := heffect
    exact h.receive hguard.2
  | proceed =>
    obtain ⟨-, -, rfl⟩ := heffect
    exact h.proceed
  | removeConnection =>
    obtain ⟨-, hidle, -, rfl⟩ := heffect
    exact h.removeConnection hidle
  | stop =>
    obtain ⟨-, -, rfl⟩ := heffect
    exact h.stop

theorem callsOnce_run (hrun : RunWhere NothingDropped initial c) : CallsOnce c := by
  refine GuardedRuns.Run.invariant hrun CallsOnce ?_ fun x a y hx hguard hact => hx.act hguard hact
  exact
    { once := nodup_nil
      below := fun call hcall => by cases hcall
      unset := fun e he => by cases he
      awaited := fun call hcall => by cases hcall
      overflow := fun index hmem => by cases hmem
      settled := ⟨none, rfl⟩ }

/-! ## The turns of the handler -/

theorem proceed_failAll {rest : List HandlerTask}
    (hhandler : c.handler = .failAll error :: rest) (hunset : ∀ e ∈ c.events, e.isSet = false) :
    (proceed^[c.events.length + 1] c).events = [] ∧
      (proceed^[c.events.length + 1] c).handler = rest ∧
      (proceed^[c.events.length + 1] c).completed =
        c.completed ++ c.events.map fun e => (e.call, .error error) := by
  generalize hevents : c.events = events at hunset ⊢
  induction events generalizing c with
  | nil =>
    simp [proceed_idle hhandler (by simp) hevents, hevents]
  | cons e events ih =>
    have hproceed := proceed_fail hhandler hevents (hunset e mem_cons_self)
    obtain ⟨hnil, hrest, hcompleted⟩ := @ih c.proceed (by rw [hproceed]; exact hhandler)
      (by rw [hproceed]) (fun x hx => hunset x (mem_cons_of_mem e hx))
    rw [length_cons, Function.iterate_succ_apply]
    refine ⟨hnil, hrest, ?_⟩
    rw [hcompleted, hproceed]
    simp

theorem proceed_receive (hrunning : c.terminated = false)
    {rest : Bytes} {x : Bytes × HttpResponse} (hx : IsResponse x)
    (hbytes : c.buffer ++ bytes = x.1 ++ rest) (hcap : (c.buffer ++ bytes).length ≤ bufferCap)
    {e : ResponseEvent} {events : List ResponseEvent} (hevents : c.events = e :: events)
    (hunset : e.isSet = false) :
    (c.receive bytes).proceed.completed = c.completed ++ [(e.call, .ok x.2)] ∧
      (c.receive bytes).proceed.events = events := by
  have hfound : search (x.1 ++ rest).length (x.1 ++ rest) 0 = .found x.2 x.1.length :=
    search_append (by simp) (hbytes ▸ hcap) hx (by simp) (by simp)
  have hreceive := receiveResponses_found (hbytes ▸ hcap) hfound
  rw [receive_eq hrunning hcap, hbytes, hreceive]
  simp [HttpConnection.proceed, tasks, hevents, setEvent, hunset]

theorem events_failing (h : CallsOnce c) (hguard : NothingDropped c a)
    (hact : act a c = some c') (hfailing : c.failing = true) : c'.events <:+ c.events := by
  have hbusy : c.handler ≠ [] := by
    intro hidle
    simp [failing, hidle] at hfailing
  have heffect := act_effect hact
  cases a with
  | send =>
    obtain ⟨-, -, rfl⟩ := heffect
    exact suffix_rfl
  | transmit call =>
    obtain ⟨-, -, -, rfl⟩ := heffect
    exact suffix_rfl
  | sent call success =>
    obtain ⟨-, -, -, rfl⟩ := heffect
    cases success with
    | false => exact suffix_rfl
    | true =>
      have hcalm := hguard.2
      rw [hfailing] at hcalm
      cases hcalm
  | receive bytes => exact absurd heffect.1 hbusy
  | proceed =>
    obtain ⟨-, -, rfl⟩ := heffect
    cases hhandler : c.handler with
    | nil => exact absurd hhandler hbusy
    | cons task rest =>
      cases task with
      | deliver resp | crash => simp [failing, hhandler] at hfailing
      | failAll error =>
        cases hevents : c.events with
        | nil | cons e events => simp [HttpConnection.proceed, hhandler, hevents]
      | overflow index =>
        have hevents := (h.overflow index (hhandler ▸ mem_cons_self)).2.1
        simp [HttpConnection.proceed, hhandler, hevents]
  | removeConnection | stop => exact absurd heffect.2.1 hbusy

end

/-! ## Recovery -/

/-- What a connection promises to its calls, whatever goes wrong. -/
structure Recovers (c : HttpConnection) : Prop where
  /-- No call is completed twice, and a call that is completed does not wait. -/
  once : (c.completed.map Prod.fst ++ c.events.map ResponseEvent.call).Nodup
  /-- A call on the wire whose send is over waits or is completed. -/
  awaited : ∀ call ∈ c.wire, call ∉ c.sending →
    call ∈ c.completed.map Prod.fst ∨ call ∈ c.events.map ResponseEvent.call
  /-- A malformed response fails the calls that wait, and then none waits. -/
  malformed : ∀ error rest, c.handler = .failAll error :: rest →
    (proceed^[c.events.length + 1] c).events = [] ∧
    (proceed^[c.events.length + 1] c).handler = rest ∧
    (proceed^[c.events.length + 1] c).completed =
      c.completed ++ c.events.map fun e => (e.call, .error error)
  /-- No call joins them meanwhile. -/
  failing : ∀ a c', NothingDropped c a → act a c = some c' → c.failing = true → c'.events <:+ c.events
  /-- After an overflow no call waits, and the buffer is empty. -/
  overflow : ∀ index, .overflow index ∈ c.handler → c.events = [] ∧ c.buffer = []
  /-- The loss of the connection completes the calls that wait, and then none waits. -/
  quitting : c.removeConnection.events = [] ∧ c.removeConnection.completed =
    c.completed ++ c.events.map fun e => (e.call, .error .quitting)
  /-- When bytes come in, nothing of an error is left in front of them. -/
  clean : ∀ bytes, NothingDropped c (.receive bytes) →
    receiveResponses c.buffer = ⟨[], c.buffer, none, false⟩
  /-- A well-formed response that comes in next completes the first call that waits. -/
  delivered : c.handler = [] → c.terminated = false → ∀ x, IsResponse x → ∀ bytes rest,
    c.buffer ++ bytes = x.1 ++ rest → (c.buffer ++ bytes).length ≤ bufferCap →
    ∀ e events, c.events = e :: events →
      (c.receive bytes).proceed.completed = c.completed ++ [(e.call, .ok x.2)] ∧
      (c.receive bytes).proceed.events = events
  /-- `stop` terminates only for a call that is not completed. -/
  stop : c.terminated = false → c.stop.terminated = true →
    ∃ e ∈ c.events, e.call ∉ c.completed.map Prod.fst

theorem overflow_kept (hlong : bufferCap < bytes.length) :
    ∃ c : HttpConnection, RunWhere (fun _ _ => True) initial c ∧ c.received = bytes ∧
      c.completed = [(0, .error .bufferOverflow)] ∧ c.terminated = false ∧
      c.stop.terminated = true := by
  have hlong' : bufferCap < ([] ++ bytes).length := hlong
  have hwait : RunWhere (fun _ _ => True) initial _ :=
    GuardedRuns.run_exec [.send, .transmit 0, .sent 0 true] rfl
  have hover := hwait.tail ⟨.receive bytes, trivial, by
    simp only [act, HttpConnection.receive]
    exact congrArg some (if_pos hlong')⟩
  have hdone := (hover.tail ⟨.proceed, trivial, rfl⟩).tail ⟨.proceed, trivial, rfl⟩
  exact ⟨_, hdone, rfl, rfl, rfl, rfl⟩

end HttpConnection

end Ichor
