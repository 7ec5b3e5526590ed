import Ichor.Desk.UserMoves

/-! The manager only ever appends: to the queue, apart from the event it takes
out, and to the record of calls; the counters for ids never go back. -/
namespace Ichor.DependencyManager

variable {s s' t : DependencyManager}

structure Grows (s s' : DependencyManager) : Prop where
  queue : ∃ events, s'.queue = s.queue ++ events ∧
    ∀ e ∈ events, s.nextEventId ≤ e.id ∧ e.id < s'.nextEventId
  eventId : s.nextEventId ≤ s'.nextEventId
  trace : ∃ calls, s'.trace = calls ++ s.trace

namespace Grows

theorem of_eq (hq : s'.queue = s.queue) (he : s'.nextEventId = s.nextEventId)
    (ht : s'.trace = s.trace) : Grows s s' :=
  ⟨⟨[], by rw [hq, List.append_nil], by simp⟩, Nat.le_of_eq he.symm, [], ht⟩

theorem refl (s : DependencyManager) : Grows s s :=
  .of_eq rfl rfl rfl

theorem trans (h : Grows s t) (h' : Grows t s') : Grows s s' := by
  obtain ⟨events, hq, hids⟩ := h.queue
  obtain ⟨events', hq', hids'⟩ := h'.queue
  obtain ⟨calls, htr⟩ := h.trace
  obtain ⟨calls', htr'⟩ := h'.trace
  refine ⟨⟨events ++ events', by rw [hq', hq, List.append_assoc], ?_⟩,
    Nat.le_trans h.eventId h'.eventId, calls' ++ calls, by rw [htr', htr, List.append_assoc]⟩
  intro e he
  rcases List.mem_append.mp he with he | he
  · exact ⟨(hids e he).1, Nat.lt_of_lt_of_le (hids e he).2 h'.eventId⟩
  · exact ⟨Nat.le_trans h.eventId (hids' e he).1, (hids' e he).2⟩

theorem mem (h : Grows s s') {e : Event} (he : e ∈ s.queue) : e ∈ s'.queue := by
  obtain ⟨events, hq, _⟩ := h.queue
  rw [hq]
  exact List.mem_append_left events he

end Grows

theorem Grows.of_push {o : ServiceId} {priority : ℕ} {body : EventBody}
    (hq : s'.queue = s.queue ++ [⟨s.nextEventId, o, priority, body⟩])
    (he : s'.nextEventId = s.nextEventId + 1)
    (ht : ∃ calls, s'.trace = calls ++ s.trace) : Grows s s' where
  queue := by
    refine ⟨_, hq, fun e hmem => ?_⟩
    rw [List.mem_singleton] at hmem
    subst hmem
    rw [he]
    exact ⟨Nat.le_refl _, Nat.lt_succ_self _⟩
  eventId := by
    rw [he]
    exact Nat.le_succ _
  trace := ht

theorem grows_push (s : DependencyManager) (o : ServiceId) (priority : ℕ) (body : EventBody) :
    Grows s (s.pushPrioritisedEvent o priority body) :=
  .of_push rfl rfl ⟨[], rfl⟩

theorem grows_call (s : DependencyManager) (c : Call) : Grows s (s.call c) :=
  ⟨⟨[], (List.append_nil _).symm, by simp⟩, Nat.le_refl _, [c], rfl⟩

theorem Moves.grows (h : Moves s s') : Grows s s' := by
  obtain ⟨events, hq, hids⟩ := h.queue
  obtain ⟨calls, htrace, _⟩ := h.calls
  exact ⟨⟨events, hq, fun e he => (hids e he).2⟩, h.eventId, calls, htrace⟩

theorem SameLifecycles.grows (h : SameLifecycles s s') : Grows s s' := by
  obtain ⟨calls, _, htrace⟩ := h.trace
  exact ⟨⟨[], by rw [h.queue, List.append_nil], by simp⟩, h.nextEventId, calls, htrace⟩

variable {u : UserCode}

theorem Housekeeping.grows (h : Housekeeping u s s') : Grows s s' := by
  induction h with
  | quiet hq => exact hq.grows
  | generator s c svc priority e ref _ =>
    have hcall : Grows s (s.call c).takePromiseId :=
      (grows_call s c).trans (.of_eq rfl rfl rfl)
    have hran := ran_runGenerator s u c svc priority e ref
    generalize s.runGenerator u c svc priority e ref = out at hran
    cases hran with
    | done => exact hcall
    | suspended => exact hcall.trans (.of_eq rfl rfl rfl)
    | yielded => exact .of_push rfl rfl ⟨[c], rfl⟩
  | trans _ _ ih1 ih2 => exact ih1.trans ih2

theorem grows_removeInternalService (u : UserCode) (d : ServiceId)
    (h : s.removeInternalService u d = some s') : Grows s s' := by
  obtain ⟨_, t, _, _, _, hkeep, rfl⟩ := removeInternalService_cases h
  exact hkeep.grows.trans ⟨⟨[], (List.append_nil _).symm, by simp⟩, Nat.le_refl _, [.erased d], rfl⟩

theorem EndsStop.grows {d : ServiceId} {removeAfter : Bool}
    (h : EndsStop s u d removeAfter s') : Grows s s' :=
  h.rel Grows.trans Moves.grows (same_clearServiceRegistrations _ d).grows
    (grows_removeInternalService u d)

theorem grows_handleContinuable (s : DependencyManager) (u : UserCode) (q : PromiseId) :
    Grows s (s.handleContinuable u q).manager :=
  handleContinuable_rel .refl .trans grows_push (fun _ => .of_eq rfl rfl rfl)
    (fun g t _ _ => (same_handleEventCompletion t u g.event).grows)
    fun _ => .of_eq rfl rfl rfl

theorem Handling.grows {e : Event} {out : Handled} (h : Handling s u e out) :
    Grows s out.manager := by
  cases h with
  | lifecycle t hb hm => exact hm.grows
  | request hash r hb => exact (housekeeping_handleDependencyRequest s u e hash r).grows
  | quit hb =>
    have hmark : Grows s { s with quitEventReceived := true } := .of_eq rfl rfl rfl
    exact hmark.trans (calm_handleQuit s e).toMoves.grows
  | insert m t hb hm =>
    have hinsert : Grows s (s.insert e.originatingService m) := .of_eq rfl rfl rfl
    exact hinsert.trans hm.grows
  | stop d removeAfter _ hb hend =>
    cases hend with
    | moved _ hm => exact hm.toMoves.grows
    | suspended t q priority hm =>
      exact hm.grows.trans (.of_eq rfl rfl rfl)
    | ended t hend => exact hend.grows
  | started d t hb hm => exact hm.grows
  | startSuspended d t priority hb hm =>
    exact hm.grows.trans (.of_eq rfl rfl rfl)
  | removeIgnored d hb => exact .refl s
  | remove d t hb hr => exact grows_removeInternalService u d hr
  | removeHandler listener type hb | removeInterceptor id type hb => exact .of_eq rfl rfl rfl
  | addTracker hash hb => exact (housekeeping_handleAddTracker s u e hash).grows
  | removeTracker hash hb => exact (same_handleRemoveTracker s e hash).grows
  | continuable q hb => exact grows_handleContinuable s u q
  | continuableStart q _ hb hend =>
    have herase : ∀ t : DependencyManager, Grows t (t.eraseGenerator q) := fun t =>
      .of_eq rfl rfl rfl
    cases hend with
    | stale => exact .refl s
    | moved g v t _ _ _ hm =>
      exact (hm.toMoves.grows.trans (same_handleEventCompletion t u g.event).grows).trans (herase _)
    | ended g d remove t _ _ hend =>
      exact (hend.grows.trans (same_handleEventCompletion t u g.event).grows).trans (herase _)
  | function hb => exact (same_handleRunFunction s e).grows
  | functionAsync hb => exact (housekeeping_handleRunFunctionAsync s u e).grows
  | broadcast hb => exact (housekeeping_broadcastEvent s u e).grows

theorem Processed.grows {e : Event} (h : Processed s u e s') : Grows s s' := by
  have hpre := (same_preIntercept s u e).grows
  cases h with
  | dead hq => exact .refl s
  | vetoed hq ha => exact hpre.trans (same_finishEvent _ u e _ false).grows
  | handled out hq ha hh hc =>
    exact (hpre.trans (handling_handle hh).grows).trans (same_finishEvent _ u e _ true).grows
  | quits out hq ha hh hc can =>
    exact (hpre.trans (handling_handle hh).grows).trans (.of_eq rfl rfl rfl)

theorem UserMove.grows (h : UserMove s s') : Grows s s' := by
  cases h with
  | pushed o priority body => exact grows_push s o priority body
  | awaits | tracker | startReturns | generatorReturns | generatorYields =>
    exact .of_push rfl rfl ⟨[], rfl⟩
  | coalesces | waits | handler | interceptor => exact .of_eq rfl rfl rfl
  | created desc =>
    rw [createServiceManager_eq]
    refine ⟨⟨_, rfl, ?_⟩, Nat.le_trans (Nat.le_succ _) (Nat.le_add_right _ _), [], rfl⟩
    intro e he
    rcases List.mem_cons.mp he with rfl | he
    · exact ⟨Nat.le_refl _, Nat.lt_of_lt_of_le (Nat.lt_succ_self _) (Nat.le_add_right _ _)⟩
    · obtain ⟨_, _, hlow, hhigh, _⟩ := mem_followUpEvents he
      exact ⟨Nat.le_of_lt hlow, hhigh⟩
  | stopReturns q g => exact .of_push rfl rfl ⟨[.stopped g.generator.serviceId], rfl⟩

theorem next_grows {a : Action} (h : next a s = some s') :
    (∃ index u e, a = .processEvent index u ∧ s.queue[index]? = some e ∧
      Grows (s.dequeue index) s') ∨ (∀ index u, a ≠ .processEvent index u) ∧ Grows s s' := by
  rcases next_cases h with ⟨index, u, e, rfl, he, hp⟩ | ⟨hno, hm⟩
  · exact .inl ⟨index, u, e, rfl, he, hp.grows⟩
  · exact .inr ⟨hno, hm.grows⟩

/-- The ids of the queued events have been given out. -/
def QueueBounded (s : DependencyManager) : Prop := ∀ e ∈ s.queue, e.id < s.nextEventId

theorem QueueBounded.grows (h : s.QueueBounded) (hg : Grows s s') : s'.QueueBounded := by
  intro e he
  obtain ⟨events, hqueue, hids⟩ := hg.queue
  rw [hqueue] at he
  rcases List.mem_append.mp he with he | he
  · exact Nat.lt_of_lt_of_le (h e he) hg.eventId
  · exact (hids e he).2

theorem QueueBounded.step (h : s.QueueBounded) {a : Action} (hstep : next a s = some s') :
    s'.QueueBounded := by
  rcases next_grows hstep with ⟨index, _, _, _, _, hg⟩ | ⟨_, hg⟩
  · have hleft : (s.dequeue index).QueueBounded := fun e he =>
      h e (List.mem_of_mem_eraseIdx he)
    exact hleft.grows hg
  · exact h.grows hg

theorem queue_initial (internals : List NameHash) : (initial internals).queue = [] :=
  Loops.rel_foldl (fun x y : DependencyManager => x.queue = [] → y.queue = []) (fun _ h => h)
    (fun h h' hx => h' (h hx)) addInternalServiceManager internals constructed
    (fun _ _ _ h => h) rfl

theorem queueBounded_initial (internals : List NameHash) : (initial internals).QueueBounded := by
  intro e he
  rw [queue_initial] at he
  cases he

end Ichor.DependencyManager
