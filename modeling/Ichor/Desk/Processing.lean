import Ichor.Desk.Handlers
import Ichor.Refinement.Simulation

/-! What becomes of one event that the queue hands over: ignored by a manager
that is done, vetoed, handled, or handled as the last event before quitting. -/
namespace Ichor.DependencyManager
open FiniteTable

variable {s s' : DependencyManager}

/-! ## The switch -/

/-- The ends of the handlers, one constructor for each branch of the switch or for
each way a branch ends. -/
inductive Handling (s : DependencyManager) (u : UserCode) (e : Event) : Handled → Prop
  | lifecycle (t : DependencyManager)
      (hb : e.body = .dependencyOnline ∨ ∃ remove, e.body = .dependencyOffline remove)
      (hm : Moves s t) : Handling s u e t.asHandled
  | request (hash : NameHash) (r : ℕ) (hb : e.body = .dependencyRequest hash r) :
      Handling s u e (s.handleDependencyRequest u e hash r)
  | quit (hb : e.body = .quit) : Handling s u e (s.handleQuit e)
  | insert (m : LifecycleManager) (t : DependencyManager) (hb : e.body = .insertService m)
      (hm : Moves (s.insert e.originatingService m) t) : Handling s u e t.asHandled
  | stop (d : ServiceId) (removeAfter : Bool) (out : Handled)
      (hb : e.body = .stopService d removeAfter) (h : StopEnd s u e d removeAfter out) :
      Handling s u e out
  | started (d : ServiceId) (t : DependencyManager) (hb : e.body = .startService d)
      (hm : Moves s t) : Handling s u e t.asHandled
  | startSuspended (d : ServiceId) (t : DependencyManager) (priority : ℕ)
      (hb : e.body = .startService d) (hm : Moves s t) :
      Handling s u e ⟨t.scopeGenerator s.nextPromiseId
        ⟨⟨d, priority, .start, .suspended⟩, e, s.nextPromiseId⟩, true, 1, false⟩
  | removeIgnored (d : ServiceId) (hb : e.body = .removeService d) : Handling s u e s.asHandled
  | remove (d : ServiceId) (t : DependencyManager) (hb : e.body = .removeService d)
      (hr : s.removeInternalService u d = some t) : Handling s u e t.asHandled
  | removeHandler (listener : ServiceId) (type : EventType)
      (hb : e.body = .removeEventHandler listener type) :
      Handling s u e (s.handleRemoveEventHandler listener type).asHandled
  | removeInterceptor (id : ℕ) (type : Option EventType)
      (hb : e.body = .removeEventInterceptor id type) :
      Handling s u e (s.handleRemoveEventInterceptor id type).asHandled
  | addTracker (hash : NameHash) (hb : e.body = .addTracker hash) :
      Handling s u e (s.handleAddTracker u e hash).asHandled
  | removeTracker (hash : NameHash) (hb : e.body = .removeTracker hash) :
      Handling s u e (s.handleRemoveTracker e hash).asHandled
  | continuable (q : PromiseId) (hb : e.body = .continuable q) :
      Handling s u e (s.handleContinuable u q)
  | continuableStart (q : PromiseId) (out : Handled) (hb : e.body = .continuableStart q)
      (h : ContinuationEnd s u q out) : Handling s u e out
  | function (hb : e.body = .runFunction) : Handling s u e (s.handleRunFunction e).asHandled
  | functionAsync (hb : e.body = .runFunctionAsync) : Handling s u e (s.handleRunFunctionAsync u e)
  | broadcast (hb : (∃ hash, e.body = .dependencyUndoRequest hash) ∨
      (∃ p remove deps, e.body = .continuableDependencyOffline p remove deps) ∨
      ∃ hash, e.body = .user hash) : Handling s u e (s.broadcastEvent u e)

theorem handling_handleStartService (u : UserCode) (e : Event) (d : ServiceId)
    (hb : e.body = .startService d) : Handling s u e (s.handleStartService u e d) := by
  obtain ⟨⟨hcheck, hamount⟩, hend⟩ := moves_handleStartService s u e d
  have heta : s.handleStartService u e d = ⟨(s.handleStartService u e d).manager,
      (s.handleStartService u e d).moved, 1, false⟩ := by
    rw [← hcheck, ← hamount]
  rcases hend with ⟨hmoved, hm⟩ | ⟨hmoved, t, priority, hm, heq⟩
  · rw [heta, hmoved]
    exact .started d _ hb hm
  · rw [heta, hmoved, heq]
    exact .startSuspended d t priority hb hm

theorem handling_handleRemoveService {t : DependencyManager} (u : UserCode) (e : Event)
    (d : ServiceId) (hb : e.body = .removeService d) (h : s.handleRemoveService u d = some t) :
    Handling s u e t.asHandled := by
  unfold handleRemoveService at h
  split at h
  · cases h
    exact .removeIgnored d hb
  · split at h
    · cases h
      exact .removeIgnored d hb
    · exact .remove d t hb h

theorem handling_handle {u : UserCode} {e : Event} {out : Handled} (h : s.handle u e = some out) :
    Handling s u e out := by
  unfold handle at h
  cases hb : e.body with
  | dependencyOnline =>
    rw [hb] at h
    obtain ⟨t, ht, rfl⟩ := Option.map_eq_some_iff.mp h
    exact .lifecycle t (.inl hb) (moves_handleDependencyOnline u e ht)
  | dependencyOffline remove =>
    rw [hb] at h
    obtain ⟨t, ht, rfl⟩ := Option.map_eq_some_iff.mp h
    exact .lifecycle t (.inr ⟨remove, hb⟩) (moves_handleDependencyOffline e remove ht)
  | dependencyRequest hash r =>
    rw [hb] at h
    cases h
    exact .request hash r hb
  | quit =>
    rw [hb] at h
    cases h
    exact .quit hb
  | insertService m =>
    rw [hb] at h
    cases h
    exact .insert m _ hb (moves_handleInsertService s u e m)
  | stopService d removeAfter =>
    rw [hb] at h
    exact .stop d removeAfter out hb (stopEnd_handleStopService u e d removeAfter out h)
  | startService d =>
    rw [hb] at h
    cases h
    exact handling_handleStartService u e d hb
  | removeService d =>
    rw [hb] at h
    obtain ⟨t, ht, rfl⟩ := Option.map_eq_some_iff.mp h
    exact handling_handleRemoveService u e d hb ht
  | removeEventHandler listener type =>
    rw [hb] at h
    cases h
    exact .removeHandler listener type hb
  | removeEventInterceptor id type =>
    rw [hb] at h
    cases h
    exact .removeInterceptor id type hb
  | addTracker hash =>
    rw [hb] at h
    cases h
    exact .addTracker hash hb
  | removeTracker hash =>
    rw [hb] at h
    cases h
    exact .removeTracker hash hb
  | continuable q =>
    rw [hb] at h
    cases h
    exact .continuable q hb
  | continuableStart q =>
    rw [hb] at h
    exact .continuableStart q out hb (continuationEnd_handleContinuableStart u e q out h)
  | runFunction =>
    rw [hb] at h
    cases h
    exact .function hb
  | runFunctionAsync =>
    rw [hb] at h
    cases h
    exact .functionAsync hb
  | dependencyUndoRequest hash =>
    rw [hb] at h
    cases h
    exact .broadcast (.inl ⟨hash, hb⟩)
  | continuableDependencyOffline p remove deps =>
    rw [hb] at h
    cases h
    exact .broadcast (.inr (.inl ⟨p, remove, deps, hb⟩))
  | user hash =>
    rw [hb] at h
    cases h
    exact .broadcast (.inr (.inr ⟨hash, hb⟩))

/-! ## The whole event -/

/-- The manager after a successful check for quitting. -/
def quitted (s : DependencyManager) : DependencyManager :=
  { s with
    services := Table.empty
    allEventInterceptorsCopy := []
    eventInterceptorsCopy := []
    quitDone := true }

/-- What `checkIfCanQuit` asks for. -/
structure CanQuit (s : DependencyManager) : Prop where
  received : s.quitEventReceived = true
  generators : s.scopedGenerators.isEmpty = true
  stopped : s.allServicesStopped = true
  eventWaiters : s.eventWaiters.isEmpty = true
  dependencyWaiters : s.dependencyWaiters.isEmpty = true

inductive Processed (s : DependencyManager) (u : UserCode) (e : Event) : DependencyManager → Prop
  | dead (hq : s.quitDone = true) : Processed s u e s
  | vetoed (hq : s.quitDone = false) (ha : (s.preIntercept u e).2 = false) : Processed s u e
        ((s.preIntercept u e).1.finishEvent u e (s.preIntercept u e).1.asHandled false)
  | handled (out : Handled) (hq : s.quitDone = false) (ha : (s.preIntercept u e).2 = true)
      (hh : (s.preIntercept u e).1.handle u e = some out)
      (hc : out.check = true → out.manager.checkIfCanQuit = some out.manager) :
      Processed s u e (out.manager.finishEvent u e out true)
  | quits (out : Handled) (hq : s.quitDone = false) (ha : (s.preIntercept u e).2 = true)
      (hh : (s.preIntercept u e).1.handle u e = some out) (hc : out.check = true)
      (can : CanQuit out.manager) : Processed s u e out.manager.quitted

theorem finishEvent_quitted (s : DependencyManager) (u : UserCode) (e : Event) (h : Handled)
    (allow : Bool) (hw : s.eventWaiters.isEmpty = true) :
    s.quitted.finishEvent u e h allow = s.quitted := by
  have hnone : s.quitted.eventWaiters.get? e.id = none := (Table.isEmpty_iff _).mp hw e.id
  have hcompletion : s.quitted.handleEventCompletion u e = s.quitted := by
    unfold handleEventCompletion
    rw [hnone]
  unfold finishEvent
  have hpost : s.quitted.postInterceptCopies e.id e.body.type
      (allow && decide (h.handlerAmount > 0)) = s.quitted := rfl
  rw [hpost]
  dsimp only
  rw [hcompletion, ite_self]

theorem processed_of_processEvent (u : UserCode) (e : Event)
    (h : s.processEvent u e = some s') : Processed s u e s' := by
  unfold processEvent at h
  split at h
  · rename_i hq
    cases h
    exact .dead hq
  · rename_i hq
    have hq : s.quitDone = false := by simpa using hq
    dsimp only at h
    obtain ⟨out, hout, hrest⟩ := Option.bind_eq_some_iff.mp h
    obtain ⟨t, ht, rfl⟩ := Option.map_eq_some_iff.mp hrest
    cases ha : (s.preIntercept u e).2 with
    | false =>
      rw [ha, if_neg Bool.false_ne_true] at hout
      cases hout
      have ht : (s.preIntercept u e).1 = t := Option.some.inj ht
      rw [← ht]
      exact .vetoed hq ha
    | true =>
      rw [ha, if_pos rfl] at hout
      cases hc : out.check with
      | false =>
        rw [hc, if_neg Bool.false_ne_true] at ht
        cases ht
        exact .handled out hq ha hout fun hcheck => absurd (hc.symm.trans hcheck) Bool.false_ne_true
      | true =>
        rw [hc, if_pos rfl] at ht
        rcases Lifecycle.checkIfCanQuit_cases ht with rfl | ⟨hr, hg, hst, hew, hdw, rfl⟩
        · exact .handled out hq ha hout fun _ => ht
        · have hfinish : out.manager.quitted.finishEvent u e out true = out.manager.quitted :=
            finishEvent_quitted out.manager u e out true hew
          have hquits : Processed s u e out.manager.quitted :=
            .quits out hq ha hout hc ⟨hr, hg, hst, hew, hdw⟩
          rw [← hfinish] at hquits
          exact hquits

/-- The event at this place of the queue is taken out. -/
def dequeue (s : DependencyManager) (index : ℕ) : DependencyManager :=
  { s with queue := s.queue.eraseIdx index }

theorem processNext_eq_some {index : ℕ} {u : UserCode} (h : s.processNext index u = some s') :
    ∃ e, s.queue[index]? = some e ∧ Processed (s.dequeue index) u e s' := by
  unfold processNext at h
  split at h
  · cases h
  · rename_i e he
    exact ⟨e, he, processed_of_processEvent u e h⟩

end Ichor.DependencyManager
