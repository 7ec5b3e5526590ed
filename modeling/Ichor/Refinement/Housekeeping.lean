import Ichor.Refinement.View
import Ichor.Lib.Loops

/-! What everything around the service lifecycle does to the manager:
interceptors, trackers, handlers, completed events and registrations only add
generators of user code, queue their continuations and record neutral calls. -/
namespace Ichor

namespace DependencyManager
open FiniteTable

/-- The part of the manager that service lifecycles are made of is the same, and
only neutral calls were added. -/
structure SameLifecycles (s s' : DependencyManager) : Prop where
  services : s'.services = s.services
  scopedGenerators : s'.scopedGenerators = s.scopedGenerators
  dependencyWaiters : s'.dependencyWaiters = s.dependencyWaiters
  pendingStopsDueToCoroutine : s'.pendingStopsDueToCoroutine = s.pendingStopsDueToCoroutine
  pendingStopsDueToDependencies : s'.pendingStopsDueToDependencies = s.pendingStopsDueToDependencies
  quitEventReceived : s'.quitEventReceived = s.quitEventReceived
  quitDone : s'.quitDone = s.quitDone
  queue : s'.queue = s.queue
  nextEventId : s.nextEventId ≤ s'.nextEventId
  nextPromiseId : s'.nextPromiseId = s.nextPromiseId
  nextServiceId : s'.nextServiceId = s.nextServiceId
  trace : ∃ calls : List Call, (∀ c ∈ calls, Call.neutral c = true) ∧ s'.trace = calls ++ s.trace

theorem SameLifecycles.refl (s : DependencyManager) : SameLifecycles s s :=
  ⟨rfl, rfl, rfl, rfl, rfl, rfl, rfl, rfl, Nat.le_refl _, rfl, rfl, [], by simp, rfl⟩

theorem SameLifecycles.trans {s t r : DependencyManager} (h : SameLifecycles s t)
    (h' : SameLifecycles t r) : SameLifecycles s r := by
  obtain ⟨calls, hn, ht⟩ := h.trace
  obtain ⟨calls', hn', ht'⟩ := h'.trace
  exact {
    services := h'.services.trans h.services
    scopedGenerators := h'.scopedGenerators.trans h.scopedGenerators
    dependencyWaiters := h'.dependencyWaiters.trans h.dependencyWaiters
    pendingStopsDueToCoroutine :=
      h'.pendingStopsDueToCoroutine.trans h.pendingStopsDueToCoroutine
    pendingStopsDueToDependencies :=
      h'.pendingStopsDueToDependencies.trans h.pendingStopsDueToDependencies
    quitEventReceived := h'.quitEventReceived.trans h.quitEventReceived
    quitDone := h'.quitDone.trans h.quitDone
    queue := h'.queue.trans h.queue
    nextEventId := Nat.le_trans h.nextEventId h'.nextEventId
    nextPromiseId := h'.nextPromiseId.trans h.nextPromiseId
    nextServiceId := h'.nextServiceId.trans h.nextServiceId
    trace := ⟨calls' ++ calls, by
      intro c hc
      rcases List.mem_append.mp hc with hc | hc
      · exact hn' c hc
      · exact hn c hc, by rw [ht', ht, List.append_assoc]⟩ }

theorem same_call (s : DependencyManager) (c : Call) (hc : Call.neutral c = true) :
    SameLifecycles s (s.call c) :=
  { SameLifecycles.refl s with trace := ⟨[c], by simpa using hc, rfl⟩ }

variable {α : Type}

theorem same_foldl (f : DependencyManager → α → DependencyManager) (l : List α)
    (s : DependencyManager) (hf : ∀ s a, SameLifecycles s (f s a)) : SameLifecycles s (l.foldl f s) :=
  Loops.rel_foldl SameLifecycles .refl .trans f l s fun s a _ => hf s a

section
variable (s : DependencyManager) (u : UserCode) (e : Event)

theorem same_takeEventId : SameLifecycles s s.takeEventId :=
  { SameLifecycles.refl s with nextEventId := Nat.le_succ _ }

theorem same_completeWaiter (id : EventId) (s : DependencyManager)
    (waiter : EventType × PromiseId) : SameLifecycles s (completeWaiter u id s waiter) := by
  have hq := same_call s (.completed id waiter.2) rfl
  unfold completeWaiter
  dsimp only
  split
  · exact { hq with }
  · exact hq

theorem same_handleEventCompletion : SameLifecycles s (s.handleEventCompletion u e) := by
  unfold handleEventCompletion
  split
  · exact SameLifecycles.refl s
  · rename_i w _
    have h : SameLifecycles s (w.events.foldl (completeWaiter u e.id) s) :=
      same_foldl _ _ s (same_completeWaiter u e.id)
    exact h.trans { SameLifecycles.refl _ with }

theorem same_preInterceptCopies (id : EventId) (type : EventType) :
    SameLifecycles s (s.preInterceptCopies id type) :=
  same_foldl _ _ s fun s info => same_call s (.preIntercept info.interceptorId id type) rfl

theorem same_postInterceptCopies (id : EventId) (type : EventType)
    (processed : Bool) : SameLifecycles s (s.postInterceptCopies id type processed) :=
  same_foldl _ _ s fun s info =>
    same_call s (.postIntercept info.interceptorId id type processed) rfl

theorem same_clearServiceRegistrations (svc : ServiceId) :
    SameLifecycles s (s.clearServiceRegistrations svc) := { SameLifecycles.refl s with }

theorem same_preIntercept : SameLifecycles s (s.preIntercept u e).1 := by
  have h : SameLifecycles s { s with
      allEventInterceptorsCopy := (s.eventInterceptors.get? none).getD []
      eventInterceptorsCopy := (s.eventInterceptors.get? (some e.body.type)).getD [] } :=
    { SameLifecycles.refl s with }
  exact h.trans (same_preInterceptCopies _ e.id e.body.type)

theorem same_finishEvent (h : Handled) (allow : Bool) : SameLifecycles s (s.finishEvent u e h allow) := by
  unfold finishEvent
  have hq := same_postInterceptCopies s e.id e.body.type (allow && decide (h.handlerAmount > 0))
  dsimp only
  split
  · exact hq
  · exact hq.trans (same_handleEventCompletion _ u e)

end

/-! ## Generators of user code -/

/-- A generator that was begun has finished, or waits to be stored, and its
continuation is queued when it has yielded. -/
inductive GeneratorBegun (s : DependencyManager) (c : Call) (svc : ServiceId) (priority : ℕ) :
    DependencyManager × Option GeneratorState → Prop
  | done : GeneratorBegun s c svc priority ((s.call c).takePromiseId, none)
  | suspended : GeneratorBegun s c svc priority ((s.call c).takePromiseId, some .suspended)
  | yielded : GeneratorBegun s c svc priority
      (((s.call c).takePromiseId).pushPrioritisedEvent svc priority (.continuable s.nextPromiseId),
        some .yielded)

theorem begun_beginGenerator (s : DependencyManager) (u : UserCode) (c : Call) (svc : ServiceId)
    (priority : ℕ) : GeneratorBegun s c svc priority (s.beginGenerator u c svc priority) := by
  unfold beginGenerator
  dsimp only
  split
  · exact .done
  · exact .suspended
  · exact .yielded

/-- What becomes of a generator: it has finished or it is stored. -/
inductive Ran (s : DependencyManager) (c : Call) (svc : ServiceId) (priority : ℕ) (e : Event)
    (ref : Option ℕ) : DependencyManager × Bool → Prop
  | done : Ran s c svc priority e ref ((s.call c).takePromiseId, false)
  | suspended : Ran s c svc priority e ref
      (((s.call c).takePromiseId).scopeGenerator s.nextPromiseId
        ⟨⟨svc, priority, .user, .suspended⟩, e, ref.getD s.nextPromiseId⟩, true)
  | yielded : Ran s c svc priority e ref ((((s.call c).takePromiseId).scopeGenerator s.nextPromiseId
        ⟨⟨svc, priority, .user, .yielded⟩, e, ref.getD s.nextPromiseId⟩).pushPrioritisedEvent svc
          priority (.continuable s.nextPromiseId), true)

theorem ran_runGenerator (s : DependencyManager) (u : UserCode) (c : Call) (svc : ServiceId)
    (priority : ℕ) (e : Event) (ref : Option ℕ) :
    Ran s c svc priority e ref (s.runGenerator u c svc priority e ref) := by
  unfold runGenerator
  dsimp only
  have hbegun := begun_beginGenerator s u c svc priority
  generalize s.beginGenerator u c svc priority = out at hbegun
  cases hbegun with
  | done => exact .done
  | suspended => exact .suspended
  | yielded => exact .yielded

/-- One step of housekeeping: a quiet change, or a call of user code that may
leave a generator behind. -/
inductive Housekeeping (u : UserCode) : DependencyManager → DependencyManager → Prop
  | quiet {s s' : DependencyManager} (h : SameLifecycles s s') : Housekeeping u s s'
  | generator (s : DependencyManager) (c : Call) (svc : ServiceId) (priority : ℕ)
      (e : Event) (ref : Option ℕ) (hc : Call.neutral c = true) :
      Housekeeping u s (s.runGenerator u c svc priority e ref).1
  | trans {s t r : DependencyManager} (h : Housekeeping u s t) (h' : Housekeeping u t r) :
      Housekeeping u s r

theorem Housekeeping.refl (u : UserCode) (s : DependencyManager) : Housekeeping u s s := .quiet (.refl s)

theorem Housekeeping.services {u : UserCode} {s s' : DependencyManager} (h : Housekeeping u s s') :
    s'.services = s.services := by
  induction h with
  | quiet hq => exact hq.services
  | generator s c svc priority e ref _ =>
    have hran := ran_runGenerator s u c svc priority e ref
    generalize s.runGenerator u c svc priority e ref = out at hran
    cases hran <;> rfl
  | trans _ _ ih1 ih2 => exact ih2.trans ih1

theorem housekeeping_foldl {u : UserCode} {β : Type} (proj : β → DependencyManager)
    (f : β → α → β) (l : List α) (b : β) (hf : ∀ b a, Housekeeping u (proj b) (proj (f b a))) :
    Housekeeping u (proj b) (proj (l.foldl f b)) :=
  Loops.rel_foldl (fun x y => Housekeeping u (proj x) (proj y)) (fun x => .refl u (proj x))
    (fun h h' => h.trans h') f l b fun b a _ => hf b a

theorem housekeeping_foldlM {u : UserCode} {β : Type} (proj : β → DependencyManager) (f : β → α → Option β)
    (l : List α) (b b' : β) (hf : ∀ b a b', f b a = some b' → Housekeeping u (proj b) (proj b'))
    (h : l.foldlM f b = some b') : Housekeeping u (proj b) (proj b') :=
  Loops.rel_foldlM (fun x y => Housekeeping u (proj x) (proj y)) (fun x => .refl u (proj x))
    (fun h h' => h.trans h') f l (fun b a _ => hf b a) h

section
variable (s : DependencyManager) (u : UserCode) (e : Event) (hash : NameHash) (registration : ℕ)

theorem housekeeping_untrack (removed : ServiceId)
    (acc acc' : DependencyManager × ℕ) (svc : ServiceId)
    (h : untrack u hash removed acc svc = some acc') : Housekeeping u acc.1 acc'.1 := by
  unfold untrack at h
  split at h
  · simp at h
  · split at h
    · have hacc : acc = acc' := by simpa using h
      exact hacc ▸ .refl u _
    · have hrun := Housekeeping.generator (u := u) acc.1 (.untracker svc hash removed) svc
        internalDependencyEventPriority
        ⟨(acc.1.beginGenerator u (.untracker svc hash removed) svc
            internalDependencyEventPriority).1.nextEventId, svc, internalDependencyEventPriority,
          .dependencyUndoRequest hash⟩ none rfl
      unfold runGenerator at hrun
      dsimp only at h hrun
      split at h
      · rename_i t hbegin
        rw [hbegin] at hrun
        cases h
        exact hrun
      · rename_i t st hbegin
        rw [hbegin] at hrun
        cases h
        exact hrun.trans (.quiet (same_takeEventId _))

theorem housekeeping_undoRequest (removed : ServiceId) (s s' : DependencyManager)
    (dep : Registration) (h : undoRequest u removed s dep = some s') : Housekeeping u s s' := by
  unfold undoRequest at h
  obtain ⟨out, hout, rfl⟩ := Option.map_eq_some_iff.mp h
  have h1 := (same_takeEventId s).trans
    (same_preInterceptCopies s.takeEventId s.nextEventId .dependencyUndoRequest)
  have h2 := housekeeping_foldlM Prod.fst _ _ _ _
    (fun b a b' hb => housekeeping_untrack u dep.interfaceNameHash removed b b' a hb) hout
  exact ((Housekeeping.quiet h1).trans h2).trans (.quiet (same_postInterceptCopies _ _ _ _))

/-- The last statements of `removeInternalService`. -/
def eraseService (d : ServiceId) : DependencyManager :=
  { s with
    dependencyRequestTrackers := s.dependencyRequestTrackers.mapFilter
      (fun infos => infos.filter fun info => decide (info ≠ d)) fun infos => !infos.isEmpty
    services := s.services.erase d
    trace := .erased d :: s.trace }

theorem removeInternalService_cases {s s' : DependencyManager} {u : UserCode} {d : ServiceId}
    (h : s.removeInternalService u d = some s') : ∃ m t, s.services.get? d = some m ∧
      (m.serviceIdsOfDependees = [] ∧ m.serviceIdsOfInjectedDependencies = []) ∧
      (if m.kind = .dependency then m.registry else []).foldlM (undoRequest u d) s = some t ∧
      Housekeeping u s t ∧ s' = t.eraseService d := by
  unfold removeInternalService at h
  split at h
  · cases h
  rename_i m hm
  split at h
  · cases h
  rename_i hchecks
  simp only [Bool.or_eq_true, not_or, Bool.not_eq_true, Bool.not_eq_false', List.isEmpty_iff]
    at hchecks
  obtain ⟨t, ht, rfl⟩ := Option.map_eq_some_iff.mp h
  exact ⟨m, t, hm, hchecks.1, ht, housekeeping_foldlM id (undoRequest u d) _ s t
    (fun b dep b' hb => housekeeping_undoRequest u d b b' dep hb) ht, rfl⟩

theorem housekeeping_handleDependencyRequest :
    Housekeeping u s (s.handleDependencyRequest u e hash registration).manager :=
  housekeeping_foldl Prod.fst _ _ (s, false) fun b svc =>
    .generator b.1 (.tracker svc hash e.originatingService registration) svc e.priority e _ rfl

theorem housekeeping_handleAddTracker : Housekeeping u s (s.handleAddTracker u e hash) := by
  unfold handleAddTracker
  split
  · exact housekeeping_foldl id _ _ s fun b request => .generator b _ _ _ _ _ rfl
  · exact .refl u s

theorem housekeeping_broadcastEvent : Housekeeping u s (s.broadcastEvent u e).manager := by
  unfold broadcastEvent
  split
  · exact .refl u s
  · refine housekeeping_foldl Prod.fst _ _ (s, false) fun b info => ?_
    unfold broadcastTo
    split
    · exact .refl u _
    · split
      · exact .refl u _
      · exact .generator b.1 _ _ _ e _ rfl

theorem housekeeping_handleRunFunctionAsync :
    Housekeeping u s (s.handleRunFunctionAsync u e).manager := by
  unfold handleRunFunctionAsync
  split
  · exact .refl u s
  · exact .generator s _ _ _ e _ rfl

theorem same_handleRunFunction : SameLifecycles s (s.handleRunFunction e) := by
  unfold handleRunFunction
  split
  · exact SameLifecycles.refl s
  · exact same_call s _ rfl

theorem same_handleRemoveTracker : SameLifecycles s (s.handleRemoveTracker e hash) := by
  unfold handleRemoveTracker
  split
  · exact SameLifecycles.refl s
  · exact { SameLifecycles.refl s with }

end

end DependencyManager

/-! ## Housekeeping as a path of small steps -/

namespace Lifecycle
open DependencyManager

section
variable {o : Origin} {current : List Event} {phase : Phase} {taken : List PromiseId}

variable {s s' : DependencyManager}

theorem view_same (h : SameLifecycles s s') (current : List Event)
    (phase : Phase) (taken : List PromiseId) :
    ∃ calls : List Call, (∀ c ∈ calls, Call.neutral c = true) ∧
      view s' current phase taken = (view s current phase taken).record calls := by
  obtain ⟨calls, hn, ht⟩ := h.trace
  refine ⟨calls, hn, ?_⟩
  unfold view Core.record
  simp only [h.services, h.scopedGenerators, h.dependencyWaiters, h.pendingStopsDueToCoroutine,
    h.pendingStopsDueToDependencies, h.quitEventReceived, h.quitDone, h.queue, h.nextPromiseId,
    h.nextServiceId, ht]

theorem path_same (h : SameLifecycles s s') :
    Path o (view s current phase taken) (view s' current phase taken) := by
  obtain ⟨calls, hn, hv⟩ := view_same h current phase taken
  rw [hv]
  exact .single (.queue (.quiet calls hn))

theorem get?_next (h : Inv (view s current phase taken)) :
    s.scopedGenerators.get? s.nextPromiseId = none :=
  h.fresh.next_none

theorem path_runGenerator (h : Inv (view s current phase taken))
    (u : UserCode) (c : Call) (svc : ServiceId) (priority : ℕ) (e : Event) (ref : Option ℕ)
    (hc : Call.neutral c = true) : Path o (view s current phase taken)
      (view (s.runGenerator u c svc priority e ref).1 current phase taken) := by
  have hcall : Path o (view s current phase taken) (view (s.call c) current phase taken) :=
    path_same (same_call s c hc)
  have hnone : ((s.call c).takePromiseId).scopedGenerators.get? s.nextPromiseId = none :=
    get?_next h
  have hran := ran_runGenerator s u c svc priority e ref
  generalize s.runGenerator u c svc priority e ref = out at hran
  cases hran with
  | done => exact hcall.tail (.queue .takePromise)
  | suspended =>
    rw [view_scopeGenerator _ _ _ _ _ _ hnone]
    exact hcall.tail (.user (.suspended _ rfl rfl))
  | yielded =>
    rw [view_push, view_scopeGenerator _ _ _ _ _ _ hnone]
    exact hcall.tail (.user (.yielded _ _ rfl rfl rfl))

theorem path_housekeeping {u : UserCode} (hs : Housekeeping u s s')
    (h : Inv (view s current phase taken)) :
    Path o (view s current phase taken) (view s' current phase taken) := by
  induction hs with
  | quiet hq => exact path_same hq
  | generator s c svc priority e ref hc => exact path_runGenerator h u c svc priority e ref hc
  | trans h1 h2 ih1 ih2 =>
    have hp1 := ih1 h
    exact hp1.trans (ih2 (h.path hp1))

end

end Lifecycle

end Ichor
