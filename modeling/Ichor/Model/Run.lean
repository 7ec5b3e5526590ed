import Ichor.Model.Process
import Ichor.Lib.Runs

/-! Runs of the manager: the queue hands over one event after the other, and
between two events user code pushes requests, creates services, registers
handlers, and lets its suspended coroutines go on. What user code does while an
event is processed is recorded as steps right after that event: it only
appends to the queue, to the registrations and to the stored generators. -/
namespace Ichor
open FiniteTable

/-- What `internalCreateServiceManager` needs to know about a new service;
`requestsDependencies` chooses the lifecycle manager class. -/
structure ServiceDescription where
  interfaces : List NameHash
  requestsDependencies : Bool
  registrations : List (NameHash × DependencyFlags × Option Properties)
  priority : ℕ
  properties : Properties
  filter : Option Filter

inductive Action where
  | processEvent (index : ℕ) (u : UserCode)
  | pushEvent (originatingService : ServiceId) (priority : ℕ) (body : EventBody)
  | pushEventAsync (promise : PromiseId) (originatingService : ServiceId) (priority : ℕ)
      (coalesce : Bool) (body : EventBody)
  | waitForServiceStarted (promise : PromiseId) (svc : ServiceId)
  | waitForServiceStopped (promise : PromiseId) (svc : ServiceId)
  | createServiceManager (desc : ServiceDescription)
  | registerEventHandler (svc : ServiceId) (type : EventType) (target : Option ServiceId)
  | registerEventInterceptor (svc : ServiceId) (type : Option EventType)
  | registerDependencyTracker (svc : ServiceId) (hash : NameHash)
  | finishStart (promise : PromiseId) (success : Bool)
  | finishStop (promise : PromiseId)
  | finishGenerator (promise : PromiseId)
  | yieldGenerator (promise : PromiseId)

/-- The events user code pushes. The others are made by the manager itself or by
the functions of the actions above. -/
def EventBody.isRequest : EventBody → Bool
  | .dependencyOnline | .dependencyOffline _ | .quit | .stopService _ _ | .startService _
  | .removeService _ | .removeEventHandler _ _ | .removeEventInterceptor _ _ | .removeTracker _
  | .runFunction | .runFunctionAsync | .user _ => true
  | _ => false

/-- The requests that `pushPrioritisedEventAsync` accepts. -/
def EventBody.isAwaitable : EventBody → Bool
  | .stopService _ _ | .startService _ | .removeService _ | .runFunction | .runFunctionAsync
  | .user _ => true
  | _ => false

namespace DependencyManager

/-! ## Creating services -/

section
variable (s : DependencyManager) (promise : PromiseId) (svc : ServiceId) (type : EventType)

def createdManager (id : ServiceId) (desc : ServiceDescription) : LifecycleManager where
  serviceId := id
  kind := if desc.requestsDependencies then .dependency else .plain
  interfaces := desc.interfaces
  priority := desc.priority
  properties := desc.properties
  filter := desc.filter
  state := .installed
  registry :=
    if desc.requestsDependencies then
      desc.registrations.map fun r => ⟨r.1, r.2.1, 0, r.2.2⟩
    else []
  serviceIdsOfInjectedDependencies := []
  serviceIdsOfInjectedDependenciesButGoingAway := []
  serviceIdsOfDependees := []

/-- `internalCreateServiceManager`: a service without REQUIRED registrations is
started at once. -/
def createServiceManager (desc : ServiceDescription) : DependencyManager :=
  let id := s.nextServiceId
  let mgr := createdManager id desc
  let eventPriority := min internalDependencyEventPriority desc.priority
  let s := { s with nextServiceId := id + 1 }
  let s := s.pushPrioritisedEvent id (min internalInsertServiceEventPriority desc.priority)
    (.insertService mgr)
  let s := mgr.registry.zipIdx.foldl (fun s dep =>
    s.pushPrioritisedEvent id eventPriority (.dependencyRequest dep.1.interfaceNameHash dep.2)) s
  if mgr.registry.any fun dep => dep.flags.required then s
  else s.pushPrioritisedEvent id eventPriority (.startService id)

/-! ## Registrations -/

/-- The service object exists: its lifecycle manager is in the table, or still in
an InsertServiceEvent. Only then can it be passed to the functions below. -/
def hasObject : Bool :=
  s.services.contains svc || s.queue.any fun e =>
    match e.body with
    | .insertService _ => decide (e.originatingService = svc)
    | _ => false

def registerEventHandler (target : Option ServiceId) : DependencyManager :=
  { s with
    eventCallbacks := s.eventCallbacks.put type
      ((s.eventCallbacks.get? type).getD [] ++ [⟨svc, target⟩]) }

/-- Service id zero stands for an interceptor that is not coupled to a service. -/
def registerEventInterceptor (type : Option EventType) :
    DependencyManager :=
  { s with
    eventInterceptors := s.eventInterceptors.put type
      ((s.eventInterceptors.get? type).getD [] ++ [⟨svc, s.nextInterceptorId⟩])
    nextInterceptorId := s.nextInterceptorId + 1 }

/-- Trackers are registered while the service is starting or started; the check
compares the numeric values, and INJECTING comes before STARTING. -/
def registerDependencyTracker (hash : NameHash) :
    Option DependencyManager :=
  match s.services.get? svc with
  | none => none
  | some m =>
    if m.state = .starting || m.state = .active then
      some (({ s with
        dependencyRequestTrackers := s.dependencyRequestTrackers.put hash
          ((s.dependencyRequestTrackers.get? hash).getD [] ++ [svc]) }).pushPrioritisedEvent svc
            (min internalInsertServiceEventPriority m.priority) (.addTracker hash))
    else none

/-! ## Coroutines of user code -/

/-- A stored coroutine that waits for an event or a service goes on only after it
was set. -/
def isAwaiting : Bool :=
  (s.eventWaiters.entries.any fun e => e.2.events.any fun w => decide (w.2 = promise)) ||
    (s.dependencyWaiters.entries.any fun e => e.2.events.any fun w => decide (w.2 = promise)) ||
    decide (promise ∈ s.abandoned)

/-- The stored generator of a coroutine that is suspended in user code. -/
def suspendedUserCode : Option ScopedGenerator :=
  match s.scopedGenerators.get? promise with
  | none => none
  | some g =>
    match g.generator.coroutine with
    | .dependencyOffline _ _ => none
    | _ => if g.generator.state = .suspended && !s.isAwaiting promise then some g else none

/-- The `co_return` of a stored generator: the value is kept and the continuation is queued, since a
generator is stored only when it has been suspended. -/
def returnValue (g : ScopedGenerator)
    (value : StartBehaviour) (body : EventBody) : DependencyManager :=
  (s.modifyGenerator promise fun g => { g with state := .finished value }).pushPrioritisedEvent
    g.generator.serviceId g.generator.priority body

/-- The rest of `internal_start` after the `start()` of the service returned. -/
def finishStart (success : Bool) :
    Option DependencyManager :=
  match s.suspendedUserCode promise with
  | none => none
  | some g =>
    let d := g.generator.serviceId
    let s := s.setState d (if success then .injecting else .installed)
    match g.generator.coroutine with
    | .start =>
      some (s.returnValue promise g (if success then .done else .stopped) (.continuableStart promise))
    | .startAfterDependencyOnline =>
      some (s.returnValue promise g (if success then .started else .stopped)
        (.continuableStart promise))
    | _ => none

/-- The rest of `internal_stop` after the `stop()` of the service returned. -/
def finishStopCoroutine : Option DependencyManager :=
  match s.suspendedUserCode promise with
  | none => none
  | some g =>
    match g.generator.coroutine with
    | .stop =>
      let d := g.generator.serviceId
      some (((s.setState d .installed).call (.stopped d)).returnValue promise g .done
        (.continuableStart promise))
    | _ => none

def finishUserGenerator : Option DependencyManager :=
  match s.suspendedUserCode promise with
  | none => none
  | some g =>
    match g.generator.coroutine with
    | .user => some (s.returnValue promise g .done (.continuable promise))
    | _ => none

def yieldUserGenerator : Option DependencyManager :=
  match s.suspendedUserCode promise with
  | none => none
  | some g =>
    match g.generator.coroutine with
    | .user =>
      some ((s.modifyGenerator promise fun g => { g with state := .yielded }).pushPrioritisedEvent
        g.generator.serviceId g.generator.priority (.continuable promise))
    | _ => none

/-- `pushPrioritisedEventAsync` called by the coroutine `promise`, up to its suspension. -/
def pushEventAsync (originatingService : ServiceId)
    (priority : ℕ) (coalesce : Bool) (body : EventBody) : Option DependencyManager :=
  match s.suspendedUserCode promise with
  | none => none
  | some _ =>
    if decide (originatingService ≠ 0) && !s.services.contains originatingService then none
    else
      match (if coalesce then s.eventWaiters.entries.find? fun e =>
          decide (e.2.waitingSvcId = originatingService) && decide (e.2.eventType = body.type)
        else none) with
      | some e => some { s with
          eventWaiters := s.eventWaiters.modify e.1 fun w =>
            { w with events := w.events ++ [(body.type, promise)] } }
      | none =>
        let id := s.nextEventId
        let s := s.pushPrioritisedEvent originatingService priority body
        some { s with
          eventWaiters := s.eventWaiters.emplace id
            ⟨originatingService, body.type, [(body.type, promise)]⟩ }

/-- `waitForServiceStarted` and `waitForServiceStopped`, which wait only when the
manager is not quitting and the service is not ACTIVE. -/
def waitForServiceEvent : Option DependencyManager :=
  match s.suspendedUserCode promise with
  | none => none
  | some _ =>
    if s.quitEventReceived || s.stateOf svc = .active then none
    else some (s.waitForService svc type promise)

/-! ## What these calls did where they were possible -/

variable {s promise svc type} {s' : DependencyManager}

theorem registerDependencyTracker_eq_some {hash : NameHash}
    (h : s.registerDependencyTracker svc hash = some s') :
    ∃ priority, s' = ({ s with
      dependencyRequestTrackers := s.dependencyRequestTrackers.put hash
        ((s.dependencyRequestTrackers.get? hash).getD [] ++ [svc]) }).pushPrioritisedEvent svc
          priority (.addTracker hash) := by
  unfold registerDependencyTracker at h
  split at h
  · cases h
  · split at h
    · cases h
      exact ⟨_, rfl⟩
    · cases h

theorem suspendedUserCode_eq_some {g : ScopedGenerator} (h : s.suspendedUserCode promise = some g) :
    s.scopedGenerators.get? promise = some g ∧ g.generator.state = .suspended ∧
      s.isAwaiting promise = false ∧
        ∀ p point, g.generator.coroutine ≠ .dependencyOffline p point := by
  unfold suspendedUserCode at h
  split at h
  · cases h
  · rename_i g' hg'
    split at h
    · cases h
    · rename_i hco
      split at h
      · rename_i hif
        cases h
        rw [Bool.and_eq_true, decide_eq_true_eq, Bool.not_eq_true'] at hif
        exact ⟨hg', hif.1, hif.2, hco⟩
      · cases h

theorem finishStart_eq_some {success : Bool} (h : s.finishStart promise success = some s') :
    ∃ g v, s.suspendedUserCode promise = some g ∧
      ((g.generator.coroutine = .start ∧ v = if success then .done else .stopped) ∨
        (g.generator.coroutine = .startAfterDependencyOnline ∧
          v = if success then .started else .stopped)) ∧
      s' = (s.setState g.generator.serviceId
        (if success then .injecting else .installed)).returnValue promise g v
          (.continuableStart promise) := by
  unfold finishStart at h
  split at h
  · cases h
  · rename_i g hg
    dsimp only at h
    split at h
    · rename_i hc
      cases h
      exact ⟨g, _, hg, .inl ⟨hc, rfl⟩, rfl⟩
    · rename_i hc
      cases h
      exact ⟨g, _, hg, .inr ⟨hc, rfl⟩, rfl⟩
    · cases h

theorem finishStopCoroutine_eq_some (h : s.finishStopCoroutine promise = some s') :
    ∃ g, s.suspendedUserCode promise = some g ∧ g.generator.coroutine = .stop ∧
      s' = ((s.setState g.generator.serviceId .installed).call
        (.stopped g.generator.serviceId)).returnValue promise g .done
          (.continuableStart promise) := by
  unfold finishStopCoroutine at h
  split at h
  · cases h
  · rename_i g hg
    split at h
    · rename_i hc
      cases h
      exact ⟨g, hg, hc, rfl⟩
    · cases h

theorem finishUserGenerator_eq_some (h : s.finishUserGenerator promise = some s') :
    ∃ g, s.suspendedUserCode promise = some g ∧ g.generator.coroutine = .user ∧
      s' = s.returnValue promise g .done (.continuable promise) := by
  unfold finishUserGenerator at h
  split at h
  · cases h
  · rename_i g hg
    split at h
    · rename_i hc
      cases h
      exact ⟨g, hg, hc, rfl⟩
    · cases h

theorem yieldUserGenerator_eq_some (h : s.yieldUserGenerator promise = some s') :
    ∃ g, s.suspendedUserCode promise = some g ∧ g.generator.coroutine = .user ∧
      s' = (s.modifyGenerator promise fun g => { g with state := .yielded }).pushPrioritisedEvent
        g.generator.serviceId g.generator.priority (.continuable promise) := by
  unfold yieldUserGenerator at h
  split at h
  · cases h
  · rename_i g hg
    split at h
    · rename_i hc
      cases h
      exact ⟨g, hg, hc, rfl⟩
    · cases h

theorem pushEventAsync_eq_some {o : ServiceId} {priority : ℕ} {coalesce : Bool} {body : EventBody}
    (h : s.pushEventAsync promise o priority coalesce body = some s') :
    (∃ id, s' = { s with
      eventWaiters := s.eventWaiters.modify id fun w =>
        { w with events := w.events ++ [(body.type, promise)] } }) ∨
    s' = { s.pushPrioritisedEvent o priority body with
      eventWaiters :=
        s.eventWaiters.emplace s.nextEventId ⟨o, body.type, [(body.type, promise)]⟩ } := by
  unfold pushEventAsync at h
  split at h
  · cases h
  · split at h
    · cases h
    · split at h
      · cases h
        exact .inl ⟨_, rfl⟩
      · cases h
        exact .inr rfl

theorem waitForServiceEvent_eq_some (h : s.waitForServiceEvent promise svc type = some s') :
    ∃ g, s.suspendedUserCode promise = some g ∧ s' = s.waitForService svc type promise := by
  unfold waitForServiceEvent at h
  split at h
  · cases h
  · rename_i g hg
    split at h
    · cases h
    · cases h
      exact ⟨g, hg, rfl⟩

/-! ## Steps -/

variable (s)

/-- Take the event at `index` out of the queue and process it. -/
def processNext (index : ℕ) (u : UserCode) : Option DependencyManager :=
  match s.queue[index]? with
  | none => none
  | some e => ({ s with queue := s.queue.eraseIdx index }).processEvent u e

end

def next (a : Action) (s : DependencyManager) : Option DependencyManager :=
  match a with
  | .processEvent index u => s.processNext index u
  | .pushEvent originatingService priority body =>
    if body.isRequest then some (s.pushPrioritisedEvent originatingService priority body) else none
  | .pushEventAsync promise originatingService priority coalesce body =>
    if body.isAwaitable then
      s.pushEventAsync promise originatingService priority coalesce body
    else none
  | .waitForServiceStarted promise svc => s.waitForServiceEvent promise svc .startService
  | .waitForServiceStopped promise svc => s.waitForServiceEvent promise svc .stopService
  | .createServiceManager desc => some (s.createServiceManager desc)
  | .registerEventHandler svc type target =>
    if s.hasObject svc then some (s.registerEventHandler svc type target) else none
  | .registerEventInterceptor svc type =>
    if decide (svc = 0) || s.hasObject svc then some (s.registerEventInterceptor svc type) else none
  | .registerDependencyTracker svc hash => s.registerDependencyTracker svc hash
  | .finishStart promise success => s.finishStart promise success
  | .finishStop promise => s.finishStopCoroutine promise
  | .finishGenerator promise => s.finishUserGenerator promise
  | .yieldGenerator promise => s.yieldUserGenerator promise

/-! ## The start of a run -/

def internalManager (id : ServiceId) (hash : NameHash) : LifecycleManager where
  serviceId := id
  kind := .internal
  interfaces := [hash]
  priority := internalEventPriority
  properties := []
  filter := none
  state := .active
  registry := []
  serviceIdsOfInjectedDependencies := []
  serviceIdsOfInjectedDependenciesButGoingAway := []
  serviceIdsOfDependees := []

def addInternalServiceManager (s : DependencyManager) (hash : NameHash) : DependencyManager :=
  { s with
    services := s.services.emplace s.nextServiceId (internalManager s.nextServiceId hash)
    nextServiceId := s.nextServiceId + 1 }

/-- A manager as its constructor leaves it. -/
def constructed : DependencyManager where
  services := Table.empty
  dependencyRequestTrackers := Table.empty
  eventCallbacks := Table.empty
  eventInterceptors := Table.empty
  scopedGenerators := Table.empty
  eventWaiters := Table.empty
  abandoned := []
  dependencyWaiters := Table.empty
  pendingStopsDueToCoroutine := Table.empty
  pendingStopsDueToDependencies := Table.empty
  quitEventReceived := false
  quitDone := false
  allEventInterceptorsCopy := []
  eventInterceptorsCopy := []
  queue := []
  nextEventId := 0
  nextPromiseId := 1
  nextServiceId := 1
  nextInterceptorId := 1
  trace := []

/-- A fresh manager with the internal managers the queue adds: itself, the queue,
and whatever else the platform offers. -/
def initial (internals : List NameHash) : DependencyManager :=
  internals.foldl addInternalServiceManager constructed

/-! ## Runs -/

/-- Which event a queue may hand over next. -/
abbrev QueueOrder := List Event → ℕ → Bool

/-- `PriorityQueue`: least priority value first, in any order among equals. -/
def priorityQueue : QueueOrder := fun queue index =>
  match queue[index]? with
  | none => false
  | some e => queue.all fun e' => decide (e.priority ≤ e'.priority)

/-- `OrderedPriorityQueue`: least priority value first, oldest first among equals. -/
def orderedPriorityQueue : QueueOrder := fun queue index =>
  match queue[index]? with
  | none => false
  | some e => queue.all fun e' =>
      decide (e.priority < e'.priority) || (decide (e.priority = e'.priority) && decide (e.id ≤ e'.id))

def respects (order : QueueOrder) (s : DependencyManager) : Action → Bool
  | .processEvent index _ => order s.queue index
  | _ => true

/-- A run of a queue with the given order in which every step meets the condition. -/
def RunWhere (order : QueueOrder) (condition : DependencyManager → Action → Prop) :
    DependencyManager → DependencyManager → Prop :=
  GuardedRuns.Run next fun s a => respects order s a = true ∧ condition s a

/-- The states reached from a fresh manager by steps that meet the condition. -/
def ReachableWhere (order : QueueOrder) (condition : DependencyManager → Action → Prop)
    (s : DependencyManager) : Prop :=
  ∃ internals, RunWhere order condition (initial internals) s

def Reachable (order : QueueOrder) : DependencyManager → Prop :=
  ReachableWhere order fun _ _ => True

end DependencyManager

end Ichor
