import Ichor.Lib.Table

/-! The data of the dependency manager: service states, dependency
registrations, lifecycle managers, events, suspended coroutines, and the
manager's own tables. -/
namespace Ichor
open FiniteTable

abbrev ServiceId := ℕ
abbrev NameHash := ℕ
abbrev EventId := ℕ
abbrev PromiseId := ℕ

/-- `SELF_SERVICE_ID`: `std::numeric_limits` is not specialised for
`ServiceIdType`, so its `max()` is the value-initialised id. Ids of services
start at one. -/
def selfServiceId : ServiceId := 0

/-! ## Enumerations -/

inductive ServiceState where
  | uninstalled | installed | injecting | starting | active | uninjecting | stopping
  deriving DecidableEq

/-- The numeric value of the state, which the code compares with `<=` and `>=`. -/
def ServiceState.rank : ServiceState → ℕ
  | .uninstalled => 0
  | .installed => 1
  | .injecting => 2
  | .starting => 3
  | .active => 4
  | .uninjecting => 5
  | .stopping => 6

inductive StartBehaviour where
  | done | started | stopped | stopMe
  deriving DecidableEq

inductive DependencyChange where
  | notFound | found | foundAndStartMe | foundAndStopMe
  deriving DecidableEq

inductive EventType where
  | dependencyOnline | dependencyOffline | dependencyRequest | dependencyUndoRequest | quit
  | insertService | stopService | startService | removeService | removeEventHandler
  | removeEventInterceptor | addTracker | removeTracker | continuable | continuableStart
  | continuableDependencyOffline | runFunction | runFunctionAsync
  | user (hash : NameHash)
  deriving DecidableEq

def internalEventPriority : ℕ := 1000
def internalDependencyEventPriority : ℕ := 100
def internalCoroutineEventPriority : ℕ := 98
def internalInsertServiceEventPriority : ℕ := 50

/-! ## Dependencies and their register -/

/-- The contents of an `Ichor::v1::any`: the hash of the stored type and the value. -/
structure AnyValue where
  typeHash : NameHash
  value : ℕ
  deriving DecidableEq

abbrev Properties := List (String × AnyValue)

structure DependencyFlags where
  required : Bool
  allowMultiple : Bool
  deriving DecidableEq

/-- One entry of `DependencyRegister::_registrations`. The two stored functions
call `addDependencyInstance` and `removeDependencyInstance` on the owner. -/
structure Registration where
  interfaceNameHash : NameHash
  flags : DependencyFlags
  satisfied : ℕ
  properties : Option Properties

/-- The registrations in the iteration order of the multimap, which no function
changes after construction. A `Dependency *` is the position of its entry. -/
abbrev DependencyRegister := List Registration

/-- `DependencyRegister::find(hash, satisfied)`. -/
def DependencyRegister.find (reg : DependencyRegister) (hash : NameHash) (satisfied : Bool) :
    Option ℕ :=
  reg.findIdx? fun dep => dep.interfaceNameHash == hash &&
    (dep.flags.allowMultiple || (satisfied && decide (dep.satisfied > 0)) ||
      (!satisfied && decide (dep.satisfied = 0)))

/-- `DependencyRegister::find(hash)`. -/
def DependencyRegister.findHash (reg : DependencyRegister) (hash : NameHash) :
    Option Registration :=
  reg.find? fun dep => dep.interfaceNameHash == hash

def DependencyRegister.allSatisfied (reg : DependencyRegister) : Bool :=
  reg.all fun dep => decide (dep.satisfied > 0) || !dep.flags.required

/-! ## Lifecycle managers -/

/-- The lifecycle manager classes that live in the service table. -/
inductive ManagerKind where
  | dependency | plain | internal
  deriving DecidableEq

inductive Filter where
  | properties (key : String) (val : AnyValue) (missingOk : Bool)
  | dependencyProperties (dep : NameHash) (key : String) (val : AnyValue) (missingOk : Bool)
  | serviceId (id : ServiceId)

/-- A lifecycle manager with the state of the service it owns. The `Filter`
property is held apart from the other properties. -/
structure LifecycleManager where
  serviceId : ServiceId
  kind : ManagerKind
  interfaces : List NameHash
  priority : ℕ
  properties : Properties
  filter : Option Filter
  state : ServiceState
  registry : DependencyRegister
  serviceIdsOfInjectedDependencies : List ServiceId
  serviceIdsOfInjectedDependenciesButGoingAway : List ServiceId
  serviceIdsOfDependees : List ServiceId

def LifecycleManager.isInternalManager (m : LifecycleManager) : Bool :=
  decide (m.kind = .internal)

/-- A value found under the key matches when its type and the value agree; a
missing value or another type gives `missingOk`. -/
def Properties.agrees (props : Properties) (key : String) (val : AnyValue) (missingOk : Bool) :
    Bool :=
  match props.find? fun p => p.1 == key with
  | none => missingOk
  | some p => if p.2.typeHash = val.typeHash then decide (p.2.value = val.value) else missingOk

/-- `Filter::compareTo`. -/
def Filter.compareTo (f : Filter) (m : LifecycleManager) : Bool :=
  match f with
  | .properties key val missingOk => Properties.agrees m.properties key val missingOk
  | .dependencyProperties dep key val missingOk =>
    if m.kind = .dependency then
      match m.registry.findHash dep with
      | none => missingOk
      | some r =>
        match r.properties with
        | none => missingOk
        | some props => Properties.agrees props key val missingOk
    else missingOk
  | .serviceId id => decide (m.serviceId = id)

/-- The filter a provider carries lets a dependent pass when there is none or it matches. -/
def LifecycleManager.accepts (provider dependent : LifecycleManager) : Bool :=
  match provider.filter with
  | none => true
  | some f => f.compareTo dependent

/-! ## Events -/

inductive EventBody where
  | dependencyOnline
  | dependencyOffline (removeOriginatingServiceAfterStop : Bool)
  /-- The registration stands for the copy of the dependency that the event carries. -/
  | dependencyRequest (interfaceNameHash : NameHash) (registration : ℕ)
  | dependencyUndoRequest (interfaceNameHash : NameHash)
  | quit
  | insertService (mgr : LifecycleManager)
  | stopService (serviceId : ServiceId) (removeAfter : Bool)
  | startService (serviceId : ServiceId)
  | removeService (serviceId : ServiceId)
  | removeEventHandler (listener : ServiceId) (type : EventType)
  | removeEventInterceptor (interceptorId : ℕ) (type : Option EventType)
  | addTracker (interfaceNameHash : NameHash)
  | removeTracker (interfaceNameHash : NameHash)
  | continuable (promiseId : PromiseId)
  | continuableStart (promiseId : PromiseId)
  | continuableDependencyOffline (originatingOfflineServiceId : ServiceId)
      (removeOriginatingOfflineServiceAfterStop : Bool) (dependencyIterators : List ℕ)
  | runFunction
  | runFunctionAsync
  | user (hash : NameHash)

def EventBody.type : EventBody → EventType
  | .dependencyOnline => .dependencyOnline
  | .dependencyOffline _ => .dependencyOffline
  | .dependencyRequest _ _ => .dependencyRequest
  | .dependencyUndoRequest _ => .dependencyUndoRequest
  | .quit => .quit
  | .insertService _ => .insertService
  | .stopService _ _ => .stopService
  | .startService _ => .startService
  | .removeService _ => .removeService
  | .removeEventHandler _ _ => .removeEventHandler
  | .removeEventInterceptor _ _ => .removeEventInterceptor
  | .addTracker _ => .addTracker
  | .removeTracker _ => .removeTracker
  | .continuable _ => .continuable
  | .continuableStart _ => .continuableStart
  | .continuableDependencyOffline _ _ _ => .continuableDependencyOffline
  | .runFunction => .runFunction
  | .runFunctionAsync => .runFunctionAsync
  | .user hash => .user hash

structure Event where
  id : EventId
  originatingService : ServiceId
  priority : ℕ
  body : EventBody

/-! ## Suspended coroutines -/

/-- Where a suspended `dependencyOffline` stands: the wait it is in, the
registrations its loop has not reached yet, and its two locals. `wasActive`
says that the wait was entered from state ACTIVE. -/
inductive OfflinePoint where
  | awaitOnline (rest : List ℕ) (interested : DependencyChange) (ret : StartBehaviour)
  | awaitOffline (wasActive : Bool) (rest : List ℕ) (ret : StartBehaviour)

/-- What the body of a stored generator is: the service's own `start()` under
`start` or `startAfterDependencyOnline`, its own `stop()`, the manager's
`dependencyOffline`, or user code behind an `AsyncGenerator<IchorBehaviour>`. -/
inductive Coroutine where
  | start
  | startAfterDependencyOnline
  | stop
  | dependencyOffline (provider : ServiceId) (point : OfflinePoint)
  | user

inductive GeneratorState where
  | suspended
  | yielded
  | finished (value : StartBehaviour)
  deriving DecidableEq

structure Generator where
  serviceId : ServiceId
  priority : ℕ
  coroutine : Coroutine
  state : GeneratorState

/-- A stored generator with the event it works on. Generators of one broadcast
share the event; `eventRef` identifies the shared pointer. -/
structure ScopedGenerator where
  generator : Generator
  event : Event
  eventRef : ℕ

/-- The coroutines waiting for an event, each with the event type it waits for. -/
structure EventWaiter where
  waitingSvcId : ServiceId
  eventType : EventType
  events : List (EventType × PromiseId)

structure WaitingStopService where
  originatingServiceId : ServiceId
  priority : ℕ
  removeAfter : Bool
  deps : List ℕ

structure EventCallbackInfo where
  listeningServiceId : ServiceId
  filterServiceId : Option ServiceId

structure EventInterceptInfo where
  listeningServiceId : ServiceId
  interceptorId : ℕ

/-! ## User code -/

/-- The calls the manager makes into user code and the marks it leaves there,
newest first. A `start` says whether every REQUIRED registration has a provider
at that moment, a `stop` whether nobody depends on the service. `takeOut` marks
the moment `dependencyOffline` takes a provider out of a registration's counter,
`erased` a service leaving the table, `completed` a coroutine resumed because the
event it waited for is complete. -/
inductive Call where
  | add (d : ServiceId) (r : ℕ) (p : ServiceId)
  | takeOut (d : ServiceId) (r : ℕ) (p : ServiceId)
  | remove (d : ServiceId) (r : ℕ) (p : ServiceId)
  | start (d : ServiceId) (satisfied : Bool)
  | stop (d : ServiceId) (deserted : Bool)
  | stopped (d : ServiceId)
  | erased (d : ServiceId)
  | resumed (promise : PromiseId)
  | handler (listener : ServiceId) (event : EventId)
  | completed (event : EventId) (promise : PromiseId)
  | tracker (svc : ServiceId) (hash : NameHash) (requester : ServiceId) (registration : ℕ)
  | untracker (svc : ServiceId) (hash : NameHash) (requester : ServiceId)
  | function (event : EventId)
  | preIntercept (interceptorId : ℕ) (event : EventId) (type : EventType)
  | postIntercept (interceptorId : ℕ) (event : EventId) (type : EventType) (processed : Bool)
  deriving DecidableEq

inductive StartAnswer where
  | started | failed | suspended
  deriving DecidableEq

inductive GeneratorAnswer where
  | done | suspended | yielded
  deriving DecidableEq

/-- How user code answers: the `n`-th call into user code is answered by the
value at `n`. `stop` is true when `stop()` suspends, `coalesces` when a coroutine
that is resumed because its event is complete at once waits for another event of
the same type and service and coalesces. -/
structure UserCode where
  start : ℕ → StartAnswer
  stop : ℕ → Bool
  generator : ℕ → GeneratorAnswer
  preIntercept : ℕ → Bool
  coalesces : ℕ → Bool

/-! ## The manager -/

/-- The fields of `DependencyManager` that its event handling reads or writes,
with the event queue, the id counters, the calls made so far and the states that
services were set to, both newest first. -/
structure DependencyManager where
  services : Table ServiceId LifecycleManager
  dependencyRequestTrackers : Table NameHash (List ServiceId)
  eventCallbacks : Table EventType (List EventCallbackInfo)
  eventInterceptors : Table (Option EventType) (List EventInterceptInfo)
  scopedGenerators : Table PromiseId ScopedGenerator
  eventWaiters : Table EventId EventWaiter
  /-- The coroutines whose `AsyncManualResetEvent` was destroyed while they waited for it. -/
  abandoned : List PromiseId
  dependencyWaiters : Table ServiceId EventWaiter
  pendingStopsDueToCoroutine : Table ServiceId WaitingStopService
  pendingStopsDueToDependencies : Table ServiceId (List WaitingStopService)
  quitEventReceived : Bool
  quitDone : Bool
  /-- The two locals of `processEvent` that its helpers prune. -/
  allEventInterceptorsCopy : List EventInterceptInfo
  eventInterceptorsCopy : List EventInterceptInfo
  queue : List Event
  nextEventId : EventId
  nextPromiseId : PromiseId
  nextServiceId : ServiceId
  nextInterceptorId : ℕ
  trace : List Call

end Ichor
