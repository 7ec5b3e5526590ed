import Ichor.Model.State
import Mathlib.Algebra.GroupWithZero.Nat

/-! The lifecycle managers: starting and stopping a service, injecting a
provider, and the coroutine that takes a provider out of a dependent again. -/
namespace Ichor.DependencyManager

/-! ## Starting and stopping -/

/-- `AdvancedService::internal_start`; `none` is a `start()` that suspended. -/
def internalStart (s : DependencyManager) (u : UserCode) (d : ServiceId) (m : LifecycleManager)
    (dependencies : Option DependencyRegister) : DependencyManager × Option StartBehaviour :=
  if m.state ≠ .installed || (dependencies.any fun reg => !reg.allSatisfied) then (s, some .done)
  else
    let s := (s.setState d .starting).call (.start d m.registry.allSatisfied)
    match u.start s.trace.length with
    | .started => (s.setState d .injecting, some .done)
    | .failed => (s.setState d .installed, some .stopped)
    | .suspended => (s, none)

/-- `start` of the lifecycle manager classes. -/
def start (s : DependencyManager) (u : UserCode) (d : ServiceId) (m : LifecycleManager) :
    DependencyManager × Option StartBehaviour :=
  match m.kind with
  | .dependency => s.internalStart u d m (some m.registry)
  | .plain => s.internalStart u d m none
  | .internal => (s.setState d .active, some .done)

/-- `startAfterDependencyOnline`: as `start` without looking at the register
again, and a start that is done reports STARTED. -/
def startAfterDependencyOnline (s : DependencyManager) (u : UserCode) (d : ServiceId)
    (m : LifecycleManager) : DependencyManager × Option StartBehaviour :=
  match s.internalStart u d m none with
  | (s, some .done) => (s, some .started)
  | other => other

/-- `stop`; the outer `none` is the check that ends the program unless the
service is UNINJECTING, the inner one a `stop()` that suspended. -/
def stop (s : DependencyManager) (u : UserCode) (d : ServiceId) (m : LifecycleManager) :
    Option (DependencyManager × Option StartBehaviour) :=
  match m.kind with
  | .internal => some (s.setState d .installed, some .done)
  | _ =>
    if m.state ≠ .uninjecting then none
    else
      let s := (s.setState d .stopping).call (.stop d m.serviceIdsOfDependees.isEmpty)
      if u.stop s.trace.length then some (s, none)
      else some ((s.setState d .installed).call (.stopped d), some .done)

/-! ## Injecting a provider -/

/-- `injectIntoSelfDoubleDispatch`, with `insertSelfInto` of the provider: the
add function of the registration is called and the provider notes its dependee. -/
def injectIntoSelfDoubleDispatch (s : DependencyManager) (d : ServiceId) (r : ℕ) (p : ServiceId) :
    DependencyManager :=
  (s.call (.add d r p)).modifyService p fun m =>
    { m with serviceIdsOfDependees := insertId d m.serviceIdsOfDependees }

/-- The body of the loop over the provider's interfaces in `dependencyOnline`. -/
def dependencyOnlineInterface (d p : ServiceId) (acc : DependencyManager × DependencyChange)
    (interface : NameHash) : DependencyManager × DependencyChange :=
  let s := acc.1
  match (s.registryOf d).find interface false with
  | none => acc
  | some r =>
    let interested :=
      if ((s.registryOf d)[r]?.any fun dep => decide (dep.satisfied = 0)) then .found else acc.2
    let s := s.modifyService d fun m =>
      { m with
        serviceIdsOfInjectedDependencies := insertId p m.serviceIdsOfInjectedDependencies }
    let s := s.injectIntoSelfDoubleDispatch d r p
    let s := s.modifyService d fun m =>
      { m with registry := m.registry.modify r fun dep => { dep with satisfied := dep.satisfied + 1 } }
    (s, interested)

/-- `dependencyOnline` of the manager `d` for a provider with the given interfaces. -/
def dependencyOnline (s : DependencyManager) (d p : ServiceId) (interfaces : List NameHash) :
    DependencyManager × StartBehaviour :=
  match s.services.get? d with
  | none => (s, .done)
  | some m =>
    if m.kind ≠ .dependency || p ∈ m.serviceIdsOfInjectedDependencies then (s, .done)
    else
      let out := interfaces.foldl (dependencyOnlineInterface d p) (s, .notFound)
      if out.2 = .found && decide ((out.1.stateOf d).rank ≤ ServiceState.installed.rank) &&
          (out.1.registryOf d).allSatisfied then (out.1, .started)
      else (out.1, .done)

/-! ## Taking a provider out -/

/-- `interestedInDependencyGoingOffline`: the registrations of `d` that the
interfaces of the provider lead to. -/
def interestedInDependencyGoingOffline (s : DependencyManager) (d p : ServiceId) : List ℕ :=
  match s.services.get? d, s.services.get? p with
  | some md, some mp =>
    if md.kind ≠ .dependency || p ∉ md.serviceIdsOfInjectedDependencies ||
        p ∈ md.serviceIdsOfInjectedDependenciesButGoingAway then []
    else mp.interfaces.filterMap fun interface => md.registry.find interface true
  | _, _ => []

/-- `dep->satisfied--` with the check for wrap-around; the flag is
`requiredDepWentAway`. -/
def decrementSatisfied (s : DependencyManager) (d : ServiceId) (r : ℕ) (p : ServiceId) :
    Option (DependencyManager × Bool) :=
  match (s.registryOf d)[r]? with
  | none => none
  | some dep =>
    if dep.satisfied = 0 then none
    else
      some ((s.call (.takeOut d r p)).modifyService d fun m =>
        { m with
          registry := m.registry.modify r fun dep => { dep with satisfied := dep.satisfied - 1 } },
        dep.flags.required && decide (dep.satisfied - 1 = 0))

/-- What the second half of the loop body of `dependencyOffline` comes to: a
wait for the dependent's own DependencyOfflineEvent, or the new locals. -/
inductive OfflineStop where
  | wait (wasActive : Bool)
  | go (interested : DependencyChange) (ret : StartBehaviour)

def offlineStop (s : DependencyManager) (d : ServiceId) (promise : PromiseId)
    (requiredDepWentAway : Bool) (interested : DependencyChange) (ret : StartBehaviour) :
    DependencyManager × OfflineStop :=
  if requiredDepWentAway && interested ≠ .foundAndStopMe &&
      (s.stateOf d = .active || s.stateOf d = .uninjecting) then
    if s.stateOf d = .active then
      let s :=
        if s.hasDependencyWaiter d .dependencyOffline then s
        else s.pushPrioritisedEvent d (internalDependencyEventPriority - 1)
          (.dependencyOffline false)
      (s.waitForService d .dependencyOffline promise, .wait true)
    else if s.hasDependencyWaiter d .dependencyOffline then
      (s.waitForService d .dependencyOffline promise, .wait false)
    else (s, .go .foundAndStopMe .stopMe)
  else if interested ≠ .foundAndStopMe then (s, .go .found ret)
  else (s, .go interested ret)

inductive OfflineResult where
  | suspended (point : OfflinePoint)
  | finished (ret : StartBehaviour)

/-- The loop of `dependencyOffline` over the registrations that are left;
`none` ends the program. -/
def offlineLoop (d p : ServiceId) (promise : PromiseId) : List ℕ → DependencyChange →
    StartBehaviour → DependencyManager → Option (DependencyManager × OfflineResult)
  | [], _, ret, s => some (s, .finished ret)
  | r :: rest, interested, ret, s =>
    match s.decrementSatisfied d r p with
    | none => none
    | some (s, requiredDepWentAway) =>
      if requiredDepWentAway && (s.stateOf d = .starting || s.stateOf d = .injecting) then
        some (s.waitForService d .dependencyOnline promise,
          .suspended (.awaitOnline rest interested ret))
      else
        match s.offlineStop d promise requiredDepWentAway interested ret with
        | (s, .wait wasActive) => some (s, .suspended (.awaitOffline wasActive rest ret))
        | (s, .go interested ret) => offlineLoop d p promise rest interested ret s

/-- `dependencyOffline` up to its first suspension or its end. -/
def dependencyOffline (s : DependencyManager) (d p : ServiceId) (promise : PromiseId)
    (deps : List ℕ) : Option (DependencyManager × OfflineResult) :=
  offlineLoop d p promise deps .notFound .done (s.modifyService d fun m =>
      { m with
        serviceIdsOfInjectedDependenciesButGoingAway :=
          insertId p m.serviceIdsOfInjectedDependenciesButGoingAway })

/-- `dependencyOffline` after the wait at `point` was answered. -/
def resumeOffline (s : DependencyManager) (d p : ServiceId) (promise : PromiseId) :
    OfflinePoint → Option (DependencyManager × OfflineResult)
  | .awaitOnline rest interested ret =>
    if s.stateOf d ≠ .active then none
    else
      match s.offlineStop d promise true interested ret with
      | (s, .wait wasActive) => some (s, .suspended (.awaitOffline wasActive rest ret))
      | (s, .go interested ret) => offlineLoop d p promise rest interested ret s
  | .awaitOffline wasActive rest ret =>
    if wasActive && !(s.dependeesOf d).isEmpty then none
    else if s.stateOf d = .uninjecting then
      offlineLoop d p promise rest .foundAndStopMe .stopMe s
    else offlineLoop d p promise rest .found ret s

/-- `removeSelfIntoDoubleDispatch`, with `removeSelfInto` of the provider. -/
def removeSelfIntoDoubleDispatch (d p : ServiceId) (s : DependencyManager) (r : ℕ) :
    DependencyManager :=
  (s.call (.remove d r p)).modifyService p fun m =>
    { m with serviceIdsOfDependees := eraseId d m.serviceIdsOfDependees }

def finishDependencyOffline (s : DependencyManager) (d p : ServiceId) (deps : List ℕ) :
    DependencyManager :=
  (deps.foldl (removeSelfIntoDoubleDispatch d p) s).modifyService d fun m =>
    { m with
      serviceIdsOfInjectedDependenciesButGoingAway :=
        eraseId p m.serviceIdsOfInjectedDependenciesButGoingAway
      serviceIdsOfInjectedDependencies := eraseId p m.serviceIdsOfInjectedDependencies }

/-! ## Waiters -/

def OfflinePoint.remaining : OfflinePoint → ℕ
  | .awaitOnline rest _ _ => rest.length
  | .awaitOffline _ rest _ => rest.length

def remainingWaits (s : DependencyManager) : ℕ :=
  (s.scopedGenerators.entries.map fun e =>
    match e.2.generator.coroutine with
    | .dependencyOffline _ point => OfflinePoint.remaining point + 1
    | _ => 0).sum

/-- `AsyncManualResetEvent::set` for one waiting coroutine. A `dependencyOffline`
runs on at once; when it ends its `co_return` queues the continuation. User
code that was waiting is free to go on from here. -/
def setWaiter (s : DependencyManager) (promise : PromiseId) : Option DependencyManager :=
  let s := s.call (.resumed promise)
  match s.scopedGenerators.get? promise with
  | none => some s
  | some g =>
    match g.generator.coroutine with
    | .dependencyOffline p point =>
      match s.resumeOffline g.generator.serviceId p promise point with
      | none => none
      | some (s, .suspended point) =>
        some (s.modifyGenerator promise fun g => { g with coroutine := .dependencyOffline p point })
      | some (s, .finished ret) =>
        some ((s.modifyGenerator promise fun g => { g with state := .finished ret }).pushPrioritisedEvent
          g.generator.serviceId g.generator.priority (.continuableStart promise))
    | _ => some s

def takeWaiters (s : DependencyManager) (id : ServiceId) (type : EventType) : DependencyManager :=
  { s with
    dependencyWaiters := s.dependencyWaiters.modify id fun w =>
      { w with events := w.events.filter fun e => decide (e.1 ≠ type) } }

/-- The `do … while` of `finishWaitingService`. A round that sets a waiter can
register another one for the same service, each time with fewer registrations
left in its loop, which bounds the number of rounds. -/
def finishWaitingRounds (id : ServiceId) (type : EventType) :
    ℕ → DependencyManager → Option DependencyManager
  | 0, _ => none
  | n + 1, s =>
    let evts := ((s.waitersOf id).filter fun w => decide (w.1 = type)).map Prod.snd
    if evts.isEmpty then some s
    else (evts.foldlM setWaiter (s.takeWaiters id type)).bind (finishWaitingRounds id type n)

def finishWaitingService (s : DependencyManager) (id : ServiceId) (type : EventType) :
    Option DependencyManager :=
  match s.dependencyWaiters.get? id with
  | none => some s
  | some _ =>
    (finishWaitingRounds id type (s.remainingWaits + 2) s).map fun s =>
      if (s.waitersOf id).isEmpty then { s with dependencyWaiters := s.dependencyWaiters.erase id }
      else s

/-- The `set` of one waiter of a complete event. Its coroutine runs on before the
entry of the event is erased: one that coalesces onto that entry is not seen by
the loop any more, and the erasure destroys what it waits for. -/
def completeWaiter (u : UserCode) (id : EventId) (s : DependencyManager)
    (waiter : EventType × PromiseId) : DependencyManager :=
  let s := s.call (.completed id waiter.2)
  if u.coalesces s.trace.length then { s with abandoned := s.abandoned ++ [waiter.2] } else s

def handleEventCompletion (s : DependencyManager) (u : UserCode) (e : Event) : DependencyManager :=
  match s.eventWaiters.get? e.id with
  | none => s
  | some w =>
    let s := w.events.foldl (completeWaiter u e.id) s
    { s with eventWaiters := s.eventWaiters.erase e.id }

end Ichor.DependencyManager
