import Ichor.Model.Lifecycle

/-! `DependencyManager::processEvent`: one definition for each branch of its
switch, in the order of the source. `none` is a call of `std::terminate`; the
checks of a hardened build, the default, are on. -/
namespace Ichor.DependencyManager
open FiniteTable

/-- A handled event: the manager, whether the event was moved into a stored
generator, the number of handlers that saw it, and whether the branch ends with
`checkIfCanQuit`, which is then the last thing it does. -/
structure Handled where
  manager : DependencyManager
  moved : Bool
  handlerAmount : ℕ
  check : Bool

def asHandled (s : DependencyManager) : Handled := ⟨s, false, 1, false⟩

def thenCheck (s : DependencyManager) : Handled := ⟨s, false, 1, true⟩

/-! ## Generators of user code -/

/-- Call user code that returns an `AsyncGenerator<IchorBehaviour>`, up to its end
or its first suspension; a `co_yield` queues the continuation. -/
def beginGenerator (s : DependencyManager) (u : UserCode) (c : Call) (svc : ServiceId)
    (priority : ℕ) : DependencyManager × Option GeneratorState :=
  let promise := s.nextPromiseId
  let s := (s.call c).takePromiseId
  match u.generator s.trace.length with
  | .done => (s, none)
  | .suspended => (s, some .suspended)
  | .yielded => (s.pushPrioritisedEvent svc priority (.continuable promise), some .yielded)

/-- Begin a generator and store it unless it finished; `true` when it was stored. -/
def runGenerator (s : DependencyManager) (u : UserCode) (c : Call) (svc : ServiceId) (priority : ℕ)
    (e : Event) (eventRef : Option ℕ) : DependencyManager × Bool :=
  let promise := s.nextPromiseId
  match s.beginGenerator u c svc priority with
  | (s, none) => (s, false)
  | (s, some st) =>
    (s.scopeGenerator promise ⟨⟨svc, priority, .user, st⟩, e, eventRef.getD promise⟩, true)

/-! ## Registrations and removal -/

def clearServiceRegistrations (s : DependencyManager) (svc : ServiceId) : DependencyManager :=
  { s with
    dependencyRequestTrackers := s.dependencyRequestTrackers.mapFilter
      (fun infos => infos.filter fun info => decide (info ≠ svc)) fun infos => !infos.isEmpty
    eventCallbacks := s.eventCallbacks.mapFilter
      (fun infos => infos.filter fun info => decide (info.listeningServiceId ≠ svc))
      fun infos => !infos.isEmpty
    eventInterceptors := s.eventInterceptors.mapFilter
      (fun infos => infos.filter fun info => decide (info.listeningServiceId ≠ svc))
      fun infos => !infos.isEmpty
    allEventInterceptorsCopy :=
      s.allEventInterceptorsCopy.filter fun info => decide (info.listeningServiceId ≠ svc)
    eventInterceptorsCopy :=
      s.eventInterceptorsCopy.filter fun info => decide (info.listeningServiceId ≠ svc) }

/-- The stored events that forbid removing a service. -/
def ScopedGenerator.keeps (svc : ServiceId) (g : ScopedGenerator) : Bool :=
  match g.event.body with
  | .startService id => decide (g.event.originatingService = svc) || decide (id = svc)
  | .continuableDependencyOffline offline _ _ => decide (offline = svc)
  | .dependencyOffline _ => false
  | .stopService _ _ => false
  | _ => decide (g.event.originatingService = svc)

def preInterceptCopies (s : DependencyManager) (e : EventId) (type : EventType) :
    DependencyManager :=
  (s.allEventInterceptorsCopy ++ s.eventInterceptorsCopy).foldl
    (fun s info => s.call (.preIntercept info.interceptorId e type)) s

def postInterceptCopies (s : DependencyManager) (e : EventId) (type : EventType)
    (processed : Bool) : DependencyManager :=
  (s.allEventInterceptorsCopy ++ s.eventInterceptorsCopy).foldl
    (fun s info => s.call (.postIntercept info.interceptorId e type processed)) s

/-- One tracker sees a DependencyUndoRequestEvent; the counter is `handlerAmount`. -/
def untrack (u : UserCode) (hash : NameHash) (removed : ServiceId) (acc : DependencyManager × ℕ)
    (svc : ServiceId) : Option (DependencyManager × ℕ) :=
  match acc.1.services.get? svc with
  | none => none
  | some m =>
    if decide (m.state.rank ≥ ServiceState.uninjecting.rank) ||
        decide (m.state.rank ≤ ServiceState.installed.rank) then some acc
    else
      let promise := acc.1.nextPromiseId
      let priority := internalDependencyEventPriority
      match acc.1.beginGenerator u (.untracker svc hash removed) svc priority with
      | (s, none) => some (s, acc.2 + 1)
      | (s, some st) =>
        some (s.takeEventId.scopeGenerator promise ⟨⟨svc, priority, .user, st⟩,
            ⟨s.nextEventId, svc, priority, .dependencyUndoRequest hash⟩, promise⟩, acc.2 + 1)

/-- The undo request for one registration of a service that is being removed. -/
def undoRequest (u : UserCode) (removed : ServiceId) (s : DependencyManager) (dep : Registration) :
    Option DependencyManager :=
  let id := s.nextEventId
  let s := s.takeEventId.preInterceptCopies id .dependencyUndoRequest
  let trackers := (s.dependencyRequestTrackers.get? dep.interfaceNameHash).getD []
  (trackers.foldlM (untrack u dep.interfaceNameHash removed) (s, 0)).map fun out =>
    out.1.postInterceptCopies id .dependencyUndoRequest (decide (out.2 > 0))

def removeInternalService (s : DependencyManager) (u : UserCode) (svc : ServiceId) :
    Option DependencyManager :=
  match s.services.get? svc with
  | none => none
  | some m =>
    if !m.serviceIdsOfDependees.isEmpty || !m.serviceIdsOfInjectedDependencies.isEmpty ||
        s.scopedGenerators.entries.any fun e => ScopedGenerator.keeps svc e.2 then none
    else
      ((if m.kind = .dependency then m.registry else []).foldlM (undoRequest u svc) s).map fun s =>
        { s with
          dependencyRequestTrackers := s.dependencyRequestTrackers.mapFilter
            (fun infos => infos.filter fun info => decide (info ≠ svc)) fun infos => !infos.isEmpty
          services := s.services.erase svc
          trace := .erased svc :: s.trace }

/-! ## Quitting -/

def allServicesStopped (s : DependencyManager) : Bool :=
  s.services.entries.all fun e => e.2.isInternalManager || decide (e.2.state = .installed)

/-- `checkIfCanQuit`. -/
def checkIfCanQuit (s : DependencyManager) : Option DependencyManager :=
  if s.quitEventReceived && !s.quitDone && s.scopedGenerators.isEmpty && s.allServicesStopped then
    if !s.eventWaiters.isEmpty || !s.dependencyWaiters.isEmpty || !s.scopedGenerators.isEmpty then
      none
    else
      some { s with
        services := Table.empty
        allEventInterceptorsCopy := []
        eventInterceptorsCopy := []
        quitDone := true }
  else some s

/-! ## DependencyOnlineEvent -/

/-- `startAfterDependencyOnline` and what becomes of its generator. -/
def startDependent (s : DependencyManager) (u : UserCode) (d : ServiceId) (priority : ℕ) :
    DependencyManager :=
  match s.services.get? d with
  | none => s
  | some m =>
    let promise := s.nextPromiseId
    match s.takePromiseId.startAfterDependencyOnline u d m with
    | (s, none) =>
      s.takeEventId.scopeGenerator promise
        ⟨⟨d, min m.priority internalDependencyEventPriority, .startAfterDependencyOnline, .suspended⟩,
          ⟨s.nextEventId, d, priority, .dependencyOnline⟩, promise⟩
    | (s, some .started) => s.pushPrioritisedEvent d priority .dependencyOnline
    | (s, some _) => s

def onlineDependent (u : UserCode) (e : Event) (s : DependencyManager) (d : ServiceId) :
    DependencyManager :=
  match s.services.get? e.originatingService, s.services.get? d with
  | some mp, some md =>
    if d = e.originatingService || !mp.accepts md then s
    else
      match s.dependencyOnline d e.originatingService mp.interfaces with
      | (s, .done) => s
      | (s, _) => s.startDependent u d (min internalDependencyEventPriority e.priority)
  | _, _ => s

def handleDependencyOnline (s : DependencyManager) (u : UserCode) (e : Event) :
    Option DependencyManager :=
  match s.services.get? e.originatingService with
  | none => some s
  | some m =>
    if m.state ≠ .injecting then some s
    else
      ((s.setState e.originatingService .active).finishWaitingService e.originatingService
        .dependencyOnline).map fun s =>
          let s :=
            if m.interfaces.isEmpty then s else s.services.keys.foldl (onlineDependent u e) s
          if s.quitEventReceived then
            s.pushPrioritisedEvent e.originatingService
              (min internalDependencyEventPriority e.priority)
              (.stopService e.originatingService true)
          else s

/-! ## DependencyOfflineEvent -/

/-- What `dependencyOffline` of one dependee leads to. -/
def offlineDependee (e : Event) (remove : Bool) (s : DependencyManager) (d : ServiceId) :
    Option DependencyManager :=
  match s.services.get? d with
  | none => none
  | some md =>
    let p := e.originatingService
    let priority := min md.priority internalDependencyEventPriority
    let depIts := s.interestedInDependencyGoingOffline d p
    if depIts.isEmpty then some s
    else
      let promise := s.nextPromiseId
      match s.takePromiseId.dependencyOffline d p promise depIts with
      | none => none
      | some (s, .suspended point) =>
        some (s.takeEventId.scopeGenerator promise
          ⟨⟨d, priority, .dependencyOffline p point, .suspended⟩,
            ⟨s.nextEventId, d, priority, .continuableDependencyOffline p remove depIts⟩, promise⟩)
      | some (s, .finished .stopMe) =>
        let waitingSvcs := (s.pendingStopsDueToDependencies.get? d).getD []
        let s :=
          if waitingSvcs.isEmpty then s.pushPrioritisedEvent p priority (.stopService d remove)
          else s
        some { s with
          pendingStopsDueToDependencies := s.pendingStopsDueToDependencies.put d
            (waitingSvcs ++ [⟨p, priority, remove, depIts⟩]) }
      | some (_, .finished .stopped) => none
      | some (s, .finished .done) => some (s.finishDependencyOffline d p depIts)
      | some (s, .finished .started) => some s

def handleDependencyOffline (s : DependencyManager) (e : Event) (remove : Bool) :
    Option DependencyManager :=
  let p := e.originatingService
  match s.services.get? p with
  | none => some s
  | some m =>
    if m.state ≠ .active then some s
    else
      (m.serviceIdsOfDependees.foldlM (offlineDependee e remove) (s.setState p .uninjecting)).bind
        fun s =>
          if (s.dependeesOf p).isEmpty then
            (s.finishWaitingService p .dependencyOffline).map fun s =>
              s.pushPrioritisedEvent p (min e.priority internalDependencyEventPriority)
                (.stopService p remove)
          else some s

/-! ## DependencyRequestEvent, QuitEvent and InsertServiceEvent -/

def handleDependencyRequest (s : DependencyManager) (u : UserCode) (e : Event) (hash : NameHash)
    (registration : ℕ) : Handled :=
  let ref := s.nextPromiseId
  let out := ((s.dependencyRequestTrackers.get? hash).getD []).foldl (fun acc svc =>
    let out := acc.1.runGenerator u (.tracker svc hash e.originatingService registration) svc
      e.priority e (some ref)
    (out.1, acc.2 || out.2)) (s, false)
  ⟨out.1, out.2, 1, false⟩

def quitService (e : Event) (s : DependencyManager) (id : ServiceId) : DependencyManager :=
  match s.services.get? id with
  | none => s
  | some m =>
    if m.state = .active && !m.isInternalManager then
      (m.serviceIdsOfDependees ++ [id]).foldl (fun s svc =>
        s.pushPrioritisedEvent e.originatingService
          (max m.priority internalDependencyEventPriority) (.stopService svc true)) s
    else s

def handleQuit (s : DependencyManager) (e : Event) : Handled :=
  (s.services.keys.foldl (quitService e) { s with quitEventReceived := true }).thenCheck

/-- One candidate provider for a service that was just inserted. -/
def insertProvider (u : UserCode) (e : Event) (d : ServiceId) (s : DependencyManager)
    (p : ServiceId) : DependencyManager :=
  match s.services.get? p, s.services.get? d with
  | some mp, some md =>
    if mp.state ≠ .active || mp.interfaces.isEmpty || !mp.accepts md then s
    else
      match s.dependencyOnline d p mp.interfaces with
      | (s, .done) => s
      | (s, _) => s.startDependent u d (min internalDependencyEventPriority e.priority)
  | _, _ => s

/-- The interface of `IServiceInterestedLifecycleManager`. -/
def iServiceHash : NameHash := 0

def handleInsertService (s : DependencyManager) (u : UserCode) (e : Event)
    (mgr : LifecycleManager) : DependencyManager :=
  let d := e.originatingService
  let s := { s with services := s.services.emplace d mgr }
  let s :=
    match s.dependencyOnline d selfServiceId [iServiceHash] with
    | (s, .started) => s.startDependent u d (min internalDependencyEventPriority e.priority)
    | (s, _) => s
  if mgr.kind ≠ .dependency || mgr.registry.isEmpty then s
  else s.services.keys.foldl (insertProvider u e d) s

/-! ## StopServiceEvent -/

/-- A provider that waited for the stop of `d` gets its remove call, and its own
stop once nobody depends on it any more. -/
def finishPendingStop (e : Event) (d : ServiceId) (s : DependencyManager)
    (w : WaitingStopService) : Option DependencyManager :=
  match s.services.get? w.originatingServiceId with
  | none => none
  | some _ =>
    let s := s.finishDependencyOffline d w.originatingServiceId w.deps
    some (if (s.dependeesOf w.originatingServiceId).isEmpty then
      s.pushPrioritisedEvent d (min internalCoroutineEventPriority e.priority)
        (.stopService w.originatingServiceId w.removeAfter)
    else s)

/-- The dependencies that are left forget the stopped service, and it forgets them. -/
def clearDependencies (s : DependencyManager) (d : ServiceId) : DependencyManager :=
  ((s.dependenciesOf d).foldl (fun s p => s.modifyService p fun m =>
      { m with serviceIdsOfDependees := eraseId d m.serviceIdsOfDependees }) s).modifyService d
    fun m => { m with serviceIdsOfInjectedDependencies := [] }

/-- Everything that follows a completed `stop()`, up to the check for quitting.
The synchronous and the continued branch run the same code. -/
def finishStop (s : DependencyManager) (u : UserCode) (e : Event) (d : ServiceId)
    (removeAfter : Bool) : Option DependencyManager :=
  (((s.pendingStopsDueToDependencies.get? d).getD []).foldlM (finishPendingStop e d) s).bind
    fun s =>
      let s := { s with
        pendingStopsDueToDependencies := s.pendingStopsDueToDependencies.erase d }
      let s := (s.clearDependencies d).clearServiceRegistrations d
      if removeAfter then s.removeInternalService u d else some s

/-- The part of the StopServiceEvent branch behind the early exits. -/
def carryOutStop (s : DependencyManager) (u : UserCode) (e : Event) (d : ServiceId)
    (removeAfter : Bool) : Option Handled :=
  match s.services.get? d with
  | none => some s.asHandled
  | some m =>
    if m.serviceIdsOfDependees.isEmpty && m.state = .uninjecting then
      let promise := s.nextPromiseId
      match s.takePromiseId.stop u d m with
      | none => none
      | some (s, none) =>
        some ⟨s.scopeGenerator promise
          ⟨⟨d, min m.priority internalDependencyEventPriority, .stop, .suspended⟩, e, promise⟩,
          true, 1, false⟩
      | some (s, some _) => (s.finishStop u e d removeAfter).map thenCheck
    else if m.state ≠ .uninjecting then
      some (s.pushPrioritisedEvent d e.priority (.dependencyOffline removeAfter)).asHandled
    else some s.asHandled

def handleStopService (s : DependencyManager) (u : UserCode) (e : Event) (d : ServiceId)
    (removeAfter : Bool) : Option Handled :=
  match s.services.get? d with
  | none => some s.asHandled
  | some m =>
    if m.state = .installed || m.state = .stopping then some s.asHandled
    else
      let waiting := s.dependencyWaiters.contains d
      if waiting && (!m.serviceIdsOfDependees.isEmpty || m.state ≠ .uninjecting) then
        some s.asHandled
      else
        (if waiting then s.finishWaitingService d .dependencyOffline else some s).bind fun s =>
          if s.existingCoroutineFor d then
            some { s with
              pendingStopsDueToCoroutine := s.pendingStopsDueToCoroutine.emplace d
                ⟨e.originatingService, e.priority, removeAfter, []⟩ }.asHandled
          else s.carryOutStop u e d removeAfter

/-! ## StartServiceEvent and RemoveServiceEvent -/

def handleStartService (s : DependencyManager) (u : UserCode) (e : Event) (d : ServiceId) :
    Handled :=
  match s.services.get? d with
  | none => s.asHandled
  | some m =>
    if m.state = .active || m.state = .starting || m.state = .injecting then s.asHandled
    else
      let promise := s.nextPromiseId
      match s.takePromiseId.start u d m with
      | (s, none) =>
        ⟨s.scopeGenerator promise
          ⟨⟨d, min m.priority internalDependencyEventPriority, .start, .suspended⟩, e, promise⟩,
          true, 1, false⟩
      | (s, some _) =>
        if s.stateOf d = .installed then s.asHandled
        else
          let priority := min internalDependencyEventPriority e.priority
          let s := s.pushPrioritisedEvent d priority .dependencyOnline
          (if s.quitEventReceived then s.pushPrioritisedEvent d priority (.stopService d true)
          else s).asHandled

def handleRemoveService (s : DependencyManager) (u : UserCode) (d : ServiceId) :
    Option DependencyManager :=
  match s.services.get? d with
  | none => some s
  | some m =>
    if m.state ≠ .installed || !m.serviceIdsOfDependees.isEmpty ||
        !m.serviceIdsOfInjectedDependencies.isEmpty then some s
    else s.removeInternalService u d

/-! ## Registrations -/

def handleRemoveEventHandler (s : DependencyManager) (listener : ServiceId) (type : EventType) :
    DependencyManager :=
  { s with
    eventCallbacks := s.eventCallbacks.modify type fun infos =>
      infos.filter fun info => decide (info.listeningServiceId ≠ listener) }

def handleRemoveEventInterceptor (s : DependencyManager) (id : ℕ) (type : Option EventType) :
    DependencyManager :=
  { s with
    eventInterceptors := s.eventInterceptors.modify type fun infos =>
      infos.filter fun info => decide (info.interceptorId ≠ id) }

/-- A new tracker sees every request for its interface that is already there. The
requests are made up on the spot, with event id zero. -/
def handleAddTracker (s : DependencyManager) (u : UserCode) (e : Event) (hash : NameHash) :
    DependencyManager :=
  if e.originatingService ∈ (s.dependencyRequestTrackers.get? hash).getD [] then
    let requests : List (ServiceId × ℕ × ℕ) := s.services.entries.flatMap fun entry =>
      ((if entry.2.kind = .dependency then entry.2.registry.zipIdx else []).filter fun dep =>
        dep.1.interfaceNameHash == hash).map fun dep =>
          (entry.1, min entry.2.priority internalDependencyEventPriority, dep.2)
    requests.foldl (fun s request =>
      (s.runGenerator u (.tracker e.originatingService hash request.1 request.2.2)
        e.originatingService e.priority
        ⟨0, request.1, request.2.1, .dependencyRequest hash request.2.2⟩ none).1) s
  else s

def handleRemoveTracker (s : DependencyManager) (e : Event) (hash : NameHash) :
    DependencyManager :=
  match s.dependencyRequestTrackers.get? hash with
  | none => s
  | some infos =>
    let infos := infos.filter fun info => decide (info ≠ e.originatingService)
    { s with
      dependencyRequestTrackers :=
        if infos.isEmpty then s.dependencyRequestTrackers.erase hash
        else s.dependencyRequestTrackers.put hash infos }

/-! ## ContinuableEvent -/

/-- `use_count` of the event that a stored generator works on. -/
def eventUseCount (s : DependencyManager) (eventRef : ℕ) : ℕ :=
  s.scopedGenerators.entries.countP fun e => decide (e.2.eventRef = eventRef)

/-- A finished generator leaves the table; a stop that was put off because of its
service's coroutines is pushed again. -/
def finishGenerator (s : DependencyManager) (u : UserCode) (promise : PromiseId)
    (g : ScopedGenerator) : DependencyManager :=
  let s := if s.eventUseCount g.eventRef = 1 then s.handleEventCompletion u g.event else s
  let id := g.generator.serviceId
  let s :=
    match s.pendingStopsDueToCoroutine.get? id with
    | none => s
    | some w => s.pushPrioritisedEvent w.originatingServiceId
        (min internalDependencyEventPriority w.priority) (.stopService id w.removeAfter)
  s.eraseGenerator promise

def handleContinuable (s : DependencyManager) (u : UserCode) (promise : PromiseId) : Handled :=
  match s.scopedGenerators.get? promise with
  | none => s.asHandled
  | some g =>
    match g.generator.state with
    | .finished _ => (s.finishGenerator u promise g).thenCheck
    | .suspended => s.thenCheck
    | .yielded =>
      match u.generator s.trace.length with
      | .done =>
        ((s.pushPrioritisedEvent g.generator.serviceId g.generator.priority
          (.continuable promise)).finishGenerator u promise g).thenCheck
      | .suspended => (s.modifyGenerator promise fun g => { g with state := .suspended }).thenCheck
      | .yielded => (s.pushPrioritisedEvent g.generator.serviceId g.generator.priority
          (.continuable promise)).thenCheck

/-! ## ContinuableStartEvent -/

/-- A StartServiceEvent whose `start()` had suspended. -/
def continueStart (s : DependencyManager) (u : UserCode) (e orig : Event) (d : ServiceId) :
    DependencyManager :=
  let s := s.pushPrioritisedEvent d (min internalCoroutineEventPriority e.priority) .dependencyOnline
  let s :=
    if s.quitEventReceived then
      s.pushPrioritisedEvent d (min internalDependencyEventPriority e.priority) (.stopService d true)
    else s
  s.handleEventCompletion u orig

/-- A StopServiceEvent whose `stop()` had suspended. -/
def continueStop (s : DependencyManager) (u : UserCode) (promise : PromiseId) (orig : Event)
    (d : ServiceId) (removeAfter : Bool) : Option DependencyManager :=
  match s.services.get? d with
  | none => none
  | some m =>
    if m.state ≠ .installed || !m.serviceIdsOfDependees.isEmpty then none
    else
      (s.finishStop u orig d removeAfter).map fun s =>
        (s.handleEventCompletion u orig).eraseGenerator promise

/-- A `dependencyOffline` of `d` that had suspended while `p` goes offline. -/
def continueOffline (s : DependencyManager) (u : UserCode) (e orig : Event) (p : ServiceId)
    (remove : Bool) (deps : List ℕ) (ret : StartBehaviour) : Option DependencyManager :=
  let d := orig.originatingService
  match s.services.get? p, s.services.get? d with
  | some _, some md =>
    (if ret = .stopMe then
      let waitingSvcs := (s.pendingStopsDueToDependencies.get? d).getD []
      let s :=
        if waitingSvcs.isEmpty || (md.state = .uninjecting && md.serviceIdsOfDependees.isEmpty) then
          s.pushPrioritisedEvent e.originatingService e.priority (.stopService d remove)
        else s
      some { s with
        pendingStopsDueToDependencies := s.pendingStopsDueToDependencies.put d
          (waitingSvcs ++ [⟨p, e.priority, remove, deps⟩]) }
    else
      let s := s.finishDependencyOffline d p deps
      if (s.dependeesOf p).isEmpty then
        (s.pushPrioritisedEvent p (min internalCoroutineEventPriority e.priority)
          (.stopService p remove)).finishWaitingService p .dependencyOffline
      else some s).map fun s => s.handleEventCompletion u orig
  | _, _ => none

def handleContinuableStart (s : DependencyManager) (u : UserCode) (e : Event)
    (promise : PromiseId) : Option Handled :=
  match s.scopedGenerators.get? promise with
  | none => some s.asHandled
  | some g =>
    match g.generator.state with
    | .finished ret =>
      match g.event.body with
      | .startService d => some ((s.continueStart u e g.event d).eraseGenerator promise).asHandled
      | .stopService d removeAfter =>
        (s.continueStop u promise g.event d removeAfter).map thenCheck
      | .dependencyOnline =>
        let s :=
          if ret = .started then
            s.pushPrioritisedEvent g.event.originatingService
              (min internalCoroutineEventPriority e.priority) .dependencyOnline
          else s
        some ((s.handleEventCompletion u g.event).eraseGenerator promise).asHandled
      | .continuableDependencyOffline p remove deps =>
        (s.continueOffline u e g.event p remove deps ret).map fun s =>
          (s.eraseGenerator promise).asHandled
      | _ => none
    | _ => some s.asHandled

/-! ## Run functions and broadcasts -/

/-- Run function events of a service that is gone or stopped are stale. -/
def staleFunction (s : DependencyManager) (e : Event) : Bool :=
  decide (e.originatingService ≠ 0) &&
    match s.services.get? e.originatingService with
    | none => true
    | some m => decide (m.state = .installed)

def handleRunFunction (s : DependencyManager) (e : Event) : DependencyManager :=
  if s.staleFunction e then s else s.call (.function e.id)

def handleRunFunctionAsync (s : DependencyManager) (u : UserCode) (e : Event) : Handled :=
  if s.staleFunction e then s.asHandled
  else
    let out := s.runGenerator u (.function e.id) e.originatingService e.priority e none
    ⟨out.1, out.2, 1, false⟩

/-- A handler is called when its service is ACTIVE or INJECTING and its filter lets
the originating service pass. -/
def broadcastTo (u : UserCode) (e : Event) (ref : ℕ) (acc : DependencyManager × Bool)
    (info : EventCallbackInfo) : DependencyManager × Bool :=
  match acc.1.services.get? info.listeningServiceId with
  | none => acc
  | some m =>
    if (m.state ≠ .active && m.state ≠ .injecting) ||
        (info.filterServiceId.any fun svc => decide (svc ≠ e.originatingService)) then acc
    else
      let out := acc.1.runGenerator u (.handler info.listeningServiceId e.id)
        info.listeningServiceId m.priority e (some ref)
      (out.1, acc.2 || out.2)

def broadcastEvent (s : DependencyManager) (u : UserCode) (e : Event) : Handled :=
  match s.eventCallbacks.get? e.body.type with
  | none => ⟨s, false, 0, false⟩
  | some callbacks =>
    let out := callbacks.foldl (broadcastTo u e s.nextPromiseId) (s, false)
    ⟨out.1, out.2, callbacks.length, false⟩

/-! ## The switch -/

def handle (s : DependencyManager) (u : UserCode) (e : Event) : Option Handled :=
  match e.body with
  | .dependencyOnline => (s.handleDependencyOnline u e).map asHandled
  | .dependencyOffline remove => (s.handleDependencyOffline e remove).map asHandled
  | .dependencyRequest hash registration => some (s.handleDependencyRequest u e hash registration)
  | .quit => some (s.handleQuit e)
  | .insertService mgr => some (s.handleInsertService u e mgr).asHandled
  | .stopService d removeAfter => s.handleStopService u e d removeAfter
  | .startService d => some (s.handleStartService u e d)
  | .removeService d => (s.handleRemoveService u d).map asHandled
  | .removeEventHandler listener type => some (s.handleRemoveEventHandler listener type).asHandled
  | .removeEventInterceptor id type => some (s.handleRemoveEventInterceptor id type).asHandled
  | .addTracker hash => some (s.handleAddTracker u e hash).asHandled
  | .removeTracker hash => some (s.handleRemoveTracker e hash).asHandled
  | .continuable promise => some (s.handleContinuable u promise)
  | .continuableStart promise => s.handleContinuableStart u e promise
  | .runFunction => some (s.handleRunFunction e).asHandled
  | .runFunctionAsync => some (s.handleRunFunctionAsync u e)
  | _ => some (s.broadcastEvent u e)

/-- The interceptors for all events and for the type of this one, copied, and
asked whether the event may be processed. -/
def preIntercept (s : DependencyManager) (u : UserCode) (e : Event) : DependencyManager × Bool :=
  let all := (s.eventInterceptors.get? none).getD []
  let own := (s.eventInterceptors.get? (some e.body.type)).getD []
  (({ s with allEventInterceptorsCopy := all, eventInterceptorsCopy := own }).preInterceptCopies e.id
    e.body.type,
    (all ++ own).all fun info => u.preIntercept info.interceptorId)

/-- What follows the switch: the post interceptors, and the completion of an event
that was not moved away. -/
def finishEvent (s : DependencyManager) (u : UserCode) (e : Event) (h : Handled)
    (allowProcessing : Bool) : DependencyManager :=
  let s := s.postInterceptCopies e.id e.body.type (allowProcessing && decide (h.handlerAmount > 0))
  if h.moved then s else s.handleEventCompletion u e

def processEvent (s : DependencyManager) (u : UserCode) (e : Event) : Option DependencyManager :=
  if s.quitDone then some s
  else
    let (s, allowProcessing) := s.preIntercept u e
    (if allowProcessing then s.handle u e else some s.asHandled).bind fun h =>
      (if h.check then h.manager.checkIfCanQuit else some h.manager).map fun s =>
        s.finishEvent u e h allowProcessing

end Ichor.DependencyManager
