import Ichor.Abstract.Core

/-! The small steps of the lifecycle system. One event handler, or one move of
user code between two events, is a path of these steps. -/
namespace Ichor.Lifecycle
open DependencyManager

/-- What a path of steps started from: the lifecycles, the event that is being
processed if there is one, and whether the interceptors let it pass. -/
structure Origin where
  core : Core
  event : Option Event
  allowed : Bool

/-- The events that the manager and its registration functions queue without
any condition. -/
def Unconditional : EventBody → Prop
  | .dependencyOnline | .startService _ | .dependencyRequest _ _ | .addTracker _ => True
  | _ => False

/-- The handler of the event has nothing to do, or nothing that a lifecycle
depends on. -/
def Ignored (c : Core) (e : Event) : Prop :=
  match e.body with
  | .dependencyOnline => c.state e.originatingService ≠ .injecting
  | .dependencyOffline _ => c.state e.originatingService ≠ .active
  | .stopService d _ =>
    c.state d = .uninstalled ∨ c.state d = .installed ∨ c.state d = .stopping ∨
      (c.state d = .uninjecting ∧ c.HasDependee d) ∨ (c.state d ≠ .uninjecting ∧ c.entry d)
  | .insertService _ | .quit => False
  | .continuable q => ∀ g, c.generator q = some g → g.generator.state = .suspended
  | .continuableStart q => ∀ g v, c.generator q = some g → g.generator.state ≠ .finished v
  | _ => True

/-- The event brings the service `d` into the table. -/
def Inserting (o : Origin) (d : ServiceId) : Prop :=
  ∃ e m, o.event = some e ∧ e.body = .insertService m ∧ e.originatingService = d

/-- A service that may start: `internal_start` is past its checks. -/
structure Startable (c : Core) (d : ServiceId) : Prop where
  idle : c.phase = .idle
  installed : c.state d = .installed
  notInternal : c.kind d ≠ .internal
  satisfied : c.kind d = .dependency → (c.registry d).allSatisfied = true

/-- The generator of a `start()` that suspended. -/
def StartGenerator (d : ServiceId) (g : ScopedGenerator) : Prop :=
  g.generator.serviceId = d ∧ g.generator.state = .suspended ∧
    ((g.generator.coroutine = .start ∧ g.event.body = .startService d) ∨
      (g.generator.coroutine = .startAfterDependencyOnline ∧ g.event.body = .dependencyOnline ∧
        g.event.originatingService = d))

/-- A dependee that the offline handler of `p` has reached, and the registrations
`p` is taken out of there. -/
structure Reached (o : Origin) (c : Core) (p d : ServiceId) (remove : Bool)
    (todo : List ServiceId) (deps : List ℕ) : Prop where
  phase : c.phase = .offline p remove (d :: todo)
  dep : c.dep d p
  notAway : ¬c.away d p
  regs : deps = offlineRegistrations (c.interfaces p) (c.registry d)
  nonempty : deps ≠ []
  ne : d ≠ p
  -- nothing has happened to the dependee since the event was taken from the queue
  sameRegistry : c.registry d = o.core.registry d
  sameState : c.state d = o.core.state d
  sameDep : ∀ x, c.dep d x ↔ o.core.dep d x
  sameAway : ∀ x, c.away d x ↔ o.core.away d x
  sameCalls : ∃ calls : List Call, c.trace = calls ++ o.core.trace ∧
    ∀ r x, Call.add d r x ∉ calls ∧ Call.takeOut d r x ∉ calls ∧ Call.remove d r x ∉ calls

/-- The wait that `dependencyOffline` of `d` enters, and what it queues. -/
inductive Waits (c : Core) (d : ServiceId) : OfflinePoint → List Event → Prop
  | online (left : List ℕ) (interested : DependencyChange) (ret : StartBehaviour)
      (hs : c.state d = .starting ∨ c.state d = .injecting) (hi : interested ≠ .foundAndStopMe) :
      Waits c d (.awaitOnline left interested ret) []
  | queued (left : List ℕ) (ret : StartBehaviour) (hs : c.state d = .active)
      (hw : c.HasOfflineWaiter d) : Waits c d (.awaitOffline true left ret) []
  | active (left : List ℕ) (ret : StartBehaviour) (e : Event) (hs : c.state d = .active)
      (hw : ¬c.HasOfflineWaiter d) (he : e.body = .dependencyOffline false)
      (ho : e.originatingService = d) : Waits c d (.awaitOffline true left ret) [e]
  | uninjecting (left : List ℕ) (ret : StartBehaviour) (hs : c.state d = .uninjecting)
      (hw : c.HasOfflineWaiter d) : Waits c d (.awaitOffline false left ret) []

/-- A queued event exactly when the condition holds. -/
def Queues (condition : Prop) (is : Event → Prop) (events : List Event) : Prop :=
  (condition ∧ ∃ e, is e ∧ events = [e]) ∨ (¬condition ∧ events = [])

def IsStop (d : ServiceId) (remove : Bool) (e : Event) : Prop := e.body = .stopService d remove

def IsOnline (d : ServiceId) (e : Event) : Prop :=
  e.body = .dependencyOnline ∧ e.originatingService = d

def IsOffline (d : ServiceId) (remove : Bool) (e : Event) : Prop :=
  e.body = .dependencyOffline remove ∧ e.originatingService = d

/-- The StopServiceEvent at the head of the queue is about to be carried out or put off. -/
structure AtStop (o : Origin) (c : Core) (e : Event) (q : List Event) (d : ServiceId)
    (remove : Bool) : Prop where
  queue : c.queue = e :: q
  event : o.event = some e
  body : e.body = .stopService d remove
  idle : c.phase = .idle
  noneTaken : c.taken = []
  noneWaiting : c.state d = .uninjecting → ¬c.HasDependee d → ¬c.HasOfflineWaiter d
  noEntry : c.state d ≠ .uninjecting → ¬c.entry d
  sameState : c.state d = o.core.state d
  sameDep : ∀ x, c.dep d x ↔ o.core.dep d x
  samePending : c.pending = o.core.pending
  sameKind : c.kind = o.core.kind
  sameCoroutine : c.HasCoroutine d ↔ o.core.HasCoroutine d
  sameDependee : c.HasDependee d ↔ o.core.HasDependee d

/-- The next event is the continuation of a stored generator. -/
structure AtContinuation (o : Origin) (c : Core) (e : Event) (rest : List Event) (q : PromiseId)
    (g : ScopedGenerator) (body : EventBody) : Prop where
  queue : c.queue = e :: rest
  event : o.event = some e
  body : e.body = body
  idle : c.phase = .idle
  generator : c.generator q = some g

/-- A coroutine of user code that may go on. -/
structure AtUser (o : Origin) (c : Core) (q : PromiseId) (g : ScopedGenerator) : Prop where
  noEvent : o.event = none
  idle : c.phase = .idle
  generator : c.generator q = some g
  suspended : g.generator.state = .suspended
  notWaiting : ∀ d type, (type, q) ∉ c.waiters d

def finished (g : ScopedGenerator) (st : GeneratorState) : ScopedGenerator :=
  { g with generator := { g.generator with state := st } }

def resumedAt (g : ScopedGenerator) (p : ServiceId) (point : OfflinePoint) : ScopedGenerator :=
  { g with generator := { g.generator with coroutine := .dependencyOffline p point } }

def addCalls (d p : ServiceId) (rs : List ℕ) : List Call := (rs.map fun r => Call.add d r p).reverse

def takeOutCalls (d p : ServiceId) (rs : List ℕ) : List Call :=
  (rs.map fun r => Call.takeOut d r p).reverse

def removeCalls (d p : ServiceId) (rs : List ℕ) : List Call :=
  (rs.map fun r => Call.remove d r p).reverse

/-! ## The steps -/

/-- Steps on the queue and steps that no lifecycle takes part in. -/
inductive QueueStep (o : Origin) (c : Core) : Core → Prop
  | permute (queue : List Event) (h : queue.Perm c.queue) : QueueStep o c (c.setQueue queue)
  | quiet (calls : List Call) (h : ∀ call ∈ calls, Call.neutral call = true) :
      QueueStep o c (c.record calls)
  | takePromise : QueueStep o c c.takePromise
  | push (e : Event) (h : Unconditional e.body) : QueueStep o c (c.push [e])
  | request (e : Event) (h : e.body.isRequest = true) (ho : o.event = none) :
      QueueStep o c (c.push [e])
  | create (desc : ServiceDescription) (e : Event) (ho : o.event = none)
      (hb : e.body = .insertService (createdManager c.nextService desc))
      (hs : e.originatingService = c.nextService) :
      QueueStep o c ({ c with nextService := c.nextService + 1 }.push [e])
  | quitStop (e : Event) (d : ServiceId) (hq : c.quitting = true) (he : IsStop d true e) :
      QueueStep o c (c.push [e])
  | veto (e : Event) (rest : List Event) (hq : c.queue = e :: rest) (ho : o.event = some e)
      (ha : o.allowed = false) : QueueStep o c (c.setQueue rest)
  | ignore (e : Event) (rest : List Event) (hq : c.queue = e :: rest) (ho : o.event = some e)
      (hi : Ignored c e) (hp : c.phase = .idle) : QueueStep o c (c.setQueue rest)
  | dead (e : Event) (rest : List Event) (hq : c.queue = e :: rest) (hd : c.quitDone = true) :
      QueueStep o c (c.setQueue rest)

/-- Steps of generators of user code. -/
inductive UserStep (o : Origin) (c : Core) : Core → Prop
  | suspended (g : ScopedGenerator) (hc : g.generator.coroutine = .user)
      (hs : g.generator.state = .suspended) : UserStep o c (c.store g)
  | yielded (g : ScopedGenerator) (e : Event) (hc : g.generator.coroutine = .user)
      (hs : g.generator.state = .yielded) (he : e.body = .continuable c.nextPromise) :
      UserStep o c ((c.store g).push [e])
  | resume (q : PromiseId) (g : ScopedGenerator) (e : Event) (rest : List Event)
      (h : AtContinuation o c e rest q g (.continuable q)) (hs : g.generator.state = .yielded) :
      UserStep o c ((c.setGenerator q (some (finished g .suspended))).setQueue rest)
  | again (q : PromiseId) (g : ScopedGenerator) (e e' : Event) (rest : List Event)
      (h : AtContinuation o c e rest q g (.continuable q)) (hs : g.generator.state = .yielded)
      (he : e'.body = .continuable q) : UserStep o c ((c.setQueue rest).push [e'])
  -- a generator that ends after it yielded queues a continuation that finds nothing any more
  | done (q : PromiseId) (g : ScopedGenerator) (e : Event) (rest stale stops : List Event)
      (h : AtContinuation o c e rest q g (.continuable q)) (hs : g.generator.state ≠ .suspended)
      (hstale : ∀ x ∈ stale, x.body = .continuable q)
      (hp : ∀ w, c.parked g.generator.serviceId = some w →
        ∃ e, IsStop g.generator.serviceId w.removeAfter e ∧ stops = [e])
      (hn : c.parked g.generator.serviceId = none → stops = []) :
      UserStep o c (((c.setGenerator q none).setQueue rest).push (stale ++ stops))
  | finish (q : PromiseId) (g : ScopedGenerator) (e : Event) (v : StartBehaviour)
      (h : AtUser o c q g) (hc : g.generator.coroutine = .user)
      (he : e.body = .continuable q) :
      UserStep o c ((c.setGenerator q (some (finished g (.finished v)))).push [e])
  | yieldAgain (q : PromiseId) (g : ScopedGenerator) (e : Event) (h : AtUser o c q g)
      (hc : g.generator.coroutine = .user) (he : e.body = .continuable q) :
      UserStep o c ((c.setGenerator q (some (finished g .yielded))).push [e])
  | wait (q : PromiseId) (g : ScopedGenerator) (d : ServiceId) (type : EventType)
      (h : AtUser o c q g) (hc : ¬offlineLike g.generator.coroutine)
      (ht : type = .startService ∨ type = .stopService) : UserStep o c (c.wait d type q)

/-- Steps that bring a service into the table or start it. -/
inductive StartStep (o : Origin) (c : Core) : Core → Prop
  | install (e : Event) (rest : List Event) (d : ServiceId) (m : LifecycleManager)
      (desc : ServiceDescription) (hq : c.queue = e :: rest) (ho : o.event = some e)
      (hb : e.body = .insertService m) (hd : e.originatingService = d)
      (hm : m = createdManager d desc) (hs : c.state d = .uninstalled) (hp : c.phase = .idle)
      (hquit : c.quitDone = false) :
      StartStep o c ((c.install d m).setQueue rest)
  | started (d : ServiceId) (e : Event) (h : Startable c d) (he : IsOnline d e) :
      StartStep o c ((((c.setState d .injecting).record
        [.start d (c.registry d).allSatisfied]).takePromise).push [e])
  | failed (d : ServiceId) (h : Startable c d) :
      StartStep o c ((c.record [.start d (c.registry d).allSatisfied]).takePromise)
  | suspended (d : ServiceId) (g : ScopedGenerator) (h : Startable c d) (hg : StartGenerator d g) :
      StartStep o c (((c.setState d .starting).record [.start d (c.registry d).allSatisfied]).store g)
  | internal (d : ServiceId) (hk : c.kind d = .internal)
      (hs : c.state d = .installed ∨ c.state d = .uninjecting) (hp : c.phase = .idle) :
      StartStep o c (c.setState d .active)
  | finishOk (q : PromiseId) (g : ScopedGenerator) (e : Event) (v : StartBehaviour)
      (h : AtUser o c q g)
      (hc : (g.generator.coroutine = .start ∧ v = .done) ∨
        (g.generator.coroutine = .startAfterDependencyOnline ∧ v = .started))
      (he : e.body = .continuableStart q) :
      StartStep o c (((c.setState g.generator.serviceId .injecting).setGenerator q
        (some (finished g (.finished v)))).push [e])
  | finishFail (q : PromiseId) (g : ScopedGenerator) (e : Event) (h : AtUser o c q g)
      (hc : startLike g.generator.coroutine) (he : e.body = .continuableStart q) :
      StartStep o c (((c.setState g.generator.serviceId .installed).setGenerator q
        (some (finished g (.finished .stopped)))).push [e])
  | continueStart (q : PromiseId) (g : ScopedGenerator) (e : Event)
      (rest onlines stops : List Event) (v : StartBehaviour)
      (h : AtContinuation o c e rest q g (.continuableStart q))
      (hs : g.generator.state = .finished v) (hc : startLike g.generator.coroutine)
      (hon : Queues (v ≠ .stopped ∨ g.generator.coroutine = .start)
        (IsOnline g.generator.serviceId) onlines)
      (hst : Queues (c.quitting = true ∧ g.generator.coroutine = .start)
        (IsStop g.generator.serviceId true) stops) :
      StartStep o c (((c.setGenerator q none).setQueue rest).push (onlines ++ stops))

/-- Steps around a service that becomes ACTIVE. -/
inductive OnlineStep (o : Origin) (c : Core) : Core → Prop
  | online (e : Event) (rest : List Event) (p : ServiceId) (hq : c.queue = e :: rest)
      (ho : o.event = some e) (he : IsOnline p e) (hs : c.state p = .injecting)
      (hp : c.phase = .idle) (ht : c.taken = []) :
      OnlineStep o c ((((c.setState p .active).wake p .dependencyOnline).setQueue rest).setPhase
        (.online p))
  | resume (p x : ServiceId) (q : PromiseId) (taken : List PromiseId) (g : ScopedGenerator)
      (left : List ℕ) (interested : DependencyChange) (ret : StartBehaviour) (point : OfflinePoint)
      (events : List Event) (hp : c.phase = .online p) (ht : c.taken = q :: taken)
      (hg : c.generator q = some g) (hd : g.generator.serviceId = p)
      (hc : g.generator.coroutine = .dependencyOffline x (.awaitOnline left interested ret))
      (hw : Waits c p point events) (hl : unreached point = left) :
      OnlineStep o c ((((({ c with taken := taken }.record [Call.resumed q]).push events).wait p
        (waitType point) q).setGenerator q (some (resumedAt g x point))))
  | woken (p : ServiceId) (hp : c.phase = .online p) (ht : c.taken = []) :
      OnlineStep o c ((c.woken p).setPhase .idle)
  | inject (d p : ServiceId) (interfaces : List NameHash) (rs : List ℕ) (hp : c.phase = .idle)
      (hk : c.kind d = .dependency) (hd : c.state d ≠ .uninstalled) (hn : ¬c.dep d p)
      (hprov : (p = selfServiceId ∧ interfaces = [iServiceHash] ∧ o.core.state d = .uninstalled) ∨
        (c.state p = .active ∧ p ≠ d ∧ interfaces = c.interfaces p))
      -- a provider is offered to a new service, or to all when it comes online
      (hcause : Inserting o d ∨ (p ≠ selfServiceId ∧ o.core.state p = .injecting))
      (hr : rs = onlineRegistrations interfaces (c.registry d)) (hne : rs ≠ []) :
      OnlineStep o c (((c.link d p).setRegistry d (raise rs (c.registry d))).record
        (addCalls d p rs))

/-- Steps around a service that goes offline. -/
inductive OfflineStep (o : Origin) (c : Core) : Core → Prop
  | offline (e : Event) (rest : List Event) (p : ServiceId) (remove : Bool)
      (todo : List ServiceId) (hq : c.queue = e :: rest) (ho : o.event = some e)
      (he : IsOffline p remove e) (hs : c.state p = .active) (hp : c.phase = .idle)
      (ht : ∀ d, d ∈ todo ↔ c.dee p d) (hsame : ∀ d, c.dee p d ↔ o.core.dee p d)
      (hstate : c.state p = o.core.state p) :
      OfflineStep o c (((c.setState p .uninjecting).setQueue rest).setPhase
        (.offline p remove todo))
  | skip (p d : ServiceId) (remove : Bool) (todo : List ServiceId)
      (hp : c.phase = .offline p remove (d :: todo))
      (hn : ¬c.dep d p ∨ c.away d p ∨
        offlineRegistrations (c.interfaces p) (c.registry d) = [])
      (hsame : c.registry d = o.core.registry d) :
      OfflineStep o c (c.setPhase (.offline p remove todo))
  | done (p d : ServiceId) (remove : Bool) (todo : List ServiceId) (deps : List ℕ)
      (h : Reached o c p d remove todo deps) (hl : Lowerable deps (c.registry d))
      (hstay : (c.state d = .starting ∨ c.state d = .injecting ∨ c.state d = .active ∨
        c.state d = .uninjecting) → ∀ r ∈ deps, ¬RequiredGone (lower deps (c.registry d)) r) :
      OfflineStep o c (((((c.setRegistry d (lower deps (c.registry d))).unlink d p).record
        (removeCalls d p deps ++ takeOutCalls d p deps)).takePromise).setPhase
          (.offline p remove todo))
  | stopMe (p d : ServiceId) (remove : Bool) (todo : List ServiceId) (deps : List ℕ)
      (priority : ℕ) (stops : List Event) (h : Reached o c p d remove todo deps)
      (hl : Lowerable deps (c.registry d)) (hs : c.state d = .uninjecting)
      (hw : ¬c.HasOfflineWaiter d)
      (hgone : ∃ pre r post, deps = pre ++ r :: post ∧
        RequiredGone (lower (pre ++ [r]) (c.registry d)) r)
      (hst : Queues (c.pending d = []) (IsStop d remove) stops) :
      OfflineStep o c (((((((c.setRegistry d (lower deps (c.registry d))).leave d p).record
        (takeOutCalls d p deps)).takePromise).push stops).setPending d
          (c.pending d ++ [⟨p, priority, remove, deps⟩])).setPhase (.offline p remove todo))
  | wait (p d : ServiceId) (remove : Bool) (todo : List ServiceId) (deps pre : List ℕ) (r : ℕ)
      (point : OfflinePoint) (g : ScopedGenerator) (events : List Event)
      (h : Reached o c p d remove todo deps) (hdeps : deps = pre ++ r :: unreached point)
      (hl : Lowerable (pre ++ [r]) (c.registry d))
      (hgone : RequiredGone (lower (pre ++ [r]) (c.registry d)) r)
      (hw : Waits c d point events) (hg : g.generator.serviceId = d)
      (hgs : g.generator.state = .suspended)
      (hgc : g.generator.coroutine = .dependencyOffline p point)
      (hge : g.event.body = .continuableDependencyOffline p remove deps)
      (hgo : g.event.originatingService = d) :
      OfflineStep o c (((((((c.setRegistry d (lower (pre ++ [r]) (c.registry d))).leave d p).record
        (takeOutCalls d p (pre ++ [r]))).push events).wait d (waitType point) c.nextPromise).store
          g).setPhase (.offline p remove todo))
  | stay (p : ServiceId) (remove : Bool) (hp : c.phase = .offline p remove [])
      (hd : c.HasDependee p) : OfflineStep o c (c.setPhase .idle)
  | wake (p : ServiceId) (remove : Bool) (hp : c.phase = .offline p remove [])
      (hd : ¬c.HasDependee p) (ht : c.taken = []) :
      OfflineStep o c ((c.wake p .dependencyOffline).setPhase (.offlineWake p remove))
  | resume (p x : ServiceId) (q : PromiseId) (taken : List PromiseId) (g : ScopedGenerator)
      (wasActive : Bool) (left : List ℕ) (ret : StartBehaviour) (e : Event)
      (hp : (∃ remove, c.phase = .offlineWake p remove) ∨ c.phase = .stopWake p)
      (ht : c.taken = q :: taken) (hg : c.generator q = some g) (hd : g.generator.serviceId = p)
      (hc : g.generator.coroutine = .dependencyOffline x (.awaitOffline wasActive left ret))
      (hl : Lowerable left (c.registry p)) (he : e.body = .continuableStart q) :
      OfflineStep o c ((((({ c with taken := taken }.setRegistry p (lower left (c.registry p))).record
        (takeOutCalls p x left ++ [Call.resumed q])).setGenerator q
          (some (finished g (.finished .stopMe)))).push [e]))
  | woken (p : ServiceId) (remove : Bool) (e : Event) (hp : c.phase = .offlineWake p remove)
      (ht : c.taken = []) (he : IsStop p remove e) :
      OfflineStep o c (((c.woken p).push [e]).setPhase .idle)
  | continueOffline (q : PromiseId) (g : ScopedGenerator) (e : Event) (rest stops : List Event)
      (p d : ServiceId) (remove : Bool) (deps : List ℕ) (priority : ℕ)
      (h : AtContinuation o c e rest q g (.continuableStart q))
      (hs : g.generator.state = .finished .stopMe) (hc : offlineLike g.generator.coroutine)
      (hb : g.event.body = .continuableDependencyOffline p remove deps)
      (hd : g.event.originatingService = d) (hp : c.state p ≠ .uninstalled)
      (hst : Queues (c.pending d = [] ∨ (c.state d = .uninjecting ∧ ¬c.HasDependee d))
        (IsStop d remove) stops) :
      OfflineStep o c ((((c.setGenerator q none).setQueue rest).push stops).setPending d
        (c.pending d ++ [⟨p, priority, remove, deps⟩]))

/-- Steps that stop a service or take it out of the table. -/
inductive StopStep (o : Origin) (c : Core) : Core → Prop
  | wake (e : Event) (rest : List Event) (d : ServiceId) (remove : Bool)
      (hq : c.queue = e :: rest) (ho : o.event = some e) (hb : e.body = .stopService d remove)
      (hs : c.state d = .uninjecting) (hd : ¬c.HasDependee d) (hp : c.phase = .idle)
      (ht : c.taken = []) :
      StopStep o c ((c.wake d .dependencyOffline).setPhase (.stopWake d))
  | woken (d : ServiceId) (hp : c.phase = .stopWake d) (ht : c.taken = []) :
      StopStep o c ((c.woken d).setPhase .idle)
  | park (e : Event) (rest : List Event) (d : ServiceId) (remove : Bool) (w : WaitingStopService)
      (h : AtStop o c e rest d remove) (hg : c.HasCoroutine d) (hw : w.removeAfter = remove)
      (hs : c.state d ≠ .uninstalled ∧ c.state d ≠ .installed ∧ c.state d ≠ .stopping) :
      StopStep o c ((c.setQueue rest).park d w)
  | toOffline (e e' : Event) (rest : List Event) (d : ServiceId) (remove : Bool)
      (h : AtStop o c e rest d remove) (hg : ¬c.HasCoroutine d) (he : IsOffline d remove e')
      (hs : c.state d = .injecting ∨ c.state d = .starting ∨ c.state d = .active) :
      StopStep o c ((c.setQueue rest).push [e'])
  | sync (e : Event) (rest : List Event) (d : ServiceId) (remove : Bool)
      (h : AtStop o c e rest d remove) (hg : ¬c.HasCoroutine d) (hk : c.kind d ≠ .internal)
      (hs : c.state d = .uninjecting) (hd : ¬c.HasDependee d) :
      StopStep o c (((((c.setQueue rest).setState d .installed).record
        [.stopped d, .stop d true]).takePromise).setPhase (.finishing d remove))
  | internal (e : Event) (rest : List Event) (d : ServiceId) (remove : Bool)
      (h : AtStop o c e rest d remove) (hg : ¬c.HasCoroutine d) (hk : c.kind d = .internal)
      (hs : c.state d = .uninjecting) (hd : ¬c.HasDependee d) :
      StopStep o c ((((c.setQueue rest).setState d .installed).takePromise).setPhase
        (.finishing d remove))
  | suspended (e : Event) (rest : List Event) (d : ServiceId) (remove : Bool) (g : ScopedGenerator)
      (h : AtStop o c e rest d remove) (hg : ¬c.HasCoroutine d) (hk : c.kind d ≠ .internal)
      (hs : c.state d = .uninjecting) (hd : ¬c.HasDependee d)
      (hgd : g.generator.serviceId = d) (hgs : g.generator.state = .suspended)
      (hgc : g.generator.coroutine = .stop) (hge : g.event = e) :
      StopStep o c ((((c.setQueue rest).setState d .stopping).record [.stop d true]).store g)
  | finishStop (q : PromiseId) (g : ScopedGenerator) (e : Event) (h : AtUser o c q g)
      (hc : g.generator.coroutine = .stop) (he : e.body = .continuableStart q) :
      StopStep o c ((((c.setState g.generator.serviceId .installed).record
        [.stopped g.generator.serviceId]).setGenerator q
          (some (finished g (.finished .done)))).push [e])
  | continueStop (q : PromiseId) (g : ScopedGenerator) (e : Event) (rest : List Event)
      (d : ServiceId) (remove : Bool) (v : StartBehaviour)
      (h : AtContinuation o c e rest q g (.continuableStart q))
      (hs : g.generator.state = .finished v) (hc : g.generator.coroutine = .stop)
      (hb : g.event.body = .stopService d remove) (hst : c.state d = .installed)
      (hd : ¬c.HasDependee d) (hsame : c.pending = o.core.pending)
      (hdep : ∀ x, c.dep d x ↔ o.core.dep d x) (hkind : c.kind = o.core.kind)
      (hgen : o.core.generator q = some g) :
      StopStep o c (c.setPhase (.finishing d remove))
  | pending (d : ServiceId) (remove : Bool) (w : WaitingStopService)
      (left : List WaitingStopService) (stops : List Event)
      (hp : c.phase = .finishing d remove) (hl : c.pending d = w :: left)
      (hs : c.state w.originatingServiceId ≠ .uninstalled)
      (hst : Queues (¬(c.unlink d w.originatingServiceId).HasDependee w.originatingServiceId)
        (IsStop w.originatingServiceId w.removeAfter) stops) :
      StopStep o c ((((c.unlink d w.originatingServiceId).record
        (removeCalls d w.originatingServiceId w.deps)).setPending d left).push stops)
  | clear (d : ServiceId) (remove : Bool) (hp : c.phase = .finishing d remove)
      (hl : c.pending d = []) :
      StopStep o c ((c.clear d).setPhase (if remove then .removing d else .idle))
  | forget (q : PromiseId) (g : ScopedGenerator) (e : Event) (rest : List Event) (v : StartBehaviour)
      (h : AtContinuation o c e rest q g (.continuableStart q))
      (hs : g.generator.state = .finished v) (hc : g.generator.coroutine = .stop)
      (hn : c.pending g.generator.serviceId = []) :
      StopStep o c ((c.setGenerator q none).setQueue rest)
  | removeBegin (e : Event) (rest : List Event) (d : ServiceId) (hq : c.queue = e :: rest)
      (ho : o.event = some e) (hb : e.body = .removeService d) (hp : c.phase = .idle)
      (hs : c.state d = .installed) (hd : ¬c.HasDependee d) (hn : ∀ p, ¬c.dep d p) :
      StopStep o c ((c.setQueue rest).setPhase (.removing d))
  | remove (d : ServiceId) (hp : c.phase = .removing d) (hs : c.state d = .installed)
      (hd : ¬c.HasDependee d) (hn : ∀ p, ¬c.dep d p) :
      StopStep o c (((c.uninstall d).record [.erased d]).setPhase .idle)

/-- Steps of a manager that quits. -/
inductive QuitStep (o : Origin) (c : Core) : Core → Prop
  | quit (e : Event) (rest : List Event) (hq : c.queue = e :: rest) (ho : o.event = some e)
      (hb : e.body = .quit) (hp : c.phase = .idle) :
      QuitStep o c ({ c with quitting := true }.setQueue rest)
  | done (hq : c.quitting = true) (hg : ∀ q, c.generator q = none)
      (hs : ∀ d, c.state d = .uninstalled ∨ c.kind d = .internal ∨ c.state d = .installed)
      (hw : ∀ d, c.waiters d = []) (hp : c.phase = .idle) : QuitStep o c c.uninstallAll

/-- One small step. -/
inductive Step (o : Origin) (c c' : Core) : Prop
  | queue (h : QueueStep o c c')
  | user (h : UserStep o c c')
  | start (h : StartStep o c c')
  | online (h : OnlineStep o c c')
  | offline (h : OfflineStep o c c')
  | stop (h : StopStep o c c')
  | quit (h : QuitStep o c c')

def Path (o : Origin) : Core → Core → Prop := Relation.ReflTransGen (Step o)

end Ichor.Lifecycle
