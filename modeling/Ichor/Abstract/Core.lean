import Ichor.Model.Run

/-! The manager seen as a system of service lifecycles: functions and relations
in place of tables, and beside them the control state that one event handler
goes through, so that a handler can be cut into small steps. -/
namespace Ichor
open Function

/-- Calls that say nothing about the life of a service. -/
def Call.neutral : Call → Bool
  | .completed _ _ | .handler _ _ | .tracker _ _ _ _ | .untracker _ _ _ | .function _
  | .preIntercept _ _ _ | .postIntercept _ _ _ _ => true
  | _ => false

namespace Lifecycle

/-- Where the handler of the current event stands. -/
inductive Phase where
  | idle
  /-- `p` became ACTIVE and wakes the coroutines that waited for that. -/
  | online (p : ServiceId)
  /-- `p` became UNINJECTING; the dependees in `todo` have not been told yet. -/
  | offline (p : ServiceId) (remove : Bool) (todo : List ServiceId)
  /-- `p` has no dependees left and wakes the coroutines that waited for that. -/
  | offlineWake (p : ServiceId) (remove : Bool)
  | stopWake (d : ServiceId)
  /-- The `stop()` of `d` is complete; its pending providers are released. -/
  | finishing (d : ServiceId) (remove : Bool)
  | removing (d : ServiceId)

/-- The lifecycles of all services. A service that is not in the table is
UNINSTALLED, not `present`. `taken` holds the coroutines that the current phase still wakes;
while a stop is finishing, `pending` holds the providers not yet released. -/
structure Core where
  present : ServiceId → Prop
  kind : ServiceId → ManagerKind
  interfaces : ServiceId → List NameHash
  state : ServiceId → ServiceState
  registry : ServiceId → DependencyRegister
  dep : ServiceId → ServiceId → Prop
  away : ServiceId → ServiceId → Prop
  dee : ServiceId → ServiceId → Prop
  generator : PromiseId → Option ScopedGenerator
  waiters : ServiceId → List (EventType × PromiseId)
  entry : ServiceId → Prop
  pending : ServiceId → List WaitingStopService
  parked : ServiceId → Option WaitingStopService
  quitting : Bool
  quitDone : Bool
  queue : List Event
  nextPromise : PromiseId
  nextService : ServiceId
  trace : List Call
  phase : Phase
  taken : List PromiseId

/-! ## Registrations -/

/-- Count one more provider in each of the registrations. -/
def raise (rs : List ℕ) (reg : DependencyRegister) : DependencyRegister :=
  rs.foldl (fun reg r => reg.modify r fun dep => { dep with satisfied := dep.satisfied + 1 }) reg

def lower (rs : List ℕ) (reg : DependencyRegister) : DependencyRegister :=
  rs.foldl (fun reg r => reg.modify r fun dep => { dep with satisfied := dep.satisfied - 1 }) reg

/-- The registrations that a provider with these interfaces is injected into. -/
def onlineRegistrations : List NameHash → DependencyRegister → List ℕ
  | [], _ => []
  | interface :: rest, reg =>
    match reg.find interface false with
    | none => onlineRegistrations rest reg
    | some r => r :: onlineRegistrations rest (raise [r] reg)

/-- The registrations that a provider with these interfaces is taken out of. -/
def offlineRegistrations (interfaces : List NameHash) (reg : DependencyRegister) : List ℕ :=
  interfaces.filterMap fun interface => reg.find interface true

/-- Every decrement meets a positive counter. -/
def Lowerable : List ℕ → DependencyRegister → Prop
  | [], _ => True
  | r :: rest, reg =>
    (∃ dep, reg[r]? = some dep ∧ dep.satisfied ≠ 0) ∧ Lowerable rest (lower [r] reg)

/-- A REQUIRED registration without a provider. -/
def RequiredGone (reg : DependencyRegister) (r : ℕ) : Prop :=
  ∃ dep, reg[r]? = some dep ∧ dep.flags.required = true ∧ dep.satisfied = 0

/-! ## Coroutines -/

def startLike : Coroutine → Prop
  | .start | .startAfterDependencyOnline => True
  | _ => False

def offlineLike : Coroutine → Prop
  | .dependencyOffline _ _ => True
  | _ => False

/-- The event that the wait of a `dependencyOffline` ends with. -/
def waitType : OfflinePoint → EventType
  | .awaitOnline _ _ _ => .dependencyOnline
  | .awaitOffline _ _ _ => .dependencyOffline

/-- The registrations its loop has not reached. -/
def unreached : OfflinePoint → List ℕ
  | .awaitOnline rest _ _ => rest
  | .awaitOffline _ rest _ => rest

namespace Core
variable (c : Core)

/-! ## Reads -/

def HasCoroutine (d : ServiceId) : Prop :=
  ∃ q g, c.generator q = some g ∧ g.generator.serviceId = d

def HasOfflineWaiter (d : ServiceId) : Prop := ∃ q, (EventType.dependencyOffline, q) ∈ c.waiters d

def HasDependee (p : ServiceId) : Prop := ∃ d, c.dee p d

/-- The promises in the waiters of `d` for one event type. -/
def waitingFor (d : ServiceId) (type : EventType) : List PromiseId :=
  ((c.waiters d).filter fun w => decide (w.1 = type)).map Prod.snd

/-! ## Updates -/

def setState (d : ServiceId) (st : ServiceState) : Core :=
  { c with state := update c.state d st }

def setRegistry (d : ServiceId) (reg : DependencyRegister) : Core :=
  { c with registry := update c.registry d reg }

def push (events : List Event) : Core := { c with queue := c.queue ++ events }

def record (calls : List Call) : Core := { c with trace := calls ++ c.trace }

def setQueue (queue : List Event) : Core := { c with queue := queue }

def setPhase (phase : Phase) : Core := { c with phase := phase }

def takePromise : Core := { c with nextPromise := c.nextPromise + 1 }

/-- A new generator under the next promise id. -/
def store (g : ScopedGenerator) : Core :=
  { c with
    generator := update c.generator c.nextPromise (some g)
    nextPromise := c.nextPromise + 1 }

def setGenerator (q : PromiseId) (g : Option ScopedGenerator) : Core :=
  { c with generator := update c.generator q g }

def setDep (dep : ServiceId → ServiceId → Prop) : Core := { c with dep := dep }

def setDee (dee : ServiceId → ServiceId → Prop) : Core := { c with dee := dee }

/-- `p` is injected into `d`; the self sentinel keeps no dependees. -/
def link (d p : ServiceId) : Core :=
  { c with
    dep := fun x y => c.dep x y ∨ (x = d ∧ y = p)
    dee := fun x y => c.dee x y ∨ (x = p ∧ y = d ∧ p ≠ selfServiceId) }

def leave (d p : ServiceId) : Core :=
  { c with away := fun x y => c.away x y ∨ (x = d ∧ y = p) }

def unlink (d p : ServiceId) : Core :=
  { c with
    dep := fun x y => c.dep x y ∧ ¬(x = d ∧ y = p)
    away := fun x y => c.away x y ∧ ¬(x = d ∧ y = p)
    dee := fun x y => c.dee x y ∧ ¬(x = p ∧ y = d) }

/-- `d` loses the providers it still has. -/
def clear (d : ServiceId) : Core :=
  { c with
    dep := fun x y => c.dep x y ∧ x ≠ d
    dee := fun x y => c.dee x y ∧ ¬(y = d ∧ c.dep d x) }

def wait (d : ServiceId) (type : EventType) (q : PromiseId) : Core :=
  { c with
    waiters := update c.waiters d (c.waiters d ++ [(type, q)])
    entry := fun x => c.entry x ∨ x = d }

/-- Take the waiters of `d` for one event type out of the table, to wake them. -/
def wake (d : ServiceId) (type : EventType) : Core :=
  { c with
    waiters := update c.waiters d ((c.waiters d).filter fun w => decide (w.1 ≠ type))
    taken := c.waitingFor d type }

/-- All woken: an entry without waiters is dropped. -/
def woken (d : ServiceId) : Core :=
  { c with entry := fun x => c.entry x ∧ (x = d → c.waiters d ≠ []) }

def setPending (d : ServiceId) (l : List WaitingStopService) : Core :=
  { c with pending := update c.pending d l }

def park (d : ServiceId) (w : WaitingStopService) : Core :=
  { c with parked := update c.parked d ((c.parked d).or (some w)) }

/-- A service enters the table. -/
def install (d : ServiceId) (m : LifecycleManager) : Core :=
  { c with
    present := fun x => c.present x ∨ x = d
    kind := update c.kind d m.kind
    interfaces := update c.interfaces d m.interfaces
    state := update c.state d m.state
    registry := update c.registry d m.registry }

/-- A service leaves the table. -/
def uninstall (d : ServiceId) : Core :=
  { c with
    present := fun x => c.present x ∧ x ≠ d
    kind := update c.kind d .plain
    interfaces := update c.interfaces d []
    state := update c.state d .uninstalled
    registry := update c.registry d []
    dep := fun x y => c.dep x y ∧ x ≠ d
    away := fun x y => c.away x y ∧ x ≠ d
    dee := fun x y => c.dee x y ∧ x ≠ d }

/-- All services leave the table. -/
def uninstallAll : Core :=
  { c with
    present := fun _ => False
    kind := fun _ => .plain
    interfaces := fun _ => []
    state := fun _ => .uninstalled
    registry := fun _ => []
    dep := fun _ _ => False
    away := fun _ _ => False
    dee := fun _ _ => False
    quitDone := true }

end Core

end Lifecycle

end Ichor
