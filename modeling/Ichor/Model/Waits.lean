import Ichor.Model.Run

/-! Coroutines of user code that call `waitForServiceStarted` and
`waitForServiceStopped`, and what becomes of their calls. -/
namespace Ichor

inductive WaitError where
  | quitting
  deriving DecidableEq

namespace DependencyManager

/-- What a call returns at once; `none` goes on to `waitForService`. -/
def returnOrWait (s : DependencyManager) (svc : ServiceId) (state : ServiceState) :
    Option (Except WaitError Unit) :=
  if s.quitEventReceived then some (.error .quitting)
  else if s.stateOf svc = state then some (.ok ())
  else none

def waitForServiceStarted (s : DependencyManager) (svc : ServiceId) :
    Option (Except WaitError Unit) := s.returnOrWait svc .active

def waitForServiceStopped (s : DependencyManager) (svc : ServiceId) :
    Option (Except WaitError Unit) := s.returnOrWait svc .active

end DependencyManager

/-- The two functions. -/
inductive Wait where
  | started | stopped
  deriving DecidableEq

namespace Wait

/-- The state that a successful call promises. -/
def target : Wait → ServiceState
  | .started => .active
  | .stopped => .installed

/-- The event that a suspended call waits for. -/
def type : Wait → EventType
  | .started => .startService
  | .stopped => .stopService

def returns (s : DependencyManager) (svc : ServiceId) : Wait → Option (Except WaitError Unit)
  | .started => s.waitForServiceStarted svc
  | .stopped => s.waitForServiceStopped svc

end Wait

structure WaitCall where
  id : ℕ
  wait : Wait
  promise : PromiseId
  svc : ServiceId
  deriving DecidableEq

/-- A call that returned, with the state of the service at that moment. -/
structure WaitReturn where
  call : WaitCall
  result : Except WaitError Unit
  state : ServiceState

/-- The manager with the calls made so far: how many, which of them are suspended and
which have returned. -/
structure Clients where
  manager : DependencyManager
  calls : ℕ
  suspended : List WaitCall
  returned : List WaitReturn

inductive ClientAction where
  | manager (a : Action)
  | wait (w : Wait) (promise : PromiseId) (svc : ServiceId)

def Action.isWait : Action → Bool
  | .waitForServiceStarted _ _ | .waitForServiceStopped _ _ => true
  | _ => false

namespace Clients
open DependencyManager

/-- The calls whose coroutines the step resumed return success, as often as they were resumed. -/
def after (c : Clients) (s : DependencyManager) : Clients :=
  let new := s.trace.take (s.trace.length - c.manager.trace.length)
  { c with
    manager := s
    suspended := c.suspended.filter fun call => decide (Call.resumed call.promise ∉ new)
    returned := c.returned ++ c.suspended.flatMap fun call =>
      List.replicate (new.count (.resumed call.promise)) ⟨call, .ok (), s.stateOf call.svc⟩ }

def act : ClientAction → Clients → Option Clients
  | .manager a, c => if a.isWait then none else (next a c.manager).map c.after
  | .wait w promise svc, c =>
    match c.manager.suspendedUserCode promise with
    | none => none
    | some _ =>
      if !c.manager.hasObject svc then none
      else
        let call : WaitCall := ⟨c.calls, w, promise, svc⟩
        match w.returns c.manager svc with
        | some result => some { c with
            calls := c.calls + 1
            returned := c.returned ++ [⟨call, result, c.manager.stateOf svc⟩] }
        | none => some { c with
            manager := c.manager.waitForService svc w.type promise
            calls := c.calls + 1
            suspended := c.suspended ++ [call] }

def respects (order : QueueOrder) (c : Clients) : ClientAction → Bool
  | .manager a => DependencyManager.respects order c.manager a
  | .wait _ _ _ => true

def initial (internals : List NameHash) : Clients :=
  ⟨DependencyManager.initial internals, 0, [], []⟩

/-- A run of the queue with the given order in which every step meets the condition. -/
def RunWhere (order : QueueOrder) (condition : Clients → ClientAction → Prop) :
    Clients → Clients → Prop :=
  GuardedRuns.Run act fun c a => respects order c a = true ∧ condition c a

end Clients

end Ichor
