import Mathlib.Data.List.Nodup
import Ichor.Lib.Runs

/-! `AsyncSingleThreadedMutex`, its guards, and the coroutines of one thread that use
them. A suspended `lock` is resumed inside `unlock`, by the loop of
`AsyncManualResetEvent::set`; the loops that are still running form a stack. -/
namespace Ichor

/-! ## `AsyncManualResetEvent` -/

/-- The values of `_state`: the event itself, or the operations that wait, the newest first. -/
inductive AsyncManualResetEvent (α : Type) where
  | isSet
  | notSet (waiters : List α)

namespace AsyncManualResetEvent
variable {α : Type}

/-- Suspend an operation; `none` if the event is set and the coroutine goes on. -/
def awaitSuspend (op : α) : AsyncManualResetEvent α → Option (AsyncManualResetEvent α)
  | .isSet => none
  | .notSet waiters => some (.notSet (op :: waiters))

/-- The operations that `set` resumes, in the order of its loop. -/
def resumedBySet : AsyncManualResetEvent α → List α
  | .isSet => []
  | .notSet waiters => waiters

end AsyncManualResetEvent

/-! ## The mutex -/

abbrev MutexId := ℕ
abbrev GuardId := ℕ

/-- A call of `lock`, numbered in the order of the calls. -/
abbrev LockCall := ℕ

structure AsyncSingleThreadedMutex where
  locked : Bool
  evts : List (AsyncManualResetEvent LockCall)

structure AsyncSingleThreadedLockGuard where
  m : MutexId
  hasLock : Bool

/-- The mutexes and guards of one thread. `running` holds, innermost first, the calls that
each running `set` still has to resume, with their mutex. For each mutex, `waited` are the calls
of `lock` that were suspended and `obtained` those that went on, both in order. -/
structure LockThread where
  mutexes : MutexId → AsyncSingleThreadedMutex
  guards : GuardId → Option AsyncSingleThreadedLockGuard
  running : List (MutexId × List LockCall)
  calls : ℕ
  made : ℕ
  waited : MutexId → List LockCall
  obtained : MutexId → List LockCall

inductive LockAction where
  | lock (m : MutexId)
  | nonBlockingLock (m : MutexId)
  | unlock (m : MutexId)
  | guardUnlock (g : GuardId)
  | guardDestroy (g : GuardId)
  | moveConstruct (o : GuardId)
  | moveAssign (g o : GuardId)
  /-- The coroutine that the innermost `set` resumed gives control back. -/
  | giveBack

namespace LockThread

def initial : LockThread where
  mutexes := fun _ => ⟨false, []⟩
  guards := fun _ => none
  running := []
  calls := 0
  made := 0
  waited := fun _ => []
  obtained := fun _ => []

section
variable (s : LockThread) (m : MutexId) (x : AsyncSingleThreadedMutex)

def setMutex : LockThread :=
  { s with mutexes := Function.update s.mutexes m x }

def setGuard (g : GuardId) (x : Option AsyncSingleThreadedLockGuard) :
    LockThread :=
  { s with guards := Function.update s.guards g x }

def makeGuard (x : AsyncSingleThreadedLockGuard) : LockThread :=
  { s.setGuard s.made (some x) with made := s.made + 1 }

/-- `_locked = true` and the guard that `lock` and `non_blocking_lock` return. -/
def takeLock : LockThread :=
  (s.setMutex m { s.mutexes m with locked := true }).makeGuard ⟨m, true⟩

/-- A suspended `lock` goes on. -/
def resume (call : LockCall) : LockThread :=
  { s.takeLock m with
    obtained := Function.update s.obtained m (s.obtained m ++ [call]) }

def lock : LockThread :=
  let call := s.calls
  let s := { s with calls := s.calls + 1 }
  if (s.mutexes m).locked then
    match (s.mutexes m).evts ++ [.notSet []] with
    | [] => s.takeLock m
    | front :: rest =>
      match front.awaitSuspend call with
      | none => (s.setMutex m { s.mutexes m with evts := front :: rest }).takeLock m
      | some front =>
        { s.setMutex m { s.mutexes m with evts := front :: rest } with
          waited := Function.update s.waited m (s.waited m ++ [call]) }
  else s.takeLock m

def nonBlockingLock : LockThread :=
  if (s.mutexes m).locked then s else s.takeLock m

/-- Go on with the loop of `set`; it returns when nobody is left. -/
def resumeNext : List LockCall → LockThread
  | [] => s
  | call :: rest => { s.resume m call with running := (m, rest) :: s.running }

def unlock : LockThread :=
  match (s.mutexes m).evts with
  | [] => s.setMutex m { s.mutexes m with locked := false }
  | evt :: rest =>
    (s.setMutex m { s.mutexes m with evts := rest }).resumeNext m evt.resumedBySet

end

section
variable (s : LockThread) (g o : GuardId)

def guardUnlock : Option LockThread :=
  (s.guards g).map fun x =>
    if x.hasLock then (s.setGuard g (some { x with hasLock := false })).unlock x.m else s

def guardDestroy : Option LockThread :=
  (s.guards g).map fun x =>
    if x.hasLock then (s.setGuard g none).unlock x.m else s.setGuard g none

def moveConstruct : Option LockThread :=
  (s.guards o).map fun x => (s.makeGuard x).setGuard o (some { x with hasLock := false })

def moveAssign : Option LockThread :=
  match s.guards g, s.guards o with
  | some _, some x => some ((s.setGuard g (some x)).setGuard o (some { x with hasLock := false }))
  | _, _ => none

def giveBack : Option LockThread :=
  match s.running with
  | [] => none
  | (m, calls) :: outer => some ({ s with running := outer }.resumeNext m calls)

end

def act : LockAction → LockThread → Option LockThread
  | .lock m, s => some (s.lock m)
  | .nonBlockingLock m, s => some (s.nonBlockingLock m)
  | .unlock m, s => some (s.unlock m)
  | .guardUnlock g, s => s.guardUnlock g
  | .guardDestroy g, s => s.guardDestroy g
  | .moveConstruct o, s => s.moveConstruct o
  | .moveAssign g o, s => s.moveAssign g o
  | .giveBack, s => s.giveBack

/-- A run in which every step meets the condition. -/
def RunWhere (condition : LockThread → LockAction → Prop) : LockThread → LockThread → Prop :=
  GuardedRuns.Run act condition

end LockThread

end Ichor
