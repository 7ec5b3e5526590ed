import Ichor.Model.Types

/-! Elementary reads and updates of the manager that the handlers are written
with, and what an update of one service does to the views of all of them. -/
namespace Ichor
open FiniteTable

/-! ## Sets of service ids -/

def insertId (a : ServiceId) (l : List ServiceId) : List ServiceId :=
  if a ∈ l then l else l ++ [a]

def eraseId (a : ServiceId) (l : List ServiceId) : List ServiceId :=
  l.filter fun b => decide (b ≠ a)

@[simp] theorem mem_insertId (a b : ServiceId) (l : List ServiceId) :
    b ∈ insertId a l ↔ b = a ∨ b ∈ l := by
  unfold insertId
  split
  · constructor
    · exact .inr
    · rintro (rfl | h) <;> assumption
  · rw [List.mem_append, List.mem_singleton, or_comm]

@[simp] theorem mem_eraseId (a b : ServiceId) (l : List ServiceId) :
    b ∈ eraseId a l ↔ b ∈ l ∧ b ≠ a := by
  simp [eraseId]

/-! ## Views of the service table -/

abbrev Services := Table ServiceId LifecycleManager

namespace Services

/-- A field of the manager stored under `id`, with a default for a missing one. -/
def view {β : Type} (field : LifecycleManager → β) (missing : β) (t : Services) (id : ServiceId) :
    β :=
  match t.get? id with
  | some m => field m
  | none => missing

abbrev stateOf (t : Services) (id : ServiceId) : ServiceState :=
  view LifecycleManager.state .uninstalled t id

abbrev dependenciesOf (t : Services) (id : ServiceId) : List ServiceId :=
  view LifecycleManager.serviceIdsOfInjectedDependencies [] t id

abbrev goingAwayOf (t : Services) (id : ServiceId) : List ServiceId :=
  view LifecycleManager.serviceIdsOfInjectedDependenciesButGoingAway [] t id

abbrev dependeesOf (t : Services) (id : ServiceId) : List ServiceId :=
  view LifecycleManager.serviceIdsOfDependees [] t id

abbrev registryOf (t : Services) (id : ServiceId) : DependencyRegister :=
  view LifecycleManager.registry [] t id

end Services

namespace DependencyManager

/-! ## The queue and the record of calls -/

/-- `pushPrioritisedEvent`: the event gets the next id. -/
def pushPrioritisedEvent (s : DependencyManager) (originatingService : ServiceId) (priority : ℕ)
    (body : EventBody) : DependencyManager :=
  { s with
    queue := s.queue ++ [⟨s.nextEventId, originatingService, priority, body⟩]
    nextEventId := s.nextEventId + 1 }

def call (s : DependencyManager) (c : Call) : DependencyManager := { s with trace := c :: s.trace }

/-! ## Services -/

def modifyService (s : DependencyManager) (id : ServiceId)
    (f : LifecycleManager → LifecycleManager) : DependencyManager :=
  { s with services := s.services.modify id f }

def setState (s : DependencyManager) (id : ServiceId) (st : ServiceState) : DependencyManager :=
  s.modifyService id fun m => { m with state := st }

abbrev stateOf (s : DependencyManager) (id : ServiceId) : ServiceState :=
  Services.stateOf s.services id

abbrev dependenciesOf (s : DependencyManager) (id : ServiceId) : List ServiceId :=
  Services.dependenciesOf s.services id

abbrev goingAwayOf (s : DependencyManager) (id : ServiceId) : List ServiceId :=
  Services.goingAwayOf s.services id

abbrev dependeesOf (s : DependencyManager) (id : ServiceId) : List ServiceId :=
  Services.dependeesOf s.services id

abbrev registryOf (s : DependencyManager) (id : ServiceId) : DependencyRegister :=
  Services.registryOf s.services id

/-! ## Generators and waiters -/

/-- `_scopedGenerators.emplace` for a generator that did not finish. -/
def scopeGenerator (s : DependencyManager) (promise : PromiseId) (g : ScopedGenerator) :
    DependencyManager :=
  { s with scopedGenerators := s.scopedGenerators.emplace promise g }

def takePromiseId (s : DependencyManager) : DependencyManager :=
  { s with nextPromiseId := s.nextPromiseId + 1 }

/-- `_eventQueue->getNextEventId()` for an event that is stored and never queued. -/
def takeEventId (s : DependencyManager) : DependencyManager :=
  { s with nextEventId := s.nextEventId + 1 }

def eraseGenerator (s : DependencyManager) (promise : PromiseId) : DependencyManager :=
  { s with scopedGenerators := s.scopedGenerators.erase promise }

def modifyGenerator (s : DependencyManager) (promise : PromiseId)
    (f : Generator → Generator) : DependencyManager :=
  { s with
    scopedGenerators :=
      s.scopedGenerators.modify promise fun g => { g with generator := f g.generator } }

def existingCoroutineFor (s : DependencyManager) (id : ServiceId) : Bool :=
  s.scopedGenerators.entries.any fun e => decide (e.2.generator.serviceId = id)

end DependencyManager

abbrev Waiters := Table ServiceId EventWaiter

namespace Waiters

def of (w : Waiters) (id : ServiceId) : List (EventType × PromiseId) :=
  match w.get? id with
  | some e => e.events
  | none => []

def add (w : Waiters) (id : ServiceId) (type : EventType) (promise : PromiseId) : Waiters :=
  match w.get? id with
  | some _ => w.modify id fun e => { e with events := e.events ++ [(type, promise)] }
  | none => w.emplace id ⟨id, type, [(type, promise)]⟩

theorem of_add (w : Waiters) (id k : ServiceId) (type : EventType) (promise : PromiseId) :
    of (add w id type promise) k = Function.update (of w) id (of w id ++ [(type, promise)]) k := by
  by_cases hk : k = id
  · subst hk
    rw [Function.update_self]
    cases h : w.get? k <;> simp [of, add, h]
  · rw [Function.update_of_ne hk]
    cases h : w.get? id <;> simp [of, add, h, hk]

theorem get?_add (w : Waiters) (id k : ServiceId) (type : EventType) (promise : PromiseId) :
    (∃ e, (add w id type promise).get? k = some e) ↔ (∃ e, w.get? k = some e) ∨ k = id := by
  by_cases hk : k = id
  · subst hk
    cases h : w.get? k <;> simp [add, h]
  · cases h : w.get? id <;> simp [add, h, hk]

theorem of_modify (w : Waiters) (id k : ServiceId) (f : List (EventType × PromiseId) →
    List (EventType × PromiseId)) (hf : f [] = []) :
    of (w.modify id fun e => { e with events := f e.events }) k =
      Function.update (of w) id (f (of w id)) k := by
  by_cases hk : k = id
  · subst hk
    rw [Function.update_self]
    cases h : w.get? k <;> simp [of, h, hf]
  · rw [Function.update_of_ne hk]
    simp [of, hk]

theorem of_erase (w : Waiters) (id k : ServiceId) (h : of w id = []) :
    of (w.erase id) k = of w k := by
  by_cases hk : k = id
  · subst hk
    rw [h]
    simp [of]
  · simp [of, hk]

end Waiters

namespace DependencyManager

/-- `waitForService`, up to the point where the coroutine suspends. -/
def waitForService (s : DependencyManager) (id : ServiceId) (type : EventType)
    (promise : PromiseId) : DependencyManager :=
  { s with dependencyWaiters := Waiters.add s.dependencyWaiters id type promise }

abbrev waitersOf (s : DependencyManager) (id : ServiceId) : List (EventType × PromiseId) :=
  Waiters.of s.dependencyWaiters id

def hasDependencyWaiter (s : DependencyManager) (id : ServiceId) (type : EventType) : Bool :=
  (s.waitersOf id).any fun w => decide (w.1 = type)

end DependencyManager

/-! ## Views after an update of one service -/

namespace Services

section Modify
variable {β : Type} (field : LifecycleManager → β) (missing : β) (t : Services)
  (id k : ServiceId) (f : LifecycleManager → LifecycleManager)

theorem view_some {m : LifecycleManager} (h : t.get? k = some m) :
    view field missing t k = field m := by
  simp [view, h]

theorem view_none (h : t.get? k = none) : view field missing t k = missing := by
  simp [view, h]

@[simp] theorem view_modify (hf : ∀ m, field (f m) = field m) :
    view field missing (t.modify id f) k = view field missing t k := by
  unfold view
  rw [Table.get?_modify]
  by_cases hk : k = id
  · cases ht : t.get? k <;> simp [hk, hf]
  · simp [hk]

theorem view_modify_ne (hk : k ≠ id) :
    view field missing (t.modify id f) k = view field missing t k := by
  simp [view, hk]

theorem view_modify_self {m : LifecycleManager} (h : t.get? id = some m) :
    view field missing (t.modify id f) id = field (f m) := by
  simp [view, h]

end Modify

end Services

end Ichor
