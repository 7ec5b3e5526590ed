import Ichor.Model.Run

/-! Scripts: runs of the ordered queue written down as what user code does, with
the queue drained in between. -/
namespace Ichor

/-- User code that never suspends, succeeds, and lets every event pass. -/
def UserCode.prompt : UserCode where
  start := fun _ => .started
  stop := fun _ => false
  generator := fun _ => .done
  preIntercept := fun _ => true
  coalesces := fun _ => false

/-- User code whose coroutines all suspend. -/
def UserCode.slow : UserCode where
  start := fun _ => .suspended
  stop := fun _ => true
  generator := fun _ => .suspended
  preIntercept := fun _ => true
  coalesces := fun _ => false

/-- A service that offers interfaces and registers dependencies, each with whether
it is required. -/
def ServiceDescription.simple (interfaces : List NameHash) (needs : List (NameHash × Bool)) :
    ServiceDescription where
  interfaces := interfaces
  requestsDependencies := !needs.isEmpty
  registrations := needs.map fun need => (need.1, ⟨need.2, false⟩, none)
  priority := internalEventPriority
  properties := []
  filter := none

inductive Instruction where
  | act (a : Action)
  /-- Process events until the queue is empty, at most this many. -/
  | drain (fuel : ℕ) (u : UserCode)

namespace DependencyManager

/-- The place of the event that the ordered queue hands over next. -/
def firstIndex (queue : List Event) : ℕ :=
  queue.findIdx fun e => queue.all fun e' =>
    decide (e.priority < e'.priority) || (decide (e.priority = e'.priority) && decide (e.id ≤ e'.id))

section
variable (test : DependencyManager → Action → Bool)

def attempt (a : Action) (s : DependencyManager) : Option DependencyManager :=
  if respects orderedPriorityQueue s a && test s a then next a s else none

def drain (u : UserCode) : ℕ → DependencyManager → Option DependencyManager
  | 0, s => some s
  | n + 1, s =>
    if s.queue.isEmpty then some s
    else (attempt test (.processEvent (firstIndex s.queue) u) s).bind (drain u n)

def perform (s : DependencyManager) : Instruction → Option DependencyManager
  | .act a => attempt test a s
  | .drain fuel u => drain test u fuel s

/-- Perform a script; every step has to pass the test. -/
def play (script : List Instruction) (s : DependencyManager) : Option DependencyManager :=
  script.foldlM (perform test) s

variable {test} {s s' : DependencyManager} {condition : DependencyManager → Action → Prop}

theorem run_attempt {a : Action} (hc : ∀ s a, test s a = true → condition s a)
    (h : attempt test a s = some s') : RunWhere orderedPriorityQueue condition s s' := by
  unfold attempt at h
  split at h
  · rename_i hif
    rw [Bool.and_eq_true] at hif
    exact .single ⟨a, ⟨hif.1, hc s a hif.2⟩, h⟩
  · cases h

theorem run_drain {u : UserCode} {n : ℕ} (hc : ∀ s a, test s a = true → condition s a)
    (h : drain test u n s = some s') : RunWhere orderedPriorityQueue condition s s' := by
  induction n generalizing s with
  | zero =>
    cases h
    exact .refl
  | succ n ih =>
    unfold drain at h
    split at h
    · cases h
      exact .refl
    · obtain ⟨t, ht, hrest⟩ := Option.bind_eq_some_iff.mp h
      exact (run_attempt hc ht).trans (ih hrest)

theorem run_perform {i : Instruction} (hc : ∀ s a, test s a = true → condition s a)
    (h : perform test s i = some s') : RunWhere orderedPriorityQueue condition s s' := by
  cases i with
  | act a => exact run_attempt hc h
  | drain fuel u => exact run_drain hc h

variable {script : List Instruction}

theorem run_play (hc : ∀ s a, test s a = true → condition s a)
    (h : play test script s = some s') : RunWhere orderedPriorityQueue condition s s' := by
  induction script generalizing s with
  | nil =>
    cases h
    exact .refl
  | cons i rest ih =>
    unfold play at h
    rw [List.foldlM_cons] at h
    obtain ⟨t, ht, hrest⟩ := Option.bind_eq_some_iff.mp h
    exact (run_perform hc ht).trans (ih hrest)

theorem ends_of_play {P : DependencyManager → Bool}
    (h : (play test script s).any P = true) : ∃ s', play test script s = some s' ∧ P s' = true := by
  cases hs' : play test script s with
  | none =>
    rw [hs'] at h
    cases h
  | some s' =>
    rw [hs'] at h
    exact ⟨s', rfl, h⟩

theorem reaches {P : DependencyManager → Bool}
    (h : (play (fun _ _ => true) script s).any P = true) :
    ∃ s', RunWhere orderedPriorityQueue (fun _ _ => True) s s' ∧ P s' = true := by
  obtain ⟨s', hs', hP⟩ := ends_of_play h
  exact ⟨s', run_play (fun _ _ _ => trivial) hs', hP⟩

end

end DependencyManager

end Ichor
