import Ichor.Model.Waits
import Ichor.Model.Script
import Ichor.Desk.Growth

/-! Waiting for a service: a call that has to wait is never answered, and a call of
`waitForServiceStopped` that returns at once returns success for an ACTIVE service. The
calls that are answered as they should be are those of `waitForServiceStarted` for an
ACTIVE service, and every call once a QuitEvent has come. -/
namespace Ichor.Clients
open DependencyManager List

variable {c c' : Clients} {order : QueueOrder}

/-! ## What is promised -/

/-- A success is true when it is returned, nobody waits for what has come or cannot come
any more, and no call returns twice. -/
structure SoundAndComplete (c : Clients) : Prop where
  sound : ∀ r ∈ c.returned, r.result = .ok () → r.state = r.call.wait.target
  complete : ∀ call ∈ c.suspended, c.manager.stateOf call.svc ≠ call.wait.target ∧
    c.manager.hasObject call.svc = true ∧ c.manager.quitEventReceived = false
  once : (c.returned.map (·.call.id) ++ c.suspended.map (·.id)).Nodup

/-- The call is made while the manager quits or, for `waitForServiceStarted`, while the
service is ACTIVE. -/
def decided (c : Clients) : ClientAction → Bool
  | .manager _ => true
  | .wait .started _ svc => c.manager.quitEventReceived || decide (c.manager.stateOf svc = .active)
  | .wait .stopped _ _ => c.manager.quitEventReceived

/-! ## Calls that return at once -/

/-- What runs of decided calls keep. -/
structure Prompt (c : Clients) : Prop where
  none : c.suspended = []
  sound : ∀ r ∈ c.returned, r.result = .ok () → r.state = r.call.wait.target
  known : ∀ r ∈ c.returned, r.call.id < c.calls
  once : (c.returned.map (·.call.id)).Nodup

theorem Prompt.soundAndComplete (h : Prompt c) : SoundAndComplete c := by
  refine ⟨h.sound, fun call hcall => ?_, ?_⟩
  · rw [h.none] at hcall
    cases hcall
  · rw [h.none, map_nil, append_nil]
    exact h.once

theorem Prompt.returns (h : Prompt c) (r : WaitReturn) (hid : r.call.id = c.calls)
    (hr : r.result = .ok () → r.state = r.call.wait.target) :
    Prompt { c with calls := c.calls + 1, returned := c.returned ++ [r] } where
  none := h.none
  sound x hx := by
    rcases mem_append.mp hx with hx | hx
    · exact h.sound x hx
    · rw [mem_singleton.mp hx]
      exact hr
  known x hx := by
    rcases mem_append.mp hx with hx | hx
    · exact Nat.lt_succ_of_lt (h.known x hx)
    · rw [mem_singleton.mp hx, hid]
      exact Nat.lt_succ_self _
  once := by
    rw [map_append, nodup_append]
    refine ⟨h.once, nodup_singleton _, ?_⟩
    intro i hi j hj heq
    obtain ⟨x, hx, rfl⟩ := mem_map.mp hi
    have hlt := h.known x hx
    have hj' : j = r.call.id := mem_singleton.mp hj
    omega

theorem Prompt.after (h : Prompt c) (s : DependencyManager) : Prompt (c.after s) where
  none := by
    show c.suspended.filter _ = []
    rw [h.none]
    rfl
  sound x hx := by
    have hx' : x ∈ c.returned := by simpa [Clients.after, h.none] using hx
    exact h.sound x hx'
  known x hx := by
    have hx' : x ∈ c.returned := by simpa [Clients.after, h.none] using hx
    exact h.known x hx'
  once := by
    have hsame : (c.after s).returned = c.returned := by simp [Clients.after, h.none]
    rw [hsame]
    exact h.once

theorem returns_of_decided {w : Wait} {q : PromiseId} {svc : ServiceId}
    (h : c.decided (.wait w q svc) = true) : ∃ result, w.returns c.manager svc = some result ∧
      (result = .ok () → c.manager.stateOf svc = w.target) := by
  by_cases hq : c.manager.quitEventReceived = true
  · refine ⟨.error .quitting, ?_, nofun⟩
    cases w <;> simp [Wait.returns, waitForServiceStarted, waitForServiceStopped, returnOrWait, hq]
  · cases w with
    | started =>
      have hactive : c.manager.stateOf svc = .active := by simpa [decided, hq] using h
      refine ⟨.ok (), ?_, fun _ => hactive⟩
      simp [Wait.returns, waitForServiceStarted, returnOrWait, hq, hactive]
    | stopped =>
      have hquit : c.manager.quitEventReceived = true := h
      exact absurd hquit hq

theorem Prompt.step (h : Prompt c) {a : ClientAction} (hc : c.decided a = true)
    (hstep : act a c = some c') : Prompt c' := by
  cases a with
  | manager a =>
    simp only [act] at hstep
    split at hstep
    · cases hstep
    · obtain ⟨s, _, rfl⟩ := Option.map_eq_some_iff.mp hstep
      exact h.after s
  | wait w q svc =>
    simp only [act] at hstep
    obtain ⟨result, hreturns, hresult⟩ := returns_of_decided hc
    split at hstep
    · cases hstep
    · split at hstep
      · cases hstep
      · rw [hreturns] at hstep
        cases hstep
        exact h.returns _ rfl hresult

/-- In a run whose calls are all made while the manager quits or, for a start, while the
service is ACTIVE, every success is true and no call stays suspended in vain. -/
theorem waits_sound_and_complete (order : QueueOrder) (internals : List NameHash) (c : Clients)
    (h : RunWhere order (fun c a => c.decided a = true) (initial internals) c) :
    SoundAndComplete c := by
  have hinitial : Prompt (initial internals) := ⟨rfl, nofun, nofun, nodup_nil⟩
  exact (h.invariant Prompt hinitial fun x a y hx hg hn => hx.step hg.2 hn).soundAndComplete

/-! ## Calls that are answered wrongly or not at all -/

/-- A service is ACTIVE and a coroutine of user code is suspended. -/
def activeAndSuspended : List ClientAction :=
  [.manager (.createServiceManager (.simple [] [])), .manager (.processEvent 0 .prompt),
    .manager (.processEvent 0 .prompt), .manager (.processEvent 0 .prompt),
    .manager (.pushEvent 0 internalEventPriority .runFunctionAsync),
    .manager (.processEvent 0 .slow)]

theorem waits_sound_and_complete_active : ∃ c, SoundAndComplete c ∧
    c.returned.map (fun r => (r.call.wait, r.state)) = [(.started, .active)] := by
  have hplay : ∃ c, GuardedRuns.exec act (fun c a => c.respects orderedPriorityQueue a && c.decided a)
      (activeAndSuspended ++ [.wait .started 2 2]) (initial [0]) = some c ∧
      c.returned.map (fun r => (r.call.wait, r.state)) = [(.started, .active)] := ⟨_, rfl, rfl⟩
  obtain ⟨c, hc, hreturned⟩ := hplay
  have hrun : RunWhere orderedPriorityQueue (fun c a => c.decided a = true) (initial [0]) c :=
    GuardedRuns.exec_run _ _ _ (fun _ _ h => Bool.and_eq_true_iff.mp h) hc
  exact ⟨c, waits_sound_and_complete orderedPriorityQueue [0] c hrun, hreturned⟩

/-- A coroutine waits for the start of a service that is then started, and the manager quits. -/
def startsWhileWaited : List ClientAction :=
  [.manager (.pushEvent 0 internalEventPriority .runFunctionAsync),
    .manager (.processEvent 0 .slow), .manager (.createServiceManager (.simple [] [])),
    .wait .started 1 2, .manager (.processEvent 0 .prompt), .manager (.processEvent 0 .prompt),
    .manager (.processEvent 0 .prompt)]

/-- The wait for a stop succeeds while the service is ACTIVE, and the wait for a start goes
on when the service is ACTIVE, and when the manager quits. -/
theorem waits_unsound_and_incomplete :
    (∃ c, RunWhere orderedPriorityQueue (fun _ _ => True) (initial [0]) c ∧
      ∃ r ∈ c.returned, r.call.wait = .stopped ∧ r.result = .ok () ∧ r.state = .active) ∧
    (∃ c, RunWhere orderedPriorityQueue (fun _ _ => True) (initial [0]) c ∧ c.manager.queue = [] ∧
      ∃ call ∈ c.suspended, call.wait = .started ∧ c.manager.stateOf call.svc = .active) ∧
    ∃ c, RunWhere orderedPriorityQueue (fun _ _ => True) (initial [0]) c ∧
      c.suspended ≠ [] ∧ c.manager.quitEventReceived = true := by
  have hrun : ∀ {acts : List ClientAction} {c : Clients},
      GuardedRuns.exec act (respects orderedPriorityQueue) acts (initial [0]) = some c →
      RunWhere orderedPriorityQueue (fun _ _ => True) (initial [0]) c := fun h =>
    GuardedRuns.exec_run _ _ _ (fun _ _ h => ⟨h, trivial⟩) h
  refine ⟨?_, ?_, ?_⟩
  · have hplay : ∃ c r, GuardedRuns.exec act (respects orderedPriorityQueue)
        (activeAndSuspended ++ [.wait .stopped 2 2]) (initial [0]) = some c ∧ c.returned = [r] ∧
        r.call.wait = .stopped ∧ r.result = .ok () ∧ r.state = .active :=
      ⟨_, _, rfl, rfl, rfl, rfl, rfl⟩
    obtain ⟨c, r, hc, hr, hrest⟩ := hplay
    exact ⟨c, hrun hc, r, by rw [hr]; exact mem_singleton_self r, hrest⟩
  · have hplay : ∃ c call, GuardedRuns.exec act (respects orderedPriorityQueue) startsWhileWaited
        (initial [0]) = some c ∧ c.manager.queue = [] ∧ c.suspended = [call] ∧
        call.wait = .started ∧ c.manager.stateOf call.svc = .active :=
      ⟨_, _, rfl, rfl, rfl, rfl, rfl⟩
    obtain ⟨c, call, hc, hempty, hcall, hrest⟩ := hplay
    exact ⟨c, hrun hc, hempty, call, by rw [hcall]; exact mem_singleton_self call, hrest⟩
  · have hplay : ∃ c call, GuardedRuns.exec act (respects orderedPriorityQueue)
        (startsWhileWaited ++ [.manager (.pushEvent 0 internalEventPriority .quit),
          .manager (.processEvent 0 .prompt)]) (initial [0]) = some c ∧ c.suspended = [call] ∧
        c.manager.quitEventReceived = true := ⟨_, _, rfl, rfl, rfl⟩
    obtain ⟨c, call, hc, hcall, hquit⟩ := hplay
    exact ⟨c, hrun hc, by rw [hcall]; exact cons_ne_nil _ _, hquit⟩

end Ichor.Clients
