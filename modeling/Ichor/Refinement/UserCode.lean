import Ichor.Refinement.Housekeeping

/-! What user code does between two events: requests, registrations, and
coroutines that end or go to wait. -/
namespace Ichor.Lifecycle
open FiniteTable DependencyManager

section
variable {o : Origin}

variable {s s' : DependencyManager} {q : PromiseId} {g : ScopedGenerator}

theorem atUser_of_suspended (ho : o.event = none) (h : s.suspendedUserCode q = some g) :
    AtUser o (core s) q g ∧ ¬offlineLike g.generator.coroutine := by
  obtain ⟨hg, hsus, hfree, hco⟩ := suspendedUserCode_eq_some h
  refine ⟨⟨ho, rfl, hg, hsus, ?_⟩, ?_⟩
  · intro d type hw
    unfold isAwaiting at hfree
    obtain ⟨hdep, _⟩ := (Bool.or_eq_false_iff).mp hfree
    have hdep := ((Bool.or_eq_false_iff).mp hdep).2
    change (type, q) ∈ Waiters.of s.dependencyWaiters d at hw
    unfold Waiters.of at hw
    split at hw
    · rename_i w hget
      have hentry := (Table.mem_entries_iff _ _ _).mpr hget
      have hany := List.any_eq_false.mp hdep _ hentry
      exact hany (List.any_eq_true.mpr ⟨_, hw, decide_eq_true rfl⟩)
    · cases hw
  · intro hlike
    unfold offlineLike at hlike
    split at hlike
    · rename_i p point hp
      exact hco p point hp
    · exact hlike

theorem core_returnValue
    (hg : s.scopedGenerators.get? q = some g) (value : StartBehaviour) (body : EventBody) :
    ∃ e, e.body = body ∧ core (s.returnValue q g value body) =
      ((core s).setGenerator q (some (finished g (.finished value)))).push [e] := by
  refine ⟨⟨s.nextEventId, g.generator.serviceId, g.generator.priority, body⟩, rfl, ?_⟩
  unfold core returnValue
  rw [view_push, view_modifyGenerator s _ _ _ q g hg]
  rfl

theorem path_finishStart (h : Inv (core s)) (ho : o.event = none)
    (q : PromiseId) (success : Bool) (hs : s.finishStart q success = some s') :
    Path o (core s) (core s') := by
  obtain ⟨g, v, hsus, hvalue, rfl⟩ := finishStart_eq_some hs
  obtain ⟨hat, _⟩ := atUser_of_suspended ho hsus
  have hg : s.scopedGenerators.get? q = some g := hat.generator
  have hlike : startLike g.generator.coroutine := by
    rcases hvalue with ⟨hco, -⟩ | ⟨hco, -⟩
    · rw [hco]
      trivial
    · rw [hco]
      trivial
  have hst := h.starting_of_suspended hat.generator hat.suspended hlike
  obtain ⟨m, hm⟩ : ∃ m, s.services.get? g.generator.serviceId = some m :=
    (h.links.inTable _).mpr (by rw [hst]; decide)
  have hv := view_setState s [] .idle [] hm (if success then .injecting else .installed)
  obtain ⟨e, hb, hcore⟩ := core_returnValue (s := s.setState g.generator.serviceId
    (if success then .injecting else .installed)) hg v (.continuableStart q)
  rw [hcore]
  unfold core
  rw [hv]
  cases success with
  | true => exact .single (.start (.finishOk q g e v hat hvalue hb))
  | false =>
    obtain rfl : v = .stopped := by
      rcases hvalue with ⟨-, hv⟩ | ⟨-, hv⟩
      · exact hv
      · exact hv
    exact .single (.start (.finishFail q g e hat hlike hb))

theorem path_finishStopCoroutine (h : Inv (core s))
    (ho : o.event = none) (q : PromiseId) (hs : s.finishStopCoroutine q = some s') :
    Path o (core s) (core s') := by
  obtain ⟨g, hsus, hco, rfl⟩ := finishStopCoroutine_eq_some hs
  obtain ⟨hat, _⟩ := atUser_of_suspended ho hsus
  have hg : s.scopedGenerators.get? q = some g := hat.generator
  have hst := h.stopping_of_suspended hat.generator hat.suspended hco
  obtain ⟨m, hm⟩ : ∃ m, s.services.get? g.generator.serviceId = some m :=
    (h.links.inTable _).mpr (by rw [hst.1]; decide)
  have hv := view_setState s [] .idle [] hm .installed
  obtain ⟨e, hb, hcore⟩ := core_returnValue
    (s := (s.setState g.generator.serviceId .installed).call (.stopped g.generator.serviceId))
    hg .done (.continuableStart q)
  rw [hcore]
  unfold core
  rw [view_call, hv]
  exact .single (.stop (.finishStop q g e hat hco hb))

theorem path_finishUserGenerator (ho : o.event = none) (q : PromiseId)
    (hs : s.finishUserGenerator q = some s') : Path o (core s) (core s') := by
  obtain ⟨g, hsus, hco, rfl⟩ := finishUserGenerator_eq_some hs
  obtain ⟨hat, _⟩ := atUser_of_suspended ho hsus
  obtain ⟨e, hb, hcore⟩ := core_returnValue hat.generator .done (.continuable q)
  rw [hcore]
  exact .single (.user (.finish q g e .done hat hco hb))

theorem path_yieldUserGenerator (ho : o.event = none) (q : PromiseId)
    (hs : s.yieldUserGenerator q = some s') : Path o (core s) (core s') := by
  obtain ⟨g, hsus, hco, rfl⟩ := yieldUserGenerator_eq_some hs
  obtain ⟨hat, _⟩ := atUser_of_suspended ho hsus
  unfold core
  rw [view_push, view_modifyGenerator s _ _ _ q g hat.generator]
  exact .single (.user (.yieldAgain q g _ hat hco rfl))

/-! ## Requests -/

theorem path_request (s : DependencyManager) (ho : o.event = none) (svc : ServiceId) (priority : ℕ)
    (body : EventBody) (hb : body.isRequest = true) :
    Path o (core s) (core (s.pushPrioritisedEvent svc priority body)) := by
  unfold core
  rw [view_push]
  exact .single (.queue (.request _ hb ho))

theorem isRequest_of_isAwaitable {body : EventBody} (h : body.isAwaitable = true) :
    body.isRequest = true := by
  cases body <;> simp_all [EventBody.isAwaitable, EventBody.isRequest]

theorem path_pushEventAsync (ho : o.event = none) (q : PromiseId)
    (svc : ServiceId) (priority : ℕ) (coalesce : Bool) (body : EventBody)
    (hb : body.isAwaitable = true) (hs : s.pushEventAsync q svc priority coalesce body = some s') :
    Path o (core s) (core s') := by
  obtain ⟨_, rfl⟩ | rfl := pushEventAsync_eq_some hs
  · exact .refl
  · exact path_request s ho svc priority body (isRequest_of_isAwaitable hb)

theorem path_waitForServiceEvent (ho : o.event = none) (q : PromiseId)
    (svc : ServiceId) (type : EventType) (ht : type = .startService ∨ type = .stopService)
    (hs : s.waitForServiceEvent q svc type = some s') : Path o (core s) (core s') := by
  obtain ⟨g, hsus, rfl⟩ := waitForServiceEvent_eq_some hs
  obtain ⟨hat, hco⟩ := atUser_of_suspended ho hsus
  unfold core
  rw [view_waitForService]
  exact .single (.user (.wait q g svc type hat hco ht))

/-! ## New services and registrations -/

theorem path_foldl_push {α : Type} (l : List α) (s : DependencyManager) (svc : ServiceId)
    (priority : ℕ) (body : α → EventBody) (hb : ∀ a, Unconditional (body a)) :
    Path o (core s) (core (l.foldl (fun s a => s.pushPrioritisedEvent svc priority (body a)) s)) := by
  refine Loops.rel_foldl (fun s t => Path o (core s) (core t)) (fun _ => .refl) (·.trans ·) _ l s ?_
  intro t a _
  unfold core
  rw [view_push]
  exact .single (.queue (.push _ (hb a)))

theorem path_createServiceManager (s : DependencyManager) (ho : o.event = none)
    (desc : ServiceDescription) : Path o (core s) (core (s.createServiceManager desc)) := by
  unfold createServiceManager
  dsimp only
  have hcreate : Path o (core s) (core
      (({ s with nextServiceId := s.nextServiceId + 1 }).pushPrioritisedEvent s.nextServiceId
        (min internalInsertServiceEventPriority desc.priority)
        (.insertService (createdManager s.nextServiceId desc)))) := by
    unfold core
    rw [view_push]
    exact .single (.queue (.create desc _ ho rfl rfl))
  have hrequests := hcreate.trans (path_foldl_push
    (createdManager s.nextServiceId desc).registry.zipIdx _ s.nextServiceId
    (min internalDependencyEventPriority desc.priority)
    (fun dep => .dependencyRequest dep.1.interfaceNameHash dep.2) fun _ => trivial)
  split
  · exact hrequests
  · refine hrequests.tail (.queue ?_)
    unfold core
    rw [view_push (List.foldl _ _ _)]
    exact .push _ trivial

theorem path_registerDependencyTracker (svc : ServiceId)
    (hash : NameHash) (hs : s.registerDependencyTracker svc hash = some s') :
    Path o (core s) (core s') := by
  obtain ⟨_, rfl⟩ := registerDependencyTracker_eq_some hs
  unfold core
  rw [view_push]
  exact .single (.queue (.push _ trivial))

end

end Ichor.Lifecycle
