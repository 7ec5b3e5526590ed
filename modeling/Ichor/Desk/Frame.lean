import Ichor.Model.Run
import Ichor.Lib.Loops

/-! What moving lifecycles leave alone. Starting and stopping services, injecting
providers and taking them out never touch the registrations of user code, the
event waiters or the flags for quitting; they only add events and calls of their
own kind, and they keep what is fixed about a service. -/
namespace Ichor
open FiniteTable List Nat

/-- The part of the manager that no lifecycle touches. -/
structure Desk where
  dependencyRequestTrackers : Table NameHash (List ServiceId)
  eventCallbacks : Table EventType (List EventCallbackInfo)
  eventInterceptors : Table (Option EventType) (List EventInterceptInfo)
  eventWaiters : Table EventId EventWaiter
  abandoned : List PromiseId
  quitEventReceived : Bool
  quitDone : Bool
  allEventInterceptorsCopy : List EventInterceptInfo
  eventInterceptorsCopy : List EventInterceptInfo
  nextServiceId : ServiceId
  nextInterceptorId : ℕ

/-- What is fixed about a service once it was created. -/
structure Fixed where
  serviceId : ServiceId
  kind : ManagerKind
  interfaces : List NameHash
  priority : ℕ
  properties : Properties
  filter : Option Filter
  registrations : List (NameHash × DependencyFlags × Option Properties)

def LifecycleManager.fixed (m : LifecycleManager) : Fixed where
  serviceId := m.serviceId
  kind := m.kind
  interfaces := m.interfaces
  priority := m.priority
  properties := m.properties
  filter := m.filter
  registrations := m.registry.map fun dep => (dep.interfaceNameHash, dep.flags, dep.properties)

/-- The events that moving lifecycles queue. -/
def EventBody.ofLifecycle : EventBody → Bool
  | .dependencyOnline | .dependencyOffline _ | .stopService _ _ | .continuableStart _ => true
  | _ => false

/-- The calls that moving lifecycles make. -/
def Call.ofLifecycle : Call → Bool
  | .add _ _ _ | .takeOut _ _ _ | .remove _ _ _ | .start _ _ | .stop _ _ | .stopped _
  | .resumed _ => true
  | _ => false

namespace DependencyManager

section
variable (s : DependencyManager) (d : ServiceId)

def desk : Desk where
  dependencyRequestTrackers := s.dependencyRequestTrackers
  eventCallbacks := s.eventCallbacks
  eventInterceptors := s.eventInterceptors
  eventWaiters := s.eventWaiters
  abandoned := s.abandoned
  quitEventReceived := s.quitEventReceived
  quitDone := s.quitDone
  allEventInterceptorsCopy := s.allEventInterceptorsCopy
  eventInterceptorsCopy := s.eventInterceptorsCopy
  nextServiceId := s.nextServiceId
  nextInterceptorId := s.nextInterceptorId

def fixedOf : Option Fixed :=
  (s.services.get? d).map LifecycleManager.fixed

end

/-- Lifecycles move from `s` to `s'`. -/
structure Moves (s s' : DependencyManager) : Prop where
  desk : s'.desk = s.desk
  fixed : ∀ d, s'.fixedOf d = s.fixedOf d
  eventId : s.nextEventId ≤ s'.nextEventId
  queue : ∃ events, s'.queue = s.queue ++ events ∧ ∀ e ∈ events,
    e.body.ofLifecycle = true ∧ s.nextEventId ≤ e.id ∧ e.id < s'.nextEventId
  calls : ∃ calls, s'.trace = calls ++ s.trace ∧ ∀ c ∈ calls, Call.ofLifecycle c = true
  users : ∀ q g, g.generator.coroutine = .user → s'.scopedGenerators.get? q = some g →
    s.scopedGenerators.get? q = some g
  kept : ∀ q, s'.scopedGenerators.get? q = none → s.scopedGenerators.get? q = none

variable {s s' t : DependencyManager}

namespace Moves

theorem of_eq (hdesk : s'.desk = s.desk) (hservices : ∀ d, s'.fixedOf d = s.fixedOf d)
    (hevent : s'.nextEventId = s.nextEventId) (hqueue : s'.queue = s.queue)
    (htrace : s'.trace = s.trace) (hgen : s'.scopedGenerators = s.scopedGenerators) :
    Moves s s' where
  desk := hdesk
  fixed := hservices
  eventId := Nat.le_of_eq hevent.symm
  queue := ⟨[], by simp [hqueue], by simp⟩
  calls := ⟨[], by simp [htrace], by simp⟩
  users q g _ hg := hgen ▸ hg
  kept q hq := hgen ▸ hq

theorem refl (s : DependencyManager) : Moves s s :=
  of_eq rfl (fun _ => rfl) rfl rfl rfl rfl

theorem trans (h : Moves s t) (h' : Moves t s') : Moves s s' where
  desk := h'.desk.trans h.desk
  fixed d := (h'.fixed d).trans (h.fixed d)
  eventId := Nat.le_trans h.eventId h'.eventId
  queue := by
    obtain ⟨events, hevents, hall⟩ := h.queue
    obtain ⟨more, hmore, hall'⟩ := h'.queue
    refine ⟨events ++ more, by rw [hmore, hevents, append_assoc], ?_⟩
    intro e he
    rcases mem_append.mp he with he | he
    · obtain ⟨hbody, hle, hlt⟩ := hall e he
      exact ⟨hbody, hle, Nat.lt_of_lt_of_le hlt h'.eventId⟩
    · obtain ⟨hbody, hle, hlt⟩ := hall' e he
      exact ⟨hbody, Nat.le_trans h.eventId hle, hlt⟩
  calls := by
    obtain ⟨calls, hcalls, hall⟩ := h.calls
    obtain ⟨calls', hcalls', hall'⟩ := h'.calls
    refine ⟨calls' ++ calls, by rw [hcalls', hcalls, append_assoc], fun c hc => ?_⟩
    rcases mem_append.mp hc with hc | hc
    · exact hall' c hc
    · exact hall c hc
  users q g hg hq := h.users q g hg (h'.users q g hg hq)
  kept q hq := h.kept q (h'.kept q hq)

end Moves

/-! ## Single updates -/

theorem fixedOf_modifyService (s : DependencyManager) (d x : ServiceId)
    (f : LifecycleManager → LifecycleManager) (hf : ∀ m, (f m).fixed = m.fixed) :
    (s.modifyService d f).fixedOf x = s.fixedOf x := by
  unfold fixedOf modifyService
  dsimp only
  rw [Table.get?_modify]
  split
  · rename_i hx
    subst hx
    cases s.services.get? x with
    | none => rfl
    | some m => exact congrArg some (hf m)
  · rfl

theorem moves_modifyService (s : DependencyManager) (d : ServiceId)
    (f : LifecycleManager → LifecycleManager) (hf : ∀ m, (f m).fixed = m.fixed) :
    Moves s (s.modifyService d f) :=
  .of_eq rfl (fun x => fixedOf_modifyService s d x f hf) rfl rfl rfl rfl

theorem moves_call (s : DependencyManager) (c : Call) (hc : Call.ofLifecycle c = true) :
    Moves s (s.call c) :=
  { Moves.refl s with calls := ⟨[c], rfl, by simpa using hc⟩ }

section
variable (s : DependencyManager) (d : ServiceId)

theorem moves_setState (st : ServiceState) : Moves s (s.setState d st) :=
  moves_modifyService s d _ fun _ => rfl

theorem moves_push (o : ServiceId) (priority : ℕ) (body : EventBody)
    (hb : body.ofLifecycle = true) : Moves s (s.pushPrioritisedEvent o priority body) where
  desk := rfl
  fixed _ := rfl
  eventId := le_succ _
  queue := by
    refine ⟨[⟨s.nextEventId, o, priority, body⟩], rfl, ?_⟩
    intro e he
    rw [mem_singleton] at he
    subst he
    exact ⟨hb, Nat.le_refl _, Nat.lt_succ_self _⟩
  calls := (Moves.refl s).calls
  users _ _ _ hg := hg
  kept _ hq := hq

theorem moves_takePromiseId : Moves s s.takePromiseId :=
  .of_eq rfl (fun _ => rfl) rfl rfl rfl rfl

theorem moves_waitForService (type : EventType)
    (q : PromiseId) : Moves s (s.waitForService d type q) :=
  .of_eq rfl (fun _ => rfl) rfl rfl rfl rfl

theorem moves_takeEventId : Moves s s.takeEventId :=
  { Moves.refl s with
    eventId := le_succ _
    queue := ⟨[], by simp [takeEventId], by simp⟩ }

end

theorem Moves.scope (h : Moves s t) (q : PromiseId) (g : ScopedGenerator)
    (hc : g.generator.coroutine ≠ .user) : Moves s (t.scopeGenerator q g) where
  __ := h
  users q' g' hg' hget := by
    unfold scopeGenerator at hget
    dsimp only at hget
    rw [Table.get?_emplace] at hget
    refine h.users q' g' hg' ?_
    split at hget
    · rename_i hq'
      subst hq'
      cases ht : t.scopedGenerators.get? q' with
      | none =>
        rw [ht] at hget
        cases hget
        exact absurd hg' hc
      | some g1 =>
        rw [ht] at hget
        exact hget
    · exact hget
  kept q' hget := by
    unfold scopeGenerator at hget
    dsimp only at hget
    rw [Table.get?_emplace] at hget
    refine h.kept q' ?_
    split at hget
    · rename_i hq'
      exact hq' ▸ (Option.or_eq_none_iff.mp hget).1
    · exact hget

theorem moves_modifyGenerator (s : DependencyManager) (q : PromiseId) (f : Generator → Generator)
    (hf : ∀ g, s.scopedGenerators.get? q = some g → (f g.generator).coroutine ≠ .user) :
    Moves s (s.modifyGenerator q f) :=
  { Moves.refl s with
    users := by
      intro q' g' hg' hget
      unfold modifyGenerator at hget
      dsimp only at hget
      rw [Table.get?_modify] at hget
      split at hget
      · rename_i hq'
        obtain ⟨g, hg, rfl⟩ := Option.map_eq_some_iff.mp hget
        exact absurd hg' (hf g (hq' ▸ hg))
      · exact hget
    kept := by
      intro q' hget
      unfold modifyGenerator at hget
      dsimp only at hget
      rw [Table.get?_modify] at hget
      split at hget
      · exact Option.map_eq_none_iff.mp hget
      · exact hget }

/-! ## Lifecycles that leave the states alone -/

/-- Lifecycles move, and no service changes its state. -/
structure Wakes (s s' : DependencyManager) : Prop extends Moves s s' where
  states : ∀ d, s'.stateOf d = s.stateOf d

theorem Wakes.refl (s : DependencyManager) : Wakes s s := ⟨.refl s, fun _ => rfl⟩

theorem Wakes.trans (h : Wakes s t) (h' : Wakes t s') : Wakes s s' :=
  ⟨h.toMoves.trans h'.toMoves, fun d => (h'.states d).trans (h.states d)⟩

/-- Links and counters move: no generator is stored or changed, and no service
changes its state. -/
structure Calm (s s' : DependencyManager) : Prop extends Wakes s s' where
  generators : s'.scopedGenerators = s.scopedGenerators

theorem Calm.refl (s : DependencyManager) : Calm s s := ⟨.refl s, rfl⟩

theorem Calm.trans (h : Calm s t) (h' : Calm t s') : Calm s s' :=
  ⟨h.toWakes.trans h'.toWakes, h'.generators.trans h.generators⟩

theorem calm_foldl {α : Type} (f : DependencyManager → α → DependencyManager) (l : List α)
    (s : DependencyManager) (hf : ∀ s a, Calm s (f s a)) : Calm s (l.foldl f s) :=
  Loops.rel_foldl Calm Calm.refl Calm.trans f l s fun s a _ => hf s a

theorem calm_modifyService (s : DependencyManager) (d : ServiceId)
    (f : LifecycleManager → LifecycleManager) (hf : ∀ m, (f m).fixed = m.fixed)
    (hst : ∀ m, (f m).state = m.state) : Calm s (s.modifyService d f) :=
  ⟨⟨moves_modifyService s d f hf,
    fun x => Services.view_modify LifecycleManager.state .uninstalled s.services d x f hst⟩, rfl⟩

theorem calm_call (s : DependencyManager) (c : Call) (hc : Call.ofLifecycle c = true) :
    Calm s (s.call c) :=
  ⟨⟨moves_call s c hc, fun _ => rfl⟩, rfl⟩

section
variable (s : DependencyManager) (u : UserCode) (d : ServiceId) (m : LifecycleManager)
  (deps : Option DependencyRegister)

theorem calm_push (o : ServiceId) (priority : ℕ) (body : EventBody)
    (hb : body.ofLifecycle = true) : Calm s (s.pushPrioritisedEvent o priority body) :=
  ⟨⟨moves_push s o priority body hb, fun _ => rfl⟩, rfl⟩

theorem calm_waitForService (type : EventType)
    (q : PromiseId) : Calm s (s.waitForService d type q) :=
  ⟨⟨moves_waitForService s d type q, fun _ => rfl⟩, rfl⟩

theorem fixed_modifyRegistration (r : ℕ) (f : ℕ → ℕ) :
    LifecycleManager.fixed { m with
      registry := m.registry.modify r fun dep => { dep with satisfied := f dep.satisfied } } =
        m.fixed := by
  unfold LifecycleManager.fixed
  dsimp only
  congr 1
  apply ext_getElem?
  intro i
  rw [getElem?_map, getElem?_map, getElem?_modify]
  cases m.registry[i]? with
  | none => rfl
  | some dep =>
    by_cases hi : r = i
    · simp [hi]
    · simp [hi]

/-! ## Starting and stopping -/

theorem moves_internalStart : Moves s (s.internalStart u d m deps).1 := by
  unfold internalStart
  split
  · exact .refl s
  · have hcall := (moves_setState s d .starting).trans
      (moves_call _ (.start d m.registry.allSatisfied) rfl)
    dsimp only
    split
    · exact hcall.trans (moves_setState _ d .injecting)
    · exact hcall.trans (moves_setState _ d .installed)
    · exact hcall

theorem moves_start : Moves s (s.start u d m).1 := by
  unfold start
  split
  · exact moves_internalStart s u d m _
  · exact moves_internalStart s u d m _
  · exact moves_setState s d .active

theorem moves_startAfterDependencyOnline : Moves s (s.startAfterDependencyOnline u d m).1 := by
  have hstart := moves_internalStart s u d m none
  unfold startAfterDependencyOnline
  split
  · rename_i s' heq
    rw [heq] at hstart
    exact hstart
  · exact hstart

end

section
variable (s s' : DependencyManager) (d p : ServiceId) (q : PromiseId) (deps : List ℕ)
  (result : OfflineResult)

theorem moves_stop (u : UserCode) (d : ServiceId) (m : LifecycleManager)
    (ret : Option StartBehaviour) (h : s.stop u d m = some (s', ret)) : Moves s s' := by
  unfold stop at h
  split at h
  · cases h
    exact moves_setState s d .installed
  · split at h
    · cases h
    · have hcall := (moves_setState s d .stopping).trans
        (moves_call _ (.stop d m.serviceIdsOfDependees.isEmpty) rfl)
      dsimp only at h
      split at h
      · cases h
        exact hcall
      · cases h
        exact (hcall.trans (moves_setState _ d .installed)).trans (moves_call _ (.stopped d) rfl)

/-! ## Injecting a provider and taking it out -/

theorem calm_injectIntoSelf (r : ℕ) (p : ServiceId) :
    Calm s (s.injectIntoSelfDoubleDispatch d r p) :=
  (calm_call s (.add d r p) rfl).trans (calm_modifyService _ p (fun m => { m with
    serviceIdsOfDependees := insertId d m.serviceIdsOfDependees }) (fun _ => rfl) fun _ => rfl)

theorem calm_dependencyOnlineInterface
    (acc : DependencyManager × DependencyChange) (interface : NameHash) :
    Calm acc.1 (dependencyOnlineInterface d p acc interface).1 := by
  unfold dependencyOnlineInterface
  dsimp only
  split
  · exact .refl _
  · rename_i r _
    have hnote := calm_modifyService acc.1 d (fun m => { m with
      serviceIdsOfInjectedDependencies := insertId p m.serviceIdsOfInjectedDependencies })
      (fun _ => rfl) fun _ => rfl
    have hinject := hnote.trans (calm_injectIntoSelf _ d r p)
    exact hinject.trans (calm_modifyService _ d _ (fun m => fixed_modifyRegistration m r (· + 1))
      fun _ => rfl)

theorem calm_dependencyOnline
    (interfaces : List NameHash) : Calm s (s.dependencyOnline d p interfaces).1 := by
  have hloop : ∀ (l : List NameHash) (acc : DependencyManager × DependencyChange),
      Calm acc.1 (l.foldl (dependencyOnlineInterface d p) acc).1 := fun l acc =>
    List.foldlRecOn (motive := fun x => Calm acc.1 x.1) l _ (.refl acc.1)
      fun x hx interface _ => hx.trans (calm_dependencyOnlineInterface d p x interface)
  unfold dependencyOnline
  split
  · exact .refl s
  · split
    · exact .refl s
    · dsimp only
      split <;> exact hloop interfaces (s, .notFound)

theorem calm_decrementSatisfied {r : ℕ} {gone : Bool}
    (h : s.decrementSatisfied d r p = some (s', gone)) : Calm s s' := by
  unfold decrementSatisfied at h
  split at h
  · cases h
  · split at h
    · cases h
    · cases h
      exact (calm_call s (.takeOut d r p) rfl).trans
        (calm_modifyService _ d _ (fun m => fixed_modifyRegistration m r (· - 1)) fun _ => rfl)

/-- What a decrement, a wait and the push of the dependent's own event keep, `dependencyOffline`
keeps up to where it is suspended. -/
structure OfflineRule (R : DependencyManager → DependencyManager → Prop) : Prop where
  refl : ∀ s, R s s
  trans : ∀ {s t s'}, R s t → R t s' → R s s'
  decrement : ∀ {s s' : DependencyManager} {d p r gone},
    s.decrementSatisfied d r p = some (s', gone) → R s s'
  wait : ∀ (s : DependencyManager) d type q, R s (s.waitForService d type q)
  push : ∀ (s : DependencyManager) d priority,
    R s (s.pushPrioritisedEvent d priority (.dependencyOffline false))

namespace OfflineRule
variable {R : DependencyManager → DependencyManager → Prop} (hR : OfflineRule R)
include hR

theorem offlineStop (gone : Bool) (interested : DependencyChange) (ret : StartBehaviour) :
    R s (s.offlineStop d q gone interested ret).1 := by
  unfold DependencyManager.offlineStop
  split
  · split
    · dsimp only
      split
      · exact hR.wait s d _ q
      · exact hR.trans (hR.push s d _) (hR.wait _ d _ q)
    · split
      · exact hR.wait s d _ q
      · exact hR.refl s
  · split <;> exact hR.refl s

theorem offlineLoop {interested : DependencyChange} {ret : StartBehaviour} {s s' : DependencyManager}
    {result : OfflineResult} (h : offlineLoop d p q deps interested ret s = some (s', result)) :
    R s s' := by
  induction deps generalizing interested ret s with
  | nil =>
    cases h
    exact hR.refl _
  | cons r rest ih =>
    unfold DependencyManager.offlineLoop at h
    split at h
    · cases h
    rename_i s1 gone hdec
    split at h
    · cases h
      exact hR.trans (hR.decrement hdec) (hR.wait s1 d _ q)
    · have hstop := hR.trans (hR.decrement hdec) (hR.offlineStop s1 d q gone interested ret)
      split at h
      · rename_i s2 wasActive heq
        rw [heq] at hstop
        cases h
        exact hstop
      · rename_i s2 interested' ret' heq
        rw [heq] at hstop
        exact hR.trans hstop (ih h)

theorem resumeOffline {point : OfflinePoint} {result : OfflineResult}
    (h : s.resumeOffline d p q point = some (s', result)) : R s s' := by
  cases point with
  | awaitOnline rest interested ret =>
    simp only [DependencyManager.resumeOffline] at h
    split at h
    · cases h
    have hstop := hR.offlineStop s d q true interested ret
    split at h
    · rename_i s2 wasActive heq
      rw [heq] at hstop
      cases h
      exact hstop
    · rename_i s2 interested' ret' heq
      rw [heq] at hstop
      exact hR.trans hstop (hR.offlineLoop d p q rest h)
  | awaitOffline wasActive rest ret =>
    simp only [DependencyManager.resumeOffline] at h
    split at h
    · cases h
    · split at h
      · exact hR.offlineLoop d p q rest h
      · exact hR.offlineLoop d p q rest h

end OfflineRule

theorem calm_rule : OfflineRule Calm where
  refl := .refl
  trans := .trans
  decrement := calm_decrementSatisfied _ _ _ _
  wait := calm_waitForService
  push s d priority := calm_push s d priority (.dependencyOffline false) rfl

theorem calm_dependencyOffline
    (h : s.dependencyOffline d p q deps = some (s', result)) : Calm s s' := by
  unfold dependencyOffline at h
  have hleave := calm_modifyService s d (fun m => { m with
    serviceIdsOfInjectedDependenciesButGoingAway :=
      insertId p m.serviceIdsOfInjectedDependenciesButGoingAway }) (fun _ => rfl) fun _ => rfl
  exact hleave.trans (calm_rule.offlineLoop d p q deps h)

theorem calm_finishDependencyOffline : Calm s (s.finishDependencyOffline d p deps) := by
  have hremove : Calm s (deps.foldl (removeSelfIntoDoubleDispatch d p) s) := by
    refine calm_foldl _ deps s fun s r => ?_
    exact (calm_call s (.remove d r p) rfl).trans (calm_modifyService _ p (fun m => { m with
      serviceIdsOfDependees := eraseId d m.serviceIdsOfDependees }) (fun _ => rfl) fun _ => rfl)
  exact hremove.trans (calm_modifyService _ d (fun m => { m with
    serviceIdsOfInjectedDependenciesButGoingAway :=
      eraseId p m.serviceIdsOfInjectedDependenciesButGoingAway
    serviceIdsOfInjectedDependencies := eraseId p m.serviceIdsOfInjectedDependencies })
    (fun _ => rfl) fun _ => rfl)

end

/-! ## Waking -/

theorem wakes_modifyGenerator (s : DependencyManager) (q : PromiseId) (f : Generator → Generator)
    (hf : ∀ g, s.scopedGenerators.get? q = some g → (f g.generator).coroutine ≠ .user) :
    Wakes s (s.modifyGenerator q f) :=
  ⟨moves_modifyGenerator s q f hf, fun _ => rfl⟩

theorem wakes_setWaiter (s s' : DependencyManager) (q : PromiseId) (h : s.setWaiter q = some s') :
    Wakes s s' := by
  have hcall := (calm_call s (.resumed q) rfl).toWakes
  unfold setWaiter at h
  dsimp only at h
  split at h
  · cases h
    exact hcall
  rename_i g hg
  split at h
  · rename_i p point hc
    split at h
    · cases h
    · rename_i s1 point' hres
      have hcalm := calm_rule.resumeOffline _ s1 _ p q hres
      cases h
      have hmod := wakes_modifyGenerator s1 q (fun g => { g with
        coroutine := .dependencyOffline p point' }) (by simp)
      exact (hcall.trans hcalm.toWakes).trans hmod
    · rename_i s1 ret hres
      have hcalm := calm_rule.resumeOffline _ s1 _ p q hres
      cases h
      have hg1 : s1.scopedGenerators.get? q = some g := hcalm.generators ▸ hg
      have hmod := wakes_modifyGenerator s1 q (fun g => { g with state := .finished ret }) fun g' hg' => by
        cases hg1.symm.trans hg'
        simp [hc]
      exact (hcall.trans hcalm.toWakes).trans (hmod.trans (calm_push _ _ _ _ rfl).toWakes)
  · cases h
    exact hcall

/-- What setting one waiter keeps, and what does not depend on the table of waiters,
finishing all of them keeps. -/
theorem rel_finishWaitingService (R : DependencyManager → DependencyManager → Prop)
    (hrefl : ∀ s, R s s) (htrans : ∀ {a b c}, R a b → R b c → R a c)
    (hset : ∀ s q s', setWaiter s q = some s' → R s s')
    (hwaiters : ∀ s w, R s { s with dependencyWaiters := w }) (d : ServiceId) (type : EventType)
    (h : s.finishWaitingService d type = some s') : R s s' := by
  have hloop : ∀ (l : List PromiseId) (s s' : DependencyManager),
      l.foldlM setWaiter s = some s' → R s s' := fun l s s' =>
    Loops.rel_foldlM R hrefl htrans setWaiter l fun s q _ s' => hset s q s'
  have hrounds : ∀ (n : ℕ) (s s' : DependencyManager),
      finishWaitingRounds d type n s = some s' → R s s' := by
    intro n
    induction n with
    | zero =>
      intro s s' h
      cases h
    | succ n ih =>
      intro s s' h
      unfold finishWaitingRounds at h
      dsimp only at h
      split at h
      · cases h
        exact hrefl _
      · obtain ⟨s1, hs1, hrest⟩ := Option.bind_eq_some_iff.mp h
        exact htrans (htrans (hwaiters s _) (hloop _ _ s1 hs1)) (ih s1 s' hrest)
  unfold finishWaitingService at h
  split at h
  · cases h
    exact hrefl _
  · obtain ⟨s1, hs1, rfl⟩ := Option.map_eq_some_iff.mp h
    refine htrans (hrounds _ s s1 hs1) ?_
    split
    · exact hwaiters s1 _
    · exact hrefl s1

theorem wakes_finishWaitingService (s s' : DependencyManager) (d : ServiceId) (type : EventType)
    (h : s.finishWaitingService d type = some s') : Wakes s s' :=
  rel_finishWaitingService Wakes Wakes.refl Wakes.trans (fun s q s' => wakes_setWaiter s s' q)
    (fun _ _ => ⟨.of_eq rfl (fun _ => rfl) rfl rfl rfl rfl, fun _ => rfl⟩) d type h

end DependencyManager

end Ichor
