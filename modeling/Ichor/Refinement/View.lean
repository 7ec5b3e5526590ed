import Ichor.Abstract.Invariant

/-! The lifecycles that a manager represents, and what the elementary updates of
the manager do to them. -/
namespace Ichor.Lifecycle
open FiniteTable Function

/-- The lifecycles of a manager in the middle of a handler: `current` is the event
that has been taken from the queue and is not consumed yet. -/
def view (s : DependencyManager) (current : List Event) (phase : Phase)
    (taken : List PromiseId) : Core where
  present d := ∃ m, s.services.get? d = some m
  kind := Services.view LifecycleManager.kind .plain s.services
  interfaces := Services.view LifecycleManager.interfaces [] s.services
  state := Services.stateOf s.services
  registry := Services.registryOf s.services
  dep d p := p ∈ Services.dependenciesOf s.services d
  away d p := p ∈ Services.goingAwayOf s.services d
  dee p d := d ∈ Services.dependeesOf s.services p
  generator := s.scopedGenerators.get?
  waiters := Waiters.of s.dependencyWaiters
  entry d := ∃ w, s.dependencyWaiters.get? d = some w
  pending d := (s.pendingStopsDueToDependencies.get? d).getD []
  parked := s.pendingStopsDueToCoroutine.get?
  quitting := s.quitEventReceived
  quitDone := s.quitDone
  queue := current ++ s.queue
  nextPromise := s.nextPromiseId
  nextService := s.nextServiceId
  trace := s.trace
  phase := phase
  taken := taken

/-- The lifecycles of a manager between two events. -/
def core (s : DependencyManager) : Core := view s [] .idle []

section
variable (s : DependencyManager) (current : List Event) (phase : Phase) (taken : List PromiseId)

/-! ## Reads -/

section
variable {d : ServiceId} {m : LifecycleManager} (h : s.services.get? d = some m)
include h

theorem view_kind : (view s current phase taken).kind d = m.kind :=
  Services.view_some _ _ _ _ h

theorem view_state : (view s current phase taken).state d = m.state :=
  Services.view_some _ _ _ _ h

theorem view_interfaces : (view s current phase taken).interfaces d = m.interfaces :=
  Services.view_some _ _ _ _ h

theorem view_registry : (view s current phase taken).registry d = m.registry :=
  Services.view_some _ _ _ _ h

end

variable {p : ServiceId}

theorem view_dep {d : ServiceId} {m : LifecycleManager} (h : s.services.get? d = some m) :
    (view s current phase taken).dep d p ↔ p ∈ m.serviceIdsOfInjectedDependencies := by
  show p ∈ Services.view _ _ _ _ ↔ _
  rw [Services.view_some _ _ _ _ h]

theorem view_away {d : ServiceId} {m : LifecycleManager} (h : s.services.get? d = some m) :
    (view s current phase taken).away d p ↔ p ∈ m.serviceIdsOfInjectedDependenciesButGoingAway := by
  show p ∈ Services.view _ _ _ _ ↔ _
  rw [Services.view_some _ _ _ _ h]

theorem view_dee {d : ServiceId} {m : LifecycleManager} (h : s.services.get? p = some m) :
    (view s current phase taken).dee p d ↔ d ∈ m.serviceIdsOfDependees := by
  show d ∈ Services.view _ _ _ _ ↔ _
  rw [Services.view_some _ _ _ _ h]

theorem view_hasDependee {m : LifecycleManager} (h : s.services.get? p = some m) :
    (view s current phase taken).HasDependee p ↔ m.serviceIdsOfDependees ≠ [] := by
  constructor
  · rintro ⟨d, hd⟩
    exact List.ne_nil_of_mem ((view_dee s current phase taken h).mp hd)
  · intro hne
    obtain ⟨d, hd⟩ := List.exists_mem_of_ne_nil _ hne
    exact ⟨d, (view_dee s current phase taken h).mpr hd⟩

theorem view_hasCoroutine (d : ServiceId) :
    (view s current phase taken).HasCoroutine d ↔ s.existingCoroutineFor d = true := by
  unfold Core.HasCoroutine DependencyManager.existingCoroutineFor
  rw [List.any_eq_true]
  constructor
  · rintro ⟨q, g, hg, hd⟩
    exact ⟨(q, g), (Table.mem_entries_iff _ _ _).mpr hg, decide_eq_true hd⟩
  · rintro ⟨⟨q, g⟩, hm, hd⟩
    exact ⟨q, g, (Table.mem_entries_iff _ _ _).mp hm, of_decide_eq_true hd⟩

theorem view_hasOfflineWaiter (d : ServiceId) : (view s current phase taken).HasOfflineWaiter d ↔
      s.hasDependencyWaiter d .dependencyOffline = true := by
  unfold Core.HasOfflineWaiter DependencyManager.hasDependencyWaiter
  rw [List.any_eq_true]
  constructor
  · rintro ⟨q, hq⟩
    exact ⟨(_, q), hq, decide_eq_true rfl⟩
  · rintro ⟨⟨type, q⟩, hm, ht⟩
    have ht' : type = .dependencyOffline := of_decide_eq_true ht
    exact ⟨q, ht' ▸ hm⟩

/-! ## Updates of one service -/

variable (d : ServiceId) (f : LifecycleManager → LifecycleManager)

theorem services_view_modify {β : Type} (field : LifecycleManager → β) (missing : β)
    {m : LifecycleManager} (h : s.services.get? d = some m) :
    Services.view field missing (s.services.modify d f) =
      update (Services.view field missing s.services) d (field (f m)) := by
  funext x
  by_cases hx : x = d
  · subst hx
    rw [update_self]
    exact Services.view_modify_self _ _ _ _ _ h
  · rw [update_of_ne hx]
    exact Services.view_modify_ne _ _ _ _ _ _ hx

theorem update_view_self {β : Type} (field : LifecycleManager → β) (missing : β)
    {m : LifecycleManager} (h : s.services.get? d = some m) :
    update (Services.view field missing s.services) d (field m) =
      Services.view field missing s.services := by
  rw [← Services.view_some field missing s.services d h, update_eq_self]

variable {d f}

section Unchanged
variable {m : LifecycleManager} (h : s.services.get? d = some m)
include h

theorem stateOf_unchanged : update s.stateOf d m.state = s.stateOf :=
  update_view_self s d LifecycleManager.state _ h

theorem registryOf_unchanged : update s.registryOf d m.registry = s.registryOf :=
  update_view_self s d LifecycleManager.registry _ h

theorem dependenciesOf_unchanged :
    update s.dependenciesOf d m.serviceIdsOfInjectedDependencies = s.dependenciesOf :=
  update_view_self s d LifecycleManager.serviceIdsOfInjectedDependencies _ h

theorem goingAwayOf_unchanged :
    update s.goingAwayOf d m.serviceIdsOfInjectedDependenciesButGoingAway = s.goingAwayOf :=
  update_view_self s d LifecycleManager.serviceIdsOfInjectedDependenciesButGoingAway _ h

theorem dependeesOf_unchanged : update s.dependeesOf d m.serviceIdsOfDependees = s.dependeesOf :=
  update_view_self s d LifecycleManager.serviceIdsOfDependees _ h

end Unchanged

theorem mem_congr {f g : ServiceId → List ServiceId} (h : f = g) :
    (fun x y => y ∈ f x) = fun x y => y ∈ g x := by
  rw [h]

theorem view_modifyService {m : LifecycleManager} (h : s.services.get? d = some m)
    (hk : (f m).kind = m.kind) (hi : (f m).interfaces = m.interfaces) :
    view (s.modifyService d f) current phase taken =
      { view s current phase taken with
        state := update s.stateOf d (f m).state
        registry := update s.registryOf d (f m).registry
        dep := fun x p =>
          p ∈ update s.dependenciesOf d (f m).serviceIdsOfInjectedDependencies x
        away := fun x p => p ∈ update s.goingAwayOf d
          (f m).serviceIdsOfInjectedDependenciesButGoingAway x
        dee := fun p x => x ∈ update s.dependeesOf d (f m).serviceIdsOfDependees p } := by
  unfold view
  congr 1
  · funext x
    exact propext (Table.exists_get?_modify s.services d x f)
  · refine (services_view_modify s d f LifecycleManager.kind .plain h).trans ?_
    rw [hk]
    exact update_view_self s d _ _ h
  · refine (services_view_modify s d f LifecycleManager.interfaces [] h).trans ?_
    rw [hi]
    exact update_view_self s d _ _ h
  · exact services_view_modify s d f _ _ h
  · exact services_view_modify s d f _ _ h
  all_goals exact mem_congr (services_view_modify s d f _ _ h)

theorem view_setState {m : LifecycleManager} (h : s.services.get? d = some m) (st : ServiceState) :
    view (s.setState d st) current phase taken = (view s current phase taken).setState d st := by
  show view (s.modifyService d fun m => { m with state := st }) current phase taken = _
  rw [view_modifyService _ _ _ _ h rfl rfl]
  dsimp only
  rw [registryOf_unchanged s h, dependenciesOf_unchanged s h, goingAwayOf_unchanged s h,
    dependeesOf_unchanged s h]
  rfl

theorem view_setRegistry {m : LifecycleManager} (h : s.services.get? d = some m)
    (reg : DependencyRegister → DependencyRegister) :
    view (s.modifyService d fun m => { m with registry := reg m.registry }) current phase taken =
      (view s current phase taken).setRegistry d (reg ((view s current phase taken).registry d)) := by
  rw [view_modifyService _ _ _ _ h rfl rfl]
  dsimp only
  rw [stateOf_unchanged s h, dependenciesOf_unchanged s h, goingAwayOf_unchanged s h,
    dependeesOf_unchanged s h, view_registry s current phase taken h]
  rfl

theorem mem_update_insertId (l : ServiceId → List ServiceId) (d p x y : ServiceId) :
    y ∈ update l d (insertId p (l d)) x ↔ y ∈ l x ∨ (x = d ∧ y = p) := by
  rw [update_apply]
  split
  · next hx =>
    subst hx
    rw [mem_insertId]
    tauto
  · tauto

theorem mem_update_eraseId (l : ServiceId → List ServiceId) (d p x y : ServiceId) :
    y ∈ update l d (eraseId p (l d)) x ↔ y ∈ l x ∧ ¬(x = d ∧ y = p) := by
  rw [update_apply]
  split
  · next hx =>
    subst hx
    rw [mem_eraseId]
    tauto
  · tauto

theorem view_insertDependency {m : LifecycleManager} (h : s.services.get? d = some m)
    (p : ServiceId) :
    view (s.modifyService d fun m => { m with
        serviceIdsOfInjectedDependencies := insertId p m.serviceIdsOfInjectedDependencies })
      current phase taken =
      (view s current phase taken).setDep fun x y =>
        (view s current phase taken).dep x y ∨ (x = d ∧ y = p) := by
  rw [view_modifyService _ _ _ _ h rfl rfl]
  dsimp only
  rw [stateOf_unchanged s h, registryOf_unchanged s h, goingAwayOf_unchanged s h,
    dependeesOf_unchanged s h]
  unfold view Core.setDep
  congr 1
  funext x y
  have hd : s.dependenciesOf d = m.serviceIdsOfInjectedDependencies := Services.view_some _ _ _ _ h
  rw [← hd]
  exact propext (mem_update_insertId s.dependenciesOf d _ x y)

theorem view_modifyDependees {m : LifecycleManager} (h : s.services.get? p = some m)
    (f : List ServiceId → List ServiceId) :
    view (s.modifyService p fun m => { m with
        serviceIdsOfDependees := f m.serviceIdsOfDependees }) current phase taken =
      (view s current phase taken).setDee fun x y =>
        y ∈ update s.dependeesOf p (f (s.dependeesOf p)) x := by
  rw [view_modifyService _ _ _ _ h rfl rfl]
  dsimp only
  rw [stateOf_unchanged s h, registryOf_unchanged s h, goingAwayOf_unchanged s h,
    dependenciesOf_unchanged s h]
  have hd : s.dependeesOf p = m.serviceIdsOfDependees := Services.view_some _ _ _ _ h
  rw [hd]
  rfl

theorem view_insertDependee {m : LifecycleManager}
    (h : s.services.get? p = some m) (d : ServiceId) :
    view (s.modifyService p fun m => { m with
        serviceIdsOfDependees := insertId d m.serviceIdsOfDependees }) current phase taken =
      (view s current phase taken).setDee fun x y =>
        (view s current phase taken).dee x y ∨ (x = p ∧ y = d) := by
  rw [view_modifyDependees _ _ _ _ h]
  congr 1
  funext x y
  exact propext (mem_update_insertId s.dependeesOf p _ x y)

theorem view_eraseDependee {m : LifecycleManager} (h : s.services.get? p = some m) (d : ServiceId) :
    view (s.modifyService p fun m => { m with
        serviceIdsOfDependees := eraseId d m.serviceIdsOfDependees }) current phase taken =
      (view s current phase taken).setDee fun x y =>
        (view s current phase taken).dee x y ∧ ¬(x = p ∧ y = d) := by
  rw [view_modifyDependees _ _ _ _ h]
  congr 1
  funext x y
  exact propext (mem_update_eraseId s.dependeesOf p _ x y)

theorem view_leave {m : LifecycleManager} (h : s.services.get? d = some m) (p : ServiceId) :
    view (s.modifyService d fun m => { m with
        serviceIdsOfInjectedDependenciesButGoingAway :=
          insertId p m.serviceIdsOfInjectedDependenciesButGoingAway }) current phase taken =
      (view s current phase taken).leave d p := by
  rw [view_modifyService _ _ _ _ h rfl rfl]
  dsimp only
  rw [stateOf_unchanged s h, registryOf_unchanged s h, dependeesOf_unchanged s h,
    dependenciesOf_unchanged s h]
  unfold view Core.leave
  congr 1
  funext x y
  have hd : s.goingAwayOf d = m.serviceIdsOfInjectedDependenciesButGoingAway := Services.view_some _ _ _ _ h
  rw [← hd]
  exact propext (mem_update_insertId s.goingAwayOf d _ x y)

theorem modifyService_of_none (h : s.services.get? d = none) : s.modifyService d f = s := by
  unfold DependencyManager.modifyService
  have ht : s.services.modify d f = s.services := Table.modify_of_none _ _ _ h
  rw [ht]

/-! ## The queue, the calls and the counters -/

theorem view_call (c : Call) :
    view (s.call c) current phase taken = (view s current phase taken).record [c] := rfl

theorem view_push (o : ServiceId) (priority : ℕ) (body : EventBody) :
    view (s.pushPrioritisedEvent o priority body) current phase taken =
      (view s current phase taken).push [⟨s.nextEventId, o, priority, body⟩] := by
  unfold view Core.push DependencyManager.pushPrioritisedEvent
  simp only [List.append_assoc]

theorem view_takePromiseId :
    view s.takePromiseId current phase taken = (view s current phase taken).takePromise := rfl

theorem view_takeEventId : view s.takeEventId current phase taken = view s current phase taken := rfl

/-! ## Generators and waiters -/

theorem view_scopeGenerator (q : PromiseId) (g : ScopedGenerator)
    (h : s.scopedGenerators.get? q = none) : view (s.scopeGenerator q g) current phase taken =
      (view s current phase taken).setGenerator q (some g) := by
  unfold view Core.setGenerator DependencyManager.scopeGenerator
  congr 1
  funext x
  rw [Table.get?_emplace, update_apply]
  refine ite_congr rfl (fun hx => ?_) fun _ => rfl
  rw [hx, h]
  rfl

theorem view_eraseGenerator (q : PromiseId) : view (s.eraseGenerator q) current phase taken =
      (view s current phase taken).setGenerator q none := by
  unfold view Core.setGenerator DependencyManager.eraseGenerator
  congr 1
  funext x
  rw [Table.get?_erase, update_apply]

theorem view_modifyGenerator (q : PromiseId) (g : ScopedGenerator)
    (h : s.scopedGenerators.get? q = some g) (f : Generator → Generator) :
    view (s.modifyGenerator q f) current phase taken = (view s current phase taken).setGenerator q
        (some { g with generator := f g.generator }) := by
  unfold view Core.setGenerator DependencyManager.modifyGenerator
  congr 1
  funext x
  rw [Table.get?_modify, update_apply]
  refine ite_congr rfl (fun hx => ?_) fun _ => rfl
  rw [hx, h]
  rfl

section
variable (d)

theorem view_waitForService (type : EventType) (q : PromiseId) :
    view (s.waitForService d type q) current phase taken =
      (view s current phase taken).wait d type q := by
  unfold view Core.wait DependencyManager.waitForService
  congr 1
  · funext x
    exact Waiters.of_add s.dependencyWaiters d x type q
  · funext x
    exact propext (Waiters.get?_add s.dependencyWaiters d x type q)

theorem view_takeWaiters (type : EventType) :
    view (s.takeWaiters d type) current phase ((view s current phase taken).waitingFor d type) =
      (view s current phase taken).wake d type := by
  unfold view Core.wake DependencyManager.takeWaiters
  congr 1
  · funext x
    exact Waiters.of_modify s.dependencyWaiters d x _ rfl
  · funext x
    exact propext (Table.exists_get?_modify s.dependencyWaiters d x _)

theorem view_dropEmpty : view (if (s.waitersOf d).isEmpty then
        { s with dependencyWaiters := s.dependencyWaiters.erase d } else s) current phase taken =
      (view s current phase taken).woken d := by
  unfold view Core.woken
  split
  · rename_i h
    have hnil : s.waitersOf d = [] := List.isEmpty_iff.mp h
    congr 1
    · funext x
      exact Waiters.of_erase s.dependencyWaiters d x hnil
    · funext x
      rw [Table.get?_erase]
      by_cases hx : x = d
      · subst hx
        simp [hnil]
      · simp [hx]
  · rename_i h
    have hne : s.waitersOf d ≠ [] := fun hn => h (by simp [hn])
    congr 1
    funext x
    exact propext ⟨fun hx => ⟨hx, fun _ => hne⟩, And.left⟩

/-! ## Deferred stops -/

theorem view_putPending (l : List WaitingStopService) :
    view { s with
        pendingStopsDueToDependencies := s.pendingStopsDueToDependencies.put d l } current phase
        taken = (view s current phase taken).setPending d l := by
  unfold view Core.setPending
  congr 1
  funext x
  rw [Table.get?_put, update_apply]
  split <;> rfl

theorem view_erasePending :
    view { s with
        pendingStopsDueToDependencies := s.pendingStopsDueToDependencies.erase d } current phase
        taken = (view s current phase taken).setPending d [] := by
  unfold view Core.setPending
  congr 1
  funext x
  rw [Table.get?_erase, update_apply]
  split <;> rfl

theorem view_park (w : WaitingStopService) :
    view { s with
        pendingStopsDueToCoroutine := s.pendingStopsDueToCoroutine.emplace d w } current phase
        taken = (view s current phase taken).park d w := by
  unfold view Core.park
  congr 1
  funext x
  rw [Table.get?_emplace, update_apply]
  exact ite_congr rfl (fun hx => by rw [hx]) fun _ => rfl

/-! ## Entering and leaving the table -/

theorem view_install (m : LifecycleManager) (h : s.services.get? d = none)
    (h1 : m.serviceIdsOfInjectedDependencies = [])
    (h2 : m.serviceIdsOfInjectedDependenciesButGoingAway = []) (h3 : m.serviceIdsOfDependees = []) :
    view { s with services := s.services.emplace d m } current phase taken =
      (view s current phase taken).install d m := by
  have hfield : ∀ {β : Type} (field : LifecycleManager → β) (missing : β),
      Services.view field missing (s.services.emplace d m) =
        update (Services.view field missing s.services) d (field m) := by
    intro β field missing
    funext x
    rw [update_apply]
    by_cases hx : x = d
    · simp [Services.view, hx, h]
    · simp [Services.view, hx]
  have hnil : ∀ (field : LifecycleManager → List ServiceId), field m = [] →
      Services.view field [] (s.services.emplace d m) = Services.view field [] s.services := by
    intro field hf
    have hn := Services.view_none field [] s.services d h
    rw [hfield, hf]
    exact (congrArg (update _ d) hn.symm).trans (update_eq_self d _)
  unfold view Core.install
  congr 1
  · funext x
    refine propext ?_
    show (∃ m', (s.services.emplace d m).get? x = some m') ↔ _
    rw [Table.get?_emplace]
    by_cases hx : x = d
    · subst hx
      simp [h]
    · simp [hx]
  · exact hfield _ _
  · exact hfield _ _
  · exact hfield _ _
  · exact hfield _ _
  · exact mem_congr (hnil _ h1)
  · exact mem_congr (hnil _ h2)
  · exact mem_congr (hnil _ h3)

theorem view_uninstall : view { s with services := s.services.erase d } current phase taken =
      (view s current phase taken).uninstall d := by
  have hfield : ∀ {β : Type} (field : LifecycleManager → β) (missing : β),
      Services.view field missing (s.services.erase d) =
        update (Services.view field missing s.services) d missing := by
    intro β field missing
    funext x
    rw [update_apply]
    by_cases hx : x = d <;> simp [Services.view, hx]
  have hmem : ∀ (field : LifecycleManager → List ServiceId) (x y : ServiceId),
      y ∈ Services.view field [] (s.services.erase d) x ↔
        y ∈ Services.view field [] s.services x ∧ x ≠ d := by
    intro field x y
    rw [hfield, update_apply]
    by_cases hx : x = d <;> simp [hx]
  unfold view Core.uninstall
  congr 1
  · funext x
    refine propext ?_
    show (∃ m', (s.services.erase d).get? x = some m') ↔ _
    rw [Table.get?_erase]
    by_cases hx : x = d <;> simp [hx]
  · exact hfield _ _
  · exact hfield _ _
  · exact hfield _ _
  · exact hfield _ _
  all_goals
    funext x y
    exact propext (hmem _ x y)

end

end

end Ichor.Lifecycle
