import Ichor.Desk.Processing

/-! What user code does between two events, inverted once: each action, where it
is possible at all, is one of a few updates of the manager. -/
namespace Ichor.DependencyManager
open FiniteTable

variable {s s' : DependencyManager}

/-! ## The events of a creation -/

theorem foldl_push {α : Type} (l : List α) (s : DependencyManager) (svc : ServiceId) (priority : ℕ)
    (body : α → EventBody) : l.foldl (fun s a => s.pushPrioritisedEvent svc priority (body a)) s =
      { s with
        queue := s.queue ++ l.mapIdx fun i a => (⟨s.nextEventId + i, svc, priority, body a⟩ : Event)
        nextEventId := s.nextEventId + l.length } := by
  induction l generalizing s with
  | nil => simp
  | cons a rest ih =>
    rw [List.foldl_cons, ih]
    simp [pushPrioritisedEvent, List.mapIdx_cons, Nat.add_assoc, Nat.add_comm 1]

/-- The InsertServiceEvent of a creation call. -/
def insertEvent (s : DependencyManager) (desc : ServiceDescription) : Event :=
  ⟨s.nextEventId, s.nextServiceId, min internalInsertServiceEventPriority desc.priority,
    .insertService (createdManager s.nextServiceId desc)⟩

/-- The requests of a creation call, and the start of a service that needs nothing. -/
def followUpEvents (s : DependencyManager) (desc : ServiceDescription) : List Event :=
  let mgr := createdManager s.nextServiceId desc
  let priority := min internalDependencyEventPriority desc.priority
  mgr.registry.zipIdx.mapIdx (fun i dep => ⟨s.nextEventId + 1 + i, s.nextServiceId, priority,
      .dependencyRequest dep.1.interfaceNameHash dep.2⟩) ++
    if mgr.registry.any fun dep => dep.flags.required then []
    else [⟨s.nextEventId + 1 + mgr.registry.length, s.nextServiceId, priority,
      .startService s.nextServiceId⟩]

theorem createServiceManager_eq (s : DependencyManager) (desc : ServiceDescription) :
    s.createServiceManager desc =
      { s with
        queue := s.queue ++ s.insertEvent desc :: s.followUpEvents desc
        nextEventId := s.nextEventId + 1 + (s.followUpEvents desc).length
        nextServiceId := s.nextServiceId + 1 } := by
  unfold createServiceManager followUpEvents
  dsimp only
  rw [foldl_push]
  split <;> simp [pushPrioritisedEvent, insertEvent, Nat.add_assoc]

theorem mem_followUpEvents {desc : ServiceDescription} {e : Event}
    (he : e ∈ s.followUpEvents desc) : e.originatingService = s.nextServiceId ∧
      e.priority = min internalDependencyEventPriority desc.priority ∧ s.nextEventId < e.id ∧
      e.id < s.nextEventId + 1 + (s.followUpEvents desc).length ∧
      ((∃ dep r, (createdManager s.nextServiceId desc).registry[r]? = some dep ∧
          e.body = .dependencyRequest dep.interfaceNameHash r) ∨
        e.body = .startService s.nextServiceId) := by
  unfold followUpEvents at he ⊢
  dsimp only at he ⊢
  rw [List.mem_append] at he
  rcases he with he | he
  · obtain ⟨i, hi, rfl⟩ := List.mem_mapIdx.mp he
    refine ⟨rfl, rfl, ?_, ?_, .inl ⟨_, _, ?_, rfl⟩⟩
    · exact Nat.lt_of_lt_of_le (Nat.lt_succ_self _) (Nat.le_add_right _ i)
    · rw [List.length_append, List.length_mapIdx]
      exact Nat.add_lt_add_left (Nat.lt_of_lt_of_le hi (Nat.le_add_right _ _)) _
    · exact (List.mem_zipIdx_iff_getElem?).mp (List.getElem_mem hi)
  · split at he
    · cases he
    · rename_i hno
      rw [List.mem_singleton] at he
      subst he
      rw [if_neg hno]
      refine ⟨rfl, rfl, ?_, ?_, .inr rfl⟩
      · exact Nat.lt_of_lt_of_le (Nat.lt_succ_self _) (Nat.le_add_right _ _)
      · rw [List.length_append, List.length_mapIdx]
        simp

/-! ## The actions -/

inductive UserMove (s : DependencyManager) : DependencyManager → Prop
  | pushed (o : ServiceId) (priority : ℕ) (body : EventBody) :
      UserMove s (s.pushPrioritisedEvent o priority body)
  | awaits (q : PromiseId) (o : ServiceId) (priority : ℕ) (body : EventBody) :
      UserMove s { s.pushPrioritisedEvent o priority body with
        eventWaiters := s.eventWaiters.emplace s.nextEventId ⟨o, body.type, [(body.type, q)]⟩ }
  | coalesces (q : PromiseId) (id : EventId) (type : EventType) :
      UserMove s { s with
        eventWaiters := s.eventWaiters.modify id fun w =>
          { w with events := w.events ++ [(type, q)] } }
  | waits (q : PromiseId) (d : ServiceId) (type : EventType) :
      UserMove s (s.waitForService d type q)
  | created (desc : ServiceDescription) : UserMove s (s.createServiceManager desc)
  | handler (d : ServiceId) (type : EventType) (target : Option ServiceId) :
      UserMove s (s.registerEventHandler d type target)
  | interceptor (d : ServiceId) (type : Option EventType) :
      UserMove s (s.registerEventInterceptor d type)
  | tracker (d : ServiceId) (hash : NameHash) (priority : ℕ) :
      UserMove s (({ s with
        dependencyRequestTrackers := s.dependencyRequestTrackers.put hash
          ((s.dependencyRequestTrackers.get? hash).getD [] ++ [d]) }).pushPrioritisedEvent d priority
            (.addTracker hash))
  | startReturns (q : PromiseId) (g : ScopedGenerator) (success : Bool) (v : StartBehaviour)
      (hg : s.suspendedUserCode q = some g) :
      UserMove s ((s.setState g.generator.serviceId
        (if success then .injecting else .installed)).returnValue q g v (.continuableStart q))
  | stopReturns (q : PromiseId) (g : ScopedGenerator) (hg : s.suspendedUserCode q = some g) :
      UserMove s (((s.setState g.generator.serviceId .installed).call
        (.stopped g.generator.serviceId)).returnValue q g .done (.continuableStart q))
  | generatorReturns (q : PromiseId) (g : ScopedGenerator) :
      UserMove s (s.returnValue q g .done (.continuable q))
  | generatorYields (q : PromiseId) (g : ScopedGenerator) :
      UserMove s ((s.modifyGenerator q fun g => { g with state := .yielded }).pushPrioritisedEvent
        g.generator.serviceId g.generator.priority (.continuable q))

variable {g : ScopedGenerator} {q : PromiseId}

theorem next_cases {a : Action} (h : next a s = some s') :
    (∃ index u e, a = .processEvent index u ∧ s.queue[index]? = some e ∧
      Processed (s.dequeue index) u e s') ∨
    (∀ index u, a ≠ .processEvent index u) ∧ UserMove s s' := by
  cases a with
  | processEvent index u =>
    obtain ⟨e, he, hp⟩ := processNext_eq_some h
    exact .inl ⟨index, u, e, rfl, he, hp⟩
  | pushEvent o priority body =>
    right
    simp only [next] at h
    split at h
    · cases h
      exact ⟨fun _ _ => Action.noConfusion, .pushed o priority body⟩
    · cases h
  | pushEventAsync q o priority coalesce body =>
    right
    simp only [next] at h
    split at h
    · refine ⟨fun _ _ => Action.noConfusion, ?_⟩
      obtain ⟨id, rfl⟩ | rfl := pushEventAsync_eq_some h
      · exact .coalesces q id body.type
      · exact .awaits q o priority body
    · cases h
  | waitForServiceStarted q d | waitForServiceStopped q d =>
    obtain ⟨_, -, rfl⟩ := waitForServiceEvent_eq_some h
    exact .inr ⟨fun _ _ => Action.noConfusion, .waits q d _⟩
  | createServiceManager desc =>
    cases h
    exact .inr ⟨fun _ _ => Action.noConfusion, .created desc⟩
  | registerEventHandler d type target =>
    right
    simp only [next] at h
    split at h
    · cases h
      exact ⟨fun _ _ => Action.noConfusion, .handler d type target⟩
    · cases h
  | registerEventInterceptor d type =>
    right
    simp only [next] at h
    split at h
    · cases h
      exact ⟨fun _ _ => Action.noConfusion, .interceptor d type⟩
    · cases h
  | registerDependencyTracker d hash =>
    obtain ⟨priority, rfl⟩ := registerDependencyTracker_eq_some h
    exact .inr ⟨fun _ _ => Action.noConfusion, .tracker d hash priority⟩
  | finishStart q success =>
    obtain ⟨g, v, hg, -, rfl⟩ := finishStart_eq_some h
    exact .inr ⟨fun _ _ => Action.noConfusion, .startReturns q g success v hg⟩
  | finishStop q =>
    obtain ⟨g, hg, -, rfl⟩ := finishStopCoroutine_eq_some h
    exact .inr ⟨fun _ _ => Action.noConfusion, .stopReturns q g hg⟩
  | finishGenerator q =>
    obtain ⟨g, -, -, rfl⟩ := finishUserGenerator_eq_some h
    exact .inr ⟨fun _ _ => Action.noConfusion, .generatorReturns q g⟩
  | yieldGenerator q =>
    obtain ⟨g, -, -, rfl⟩ := yieldUserGenerator_eq_some h
    exact .inr ⟨fun _ _ => Action.noConfusion, .generatorYields q g⟩

/-! ## Stored generators -/

theorem kept_modifyGenerator (s : DependencyManager) (q x : PromiseId) (f : Generator → Generator)
    (hg : s.scopedGenerators.get? x = some g) :
    ∃ h, (s.modifyGenerator q f).scopedGenerators.get? x = some { g with generator := h } ∧
      (h = g.generator ∨ x = q ∧ h = f g.generator) := by
  have hget := Table.get?_modify s.scopedGenerators x q
    (fun g => { g with generator := f g.generator })
  by_cases hx : x = q
  · rw [if_pos hx, hg] at hget
    exact ⟨f g.generator, hget, .inr ⟨hx, rfl⟩⟩
  · rw [if_neg hx, hg] at hget
    exact ⟨g.generator, hget, .inl rfl⟩

theorem UserMove.kept (h : UserMove s s') {x : PromiseId}
    (hg : s.scopedGenerators.get? x = some g) : ∃ st, s'.scopedGenerators.get? x =
      some { g with generator := { g.generator with state := st } } := by
  have hmod : ∀ (t : DependencyManager) (q : PromiseId) (st : GeneratorState),
      t.scopedGenerators = s.scopedGenerators →
      ∃ st', (t.modifyGenerator q fun g => { g with state := st }).scopedGenerators.get? x =
        some { g with generator := { g.generator with state := st' } } := by
    intro t q st ht
    obtain ⟨h, hget, rfl | ⟨_, rfl⟩⟩ :=
      kept_modifyGenerator t q x (fun g => { g with state := st }) (ht ▸ hg)
    · exact ⟨g.generator.state, hget⟩
    · exact ⟨st, hget⟩
  cases h with
  | created desc =>
    rw [createServiceManager_eq]
    exact ⟨g.generator.state, hg⟩
  | startReturns q g' success v => exact hmod (s.setState _ _) q (.finished v) rfl
  | stopReturns q => exact hmod ((s.setState _ _).call _) q (.finished .done) rfl
  | generatorReturns q => exact hmod s q (.finished .done) rfl
  | generatorYields q => exact hmod s q .yielded rfl
  | _ => exact ⟨g.generator.state, hg⟩

end Ichor.DependencyManager
