import Ichor.Desk.Frame

/-! The handlers of the lifecycle events, seen from the desk: which of them only
move lifecycles, and what the others do besides. -/
namespace Ichor.DependencyManager
open Option

variable {s s' : DependencyManager}

theorem moves_foldl {α : Type} (f : DependencyManager → α → DependencyManager) (l : List α)
    (s : DependencyManager) (hf : ∀ s a, Moves s (f s a)) : Moves s (l.foldl f s) :=
  Loops.rel_foldl Moves Moves.refl Moves.trans f l s fun s a _ => hf s a

theorem moves_foldlM {α : Type} (f : DependencyManager → α → Option DependencyManager) (l : List α)
    (s s' : DependencyManager) (hf : ∀ s a s', f s a = some s' → Moves s s')
    (h : l.foldlM f s = some s') : Moves s s' :=
  Loops.rel_foldlM Moves Moves.refl Moves.trans f l (fun s a _ => hf s a) h

/-! ## DependencyOnlineEvent and InsertServiceEvent -/

section
variable (s : DependencyManager) (u : UserCode) (d : ServiceId) (priority : ℕ)

theorem moves_startDependent : Moves s (s.startDependent u d priority) := by
  unfold startDependent
  cases hm : s.services.get? d with
  | none => exact .refl s
  | some m =>
    dsimp only
    have hstart := (moves_takePromiseId s).trans
      (moves_startAfterDependencyOnline s.takePromiseId u d m)
    split
    · rename_i s1 heq
      rw [heq] at hstart
      exact (hstart.trans (moves_takeEventId s1)).scope _ _ (by simp)
    · rename_i s1 heq
      rw [heq] at hstart
      exact hstart.trans (moves_push s1 d priority _ rfl)
    · rename_i s1 _ _ heq
      rw [heq] at hstart
      exact hstart

theorem moves_onlineDependent (e : Event) (s : DependencyManager) (d : ServiceId) :
    Moves s (onlineDependent u e s d) := by
  unfold onlineDependent
  split
  · rename_i mp md _ _
    split
    · exact .refl s
    · have hon := (calm_dependencyOnline s d e.originatingService mp.interfaces).toMoves
      split
      · rename_i s1 heq
        rw [heq] at hon
        exact hon
      · rename_i s1 _ _ heq
        rw [heq] at hon
        exact hon.trans (moves_startDependent s1 u d _)
  · exact .refl s

theorem wakes_thenQuit :
    Wakes s (if s.quitEventReceived then s.pushPrioritisedEvent d priority (.stopService d true)
      else s) := by
  split
  · exact (calm_push s d priority _ rfl).toWakes
  · exact .refl s

end

theorem moves_handleDependencyOnline (u : UserCode) (e : Event)
    (h : s.handleDependencyOnline u e = some s') : Moves s s' := by
  unfold handleDependencyOnline at h
  split at h
  · cases h
    exact .refl _
  · rename_i m hm
    split at h
    · cases h
      exact .refl _
    · obtain ⟨s1, hs1, rfl⟩ := map_eq_some_iff.mp h
      have hwake := (moves_setState s e.originatingService .active).trans
        (wakes_finishWaitingService _ s1 _ _ hs1).toMoves
      refine (hwake.trans ?_).trans (wakes_thenQuit _ _ _).toMoves
      split
      · exact .refl s1
      · exact moves_foldl _ _ s1 (moves_onlineDependent u e)

section
variable (s : DependencyManager) (u : UserCode) (e : Event) (m : LifecycleManager)

theorem moves_insertProvider (d : ServiceId) (s : DependencyManager)
    (p : ServiceId) : Moves s (insertProvider u e d s p) := by
  unfold insertProvider
  split
  · rename_i mp md _ _
    split
    · exact .refl s
    · have hon := (calm_dependencyOnline s d p mp.interfaces).toMoves
      split
      · rename_i s1 heq
        rw [heq] at hon
        exact hon
      · rename_i s1 _ _ heq
        rw [heq] at hon
        exact hon.trans (moves_startDependent s1 u d _)
  · exact .refl s

/-- A service enters the table. -/
def insert (d : ServiceId) (m : LifecycleManager) : DependencyManager :=
  { s with services := s.services.emplace d m }

theorem moves_handleInsertService :
    Moves (s.insert e.originatingService m) (s.handleInsertService u e m) := by
  have hrest : ∀ s1, Moves (s.insert e.originatingService m) s1 →
      Moves (s.insert e.originatingService m) (if m.kind ≠ .dependency || m.registry.isEmpty then s1
        else s1.services.keys.foldl (insertProvider u e e.originatingService) s1) := by
    intro s1 hself
    split
    · exact hself
    · exact hself.trans (moves_foldl _ _ _ (moves_insertProvider u e e.originatingService))
  have hon := (calm_dependencyOnline (s.insert e.originatingService m) e.originatingService
    selfServiceId [iServiceHash]).toMoves
  refine hrest _ ?_
  split
  · rename_i s1 heq
    exact (heq ▸ hon).trans (moves_startDependent s1 u _ _)
  · rename_i s1 _ _ heq
    exact (heq ▸ hon).trans (.refl s1)

/-! ## DependencyOfflineEvent -/

theorem moves_deferStop (d : ServiceId) (l : List WaitingStopService) :
    Moves s { s with
      pendingStopsDueToDependencies := s.pendingStopsDueToDependencies.put d l } :=
  .of_eq rfl (fun _ => rfl) rfl rfl rfl rfl

theorem moves_offlineDependee (remove : Bool) (s : DependencyManager) (d : ServiceId)
    (s' : DependencyManager) (h : offlineDependee e remove s d = some s') : Moves s s' := by
  unfold offlineDependee at h
  split at h
  · cases h
  rename_i md _
  dsimp only at h
  split at h
  · cases h
    exact .refl _
  have hbegin : ∀ {s1 : DependencyManager} {result : OfflineResult},
      s.takePromiseId.dependencyOffline d e.originatingService s.nextPromiseId
        (s.interestedInDependencyGoingOffline d e.originatingService) = some (s1, result) →
      Moves s s1 := fun hres =>
    (moves_takePromiseId s).trans (calm_dependencyOffline _ _ _ _ _ _ _ hres).toMoves
  split at h
  · cases h
  · rename_i s1 point hres
    cases h
    exact ((hbegin hres).trans (moves_takeEventId s1)).scope _ _ (by simp)
  · rename_i s1 hres
    cases h
    refine ((hbegin hres).trans ?_).trans (moves_deferStop _ d _)
    split
    · exact moves_push s1 _ _ _ rfl
    · exact .refl s1
  · cases h
  · rename_i s1 hres
    cases h
    exact (hbegin hres).trans (calm_finishDependencyOffline s1 d _ _).toMoves
  · rename_i s1 hres
    cases h
    exact hbegin hres

end

theorem moves_handleDependencyOffline (e : Event) (remove : Bool)
    (h : s.handleDependencyOffline e remove = some s') : Moves s s' := by
  unfold handleDependencyOffline at h
  dsimp only at h
  split at h
  · cases h
    exact .refl _
  · rename_i m hm
    split at h
    · cases h
      exact .refl _
    · obtain ⟨s1, hs1, hrest⟩ := bind_eq_some_iff.mp h
      have hloop := (moves_setState s e.originatingService .uninjecting).trans
        (moves_foldlM _ _ _ s1 (moves_offlineDependee e remove) hs1)
      split at hrest
      · obtain ⟨s2, hs2, rfl⟩ := map_eq_some_iff.mp hrest
        exact (hloop.trans (wakes_finishWaitingService s1 s2 _ _ hs2).toMoves).trans
          (moves_push s2 _ _ _ rfl)
      · cases hrest
        exact hloop

/-! ## StartServiceEvent -/

section
variable (s : DependencyManager) (u : UserCode) (e : Event) (d : ServiceId)

theorem moves_handleStartService :
    ((s.handleStartService u e d).check = false ∧ (s.handleStartService u e d).handlerAmount = 1) ∧
    (((s.handleStartService u e d).moved = false ∧ Moves s (s.handleStartService u e d).manager) ∨
      ((s.handleStartService u e d).moved = true ∧ ∃ t priority, Moves s t ∧
        (s.handleStartService u e d).manager = t.scopeGenerator s.nextPromiseId
          ⟨⟨d, priority, .start, .suspended⟩, e, s.nextPromiseId⟩)) := by
  unfold handleStartService
  cases hm : s.services.get? d with
  | none => exact ⟨⟨rfl, rfl⟩, .inl ⟨rfl, .refl s⟩⟩
  | some m =>
    dsimp only
    split
    · exact ⟨⟨rfl, rfl⟩, .inl ⟨rfl, .refl s⟩⟩
    · have hmove := (moves_takePromiseId s).trans (moves_start s.takePromiseId u d m)
      split
      · rename_i s1 heq
        rw [heq] at hmove
        exact ⟨⟨rfl, rfl⟩, .inr ⟨rfl, s1, _, hmove, rfl⟩⟩
      · rename_i s1 _ heq
        rw [heq] at hmove
        split
        · exact ⟨⟨rfl, rfl⟩, .inl ⟨rfl, hmove⟩⟩
        · refine ⟨⟨rfl, rfl⟩, .inl ⟨rfl, ?_⟩⟩
          exact (hmove.trans (moves_push s1 d _ .dependencyOnline rfl)).trans (wakes_thenQuit _ _ _).toMoves

/-! ## StopServiceEvent -/

theorem moves_finishPendingStop (s : DependencyManager)
    (w : WaitingStopService) (s' : DependencyManager) (h : finishPendingStop e d s w = some s') :
    Moves s s' := by
  unfold finishPendingStop at h
  split at h
  · cases h
  · cases h
    refine (calm_finishDependencyOffline s d w.originatingServiceId w.deps).toMoves.trans ?_
    split
    · exact moves_push _ _ _ _ rfl
    · exact .refl _

theorem calm_clearDependencies : Calm s (s.clearDependencies d) := by
  unfold clearDependencies
  have hforget : ∀ (l : List ServiceId), Calm s (l.foldl (fun s p => s.modifyService p fun m =>
      { m with serviceIdsOfDependees := eraseId d m.serviceIdsOfDependees }) s) := by
    intro l
    exact calm_foldl _ l s fun s p => calm_modifyService s p _ (fun _ => rfl) fun _ => rfl
  exact (hforget _).trans (calm_modifyService _ d (fun m => { m with
    serviceIdsOfInjectedDependencies := [] }) (fun _ => rfl) fun _ => rfl)

/-- What a completed `stop()` ends with: the registrations of the service are
cleared, and it is removed if that was asked for. -/
def EndsStop (removeAfter : Bool) (s' : DependencyManager) : Prop :=
  ∃ t, Moves s t ∧ if removeAfter then (t.clearServiceRegistrations d).removeInternalService u d =
    some s' else s' = t.clearServiceRegistrations d

end

theorem EndsStop.moves {t : DependencyManager} {u : UserCode} {d : ServiceId} {removeAfter : Bool}
    (h : EndsStop t u d removeAfter s') (hm : Moves s t) : EndsStop s u d removeAfter s' := by
  obtain ⟨t', ht', hend⟩ := h
  exact ⟨t', hm.trans ht', hend⟩

theorem EndsStop.rel {R : DependencyManager → DependencyManager → Prop} {u : UserCode}
    {d : ServiceId} {removeAfter : Bool} (h : EndsStop s u d removeAfter s')
    (htrans : ∀ {a b c}, R a b → R b c → R a c) (hmoves : ∀ {t}, Moves s t → R s t)
    (hclear : ∀ {t}, R t (t.clearServiceRegistrations d))
    (hremove : ∀ {a b : DependencyManager}, a.removeInternalService u d = some b → R a b) :
    R s s' := by
  obtain ⟨t, hm, hend⟩ := h
  have ht := htrans (hmoves hm) hclear
  cases removeAfter with
  | true => exact htrans ht (hremove hend)
  | false =>
    have hend : s' = t.clearServiceRegistrations d := hend
    exact hend ▸ ht

section
variable {R : DependencyManager → DependencyManager → Prop} {u : UserCode} {q : PromiseId}
  (hrefl : ∀ t, R t t) (htrans : ∀ {a b c}, R a b → R b c → R a c)
  (hpush : ∀ t o priority body, R t (t.pushPrioritisedEvent o priority body))
  (herase : ∀ t : DependencyManager, R t (t.eraseGenerator q))
include hrefl htrans hpush herase

theorem finishGenerator_rel {g : ScopedGenerator} (hdone : R s (s.handleEventCompletion u g.event)) :
    R s (s.finishGenerator u q g) := by
  have hall : R s
      (if s.eventUseCount g.eventRef = 1 then s.handleEventCompletion u g.event else s) := by
    split
    · exact hdone
    · exact hrefl s
  refine htrans hall ?_
  unfold finishGenerator
  dsimp only
  generalize (if s.eventUseCount g.eventRef = 1 then s.handleEventCompletion u g.event else s) = t
  cases t.pendingStopsDueToCoroutine.get? g.generator.serviceId with
  | none => exact herase t
  | some w => exact htrans (hpush t _ _ _) (herase _)

/-- A relation holds over the handler of a ContinuableEvent if it holds over each thing the
handler does. -/
theorem handleContinuable_rel (hdone : ∀ g t, s.scopedGenerators.get? q = some g →
      t.eventWaiters = s.eventWaiters → R t (t.handleEventCompletion u g.event))
    (hsuspend : ∀ f, R s (s.modifyGenerator q f)) : R s (s.handleContinuable u q).manager := by
  unfold handleContinuable
  cases hg : s.scopedGenerators.get? q with
  | none => exact hrefl s
  | some g =>
    dsimp only
    cases g.generator.state with
    | finished v => exact finishGenerator_rel hrefl htrans hpush herase (hdone g s hg rfl)
    | suspended => exact hrefl s
    | yielded =>
      dsimp only
      have hagain := hpush s g.generator.serviceId g.generator.priority (.continuable q)
      cases u.generator s.trace.length with
      | done =>
        exact htrans hagain (finishGenerator_rel hrefl htrans hpush herase (hdone g _ hg rfl))
      | suspended => exact hsuspend fun g => { g with state := .suspended }
      | yielded => exact hagain

end

theorem endsStop_finishStop (u : UserCode) (e : Event) (d : ServiceId) (removeAfter : Bool)
    (h : s.finishStop u e d removeAfter = some s') : EndsStop s u d removeAfter s' := by
  unfold finishStop at h
  obtain ⟨s1, hs1, hrest⟩ := bind_eq_some_iff.mp h
  have hrelease := moves_foldlM _ _ s s1 (moves_finishPendingStop e d) hs1
  have hforget : Moves s1 { s1 with
      pendingStopsDueToDependencies := s1.pendingStopsDueToDependencies.erase d } :=
    .of_eq rfl (fun _ => rfl) rfl rfl rfl rfl
  have hclear := (hrelease.trans hforget).trans (calm_clearDependencies _ d).toMoves
  refine ⟨_, hclear, ?_⟩
  cases removeAfter with
  | true => exact hrest
  | false => exact (Option.some.inj hrest).symm

/-- The three ends of a StopServiceEvent: lifecycles move, the `stop()` suspends
and keeps the event, or the `stop()` is complete. -/
inductive StopEnd (s : DependencyManager) (u : UserCode) (e : Event) (d : ServiceId)
    (removeAfter : Bool) : Handled → Prop
  | moved (out : Handled) (hm : Wakes s out.manager) (hamount : out.handlerAmount = 1) :
      StopEnd s u e d removeAfter out
  | suspended (t : DependencyManager) (q : PromiseId) (priority : ℕ) (hm : Moves s t) :
      StopEnd s u e d removeAfter
        ⟨t.scopeGenerator q ⟨⟨d, priority, .stop, .suspended⟩, e, q⟩, true, 1, false⟩
  | ended (t : DependencyManager) (h : EndsStop s u d removeAfter t) :
      StopEnd s u e d removeAfter t.thenCheck

section
variable (u : UserCode) (e : Event) (d : ServiceId) (removeAfter : Bool) (out : Handled)

theorem stopEnd_carryOutStop {t : DependencyManager} (hm : Wakes s t)
    (h : t.carryOutStop u e d removeAfter = some out) : StopEnd s u e d removeAfter out := by
  unfold carryOutStop at h
  split at h
  · cases h
    exact .moved _ hm rfl
  rename_i m hget
  have hbegin : ∀ {s1 ret}, t.takePromiseId.stop u d m = some (s1, ret) → Moves s s1 := fun heq =>
    hm.toMoves.trans ((moves_takePromiseId t).trans (moves_stop t.takePromiseId _ u d m _ heq))
  split at h
  · dsimp only at h
    split at h
    · cases h
    · rename_i s1 heq
      cases h
      exact .suspended s1 t.nextPromiseId _ (hbegin heq)
    · rename_i s1 _ heq
      obtain ⟨s2, hs2, rfl⟩ := map_eq_some_iff.mp h
      exact .ended s2 ((endsStop_finishStop u e d removeAfter hs2).moves (hbegin heq))
  · split at h
    · cases h
      exact .moved _ (hm.trans (calm_push t _ _ _ rfl).toWakes) rfl
    · cases h
      exact .moved _ hm rfl

theorem stopEnd_handleStopService (h : s.handleStopService u e d removeAfter = some out) :
    StopEnd s u e d removeAfter out := by
  have hidle : StopEnd s u e d removeAfter s.asHandled := .moved _ (.refl s) rfl
  unfold handleStopService at h
  split at h
  · cases h
    exact hidle
  · split at h
    · cases h
      exact hidle
    · dsimp only at h
      split at h
      · cases h
        exact hidle
      · obtain ⟨t, ht, hrest⟩ := bind_eq_some_iff.mp h
        have hwake : Wakes s t := by
          split at ht
          · exact wakes_finishWaitingService s t d _ ht
          · cases ht
            exact .refl _
        split at hrest
        · cases hrest
          refine .moved _ (hwake.trans ?_) rfl
          exact ⟨.of_eq rfl (fun _ => rfl) rfl rfl rfl rfl, fun _ => rfl⟩
        · exact stopEnd_carryOutStop u e d removeAfter out hwake hrest

/-! ## QuitEvent -/

theorem calm_quitService (s : DependencyManager) (id : ServiceId) :
    Calm s (quitService e s id) := by
  unfold quitService
  split
  · exact .refl s
  · split
    · exact calm_foldl _ _ s fun s svc => calm_push s _ _ (.stopService svc true) rfl
    · exact .refl s

end

theorem calm_handleQuit (s : DependencyManager) (e : Event) :
    Calm { s with quitEventReceived := true } (s.handleQuit e).manager :=
  calm_foldl _ _ _ (calm_quitService e)

/-! ## ContinuableStartEvent -/

/-- What the continuation of a stored generator of the manager's own comes to: the
event is stale, or the event of the generator is complete and it is erased. -/
inductive ContinuationEnd (s : DependencyManager) (u : UserCode) (q : PromiseId) : Handled → Prop
  | stale (h : ∀ g v, s.scopedGenerators.get? q = some g → g.generator.state ≠ .finished v) :
      ContinuationEnd s u q s.asHandled
  | moved (g : ScopedGenerator) (v : StartBehaviour) (t : DependencyManager)
      (hg : s.scopedGenerators.get? q = some g) (hv : g.generator.state = .finished v)
      (hb : ∀ d remove, g.event.body ≠ .stopService d remove) (hm : Wakes s t) :
      ContinuationEnd s u q ((t.handleEventCompletion u g.event).eraseGenerator q).asHandled
  | ended (g : ScopedGenerator) (d : ServiceId) (remove : Bool) (t : DependencyManager)
      (hg : s.scopedGenerators.get? q = some g) (hb : g.event.body = .stopService d remove)
      (h : EndsStop s u d remove t) :
      ContinuationEnd s u q ((t.handleEventCompletion u g.event).eraseGenerator q).thenCheck

theorem continuationEnd_handleContinuableStart (u : UserCode) (e : Event) (q : PromiseId)
    (out : Handled) (h : s.handleContinuableStart u e q = some out) :
    ContinuationEnd s u q out := by
  unfold handleContinuableStart at h
  cases hg : s.scopedGenerators.get? q with
  | none =>
    rw [hg] at h
    cases h
    refine .stale fun g v hg' => ?_
    rw [hg] at hg'
    cases hg'
  | some g =>
    rw [hg] at h
    dsimp only at h
    cases hst : g.generator.state with
    | suspended | yielded =>
      rw [hst] at h
      cases h
      refine .stale fun g' v hg' => ?_
      rw [hg] at hg'
      cases hg'
      simp [hst]
    | finished v =>
      rw [hst] at h
      dsimp only at h
      split at h
      · rename_i d hb
        cases h
        unfold continueStart
        refine .moved g v _ hg hst (by simp [hb]) ?_
        exact (calm_push s d _ .dependencyOnline rfl).toWakes.trans (wakes_thenQuit _ _ _)
      · rename_i d remove hb
        obtain ⟨s1, hs1, rfl⟩ := map_eq_some_iff.mp h
        unfold continueStop at hs1
        split at hs1
        · cases hs1
        · split at hs1
          · cases hs1
          · obtain ⟨s2, hs2, rfl⟩ := map_eq_some_iff.mp hs1
            exact .ended g d remove s2 hg hb (endsStop_finishStop u _ d remove hs2)
      · rename_i hb
        cases h
        refine .moved g v _ hg hst (by simp [hb]) ?_
        split
        · exact (calm_push s _ _ _ rfl).toWakes
        · exact .refl s
      · rename_i p remove deps hb
        obtain ⟨s1, hs1, rfl⟩ := map_eq_some_iff.mp h
        unfold continueOffline at hs1
        dsimp only at hs1
        split at hs1
        · obtain ⟨s2, hs2, rfl⟩ := map_eq_some_iff.mp hs1
          refine .moved g v s2 hg hst (by simp [hb]) ?_
          split at hs2
          · cases hs2
            refine Wakes.trans ?_ ⟨moves_deferStop _ _ _, fun _ => rfl⟩
            split
            · exact (calm_push s _ _ _ rfl).toWakes
            · exact .refl s
          · have hoff := (calm_finishDependencyOffline s g.event.originatingService p deps).toWakes
            split at hs2
            · exact (hoff.trans (calm_push _ _ _ _ rfl).toWakes).trans
                (wakes_finishWaitingService _ s2 _ _ hs2)
            · cases hs2
              exact hoff
        · cases hs1
      · cases h

end Ichor.DependencyManager
