import Ichor.Model.Script
import Ichor.Refinement.Stopping
import Ichor.Refinement.UserCode

/-! One step of the manager is a path of the lifecycle system. With the invariant
of that system it follows that every reachable state of the manager satisfies
the invariant. -/
namespace Ichor.Lifecycle
open FiniteTable DependencyManager List Option

section
variable {o : Origin} {s s' : DependencyManager} {e : Event}

/-! ## The event that was taken from the queue -/

/-- Only neutral calls have been made since the event was taken from the queue. -/
structure Since (o : Origin) (s : DependencyManager) : Prop where
  kind : (core s).kind = o.core.kind
  state : (core s).state = o.core.state
  registry : (core s).registry = o.core.registry
  dep : (core s).dep = o.core.dep
  away : (core s).away = o.core.away
  dee : (core s).dee = o.core.dee
  generator : (core s).generator = o.core.generator
  pending : (core s).pending = o.core.pending
  trace : ∃ calls : List Call, (∀ c ∈ calls, Call.neutral c = true) ∧
    (core s).trace = calls ++ o.core.trace

theorem Since.wakeFrame (h : Since o s) : WakeFrame o.core (core s) where
  __ := h
  coroutine d := by
    unfold Core.HasCoroutine
    rw [h.generator]

theorem Since.untouched (h : Since o s) (d : ServiceId) : Untouched o (view s [e] .idle []) d where
  registry := congrFun h.registry d
  state := congrFun h.state d
  dep x := iff_of_eq (congrFun (congrFun h.dep d) x)
  away x := iff_of_eq (congrFun (congrFun h.away d) x)
  calls := by
    obtain ⟨calls, hneutral, htrace⟩ := h.trace
    refine ⟨calls, htrace, fun r x => ⟨fun hx => ?_, fun hx => ?_, fun hx => ?_⟩⟩
    all_goals exact absurd (hneutral _ hx) (by simp [Call.neutral])

theorem Since.of_same (hq : SameLifecycles s s') (hcore : core s = o.core.setQueue s.queue) :
    Since o s' := by
  obtain ⟨calls, hneutral, hv⟩ := view_same hq [] .idle []
  have hc : core s' = (o.core.setQueue s.queue).record calls := hcore ▸ hv
  have hfield : ∀ {β : Type} (field : Core → β) (_ : ∀ c queue calls,
      field ((Core.setQueue c queue).record calls) = field c), field (core s') = field o.core := by
    intro β field hkeep
    rw [hc]
    exact hkeep o.core s.queue calls
  exact {
    kind := hfield Core.kind fun _ _ _ => rfl
    state := hfield Core.state fun _ _ _ => rfl
    registry := hfield Core.registry fun _ _ _ => rfl
    dep := hfield Core.dep fun _ _ _ => rfl
    away := hfield Core.away fun _ _ _ => rfl
    dee := hfield Core.dee fun _ _ _ => rfl
    generator := hfield Core.generator fun _ _ _ => rfl
    pending := hfield Core.pending fun _ _ _ => rfl
    trace := ⟨calls, hneutral, by rw [hc]; rfl⟩ }

/-! ## RemoveServiceEvent -/

theorem path_handleRemoveService {d : ServiceId} (u : UserCode) (h : Inv (view s [e] .idle []))
    (ho : o.event = some e) (hb : e.body = .removeService d)
    (hs : s.handleRemoveService u d = some s') :
    Path o (view s [e] .idle []) (view s' [] .idle []) := by
  have hignored : Ignored (view s [e] .idle []) e := by
    unfold Ignored
    rw [hb]
    trivial
  unfold handleRemoveService at hs
  cases hm : s.services.get? d with
  | none =>
    rw [hm] at hs
    cases hs
    exact path_ignore ho hignored
  | some m =>
    rw [hm] at hs
    dsimp only at hs
    split at hs
    · cases hs
      exact path_ignore ho hignored
    rename_i hcond
    obtain ⟨⟨hinst, hdees⟩, hdeps⟩ : (m.state = .installed ∧ m.serviceIdsOfDependees = []) ∧
        m.serviceIdsOfInjectedDependencies = [] := by
      simpa using hcond
    have hbegin : Path o (view s [e] .idle []) (view s [] (.removing d) []) := by
      refine .single (.stop (.removeBegin e s.queue d rfl ho hb rfl
        ((view_state s [e] .idle [] hm).trans hinst) ?_ ?_))
      · exact fun hx => (view_hasDependee s [e] .idle [] hm).mp hx hdees
      · intro p hp
        have hmem := (view_dep s [e] .idle [] hm).mp hp
        rw [hdeps] at hmem
        cases hmem
    exact hbegin.trans (path_removeInternalService u (h.path hbegin) hs)

/-! ## ContinuableStartEvent -/

theorem path_handleContinuableStart {q : PromiseId} {out : Handled} (u : UserCode)
    (h : Inv (view s [e] .idle [])) (ho : o.event = some e) (hb : e.body = .continuableStart q)
    (hsame : Since o s) (hs : s.handleContinuableStart u e q = some out) :
    Path o (view s [e] .idle []) (view out.manager [] .idle []) := by
  unfold handleContinuableStart at hs
  have hignored : (∀ g v, s.scopedGenerators.get? q = some g → g.generator.state ≠ .finished v) →
      Ignored (view s [e] .idle []) e := by
    intro hall
    unfold Ignored
    rw [hb]
    exact hall
  cases hg : s.scopedGenerators.get? q with
  | none =>
    rw [hg] at hs
    cases hs
    refine path_ignore ho (hignored fun g v hg' => ?_)
    rw [hg] at hg'
    cases hg'
  | some g =>
    rw [hg] at hs
    dsimp only at hs
    cases hst : g.generator.state with
    | suspended | yielded =>
      rw [hst] at hs
      cases hs
      refine path_ignore ho (hignored fun g' v hg' => ?_)
      rw [hg] at hg'
      cases hg'
      simp [hst]
    | finished v =>
      rw [hst] at hs
      dsimp only at hs
      have hshaped : Shaped g := h.coroutines.shaped q g hg
      unfold Shaped at hshaped
      cases hc : g.generator.coroutine with
      | start =>
        rw [hc] at hshaped
        rw [hshaped] at hs
        cases hs
        exact path_continueStart u ho hb hg hst hc
      | startAfterDependencyOnline =>
        rw [hc] at hshaped
        obtain ⟨hbody, horig⟩ := hshaped
        rw [hbody] at hs
        cases hs
        rw [horig]
        exact path_continueStartAfter u ho hb hg hst h hc _
      | stop =>
        rw [hc] at hshaped
        obtain ⟨remove, hbody⟩ := hshaped
        rw [hbody] at hs
        obtain ⟨s1, hs1, rfl⟩ := map_eq_some_iff.mp hs
        exact path_continueStop u h ho hb hsame.wakeFrame hg
          ((congrFun hsame.generator q).symm.trans hg) hst hc hbody hs1
      | dependencyOffline p point =>
        rw [hc] at hshaped
        obtain ⟨remove, deps, hbody, _, _⟩ := hshaped
        rw [hbody] at hs
        obtain ⟨s1, hs1, rfl⟩ := map_eq_some_iff.mp hs
        exact path_continueOffline u ho hb hg hst h hc hbody hs1
      | user =>
        exact absurd hc (h.fresh.ofManager e (mem_cons_self) q g hb hg)

/-! ## QuitEvent -/

theorem path_quitService {c : Core} (id : ServiceId) (hq : s.quitEventReceived = true)
    (h : Path o c (view s [] .idle [])) : Path o c (view (quitService e s id) [] .idle []) ∧
      (quitService e s id).quitEventReceived = true := by
  unfold quitService
  split
  · exact ⟨h, hq⟩
  · split
    · refine List.foldlRecOn (motive := fun t : DependencyManager =>
        Path o c (view t [] .idle []) ∧ t.quitEventReceived = true) _ _ ⟨h, hq⟩ ?_
      rintro t ⟨hp, ht⟩ svc -
      refine ⟨hp.tail (.queue ?_), ht⟩
      rw [view_push]
      exact .quitStop _ svc ht rfl
    · exact ⟨h, hq⟩

theorem path_quitServices {c : Core} (l : List ServiceId) (hq : s.quitEventReceived = true)
    (h : Path o c (view s [] .idle [])) :
    Path o c (view (l.foldl (quitService e) s) [] .idle []) :=
  (List.foldlRecOn (motive := fun t : DependencyManager =>
    Path o c (view t [] .idle []) ∧ t.quitEventReceived = true) l (quitService e) ⟨h, hq⟩
    fun _ ht id _ => path_quitService id ht.2 ht.1).1

theorem path_handleQuit (ho : o.event = some e) (hb : e.body = .quit) :
    Path o (view s [e] .idle []) (view (s.handleQuit e).manager [] .idle []) := by
  have hquit : Path o (view s [e] .idle []) (view { s with quitEventReceived := true } [] .idle []) :=
    .single (.quit (.quit e s.queue rfl ho hb rfl))
  exact path_quitServices s.services.keys rfl hquit

theorem checkIfCanQuit_cases (hs : s.checkIfCanQuit = some s') :
    s' = s ∨ (s.quitEventReceived = true ∧ s.scopedGenerators.isEmpty = true ∧
      s.allServicesStopped = true ∧ s.eventWaiters.isEmpty = true ∧
      s.dependencyWaiters.isEmpty = true ∧
      s' = { s with
        services := Table.empty
        allEventInterceptorsCopy := []
        eventInterceptorsCopy := []
        quitDone := true }) := by
  unfold checkIfCanQuit at hs
  split at hs
  · rename_i hcond
    simp only [Bool.and_eq_true] at hcond
    obtain ⟨⟨⟨hq, _⟩, hgen⟩, hall⟩ := hcond
    split at hs
    · cases hs
    · rename_i hempty
      simp only [Bool.or_eq_true, not_or, Bool.not_eq_true', Bool.not_eq_false] at hempty
      cases hs
      exact .inr ⟨hq, hgen, hall, hempty.1.1, hempty.1.2, rfl⟩
  · cases hs
    exact .inl rfl

theorem path_checkIfCanQuit (hs : s.checkIfCanQuit = some s') :
    Path o (view s [] .idle []) (view s' [] .idle []) := by
  rcases checkIfCanQuit_cases hs with rfl | ⟨hq, hgen, hall, _, hwait, rfl⟩
  · exact .refl
  · refine .single (.quit ?_)
    have hdone : view { s with
        services := Table.empty
        allEventInterceptorsCopy := []
        eventInterceptorsCopy := []
        quitDone := true } [] .idle [] = (view s [] .idle []).uninstallAll := by
      have hempty : ∀ {β : Type} (field : LifecycleManager → β) (missing : β),
          Services.view field missing Table.empty = fun _ => missing :=
        fun field missing => funext fun _ => rfl
      have hnobody : ∀ field : LifecycleManager → List ServiceId,
          (fun d p => p ∈ Services.view field [] Table.empty d) = fun _ _ => False := by
        intro field
        rw [hempty]
        simp
      simp only [view, Core.uninstallAll, hempty, hnobody]
      simp only [Table.get?_empty, reduceCtorEq, exists_false]
      exact congrArg₂ (fun st reg => { view s [] .idle [] with
        present := fun _ => False
        kind := fun _ => .plain
        interfaces := fun _ => []
        state := st
        registry := reg
        dep := fun _ _ => False
        away := fun _ _ => False
        dee := fun _ _ => False
        quitDone := true }) (hempty _ _) (hempty _ _)
    rw [hdone]
    refine .done hq ?_ ?_ ?_ rfl
    · intro q
      exact (Table.isEmpty_iff _).mp hgen q
    · intro d
      cases hm : s.services.get? d with
      | none => exact .inl (Services.view_none _ _ _ _ hm)
      | some m =>
        have hstop := all_eq_true.mp hall (d, m) ((Table.mem_entries_iff _ _ _).mpr hm)
        rw [Bool.or_eq_true] at hstop
        refine .inr (hstop.imp (fun hi => ?_) fun hi => ?_)
        · exact (view_kind s [] .idle [] hm).trans (of_decide_eq_true hi)
        · exact (view_state s [] .idle [] hm).trans (of_decide_eq_true hi)
    · intro d
      show Waiters.of s.dependencyWaiters d = []
      unfold Waiters.of
      rw [(Table.isEmpty_iff _).mp hwait d]

/-! ## The switch -/

theorem path_handle {out : Handled} (u : UserCode) (h : Inv (view s [e] .idle []))
    (ho : o.event = some e) (hsince : Since o s) (hq : s.quitDone = false)
    (hs : s.handle u e = some out) :
    Path o (view s [e] .idle []) (view out.manager [] .idle []) := by
  -- the branches that only keep house consume the event at their end
  have hkept : ∀ {t : DependencyManager}, Housekeeping u s t → (∀ c, Ignored c e) →
      Path o (view s [e] .idle []) (view t [] .idle []) := by
    intro t hk hi
    have hpath : Path o (view s [e] .idle []) (view t [e] .idle []) := path_housekeeping hk h
    exact hpath.trans (path_ignore ho (hi _))
  unfold handle at hs
  cases hb : e.body with
  | dependencyOnline =>
    rw [hb] at hs
    obtain ⟨s1, hs1, rfl⟩ := map_eq_some_iff.mp hs
    exact path_handleDependencyOnline h u ho hb hsince.state.symm hs1
  | dependencyOffline remove =>
    rw [hb] at hs
    obtain ⟨s1, hs1, rfl⟩ := map_eq_some_iff.mp hs
    refine path_handleDependencyOffline h ho hb (fun d => hsince.untouched d) (fun d => ?_) hs1
    exact iff_of_eq (congrFun (congrFun hsince.dee.symm _) d)
  | dependencyRequest hash registration =>
    rw [hb] at hs
    cases hs
    exact hkept (housekeeping_handleDependencyRequest s u e hash registration)
      (by simp [Ignored, hb])
  | dependencyUndoRequest hash | continuableDependencyOffline p remove deps | user hash =>
    rw [hb] at hs
    cases hs
    exact hkept (housekeeping_broadcastEvent s u e) (by simp [Ignored, hb])
  | quit =>
    rw [hb] at hs
    cases hs
    exact path_handleQuit ho hb
  | insertService mgr =>
    rw [hb] at hs
    cases hs
    have hnew := (h.fresh.inserted e mem_cons_self mgr hb).2.2.1
    exact path_handleInsertService h u ho hb hq
      ((congrFun hsince.state e.originatingService).symm.trans hnew)
  | stopService d remove =>
    rw [hb] at hs
    exact path_handleStopService u h ho hb hsince.wakeFrame hs
  | startService d =>
    rw [hb] at hs
    cases hs
    exact path_handleStartService h u ho hb
  | removeService d =>
    rw [hb] at hs
    obtain ⟨s1, hs1, rfl⟩ := map_eq_some_iff.mp hs
    exact path_handleRemoveService u h ho hb hs1
  | removeEventHandler listener type | removeEventInterceptor id type =>
    rw [hb] at hs
    cases hs
    exact hkept (.quiet { SameLifecycles.refl s with }) (by simp [Ignored, hb])
  | addTracker hash =>
    rw [hb] at hs
    cases hs
    exact hkept (housekeeping_handleAddTracker s u e hash) (by simp [Ignored, hb])
  | removeTracker hash =>
    rw [hb] at hs
    cases hs
    exact hkept (.quiet (same_handleRemoveTracker s e hash)) (by simp [Ignored, hb])
  | continuable q =>
    rw [hb] at hs
    cases hs
    exact path_handleContinuable h u ho hb
  | continuableStart q =>
    rw [hb] at hs
    exact path_handleContinuableStart u h ho hb hsince hs
  | runFunction =>
    rw [hb] at hs
    cases hs
    exact hkept (.quiet (same_handleRunFunction s e)) (by simp [Ignored, hb])
  | runFunctionAsync =>
    rw [hb] at hs
    cases hs
    exact hkept (housekeeping_handleRunFunctionAsync s u e) (by simp [Ignored, hb])

/-! ## One event -/

theorem path_processEvent (u : UserCode) (h : Inv (view s [e] .idle [])) (ho : o.event = some e)
    (hcore : core s = o.core.setQueue s.queue) (ha : o.allowed = (s.preIntercept u e).2)
    (hs : s.processEvent u e = some s') : Path o (view s [e] .idle []) (view s' [] .idle []) := by
  unfold processEvent at hs
  split at hs
  · rename_i hdone
    cases hs
    exact .single (.queue (.dead e s.queue rfl hdone))
  rename_i hquit
  have hpre := same_preIntercept s u e
  have hpath : Path o (view s [e] .idle []) (view (s.preIntercept u e).1 [e] .idle []) :=
    path_same hpre
  dsimp only at hs
  obtain ⟨out, hout, hrest⟩ := bind_eq_some_iff.mp hs
  have hhandled : Path o (view (s.preIntercept u e).1 [e] .idle [])
      (view out.manager [] .idle []) := by
    by_cases hallow : (s.preIntercept u e).2 = true
    · rw [if_pos hallow] at hout
      refine path_handle u (h.path hpath) ho (Since.of_same hpre hcore) ?_ hout
      rw [hpre.quitDone]
      exact Bool.not_eq_true _ ▸ hquit
    · rw [if_neg hallow] at hout
      cases hout
      exact .single (.queue (.veto e _ rfl ho (ha.trans (Bool.not_eq_true _ ▸ hallow))))
  obtain ⟨t, ht, rfl⟩ := map_eq_some_iff.mp hrest
  have hchecked : Path o (view out.manager [] .idle []) (view t [] .idle []) := by
    split at ht
    · exact path_checkIfCanQuit ht
    · cases ht
      exact .refl
  exact ((hpath.trans hhandled).trans hchecked).trans (path_same (same_finishEvent t u e out _))

/-! ## One step of the manager -/

/-- What the path of one step of the manager starts from. -/
def origin (s : DependencyManager) : Action → Origin
  | .processEvent index u =>
    match s.queue[index]? with
    | some e => ⟨core s, some e, (s.preIntercept u e).2⟩
    | none => ⟨core s, none, true⟩
  | _ => ⟨core s, none, true⟩

theorem path_processNext (u : UserCode) (index : ℕ) (h : Inv (core s))
    (hs : s.processNext index u = some s') :
    Path (origin s (.processEvent index u)) (core s) (core s') := by
  unfold processNext at hs
  cases he : s.queue[index]? with
  | none =>
    rw [he] at hs
    cases hs
  | some e =>
    rw [he] at hs
    dsimp only at hs
    have horigin : origin s (.processEvent index u) = ⟨core s, some e, (s.preIntercept u e).2⟩ := by
      simp only [origin, he]
    rw [horigin]
    have hperm : (e :: s.queue.eraseIdx index).Perm s.queue := by
      obtain ⟨hi, rfl⟩ := List.getElem?_eq_some_iff.mp he
      exact List.getElem_cons_eraseIdx_perm hi
    have htake : Path ⟨core s, some e, (s.preIntercept u e).2⟩ (core s)
        (view { s with queue := s.queue.eraseIdx index } [e] .idle []) :=
      .single (.queue (.permute (e :: s.queue.eraseIdx index) hperm))
    exact htake.trans (path_processEvent u (h.path htake) rfl rfl rfl hs)

theorem path_next (a : Action) (h : Inv (core s)) (hs : next a s = some s') :
    Path (origin s a) (core s) (core s') := by
  cases a with
  | processEvent index u => exact path_processNext u index h hs
  | pushEvent svc priority body =>
    simp only [DependencyManager.next] at hs
    split at hs
    · rename_i hb
      cases hs
      exact path_request s rfl svc priority body hb
    · cases hs
  | pushEventAsync q svc priority coalesce body =>
    simp only [DependencyManager.next] at hs
    split at hs
    · rename_i hb
      exact path_pushEventAsync rfl q svc priority coalesce body hb hs
    · cases hs
  | waitForServiceStarted q svc => exact path_waitForServiceEvent rfl q svc _ (.inl rfl) hs
  | waitForServiceStopped q svc => exact path_waitForServiceEvent rfl q svc _ (.inr rfl) hs
  | createServiceManager desc =>
    cases hs
    exact path_createServiceManager s rfl desc
  | registerEventHandler svc type target | registerEventInterceptor svc type =>
    simp only [DependencyManager.next] at hs
    split at hs
    · cases hs
      exact path_same { SameLifecycles.refl s with }
    · cases hs
  | registerDependencyTracker svc hash => exact path_registerDependencyTracker svc hash hs
  | finishStart q success => exact path_finishStart h rfl q success hs
  | finishStop q => exact path_finishStopCoroutine h rfl q hs
  | finishGenerator q => exact path_finishUserGenerator rfl q hs
  | yieldGenerator q => exact path_yieldUserGenerator rfl q hs

/-! ## Reachable states -/

/-- A manager that has only got its internal managers. -/
structure Booted (s : DependencyManager) : Prop where
  services : ∀ d m, s.services.get? d = some m →
    0 < d ∧ d < s.nextServiceId ∧ ∃ hash, m = internalManager d hash
  first : 0 < s.nextServiceId
  rest : s = { constructed with services := s.services, nextServiceId := s.nextServiceId }

theorem Booted.addInternal (h : Booted s) (hash : NameHash) :
    Booted (s.addInternalServiceManager hash) where
  services d m hm := by
    unfold addInternalServiceManager at hm ⊢
    dsimp only at hm ⊢
    rw [Table.get?_emplace] at hm
    have hnone : s.services.get? s.nextServiceId = none := by
      cases hget : s.services.get? s.nextServiceId with
      | none => rfl
      | some m' => exact absurd (h.services _ m' hget).2.1 (Nat.lt_irrefl _)
    split at hm
    · rename_i hd
      rw [hd, hnone] at hm
      cases hm
      rw [hd]
      exact ⟨h.first, Nat.lt_succ_self _, hash, rfl⟩
    · obtain ⟨hpos, hlt, hint⟩ := h.services d m hm
      exact ⟨hpos, Nat.lt_succ_of_lt hlt, hint⟩
  first := Nat.succ_pos _
  rest := by
    unfold addInternalServiceManager
    rw [h.rest]

theorem booted_initial (internals : List NameHash) : Booted (initial internals) := by
  refine List.foldlRecOn internals addInternalServiceManager ⟨?_, ?_, rfl⟩
    fun t ht hash _ => ht.addInternal hash
  · intro d m hm
    cases hm
  · exact Nat.one_pos

theorem Booted.inv (h : Booted s) : Inv (core s) := by
  have hnone : ∀ d, s.services.get? d = none ∨
      ∃ hash, s.services.get? d = some (internalManager d hash) ∧ 0 < d ∧ d < s.nextServiceId := by
    intro d
    cases hm : s.services.get? d with
    | none => exact .inl rfl
    | some m =>
      obtain ⟨hpos, hlt, hash, rfl⟩ := h.services d m hm
      exact .inr ⟨hash, rfl, hpos, hlt⟩
  have hstate : ∀ d, (core s).state d = .uninstalled ∨
      ((core s).state d = .active ∧ 0 < d ∧ d < s.nextServiceId) := by
    intro d
    rcases hnone d with hm | ⟨hash, hm, hpos, hlt⟩
    · exact .inl (Services.view_none _ _ _ _ hm)
    · exact .inr ⟨Services.view_some _ _ _ _ hm, hpos, hlt⟩
  have hnobody : ∀ (field : LifecycleManager → List ServiceId)
      (_ : ∀ d hash, field (internalManager d hash) = []) (d x : ServiceId),
      x ∉ Services.view field [] s.services d := by
    intro field hfield d x hx
    rcases hnone d with hm | ⟨hash, hm, _⟩
    · rw [Services.view_none _ _ _ _ hm] at hx
      cases hx
    · rw [Services.view_some _ _ _ _ hm, hfield] at hx
      cases hx
  have hdep : ∀ d p, ¬(core s).dep d p := hnobody _ fun _ _ => rfl
  have haway : ∀ d p, ¬(core s).away d p := hnobody _ fun _ _ => rfl
  have hdee : ∀ p d, ¬(core s).dee p d := hnobody _ fun _ _ => rfl
  have hnogen : ∀ q, (core s).generator q = none := by
    intro q
    show s.scopedGenerators.get? q = none
    rw [h.rest]
    rfl
  have hgen : ∀ {q g}, ¬(core s).generator q = some g := by simp [hnogen]
  have hwait : ∀ d, (core s).waiters d = [] := by
    intro d
    show Waiters.of s.dependencyWaiters d = []
    rw [h.rest]
    rfl
  have hpending : ∀ d, (core s).pending d = [] := by
    intro d
    show (s.pendingStopsDueToDependencies.get? d).getD [] = []
    rw [h.rest]
    rfl
  have hqueue : (core s).queue = [] := by
    show s.queue = []
    rw [h.rest]
    rfl
  have hnoself : s.services.get? selfServiceId = none := by
    rcases hnone selfServiceId with hm | ⟨_, _, hpos, _⟩
    · exact hm
    · exact absurd hpos (Nat.lt_irrefl 0)
  have hactive : ∀ {d st}, st ≠ .uninstalled → st ≠ .active → (core s).state d ≠ st := by
    intro d st h1 h2
    rcases hstate d with hd | ⟨hd, _⟩
    · rw [hd]
      exact h1.symm
    · rw [hd]
      exact h2.symm
  exact {
    links := {
      inTable := fun d => by
        rcases hnone d with hm | ⟨hash, hm, _⟩
        · refine ⟨fun ⟨m, hm'⟩ => absurd (hm.symm.trans hm') (by simp), fun hd => ?_⟩
          exact absurd (Services.view_none _ _ _ _ hm) hd
        · refine ⟨fun _ => ?_, fun _ => ⟨_, hm⟩⟩
          exact (view_state s [] .idle [] hm).trans_ne (by simp [internalManager])
      back := fun d p hp => absurd hp (hdee p d)
      forth := fun d p hp => absurd hp (hdep d p)
      provider := fun d p hp => absurd hp (hdep d p)
      dependent := fun d p hp => absurd hp (hdep d p)
      irrefl := fun d => hdep d d
      noSelf := Services.view_none _ _ _ _ hnoself
      internal := fun d _ => (hstate d).imp_right fun hd => .inr (.inl hd.1) }
    coroutines := .empty hnogen fun _ =>
      ⟨hactive (by decide) (by decide), hactive (by decide) (by decide)⟩
    leaving := .empty hnogen hpending haway
    waiting := {
      sound := fun d type q hq => by simp [hwait] at hq
      complete := fun q g p point hg => absurd hg hgen
      nodup := fun d => by simp [hwait]
      takenNodup := nodup_nil
      takenOut := fun q hq => absurd hq not_mem_nil
      takenSound := fun q hq => absurd hq not_mem_nil
      entries := fun d hd => absurd (hwait d) hd }
    fresh := {
      promise := fun q g hg => absurd hg hgen
      service := fun d hd => ((hstate d).resolve_left hd).2.2
      first := h.first
      inserted := fun e he => by simp [hqueue] at he
      insertedOnce := by simp [hqueue]
      owner := fun q g hg => absurd hg hgen
      continued := fun e he => by simp [hqueue] at he
      ofUser := fun e he => by simp [hqueue] at he
      ofManager := fun e he => by simp [hqueue] at he }
    phase := trivial }

theorem inv_of_reachable {order : QueueOrder} {condition : DependencyManager → Action → Prop}
    (h : ReachableWhere order condition s) : Inv (core s) := by
  obtain ⟨internals, hrun⟩ := h
  refine hrun.invariant (fun t => Inv (core t)) (booted_initial internals).inv ?_
  intro t a t' ht _ hn
  exact ht.path (path_next a ht hn)

end

/-! ## The tables of a manager between two events -/

/-- A manager between two events, with the run that has brought it there. -/
structure Paused extends DependencyManager where
  order : QueueOrder
  reachable : Reachable order toDependencyManager

namespace Paused

/-- The manager that a script brings there. -/
def ofPlay {script : List Instruction} {s : DependencyManager}
    (h : play (fun _ _ => true) script (initial [0]) = some s) : Paused where
  toDependencyManager := s
  order := orderedPriorityQueue
  reachable := ⟨[0], run_play (fun _ _ _ => trivial) h⟩

/-- Three services, each the provider of the next, of which the first is being stopped, and a fourth one
that starts. The coroutines of user code suspend. -/
def chainStopping : List Instruction :=
  [.act (.createServiceManager (.simple [10] [])),
    .act (.createServiceManager (.simple [11] [(10, true)])),
    .act (.createServiceManager (.simple [] [(11, true)])), .drain 60 .prompt,
    .act (.pushEvent 1 1000 (.stopService 2 false)), .act (.createServiceManager (.simple [] [])),
    .drain 60 .slow]

variable (s : Paused) (d p : ServiceId) (q : PromiseId)

def StartSuspended : Prop := ∃ g, s.scopedGenerators.get? q = some g ∧ Starts d g

def StopSuspended : Prop := ∃ g, s.scopedGenerators.get? q = some g ∧ Stops d g

/-- The coroutine is a `dependencyOffline` of the service for the provider. -/
def LeavesIn : Prop := ∃ g, s.scopedGenerators.get? q = some g ∧ LetsGo d p g

/-- The providers whose stop waits for the service. -/
def deferredStops : List ServiceId :=
  ((s.pendingStopsDueToDependencies.get? d).getD []).map (·.originatingServiceId)

theorem inv : Inv (core s.toDependencyManager) := inv_of_reachable s.reachable

/-- A provider knows exactly the services that hold it, and is ACTIVE or UNINJECTING meanwhile. -/
theorem links_mirrored : (d ∈ s.dependeesOf p → p ∈ s.dependenciesOf d) ∧
      (p ∈ s.dependenciesOf d ∧ p ≠ selfServiceId →
        d ∈ s.dependeesOf p ∧ d ≠ p ∧ s.stateOf d ≠ .uninstalled ∧
          (s.stateOf p = .active ∨ s.stateOf p = .uninjecting)) := by
  have hlinks := s.inv.links
  refine ⟨hlinks.back d p, ?_⟩
  rintro ⟨hdep, hself⟩
  refine ⟨hlinks.forth d p hdep hself, ?_, (hlinks.dependent d p hdep).2,
    hlinks.provider d p hdep hself⟩
  rintro rfl
  exact hlinks.irrefl d hdep

theorem links_mirrored_chain : ∃ s : Paused, 2 ∈ s.dependenciesOf 3 ∧ 3 ∈ s.dependeesOf 2 ∧
    (s.stateOf 2 = .active ∨ s.stateOf 2 = .uninjecting) := by
  have hend : play (fun _ _ => true) chainStopping (initial [0]) = some _ := rfl
  have hdep : 2 ∈ (ofPlay hend).dependenciesOf 3 := mem_of_elem_eq_true rfl
  obtain ⟨hdee, -, -, hstate⟩ := (links_mirrored (ofPlay hend) 3 2).2 ⟨hdep, by decide⟩
  exact ⟨ofPlay hend, hdep, hdee, hstate⟩

/-- A service is STARTING, or STOPPING, for as long as one `start()`, or `stop()`, of it is
suspended. There is never a second one. -/
theorem one_coroutine : (s.stateOf d = .starting ↔ ∃! q, s.StartSuspended d q) ∧
      (s.stateOf d = .stopping ↔ ∃! q, s.StopSuspended d q) ∧
      (∀ q q', s.StartSuspended d q → s.StartSuspended d q' → q = q') ∧
      ∀ q q', s.StopSuspended d q → s.StopSuspended d q' → q = q' := by
  have hco := s.inv.coroutines
  have hstart : ∀ q q', s.StartSuspended d q → s.StartSuspended d q' → q = q' := by
    rintro q q' ⟨g, hg, hstarts⟩ ⟨g', hg', hstarts'⟩
    exact hco.startUnique d q g q' g' hg hg' hstarts hstarts'
  have hstop : ∀ q q', s.StopSuspended d q → s.StopSuspended d q' → q = q' := by
    rintro q q' ⟨g, hg, hd, hstop, -⟩ ⟨g', hg', hd', hstop', -⟩
    exact hco.stopUnique q g q' g' hg hg' hstop hstop' (hd.trans hd'.symm)
  refine ⟨⟨fun hs => existsUnique_of_exists_of_unique (hco.starting d hs) hstart, ?_⟩,
    ⟨fun hs => existsUnique_of_exists_of_unique (hco.stopping d hs) hstop, ?_⟩, hstart, hstop⟩
  · rintro ⟨q, ⟨g, hg, hstarts⟩, -⟩
    by_contra hs
    exact hco.no_start hg hs hstarts
  · rintro ⟨q, ⟨g, hg, rfl, hstop, hsuspended⟩, -⟩
    have hfits := hco.fits q g hg
    rw [hstop, hsuspended] at hfits
    cases hfits with
    | starting _ hstart => exact hstart.elim
    | stopping _ hs => exact hs

theorem one_coroutine_chain : ∃ s : Paused, s.stateOf 5 = .starting ∧ s.stateOf 4 = .stopping ∧
    (∃! q, s.StartSuspended 5 q) ∧ ∃! q, s.StopSuspended 4 q := by
  have hend : play (fun _ _ => true) chainStopping (initial [0]) = some _ := rfl
  exact ⟨ofPlay hend, rfl, rfl, (one_coroutine (ofPlay hend) 5).1.mp rfl,
    (one_coroutine (ofPlay hend) 4).2.1.mp rfl⟩

/-- A provider is on its way out of a service for one reason: one `dependencyOffline` of the service
has not ended, or one stop of the provider waits for the service. -/
theorem one_reason_to_go : (s.stateOf d = .uninstalled ∨
      (p ∈ s.goingAwayOf d ↔ (∃ q, s.LeavesIn d p q) ∨ p ∈ s.deferredStops d)) ∧
      (∀ q q', s.LeavesIn d p q → s.LeavesIn d p q' → q = q') ∧
      (∀ q, s.LeavesIn d p q → p ∉ s.deferredStops d) ∧ (s.deferredStops d).Nodup := by
  have hleaving := s.inv.leaving
  refine ⟨or_iff_not_imp_left.mpr fun hpresent => ⟨fun haway => ?_, ?_⟩, ?_, ?_, hleaving.nodup d⟩
  · rcases hleaving.cause d p haway with hgo | ⟨w, hw, rfl⟩
    · exact .inl hgo
    · exact .inr (mem_map_of_mem hw)
  · rintro (⟨q, g, hg, hgo⟩ | hp)
    · exact (hleaving.ofGenerator q g d p hg hgo).resolve_right hpresent
    · obtain ⟨w, hw, rfl⟩ := mem_map.mp hp
      exact (hleaving.ofPending d w hw).resolve_right hpresent
  · rintro q q' ⟨g, hg, hgo⟩ ⟨g', hg', hgo'⟩
    exact hleaving.unique d p q g q' g' hg hg' hgo hgo'
  · rintro q ⟨g, hg, hgo⟩ hp
    obtain ⟨w, hw, hwp⟩ := mem_map.mp hp
    exact hleaving.disjoint d p q g hg hgo w hw hwp

/-- The second service lets the first one go in a coroutine, and the stop of the second waits for the
third. -/
theorem one_reason_to_go_chain : ∃ s : Paused, 2 ∈ s.goingAwayOf 3 ∧ 3 ∈ s.goingAwayOf 4 ∧
    (∃ q, s.LeavesIn 3 2 q) ∧ 3 ∈ s.deferredStops 4 := by
  have hend : play (fun _ _ => true) chainStopping (initial [0]) = some _ := rfl
  have hsecond : 2 ∈ (ofPlay hend).goingAwayOf 3 := mem_of_elem_eq_true rfl
  have hthird : 3 ∈ (ofPlay hend).goingAwayOf 4 := mem_of_elem_eq_true rfl
  have hno : 2 ∉ (ofPlay hend).deferredStops 3 := not_mem_nil
  have hdeferred : 3 ∈ (ofPlay hend).deferredStops 4 := mem_of_elem_eq_true rfl
  have hcause := ((one_reason_to_go (ofPlay hend) 3 2).1.resolve_left (by rintro ⟨⟩)).mp hsecond
  exact ⟨ofPlay hend, hsecond, hthird, hcause.resolve_right hno, hdeferred⟩

/-- The coroutines that wait for a service to come or to go are the suspended `dependencyOffline`s
of that service. None of them waits twice. -/
theorem waiters_exact : ((Waiters.of s.dependencyWaiters d).map Prod.snd).Nodup ∧
    ∀ q type, type = .dependencyOnline ∨ type = .dependencyOffline →
      ((type, q) ∈ Waiters.of s.dependencyWaiters d ↔
        ∃ g p point, s.scopedGenerators.get? q = some g ∧ g.generator.serviceId = d ∧
          g.generator.state = .suspended ∧
          g.generator.coroutine = .dependencyOffline p point ∧ type = waitType point) := by
  have hwaiting := s.inv.waiting
  refine ⟨hwaiting.nodup d, fun q type htype => ⟨fun hmem => ?_, ?_⟩⟩
  · obtain ⟨g, hg, hs, ⟨p, point, hc, hd, hwait⟩ | ⟨-, hother⟩⟩ := hwaiting.sound d type q hmem
    · exact ⟨g, p, point, hg, hd, hs, hc, hwait⟩
    · rcases htype with rfl | rfl <;> simp at hother
  · rintro ⟨g, p, point, hg, rfl, hs, hc, rfl⟩
    exact (hwaiting.complete q g p point hg hs hc).resolve_right not_mem_nil

theorem waiters_exact_chain : ∃ s : Paused, s.dependeesOf 3 = [4] ∧
    ∃ q, (.dependencyOffline, q) ∈ Waiters.of s.dependencyWaiters 3 ∧ s.LeavesIn 3 2 q := by
  have hend : play (fun _ _ => true) chainStopping (initial [0]) = some _ := rfl
  refine ⟨ofPlay hend, rfl, 5, ?_, _, rfl, rfl, _, rfl⟩
  exact ((waiters_exact (ofPlay hend) 3).2 5 _ (.inr rfl)).mpr ⟨_, _, _, rfl, rfl, rfl, rfl, rfl⟩

/-- The manager refines the lifecycles: its run is one in which every step is a path of their small
steps from the state it was begun in, and so is every step that can follow. -/
theorem run_refines : (∃ internals, Relation.ReflTransGen (fun t t' => ∃ a, next a t = some t' ∧
      (origin t a).core = core t ∧ Path (origin t a) (core t) (core t'))
        (initial internals) s.toDependencyManager) ∧
      ∀ a t, next a s.toDependencyManager = some t →
        Path (origin s.toDependencyManager a) (core s.toDependencyManager) (core t) := by
  have horigin : ∀ t a, (origin t a).core = core t := by
    intro t a
    unfold origin
    repeat' split
    all_goals rfl
  refine ⟨?_, fun a t hn => path_next a s.inv hn⟩
  obtain ⟨internals, hrun⟩ := s.reachable
  refine ⟨internals, (hrun.invariant (fun t => Inv (core t) ∧ Relation.ReflTransGen _
    (initial internals) t) ⟨(booted_initial internals).inv, .refl⟩ fun t a t' ht _ hn => ?_).2⟩
  have hpath := path_next a ht.1 hn
  exact ⟨ht.1.path hpath, ht.2.tail ⟨a, hn, horigin t a, hpath⟩⟩

/-- The insertion of a service that has just been created. -/
theorem run_refines_insertion : ∃ (s : Paused) (t : DependencyManager),
    next (.processEvent 0 .prompt) s.toDependencyManager = some t ∧
      s.stateOf 2 = .uninstalled ∧ t.stateOf 2 = .installed ∧
      Path (origin s.toDependencyManager (.processEvent 0 .prompt)) (core s.toDependencyManager)
        (core t) := by
  have hend : play (fun _ _ => true) [.act (.createServiceManager (.simple [] []))] (initial [0]) =
    some _ := rfl
  have hnext : next (.processEvent 0 .prompt) (ofPlay hend).toDependencyManager = some _ := rfl
  exact ⟨ofPlay hend, _, hnext, rfl, rfl, (run_refines (ofPlay hend)).2 _ _ hnext⟩

end Paused

end Ichor.Lifecycle
