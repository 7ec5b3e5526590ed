import Ichor.Refinement.Waking

/-! The branches of a DependencyOnlineEvent and a DependencyOfflineEvent, and the
continuations of stored generators. -/
namespace Ichor.Lifecycle
open DependencyManager

section
variable {o : Origin} {s s' : DependencyManager} {e : Event}

theorem path_ignore (ho : o.event = some e) (hi : Ignored (view s [e] .idle []) e) :
    Path o (view s [e] .idle []) (view s [] .idle []) :=
  .single (.queue (.ignore e s.queue rfl ho hi rfl))

theorem stateOf_ne_of_none {d : ServiceId} {st : ServiceState} (h : s.services.get? d = none)
    (hst : st ≠ .uninstalled) : s.stateOf d ≠ st := by
  have hun : s.stateOf d = .uninstalled := Services.view_none _ _ _ _ h
  rw [hun]
  exact Ne.symm hst

/-! ## DependencyOnlineEvent -/

variable {p : ServiceId} {remove : Bool} {g : ScopedGenerator} {q : PromiseId}
  {t : DependencyManager} {c : Core} {v : StartBehaviour}

theorem path_becomeActive {m : LifecycleManager} (h : Inv (view s [e] .idle []))
    (ho : o.event = some e) (he : IsOnline p e) (hm : s.services.get? p = some m)
    (hst : m.state = .injecting)
    (hs : (s.setState p .active).finishWaitingService p .dependencyOnline = some s') :
    Path o (view s [e] .idle []) (view s' [] .idle []) ∧ s'.stateOf p = .active := by
  have hv := view_setState s [] .idle [] hm .active
  have honline : Path o (view s [e] .idle [])
      (((view (s.setState p .active) [] .idle []).wake p .dependencyOnline).setPhase (.online p)) := by
    rw [hv]
    exact .single (.online (.online e s.queue p rfl ho he
      ((view_state s [e] .idle [] hm).trans hst) rfl rfl))
  obtain ⟨s1, hpath, hwoken, _⟩ :=
    path_finishWaitingService (resumes_online o [] p) (h.path honline) hs
  have hinv := (h.path honline).path hpath
  refine ⟨(honline.trans hpath).tail (.online ?_), ?_⟩
  · rw [hwoken .idle []]
    exact .woken p rfl rfl
  · exact (congrFun (congrArg Core.state (hwoken .idle [])) p).trans hinv.phase

theorem path_handleDependencyOnline (h : Inv (view s [e] .idle [])) (u : UserCode)
    (ho : o.event = some e) (hb : e.body = .dependencyOnline)
    (hsame : o.core.state = s.stateOf) (hs : s.handleDependencyOnline u e = some s') :
    Path o (view s [e] .idle []) (view s' [] .idle []) := by
  have hignored : s.stateOf e.originatingService ≠ .injecting →
      Ignored (view s [e] .idle []) e := by
    intro hne
    unfold Ignored
    rw [hb]
    exact hne
  unfold handleDependencyOnline at hs
  cases hm : s.services.get? e.originatingService with
  | none =>
    rw [hm] at hs
    cases hs
    exact path_ignore ho (hignored (stateOf_ne_of_none hm (by decide)))
  | some m =>
    rw [hm] at hs
    dsimp only at hs
    by_cases hst : m.state = .injecting
    · rw [if_neg (not_not_intro hst)] at hs
      obtain ⟨s1, hs1, rfl⟩ := Option.map_eq_some_iff.mp hs
      obtain ⟨hpath, hact⟩ := path_becomeActive h ho ⟨hb, rfl⟩ hm hst hs1
      refine path_thenQuit e.originatingService _ (hpath.trans ?_)
      split
      · exact .refl
      · refine path_onlineDependents u e _ (h.path hpath) hact ?_
        rw [hsame, ← hst]
        exact Services.view_some _ _ _ _ hm
    · rw [if_pos hst] at hs
      cases hs
      refine path_ignore ho (hignored ?_)
      rwa [show s.stateOf e.originatingService = m.state from Services.view_some _ _ _ _ hm]

/-! ## DependencyOfflineEvent -/

theorem not_hasDependee_iff (s : DependencyManager) (current : List Event) (phase : Phase)
    (taken : List PromiseId) (p : ServiceId) :
    ¬(view s current phase taken).HasDependee p ↔ (s.dependeesOf p).isEmpty = true := by
  rw [List.isEmpty_iff, List.eq_nil_iff_forall_not_mem]
  exact not_exists

/-- The provider has no dependees left: whoever waited for that is woken, and the
provider itself is stopped. -/
theorem path_deserted (priority : ℕ)
    (h : Inv (view s [] (.offline p remove []) [])) (hd : (s.dependeesOf p).isEmpty = true)
    (hs : s.finishWaitingService p .dependencyOffline = some s') :
    Path o (view s [] (.offline p remove []) [])
      (view (s'.pushPrioritisedEvent p priority (.stopService p remove)) [] .idle []) := by
  have hwake : Path o (view s [] (.offline p remove []) [])
      (((view s [] .idle []).wake p .dependencyOffline).setPhase (.offlineWake p remove)) :=
    .single (.offline (.wake p remove rfl ((not_hasDependee_iff s [] _ [] p).mpr hd) rfl))
  obtain ⟨s1, hpath, hwoken, _⟩ := path_finishWaitingService
    (resumes_offline o [] p (.offlineWake p remove) (.inl ⟨remove, rfl⟩)) (h.path hwake) hs
  refine (hwake.trans hpath).tail (.offline ?_)
  rw [view_push, hwoken .idle []]
  exact .woken p remove _ rfl rfl rfl

theorem path_handleDependencyOffline (h : Inv (view s [e] .idle []))
    (ho : o.event = some e) (hb : e.body = .dependencyOffline remove)
    (hsame : ∀ d, Untouched o (view s [e] .idle []) d)
    (hdee : ∀ d, o.core.dee e.originatingService d ↔
      (view s [e] .idle []).dee e.originatingService d)
    (hs : s.handleDependencyOffline e remove = some s') :
    Path o (view s [e] .idle []) (view s' [] .idle []) := by
  have hignored : s.stateOf e.originatingService ≠ .active → Ignored (view s [e] .idle []) e := by
    intro hne
    unfold Ignored
    rw [hb]
    exact hne
  unfold handleDependencyOffline at hs
  dsimp only at hs
  cases hm : s.services.get? e.originatingService with
  | none =>
    rw [hm] at hs
    cases hs
    exact path_ignore ho (hignored (stateOf_ne_of_none hm (by decide)))
  | some m =>
    rw [hm] at hs
    dsimp only at hs
    by_cases hst : m.state = .active
    · rw [if_neg (not_not_intro hst)] at hs
      obtain ⟨s1, hs1, hrest⟩ := Option.bind_eq_some_iff.mp hs
      have htodo : ∀ d, d ∈ stillToTell [] m.serviceIdsOfDependees ↔
          (view s [e] .idle []).dee e.originatingService d := by
        intro d
        rw [mem_stillToTell, view_dee s [e] .idle [] hm]
        simp
      have hoffline : Path o (view s [e] .idle []) (view (s.setState e.originatingService .uninjecting)
          [] (.offline e.originatingService remove (stillToTell [] m.serviceIdsOfDependees)) []) := by
        rw [view_setState s [] _ [] hm .uninjecting]
        exact .single (.offline (.offline e s.queue e.originatingService remove _ rfl ho ⟨hb, rfl⟩
          ((view_state s [e] .idle [] hm).trans hst) rfl htodo (fun d => (hdee d).symm)
          (hsame e.originatingService).state))
      have huntouched : ∀ d ∈ stillToTell [] m.serviceIdsOfDependees, Untouched o
          (view (s.setState e.originatingService .uninjecting) [] (.offline e.originatingService remove
            (stillToTell [] m.serviceIdsOfDependees)) []) d := by
        intro d hd
        have hne : d ≠ e.originatingService := by
          rintro rfl
          exact h.links.irrefl _ (h.links.back _ _ ((htodo _).mp hd))
        rw [view_setState s [] _ [] hm .uninjecting]
        have hold := hsame d
        exact { hold with state := (Function.update_of_ne hne _ _).trans hold.state }
      have hloop := path_offlineDependees e rfl m.serviceIdsOfDependees [] (h.path hoffline)
        huntouched (fun d hd => by cases hd) hs1 (o := o)
      have htold := hoffline.trans hloop
      refine htold.trans ?_
      have hinv := h.path htold
      by_cases hempty : (s1.dependeesOf e.originatingService).isEmpty = true
      · rw [if_pos hempty] at hrest
        obtain ⟨s2, hs2, rfl⟩ := Option.map_eq_some_iff.mp hrest
        exact path_deserted _ hinv hempty hs2
      · rw [if_neg hempty] at hrest
        cases hrest
        refine .single (.offline (.stay e.originatingService remove rfl ?_))
        by_contra hno
        exact hempty ((not_hasDependee_iff _ [] _ [] _).mp hno)
    · rw [if_pos hst] at hs
      cases hs
      refine path_ignore ho (hignored ?_)
      rwa [show s.stateOf e.originatingService = m.state from Services.view_some _ _ _ _ hm]

/-! ## ContinuableEvent -/

/-- A generator that is over leaves the table, and a stop that waited for it is pushed. `t` is
the manager after the generator queued `stale`. -/
theorem path_finishGenerator (u : UserCode) (ho : o.event = some e) (hb : e.body = .continuable q)
    (hg : s.scopedGenerators.get? q = some g) (hs : g.generator.state ≠ .suspended)
    (stale : List Event) (hstale : ∀ x ∈ stale, x.body = .continuable q)
    (ht : ∀ current, view t current .idle [] = (view s current .idle []).push stale) :
    Path o (view s [e] .idle []) (view (t.finishGenerator u q g) [] .idle []) := by
  obtain ⟨s1, hquiet, hs1⟩ : ∃ s1, SameLifecycles t s1 ∧
      (if t.eventUseCount g.eventRef = 1 then t.handleEventCompletion u g.event else t) = s1 := by
    refine ⟨_, ?_, rfl⟩
    split
    · exact same_handleEventCompletion t u g.event
    · exact SameLifecycles.refl t
  unfold finishGenerator
  dsimp only
  rw [hs1]
  obtain ⟨calls, hcalls, hview⟩ := view_same hquiet [] .idle []
  rw [ht []] at hview
  have hparked : s1.pendingStopsDueToCoroutine.get? = (view s [e] .idle []).parked :=
    congrArg Core.parked hview
  have hat : AtContinuation o ((view s [e] .idle []).record calls) e s.queue q g (.continuable q) :=
    ⟨rfl, ho, hb, rfl, hg⟩
  refine (Relation.ReflTransGen.single (.queue (.quiet calls hcalls))).tail (.user ?_)
  rw [view_eraseGenerator]
  cases hp : s1.pendingStopsDueToCoroutine.get? g.generator.serviceId with
  | none =>
    rw [hparked] at hp
    have hdone := UserStep.done q g e s.queue stale [] hat hs hstale
      (fun w hw => by cases hp.symm.trans hw) (fun _ => rfl)
    rw [List.append_nil] at hdone
    dsimp only
    rw [hview]
    exact hdone
  | some w =>
    dsimp only
    rw [view_push, hview]
    rw [hparked] at hp
    have hdone := UserStep.done q g e s.queue stale
      [⟨s1.nextEventId, w.originatingServiceId, min internalDependencyEventPriority w.priority,
        .stopService g.generator.serviceId w.removeAfter⟩] hat hs hstale
      (fun w' hw' => by
        cases hp.symm.trans hw'
        refine ⟨_, ?_, rfl⟩
        unfold IsStop
        rfl)
      (fun hn => by cases hp.symm.trans hn)
    rw [Inv.push_append] at hdone
    exact hdone

theorem path_handleContinuable (h : Inv (view s [e] .idle [])) (u : UserCode)
    (ho : o.event = some e) (hb : e.body = .continuable q) :
    Path o (view s [e] .idle []) (view (s.handleContinuable u q).manager [] .idle []) := by
  have hignored : (∀ g, s.scopedGenerators.get? q = some g → g.generator.state = .suspended) →
      Ignored (view s [e] .idle []) e := by
    intro hall
    unfold Ignored
    rw [hb]
    exact hall
  unfold handleContinuable
  cases hg : s.scopedGenerators.get? q with
  | none => exact path_ignore ho (hignored fun g hg' => by cases hg.symm.trans hg')
  | some g =>
    have hat : AtContinuation o (view s [e] .idle []) e s.queue q g (.continuable q) :=
      ⟨rfl, ho, hb, rfl, hg⟩
    have huser : g.generator.coroutine = .user :=
      h.fresh.ofUser e List.mem_cons_self q g hb hg
    dsimp only
    cases hst : g.generator.state with
    | finished v =>
      exact path_finishGenerator u ho hb hg (by rw [hst]; simp) [] (by simp)
        fun current => (push_nil _).symm
    | suspended =>
      refine path_ignore ho (hignored fun g' hg' => ?_)
      cases hg.symm.trans hg'
      exact hst
    | yielded =>
      dsimp only
      cases u.generator s.trace.length with
      | done =>
        exact path_finishGenerator u ho hb hg (by rw [hst]; simp)
          [⟨s.nextEventId, g.generator.serviceId, g.generator.priority, .continuable q⟩]
          (fun x hx => by rw [List.mem_singleton.mp hx])
          fun current => view_push s current .idle [] _ _ _
      | suspended =>
        show Path o _ (view (s.modifyGenerator q _) [] .idle [])
        rw [view_modifyGenerator s _ _ _ q g hg]
        exact .single (.user (.resume q g e s.queue hat hst))
      | yielded =>
        show Path o _ (view (s.pushPrioritisedEvent _ _ _) [] .idle [])
        rw [view_push]
        exact .single (.user (.again q g e _ s.queue hat hst rfl))

/-! ## ContinuableStartEvent -/

theorem same_eraseGenerator {t' : DependencyManager} (h : SameLifecycles t t') (q : PromiseId) :
    SameLifecycles (t.eraseGenerator q) (t'.eraseGenerator q) :=
  { h with
    scopedGenerators := by
      unfold DependencyManager.eraseGenerator
      rw [h.scopedGenerators] }

theorem path_completed (u : UserCode) (q : PromiseId) (orig : Event)
    (h : Path o c (view (t.eraseGenerator q) [] .idle [])) :
    Path o c (view ((t.handleEventCompletion u orig).eraseGenerator q) [] .idle []) :=
  h.trans (path_same (same_eraseGenerator (same_handleEventCompletion t u orig) q))

section
variable (h : Inv c) (hg : c.generator q = some g) (hst : g.generator.state = .finished v)
include h hg hst

theorem started_iff
    (hc : g.generator.coroutine = .startAfterDependencyOnline) : v = .started ↔ v ≠ .stopped := by
  have hfit := h.coroutines.fits q g hg
  rw [hst, hc] at hfit
  cases hfit with
  | startFailed => simp
  | startedUp _ _ _ hv => simp [hv rfl]

theorem stopMe_of_finished {point : OfflinePoint}
    (hc : g.generator.coroutine = .dependencyOffline p point) : v = .stopMe := by
  have hfit := h.coroutines.fits q g hg
  rw [hst, hc] at hfit
  cases hfit with
  | startFailed _ hl => exact hl.elim
  | startedUp _ _ hl => exact hl.elim
  | leaving => rfl

end

section
variable (u : UserCode) (ho : o.event = some e) (hb : e.body = .continuableStart q)
  (hg : s.scopedGenerators.get? q = some g) (hst : g.generator.state = .finished v)
include ho hb hg hst

theorem path_continueStart (hc : g.generator.coroutine = .start) : Path o (view s [e] .idle [])
      (view ((s.continueStart u e g.event g.generator.serviceId).eraseGenerator q) [] .idle []) := by
  obtain ⟨stops, hstops, hv⟩ := view_pushIf (s.pushPrioritisedEvent g.generator.serviceId
    (min internalCoroutineEventPriority e.priority) .dependencyOnline) [] .idle []
    s.quitEventReceived g.generator.serviceId (min internalDependencyEventPriority e.priority)
    (.stopService g.generator.serviceId true)
  unfold continueStart
  refine path_completed u q g.event ?_
  have hstops' : Queues ((view s [e] .idle []).quitting = true ∧ g.generator.coroutine = .start)
      (IsStop g.generator.serviceId true) stops :=
    hstops.imp ⟨fun h => ⟨h, hc⟩, And.left⟩ fun _ h => h.1
  have hstep := StartStep.continueStart (o := o) q g e s.queue
    [⟨s.nextEventId, g.generator.serviceId, min internalCoroutineEventPriority e.priority,
      .dependencyOnline⟩] stops v ⟨rfl, ho, hb, rfl, hg⟩ hst (hc ▸ trivial)
    (.inl ⟨.inr hc, _, ⟨rfl, rfl⟩, rfl⟩) hstops'
  rw [view_eraseGenerator]
  refine .single (.start ?_)
  have hview : view (if s.quitEventReceived then
      (s.pushPrioritisedEvent g.generator.serviceId (min internalCoroutineEventPriority e.priority)
        .dependencyOnline).pushPrioritisedEvent g.generator.serviceId
          (min internalDependencyEventPriority e.priority) (.stopService g.generator.serviceId true)
      else s.pushPrioritisedEvent g.generator.serviceId
        (min internalCoroutineEventPriority e.priority) .dependencyOnline) [] .idle [] =
      (view s [] .idle []).push ([⟨s.nextEventId, g.generator.serviceId,
        min internalCoroutineEventPriority e.priority, .dependencyOnline⟩] ++ stops) := by
    rw [hv, view_push]
    unfold Core.push
    rw [List.append_assoc]
  exact (congrArg (Core.setGenerator · q none) hview).symm ▸ hstep

theorem path_continueStartAfter (h : Inv (view s [e] .idle []))
    (hc : g.generator.coroutine = .startAfterDependencyOnline) (priority : ℕ) :
    Path o (view s [e] .idle []) (view (((if v = .started then
        s.pushPrioritisedEvent g.generator.serviceId priority .dependencyOnline
      else s).handleEventCompletion u g.event).eraseGenerator q) [] .idle []) := by
  obtain ⟨onlines, honlines, hv⟩ := view_pushIf s [] .idle [] (decide (v = .started))
    g.generator.serviceId priority .dependencyOnline
  have hon : Queues (v ≠ .stopped ∨ g.generator.coroutine = .start)
      (IsOnline g.generator.serviceId) onlines := by
    refine honlines.imp ?_ fun _ he => he
    rw [decide_eq_true_iff, started_iff h hg hst hc]
    simp [hc]
  have hno : Queues ((view s [e] .idle []).quitting = true ∧ g.generator.coroutine = .start)
      (IsStop g.generator.serviceId true) [] := .inr ⟨by simp [hc], rfl⟩
  have hstep := StartStep.continueStart (o := o) q g e s.queue onlines [] v
    ⟨rfl, ho, hb, rfl, hg⟩ hst (hc ▸ trivial) hon hno
  rw [List.append_nil] at hstep
  refine path_completed u q g.event ?_
  rw [view_eraseGenerator]
  refine .single (.start ?_)
  have hite : (if v = .started then
      s.pushPrioritisedEvent g.generator.serviceId priority .dependencyOnline else s) =
      if decide (v = .started) then
        s.pushPrioritisedEvent g.generator.serviceId priority .dependencyOnline else s := by
    simp
  rw [hite, hv]
  exact hstep

theorem path_continueOffline {point : OfflinePoint} {deps : List ℕ}
    (h : Inv (view s [e] .idle [])) (hc : g.generator.coroutine = .dependencyOffline p point)
    (hbody : g.event.body = .continuableDependencyOffline p remove deps)
    (hs : s.continueOffline u e g.event p remove deps v = some s') :
    Path o (view s [e] .idle []) (view (s'.eraseGenerator q) [] .idle []) := by
  have hv := stopMe_of_finished h hg hst hc
  subst hv
  unfold continueOffline at hs
  dsimp only at hs
  cases hp : s.services.get? p with
  | none => simp [hp] at hs
  | some mp =>
  cases hd : s.services.get? g.event.originatingService with
  | none => simp [hp, hd] at hs
  | some md =>
    rw [hp, hd] at hs
    simp only [if_true, Option.map_some, Option.some.injEq] at hs
    subst hs
    refine path_completed u q g.event ?_
    obtain ⟨stops, hstops, hview⟩ := view_pushIf s [] .idle []
      (((s.pendingStopsDueToDependencies.get? g.event.originatingService).getD []).isEmpty ||
        (decide (md.state = .uninjecting) && md.serviceIdsOfDependees.isEmpty))
      e.originatingService e.priority (.stopService g.event.originatingService remove)
    have hcond : Queues ((view s [e] .idle []).pending g.event.originatingService = [] ∨
        ((view s [e] .idle []).state g.event.originatingService = .uninjecting ∧
          ¬(view s [e] .idle []).HasDependee g.event.originatingService))
        (IsStop g.event.originatingService remove) stops := by
      refine hstops.imp ?_ fun _ he => he.1
      rw [Bool.or_eq_true, Bool.and_eq_true, List.isEmpty_iff, List.isEmpty_iff,
        decide_eq_true_iff, view_state s [e] .idle [] hd, view_hasDependee s [e] .idle [] hd,
        not_not]
      exact Iff.rfl
    have hpres : (view s [e] .idle []).state p ≠ .uninstalled := (h.links.inTable p).mp ⟨mp, hp⟩
    have hstep := OfflineStep.continueOffline (o := o) q g e s.queue stops p
      g.event.originatingService remove deps e.priority ⟨rfl, ho, hb, rfl, hg⟩ hst (hc ▸ trivial)
      hbody rfl hpres hcond
    rw [view_eraseGenerator, view_putPending, hview]
    exact .single (.offline hstep)

end

end

end Ichor.Lifecycle
