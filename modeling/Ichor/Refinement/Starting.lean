import Ichor.Refinement.Housekeeping

/-! Starting services: `internal_start` and the handlers that call it. -/
namespace Ichor.Lifecycle
open FiniteTable DependencyManager

section
variable {o : Origin} {current : List Event} {taken : List PromiseId}

theorem setState_setState (c : Core) (d : ServiceId) (st st' : ServiceState) :
    (c.setState d st).setState d st' = c.setState d st' := by
  unfold Core.setState
  rw [Function.update_idem]

theorem setState_self (c : Core) (d : ServiceId) (st : ServiceState) (h : c.state d = st) :
    c.setState d st = c := by
  unfold Core.setState
  rw [← h, Function.update_eq_self]

variable {d : ServiceId} {s : DependencyManager}

theorem get?_setState {m : LifecycleManager} (h : s.services.get? d = some m) (st : ServiceState) :
    (s.setState d st).services.get? d = some { m with state := st } := by
  unfold DependencyManager.setState DependencyManager.modifyService
  rw [Table.get?_modify, if_pos rfl, h]
  rfl

theorem internalStart_cases (s : DependencyManager) (u : UserCode) (d : ServiceId)
    (m : LifecycleManager) (deps : Option DependencyRegister) (current : List Event) (phase : Phase)
    (taken : List PromiseId) (h : s.services.get? d = some m) :
    ((s.internalStart u d m deps = (s, some .done)) ∧
      (m.state = .installed → ∃ reg, deps = some reg ∧ reg.allSatisfied = false)) ∨
    (m.state = .installed ∧ (∀ reg, deps = some reg → reg.allSatisfied = true) ∧
      ((∃ s', s.internalStart u d m deps = (s', some .done) ∧ s'.stateOf d = .injecting ∧
          view s' current phase taken = ((view s current phase taken).setState d .injecting).record
              [.start d ((view s current phase taken).registry d).allSatisfied]) ∨
        (∃ s', s.internalStart u d m deps = (s', some .stopped) ∧ s'.stateOf d = .installed ∧
          view s' current phase taken = (view s current phase taken).record
              [.start d ((view s current phase taken).registry d).allSatisfied]) ∨
        ∃ s', s.internalStart u d m deps = (s', none) ∧ s'.nextPromiseId = s.nextPromiseId ∧
          view s' current phase taken = ((view s current phase taken).setState d .starting).record
              [.start d ((view s current phase taken).registry d).allSatisfied])) := by
  rw [view_registry s current phase taken h]
  unfold internalStart
  by_cases hst : m.state = .installed
  · by_cases hsat : ∀ reg, deps = some reg → reg.allSatisfied = true
    · right
      have hcond : (decide (m.state ≠ .installed) ||
          deps.any fun reg => !reg.allSatisfied) = false := by
        cases deps with
        | none => simp [hst]
        | some reg => simp [hst, hsat reg rfl]
      refine ⟨hst, hsat, ?_⟩
      rw [hcond]
      simp only [Bool.false_eq_true, if_false]
      have h1 : ((s.setState d .starting).call (.start d m.registry.allSatisfied)).services.get? d =
          some { m with state := .starting } := get?_setState h .starting
      have hv1 : view ((s.setState d .starting).call (.start d m.registry.allSatisfied)) current phase taken =
          ((view s current phase taken).setState d .starting).record [.start d m.registry.allSatisfied] := by
        rw [view_call, view_setState s current phase taken h]
      split
      · left
        refine ⟨_, rfl, ?_, ?_⟩
        · exact Services.view_some _ _ _ _ (get?_setState h1 _)
        · rw [view_setState _ current phase taken h1, hv1]
          exact congrArg (Core.record · [.start d m.registry.allSatisfied]) (setState_setState _ d _ _)
      · right; left
        refine ⟨_, rfl, ?_, ?_⟩
        · exact Services.view_some _ _ _ _ (get?_setState h1 _)
        · rw [view_setState _ current phase taken h1, hv1]
          refine (congrArg (Core.record · [.start d m.registry.allSatisfied])
            (setState_setState _ d _ _)).trans ?_
          rw [setState_self _ d .installed]
          rw [view_state s current phase taken h, hst]
      · right; right
        exact ⟨_, rfl, rfl, hv1⟩
    · left
      obtain ⟨reg, hsat⟩ := not_forall.mp hsat
      obtain ⟨hreg, hno⟩ := Classical.not_imp.mp hsat
      have hno' : reg.allSatisfied = false := Bool.eq_false_iff.mpr hno
      refine ⟨?_, fun _ => ⟨reg, hreg, hno'⟩⟩
      simp [hreg, hno']
  · left
    refine ⟨?_, fun hst' => absurd hst' hst⟩
    simp [hst]

theorem stateOf_setState_of_ne (s : DependencyManager) {x : ServiceId} (st : ServiceState)
    (hx : x ≠ d) : (s.setState d st).stateOf x = s.stateOf x :=
  Services.view_modify_ne _ _ _ _ _ _ hx

theorem stateOf_setState_ne_active (s : DependencyManager) (d : ServiceId) {st : ServiceState}
    (hst : st ≠ .active) : (s.setState d st).stateOf d ≠ .active := by
  cases hd : s.services.get? d with
  | none =>
    have hnone : (s.setState d st).services.get? d = none := by
      unfold DependencyManager.setState DependencyManager.modifyService
      rw [Table.get?_modify, if_pos rfl, hd]
      rfl
    have hun : (s.setState d st).stateOf d = .uninstalled := Services.view_none _ _ _ _ hnone
    simp [hun]
  | some m =>
    have hst' : (s.setState d st).stateOf d = st := Services.view_some _ _ _ _ (get?_setState hd st)
    rwa [hst']

theorem stateOf_internalStart (s : DependencyManager) (u : UserCode) (d : ServiceId)
    (m : LifecycleManager) (deps : Option DependencyRegister) :
    (∀ x, x ≠ d → (s.internalStart u d m deps).1.stateOf x = s.stateOf x) ∧
      (s.stateOf d ≠ .active → (s.internalStart u d m deps).1.stateOf d ≠ .active) := by
  unfold internalStart
  split
  · exact ⟨fun _ _ => rfl, id⟩
  · have hfirst : ∀ x, x ≠ d →
        ((s.setState d .starting).call (.start d m.registry.allSatisfied)).stateOf x =
          s.stateOf x := fun x hx =>
      stateOf_setState_of_ne s .starting hx
    dsimp only
    split
    · exact ⟨fun x hx => (stateOf_setState_of_ne _ _ hx).trans (hfirst x hx),
        fun _ => stateOf_setState_ne_active _ d (by decide)⟩
    · exact ⟨fun x hx => (stateOf_setState_of_ne _ _ hx).trans (hfirst x hx),
        fun _ => stateOf_setState_ne_active _ d (by decide)⟩
    · exact ⟨hfirst, fun _ => stateOf_setState_ne_active s d (by decide)⟩

theorem stateOf_startDependent (s : DependencyManager) (u : UserCode) (d : ServiceId)
    (priority : ℕ) : (∀ x, x ≠ d → (s.startDependent u d priority).stateOf x = s.stateOf x) ∧
      (s.stateOf d ≠ .active → (s.startDependent u d priority).stateOf d ≠ .active) := by
  unfold startDependent
  cases hd : s.services.get? d with
  | none => exact ⟨fun _ _ => rfl, id⟩
  | some m =>
    have hstart := stateOf_internalStart s.takePromiseId u d m none
    dsimp only
    unfold startAfterDependencyOnline
    generalize s.takePromiseId.internalStart u d m none = out at hstart ⊢
    obtain ⟨s', _ | ret⟩ := out
    · exact hstart
    · cases ret <;> exact hstart

theorem startable_view {m : LifecycleManager} (hm : s.services.get? d = some m)
    (hst : m.state = .installed) (hk : m.kind ≠ .internal)
    (hsat : m.kind = .dependency → m.registry.allSatisfied = true) :
    Startable (view s current .idle taken) d where
  idle := rfl
  installed := (view_state s current .idle taken hm).trans hst
  notInternal := by rwa [view_kind s current .idle taken hm]
  satisfied := by rwa [view_kind s current .idle taken hm, view_registry s current .idle taken hm]

theorem path_startDependent (h : Inv (view s current .idle taken))
    (u : UserCode) (d : ServiceId) (priority : ℕ) (m : LifecycleManager)
    (hm : s.services.get? d = some m) (hst : m.state = .installed) (hk : m.kind ≠ .internal)
    (hsat : m.kind = .dependency → m.registry.allSatisfied = true) :
    Path o (view s current .idle taken) (view (s.startDependent u d priority) current .idle taken) := by
  have hstart : Startable (view s current .idle taken) d := startable_view hm hst hk hsat
  unfold startDependent
  rw [hm]
  dsimp only
  unfold startAfterDependencyOnline
  obtain ⟨_, hno⟩ | ⟨_, _, ⟨s', hs', _, hv⟩ | ⟨s', hs', _, hv⟩ | ⟨s', hs', hn, hv⟩⟩ :=
    internalStart_cases s.takePromiseId u d m none current .idle taken hm
  · obtain ⟨reg, hreg, _⟩ := hno hst
    cases hreg
  · rw [hs']
    dsimp only
    rw [view_push, hv]
    exact .single (.start (.started d _ hstart ⟨rfl, rfl⟩))
  · rw [hs']
    dsimp only
    rw [hv]
    exact .single (.start (.failed d hstart))
  · rw [hs']
    dsimp only
    have hg := (congrFun (congrArg Core.generator hv) _).trans (get?_next (s := s) h)
    rw [view_scopeGenerator s'.takeEventId _ _ _ _ _ hg, view_takeEventId, hv]
    exact .single (.start (.suspended d _ hstart ⟨rfl, rfl, .inr ⟨rfl, rfl, rfl⟩⟩))

/-! ## StartServiceEvent -/

theorem path_thenQuit {c : Core} {phase : Phase} (d : ServiceId)
    (priority : ℕ) (h : Path o c (view s current phase taken)) :
    Path o c (view (if s.quitEventReceived then s.pushPrioritisedEvent d priority (.stopService d true)
      else s) current phase taken) := by
  split
  · rename_i hq
    refine h.tail (.queue ?_)
    rw [view_push]
    exact QueueStep.quitStop _ d hq (show IsStop d true _ from rfl)
  · exact h

theorem path_pushOnline {c : Core} {phase : Phase} (d : ServiceId)
    (priority : ℕ) (h : Path o c (view s current phase taken)) :
    Path o c (view (s.pushPrioritisedEvent d priority .dependencyOnline) current phase taken) := by
  rw [view_push]
  exact h.tail (.queue (.push _ trivial))

theorem path_startService (h : Inv (view s current .idle taken))
    (u : UserCode) (e : Event) (d : ServiceId) (m : LifecycleManager)
    (hm : s.services.get? d = some m) (hk : m.kind ≠ .internal) (hb : e.body = .startService d)
    (hidle : ¬(m.state = .active || m.state = .starting || m.state = .injecting) = true) :
    Path o (view s current .idle taken)
      (view (s.handleStartService u e d).manager current .idle taken) := by
  unfold handleStartService
  rw [hm]
  dsimp only
  rw [if_neg hidle]
  have htake : Path o (view s current .idle taken) (view s.takePromiseId current .idle taken) :=
    .single (.queue .takePromise)
  obtain ⟨deps, hdeps, hstart⟩ : ∃ deps, s.takePromiseId.start u d m =
      s.takePromiseId.internalStart u d m deps ∧
      (m.kind = .dependency → deps = some m.registry) := by
    unfold start
    cases hkind : m.kind with
    | dependency => exact ⟨_, rfl, fun _ => rfl⟩
    | plain => exact ⟨_, rfl, fun hd => by cases hd⟩
    | internal => exact absurd hkind hk
  rw [hdeps]
  obtain ⟨hs', _⟩ | ⟨hst, hsat, hrun⟩ :=
    internalStart_cases s.takePromiseId u d m deps current .idle taken hm
  · rw [hs']
    dsimp only
    split
    · exact htake
    · exact path_thenQuit d _ (path_pushOnline d _ htake)
  have hstartable : Startable (view s current .idle taken) d :=
    startable_view hm hst hk fun hd => hsat _ (hstart hd)
  obtain ⟨s', hs', hinj, hv⟩ | ⟨s', hs', hinst, hv⟩ | ⟨s', hs', _, hv⟩ := hrun
  · rw [hs']
    dsimp only
    rw [if_neg (by rw [hinj]; decide)]
    refine path_thenQuit d _ ?_
    rw [view_push, hv]
    exact .single (.start (.started d _ hstartable ⟨rfl, rfl⟩))
  · rw [hs']
    dsimp only
    rw [if_pos hinst]
    show Path o _ (view s' current .idle taken)
    rw [hv]
    exact .single (.start (.failed d hstartable))
  · rw [hs']
    dsimp only
    have hg := (congrFun (congrArg Core.generator hv) _).trans (get?_next (s := s) h)
    rw [view_scopeGenerator s' _ _ _ _ _ hg, hv]
    exact .single (.start (.suspended d _ hstartable ⟨rfl, rfl, .inl ⟨rfl, hb⟩⟩))

theorem path_handleStartService {e : Event}
    (h : Inv (view s [e] .idle [])) (u : UserCode) (ho : o.event = some e)
    (hb : e.body = .startService d) :
    Path o (view s [e] .idle []) (view (s.handleStartService u e d).manager [] .idle []) := by
  have hignore : Path o (view s [e] .idle []) (view s [] .idle []) := by
    refine .single (.queue (.ignore e s.queue rfl ho ?_ rfl))
    simp [Ignored, hb]
  have hinv : Inv (view s [] .idle []) := h.path hignore
  refine hignore.trans ?_
  cases hm : s.services.get? d with
  | none =>
    unfold handleStartService
    rw [hm]
    exact .refl
  | some m =>
  by_cases hrun : (m.state = .active || m.state = .starting || m.state = .injecting) = true
  · unfold handleStartService
    rw [hm]
    dsimp only
    rw [if_pos hrun]
    exact .refl
  by_cases hk : m.kind = .internal
  · have hrank : m.state = .installed ∨ m.state = .uninjecting := by
      have hi := hinv.links.internal d ((view_kind s [] .idle [] hm).trans hk)
      have hp := (hinv.links.inTable d).mp ⟨m, hm⟩
      rw [view_state s [] .idle [] hm] at hi hp
      cases hst : m.state <;> simp_all
    have hv : view (s.takePromiseId.setState d .active) [] .idle [] =
        (view s.takePromiseId [] .idle []).setState d .active :=
      view_setState s.takePromiseId [] .idle [] hm _
    have hstart : Path o (view s [] .idle []) (view (s.takePromiseId.setState d .active) [] .idle []) := by
      rw [hv]
      refine Relation.ReflTransGen.tail (.single (.queue .takePromise)) (.start (.internal d ?_ ?_ rfl))
      · exact (view_kind s [] .idle [] hm).trans hk
      · exact (view_state s [] .idle [] hm).symm ▸ hrank
    have hact : (s.takePromiseId.setState d .active).stateOf d = .active :=
      Services.view_some _ _ _ _ (get?_setState (s := s.takePromiseId) hm .active)
    unfold handleStartService start
    rw [hm]
    dsimp only
    rw [if_neg hrun, hk]
    dsimp only
    rw [if_neg (by rw [hact]; decide)]
    exact path_thenQuit d _ (path_pushOnline d _ hstart)
  · exact path_startService hinv u e d m hm hk hb hrun

end

end Ichor.Lifecycle
