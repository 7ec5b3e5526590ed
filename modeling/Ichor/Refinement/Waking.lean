import Ichor.Refinement.Offline

/-! Waking the coroutines that wait for a service: `finishWaitingService`, whose
first round sets every waiter and whose second finds none. -/
namespace Ichor.Lifecycle
open DependencyManager List Function

section
variable {o : Origin} {s s' : DependencyManager} {current : List Event} {phase : Phase}
  {id : ServiceId} {type : EventType}

/-- What waking coroutines leaves alone. -/
structure WakeFrame (c c' : Core) : Prop where
  state : c'.state = c.state
  kind : c'.kind = c.kind
  dep : c'.dep = c.dep
  pending : c'.pending = c.pending
  coroutine : ∀ d, c'.HasCoroutine d ↔ c.HasCoroutine d
  dee : c'.dee = c.dee

theorem WakeFrame.refl (c : Core) : WakeFrame c c := ⟨rfl, rfl, rfl, rfl, fun _ => Iff.rfl, rfl⟩

variable {c c' : Core}

theorem WakeFrame.trans {c'' : Core} (h : WakeFrame c c') (h' : WakeFrame c' c'') :
    WakeFrame c c'' where
  state := h'.state.trans h.state
  kind := h'.kind.trans h.kind
  dep := h'.dep.trans h.dep
  pending := h'.pending.trans h.pending
  coroutine d := (h'.coroutine d).trans (h.coroutine d)
  dee := h'.dee.trans h.dee

theorem WakeFrame.dependee (h : WakeFrame c c') (d : ServiceId) :
    c'.HasDependee d ↔ c.HasDependee d := by
  unfold Core.HasDependee
  rw [h.dee]

theorem WakeFrame.of_view (current : List Event) (phase : Phase) (taken taken' : List PromiseId)
    (h : WakeFrame (view s current phase taken) (view s' current phase taken')) :
    WakeFrame (core s) (core s') := { h with }

theorem hasCoroutine_update {q : PromiseId} {g : ScopedGenerator}
    (g' : ScopedGenerator) (hg : c.generator q = some g)
    (hsvc : g'.generator.serviceId = g.generator.serviceId)
    (hc' : c'.generator = update c.generator q (some g')) (d : ServiceId) :
    c'.HasCoroutine d ↔ c.HasCoroutine d := by
  unfold Core.HasCoroutine
  rw [hc']
  constructor
  · rintro ⟨x, gx, hgx, hd⟩
    by_cases hx : x = q
    · rw [hx, update_self] at hgx
      cases hgx
      exact ⟨q, g, hg, hsvc ▸ hd⟩
    · rw [update_of_ne hx] at hgx
      exact ⟨x, gx, hgx, hd⟩
  · rintro ⟨x, gx, hgx, hd⟩
    by_cases hx : x = q
    · subst hx
      rw [hg] at hgx
      cases hgx
      exact ⟨x, g', update_self .., hsvc.trans hd⟩
    · exact ⟨x, gx, (update_of_ne hx _ _).trans hgx, hd⟩

/-- Setting one waiter is a path that registers nobody for the same event again. -/
def Resumes (o : Origin) (current : List Event) (phase : Phase) (id : ServiceId)
    (type : EventType) : Prop :=
  ∀ s s' q taken, Inv (view s current phase (q :: taken)) → setWaiter s q = some s' →
    Path o (view s current phase (q :: taken)) (view s' current phase taken) ∧
      (core s').waitingFor id type = (core s).waitingFor id type ∧ WakeFrame (core s) (core s')

theorem path_setWaiters (hr : Resumes o current phase id type) (evts : List PromiseId)
    (h : Inv (view s current phase evts)) (hs : evts.foldlM setWaiter s = some s') :
    Path o (view s current phase evts) (view s' current phase []) ∧
      (core s').waitingFor id type = (core s).waitingFor id type ∧
      WakeFrame (core s) (core s') := by
  induction evts generalizing s with
  | nil =>
    cases hs
    exact ⟨.refl, rfl, .refl _⟩
  | cons q rest ih =>
    rw [foldlM_cons] at hs
    obtain ⟨s1, hs1, hrest⟩ := Option.bind_eq_some_iff.mp hs
    obtain ⟨hpath, hsame, hframe⟩ := hr s s1 q rest h hs1
    obtain ⟨hpath', hsame', hframe'⟩ := ih (h.path hpath) hrest
    exact ⟨hpath.trans hpath', hsame'.trans hsame, hframe.trans hframe'⟩

theorem waitingFor_takeWaiters (s : DependencyManager) (id : ServiceId) (type : EventType) :
    (core (s.takeWaiters id type)).waitingFor id type = [] := by
  have hv := view_takeWaiters s [] .idle [] id type
  have hw : (core (s.takeWaiters id type)).waiters id =
      ((core s).waiters id).filter fun w => decide (w.1 ≠ type) :=
    (congrFun (congrArg Core.waiters hv) id).trans (update_self ..)
  unfold Core.waitingFor
  rw [hw, filter_filter]
  simp

theorem wake_of_nil (h : c.waitingFor id type = []) (ht : c.taken = []) : c.wake id type = c := by
  have hnone : (c.waiters id).filter (fun w => decide (w.1 = type)) = [] := map_eq_nil_iff.mp h
  have hall : (c.waiters id).filter (fun w => decide (w.1 ≠ type)) = c.waiters id := by
    refine filter_eq_self.mpr fun w hw => decide_eq_true fun he => ?_
    have hmem : w ∈ (c.waiters id).filter fun w => decide (w.1 = type) :=
      mem_filter.mpr ⟨hw, decide_eq_true he⟩
    rw [hnone] at hmem
    cases hmem
  unfold Core.wake
  rw [hall, h, update_eq_self, ← ht]

theorem path_finishWaitingRounds (hr : Resumes o current phase id type) (n : ℕ)
    (h : Inv (((view s current .idle []).wake id type).setPhase phase))
    (hs : finishWaitingRounds id type (n + 2) s = some s') :
    Path o (((view s current .idle []).wake id type).setPhase phase) (view s' current phase []) ∧
      (core s').waitingFor id type = [] ∧ WakeFrame (core s) (core s') := by
  unfold finishWaitingRounds at hs
  dsimp only at hs
  split at hs
  · rename_i hnil
    cases hs
    have hnone : (view s current .idle []).waitingFor id type = [] := isEmpty_iff.mp hnil
    rw [wake_of_nil hnone rfl]
    exact ⟨.refl, hnone, .refl _⟩
  · obtain ⟨s1, hs1, hrest⟩ := Option.bind_eq_some_iff.mp hs
    have hv := view_takeWaiters s current .idle [] id type
    have hstart : view (s.takeWaiters id type) current phase
        ((view s current .idle []).waitingFor id type) =
          ((view s current .idle []).wake id type).setPhase phase :=
      congrArg (Core.setPhase · phase) hv
    obtain ⟨hpath, hsame, hframe⟩ := path_setWaiters hr ((view s current .idle []).waitingFor id type)
      (hstart.symm ▸ h) hs1
    rw [hstart] at hpath
    have hnone : (core s1).waitingFor id type = [] := hsame.trans (waitingFor_takeWaiters s id type)
    unfold finishWaitingRounds at hrest
    dsimp only at hrest
    have hempty : (((s1.waitersOf id).filter fun w => decide (w.1 = type)).map Prod.snd).isEmpty =
        true := isEmpty_iff.mpr hnone
    rw [if_pos hempty] at hrest
    cases hrest
    have htake : WakeFrame (core s) (core (s.takeWaiters id type)) :=
      ⟨rfl, rfl, rfl, rfl, fun _ => Iff.rfl, rfl⟩
    exact ⟨hpath, hnone, htake.trans hframe⟩

theorem woken_of_not_entry (h : ¬c.entry id) : c.woken id = c := by
  have hentry : (fun x => c.entry x ∧ (x = id → c.waiters id ≠ [])) = c.entry := by
    funext x
    refine propext ⟨And.left, fun hx => ⟨hx, fun he => absurd (he ▸ hx) h⟩⟩
  unfold Core.woken
  rw [hentry]

theorem path_finishWaitingService (hr : Resumes o current phase id type)
    (h : Inv (((view s current .idle []).wake id type).setPhase phase))
    (hs : s.finishWaitingService id type = some s') :
    ∃ s1, Path o (((view s current .idle []).wake id type).setPhase phase)
        (view s1 current phase []) ∧
      (∀ phase' taken', view s' current phase' taken' = (view s1 current phase' taken').woken id) ∧
      (core s').waitingFor id type = [] ∧ WakeFrame (core s) (core s') := by
  unfold finishWaitingService at hs
  cases hget : s.dependencyWaiters.get? id with
  | none =>
    rw [hget] at hs
    cases hs
    have hnone : (view s current .idle []).waitingFor id type = [] := by
      simp [Core.waitingFor, view, Waiters.of, hget]
    refine ⟨s, by rw [wake_of_nil hnone rfl]; exact .refl, fun phase' taken' => ?_, hnone, .refl _⟩
    refine (woken_of_not_entry ?_).symm
    rintro ⟨w, hw⟩
    rw [hget] at hw
    cases hw
  | some w =>
    rw [hget] at hs
    obtain ⟨s1, hs1, rfl⟩ := Option.map_eq_some_iff.mp hs
    obtain ⟨hpath, hnone, hframe⟩ := path_finishWaitingRounds hr _ h hs1
    have hdrop := view_dropEmpty s1 [] .idle [] id
    refine ⟨s1, hpath, fun phase' taken' => view_dropEmpty s1 current phase' taken' id, ?_, ?_⟩
    · exact (congrArg (Core.waitingFor · id type) hdrop).trans hnone
    · refine hframe.trans (WakeFrame.of_view [] .idle [] [] ?_)
      rw [hdrop]
      exact ⟨rfl, rfl, rfl, rfl, fun _ => Iff.rfl, rfl⟩

/-! ## Who is woken -/

theorem waitingFor_of_waiters (h : c'.waiters id = c.waiters id) :
    c'.waitingFor id type = c.waitingFor id type := by
  unfold Core.waitingFor
  rw [h]

theorem waitingFor_wait (c : Core) (id : ServiceId) (type type' : EventType) (q : PromiseId)
    (hne : type' ≠ type) : (c.wait id type' q).waitingFor id type = c.waitingFor id type := by
  unfold Core.waitingFor Core.wait
  dsimp only
  rw [update_self, filter_append]
  simp [hne]

theorem resumes_online (o : Origin) (current : List Event) (p : ServiceId) :
    Resumes o current (.online p) p .dependencyOnline := by
  intro s s' q taken h hs
  obtain ⟨g, x, point, hg, hsus, hco, hp, htype⟩ := h.waiting.takenSound q mem_cons_self
  subst hp
  have hact : (s.call (.resumed q)).stateOf g.generator.serviceId = .active := h.phase
  have hg' : (s.call (.resumed q)).scopedGenerators.get? q = some g := hg
  cases point with
  | awaitOffline wasActive rest ret => simp [waitType] at htype
  | awaitOnline rest interested ret =>
    have hi : interested ≠ .foundAndStopMe := by
      have hfit := h.coroutines.fits q g hg
      rw [hsus, hco] at hfit
      cases hfit with
      | starting _ hl => exact hl.elim
      | awaitOnline _ _ _ _ _ hi => exact hi
    unfold setWaiter at hs
    dsimp only at hs
    rw [hg'] at hs
    dsimp only at hs
    rw [hco] at hs
    dsimp only at hs
    unfold resumeOffline at hs
    dsimp only at hs
    rw [if_neg (not_not_intro hact)] at hs
    obtain ⟨s1, wasActive, events, hstop, hw, hv⟩ | ⟨_, hun, _⟩ :=
      offlineStop_gone (s := s.call (.resumed q)) (d := g.generator.serviceId) (q := q) current
        (.online g.generator.serviceId) taken ret interested rest hi (.inl hact)
    · rw [hstop] at hs
      cases hs
      have hg1 : s1.scopedGenerators.get? q = some g :=
        (congrFun (congrArg Core.generator hv) q).trans hg
      have hview := view_modifyGenerator s1 current (.online g.generator.serviceId) taken q g hg1
        (fun g => { g with coroutine := .dependencyOffline x (.awaitOffline wasActive rest ret) })
      rw [hv] at hview
      refine ⟨?_, ?_, ?_⟩
      · rw [hview]
        exact .single (.online (.resume g.generator.serviceId x q taken g rest interested ret
          (.awaitOffline wasActive rest ret) events rfl rfl hg rfl hco (hw.transfer rfl rfl) rfl))
      · have hwait := congrFun (congrArg Core.waiters hview) g.generator.serviceId
        refine Eq.trans (waitingFor_of_waiters hwait) ?_
        exact waitingFor_wait (core s) _ _ _ q (by decide)
      · refine WakeFrame.of_view current (.online g.generator.serviceId) (q :: taken) taken ?_
        rw [hview]
        exact ⟨rfl, rfl, rfl, rfl, fun d => hasCoroutine_update
          (resumedAt g x (.awaitOffline wasActive rest ret)) hg rfl rfl d, rfl⟩
    · exact absurd (hact.symm.trans hun) (by decide)

theorem takenOut_record (c : Core) (d p : ServiceId) (rs : List ℕ) (call : Call) :
    takenOut (c.record [call]) d p rs =
      (c.setRegistry d (lower rs (c.registry d))).record (takeOutCalls d p rs ++ [call]) := by
  unfold takenOut Core.record
  rw [append_assoc]
  rfl

/-- The phases in which `p` has lost its last dependee. -/
def Phase.Deserted (p : ServiceId) (phase : Phase) : Prop :=
  (∃ remove, phase = .offlineWake p remove) ∨ phase = .stopWake p

theorem resumes_offline (o : Origin) (current : List Event) (p : ServiceId) (phase : Phase)
    (hphase : phase.Deserted p) : Resumes o current phase p .dependencyOffline := by
  intro s s' q taken h hs
  obtain ⟨g, x, point, hg, hsus, hco, hwakes⟩ := h.waiting.takenSound q mem_cons_self
  obtain ⟨hp, htype⟩ : p = g.generator.serviceId ∧ waitType point = .dependencyOffline := by
    rcases hphase with ⟨remove, rfl⟩ | rfl
    · exact hwakes
    · exact hwakes
  obtain ⟨hun, hdees⟩ : s.stateOf p = .uninjecting ∧ ∀ y, y ∉ s.dependeesOf p := by
    rcases hphase with ⟨remove, rfl⟩ | rfl
    · exact h.phase
    · exact h.phase
  subst hp
  have hg' : (s.call (.resumed q)).scopedGenerators.get? q = some g := hg
  cases point with
  | awaitOnline rest interested ret => simp [waitType] at htype
  | awaitOffline wasActive rest ret =>
    have hempty : (s.call (.resumed q)).dependeesOf g.generator.serviceId = [] :=
      eq_nil_iff_forall_not_mem.mpr hdees
    have hun' : (s.call (.resumed q)).stateOf g.generator.serviceId = .uninjecting := hun
    unfold setWaiter at hs
    dsimp only at hs
    rw [hg'] at hs
    dsimp only at hs
    rw [hco] at hs
    dsimp only at hs
    unfold resumeOffline at hs
    dsimp only at hs
    rw [hempty, if_neg (by simp), if_pos hun'] at hs
    cases hloop : offlineLoop g.generator.serviceId x q rest .foundAndStopMe .stopMe
        (s.call (.resumed q)) with
    | none => simp [hloop] at hs
    | some out =>
      obtain ⟨s1, res⟩ := out
      obtain ⟨hres, hlow, hv⟩ := offlineLoop_stopMe current phase taken rest hun' hloop
      subst hres
      rw [hloop] at hs
      cases hs
      have hg1 : s1.scopedGenerators.get? q = some g :=
        (congrFun (congrArg Core.generator hv) q).trans hg
      have hview := view_modifyGenerator s1 current phase taken q g hg1
        (fun g => { g with state := .finished .stopMe })
      rw [hv] at hview
      refine ⟨?_, ?_, ?_⟩
      · rw [view_push, hview, view_call, takenOut_record]
        exact .single (.offline (.resume g.generator.serviceId x q taken g wasActive rest ret _
          hphase rfl hg rfl hco hlow rfl))
      · exact waitingFor_of_waiters (congrFun (congrArg Core.waiters hview) _)
      · refine WakeFrame.of_view current phase (q :: taken) taken ?_
        rw [view_push, hview]
        exact ⟨rfl, rfl, rfl, rfl, fun d => hasCoroutine_update
          (finished g (.finished .stopMe)) hg rfl rfl d, rfl⟩

end

end Ichor.Lifecycle
