import Ichor.Refinement.Events

/-! Stopping services: what follows a completed `stop()`, the removal of a service
from the table, and the StopServiceEvent with its early exits. -/
namespace Ichor.Lifecycle
open FiniteTable DependencyManager List Function Option

section
variable {o : Origin} {s s' : DependencyManager} {current : List Event} {d : ServiceId}
  {remove : Bool}

/-! ## The providers that waited for the stop -/

theorem setPending_self (c : Core) (d : ServiceId) : c.setPending d (c.pending d) = c := by
  unfold Core.setPending
  rw [update_eq_self]

theorem release_eq (c : Core) (d p : ServiceId) (l left : List WaitingStopService)
    (calls : List Call) (stops : List Event) :
    ((((c.unlink d p).record calls).push stops).setPending d left) =
      ((((c.setPending d l).unlink d p).record calls).setPending d left).push stops := by
  unfold Core.setPending Core.record Core.unlink Core.push
  dsimp only
  rw [update_idem]

/-- One provider gets its remove call, and its own stop once nobody depends on it. The
entries not yet released stand in the place of the whole list. -/
theorem path_finishPendingStop (e : Event) (w : WaitingStopService) (left : List WaitingStopService)
    (h : Inv ((view s current (.finishing d remove) []).setPending d (w :: left)))
    (hs : finishPendingStop e d s w = some s') :
    Path o ((view s current (.finishing d remove) []).setPending d (w :: left))
      ((view s' current (.finishing d remove) []).setPending d left) := by
  have hpend : ((view s current (.finishing d remove) []).setPending d (w :: left)).pending d =
      w :: left := update_self ..
  have hinst : s.stateOf d = .installed := h.phase.1
  obtain ⟨m, hm⟩ : ∃ m, s.services.get? d = some m :=
    (h.links.inTable d).mpr (show s.stateOf d ≠ .uninstalled by simp [hinst])
  unfold finishPendingStop at hs
  cases hp : s.services.get? w.originatingServiceId with
  | none => simp [hp] at hs
  | some mp =>
    rw [hp] at hs
    cases hs
    have hdeps : w.deps ≠ [] := h.leaving.deps d w (by rw [hpend]; exact mem_cons_self)
    have hv := view_finishDependencyOffline current (.finishing d remove) [] w.deps hdeps hm hp
    have hpres : s.stateOf w.originatingServiceId ≠ .uninstalled :=
      (h.links.inTable w.originatingServiceId).mp ⟨mp, hp⟩
    obtain ⟨stops, hstops, hview⟩ := view_pushIf
      (s.finishDependencyOffline d w.originatingServiceId w.deps) current (.finishing d remove) []
      ((s.finishDependencyOffline d w.originatingServiceId w.deps).dependeesOf
        w.originatingServiceId).isEmpty d (min internalCoroutineEventPriority e.priority)
      (.stopService w.originatingServiceId w.removeAfter)
    have hcond : Queues (¬(((view s current (.finishing d remove) []).setPending d
          (w :: left)).unlink d w.originatingServiceId).HasDependee w.originatingServiceId)
        (IsStop w.originatingServiceId w.removeAfter) stops := by
      refine hstops.imp ?_ fun _ he => he.1
      rw [← not_hasDependee_iff _ current (.finishing d remove) [], hv]
      exact Iff.rfl
    have hstep := StopStep.pending (o := o) d remove w left stops rfl hpend hpres hcond
    rw [hview, hv]
    refine .single (.stop ?_)
    rw [release_eq _ d w.originatingServiceId (w :: left) left]
    exact hstep

theorem path_finishPendingStops (e : Event) (l : List WaitingStopService)
    (h : Inv ((view s current (.finishing d remove) []).setPending d l))
    (hs : l.foldlM (finishPendingStop e d) s = some s') :
    Path o ((view s current (.finishing d remove) []).setPending d l)
      ((view s' current (.finishing d remove) []).setPending d []) := by
  induction l generalizing s with
  | nil =>
    cases hs
    exact .refl
  | cons w left ih =>
    rw [foldlM_cons] at hs
    obtain ⟨s1, hs1, hrest⟩ := bind_eq_some_iff.mp hs
    have hpath := path_finishPendingStop e w left h hs1 (o := o)
    exact hpath.trans (ih (h.path hpath) hrest)

/-! ## The links that are left -/

theorem view_forget (l : List ServiceId) (phase : Phase) (taken : List PromiseId) :
    view (l.foldl (fun s p => s.modifyService p fun m =>
        { m with serviceIdsOfDependees := eraseId d m.serviceIdsOfDependees }) s)
      current phase taken =
      (view s current phase taken).setDee fun x y =>
        (view s current phase taken).dee x y ∧ ¬(y = d ∧ x ∈ l) := by
  induction l generalizing s with
  | nil =>
    have hsame : (fun x y => (view s current phase taken).dee x y ∧ ¬(y = d ∧ x ∈ ([] : List _))) =
        (view s current phase taken).dee := by
      funext x y
      simp
    rw [hsame]
    rfl
  | cons p rest ih =>
    rw [foldl_cons, ih]
    cases hp : s.services.get? p with
    | none =>
      have hno : ∀ y, ¬(view s current phase taken).dee p y := by
        intro y hy
        have hnil : s.dependeesOf p = [] := Services.view_none _ _ _ _ hp
        change y ∈ s.dependeesOf p at hy
        rw [hnil] at hy
        cases hy
      rw [modifyService_of_none s hp]
      refine congrArg (Core.setDee _) ?_
      funext x y
      refine propext (and_congr_right fun hdee => not_congr (and_congr_right fun _ => ?_))
      rw [mem_cons]
      exact ⟨.inr, fun h => h.resolve_left fun hx => hno y (hx ▸ hdee)⟩
    | some mp =>
      rw [view_eraseDependee s current phase taken hp d]
      refine congrArg (Core.setDee (view s current phase taken)) ?_
      funext x y
      refine propext ?_
      show ((view s current phase taken).dee x y ∧ ¬(x = p ∧ y = d)) ∧ ¬(y = d ∧ x ∈ rest) ↔ _
      rw [mem_cons]
      tauto

variable {m : LifecycleManager} {e : Event} {out : Handled}

theorem get?_forget (l : List ServiceId) (x : ServiceId) (h : s.services.get? x = some m) :
    ∃ m', (l.foldl (fun s p => s.modifyService p fun m =>
      { m with serviceIdsOfDependees := eraseId d m.serviceIdsOfDependees }) s).services.get? x =
        some m' := by
  refine foldlRecOn (motive := fun t : DependencyManager => ∃ m', t.services.get? x = some m')
    l _ ⟨m, h⟩ ?_
  rintro t ⟨_, ht⟩ p -
  exact ⟨_, get?_modifyService t ht _ p⟩

theorem view_dropDependencies (hd : s.services.get? d = some m)
    (phase : Phase) (taken : List PromiseId) :
    view (s.modifyService d fun m => { m with serviceIdsOfInjectedDependencies := [] })
      current phase taken =
      (view s current phase taken).setDep fun x y => (view s current phase taken).dep x y ∧ x ≠ d := by
  rw [view_modifyService _ _ _ _ hd rfl rfl]
  dsimp only
  rw [stateOf_unchanged s hd, registryOf_unchanged s hd, goingAwayOf_unchanged s hd,
    dependeesOf_unchanged s hd]
  unfold view Core.setDep
  congr 1
  funext x y
  refine propext ?_
  by_cases hx : x = d
  · subst hx
    rw [update_self]
    simp
  · rw [update_of_ne hx]
    exact ⟨fun h => ⟨h, hx⟩, And.left⟩

theorem view_clearDependencies (hd : s.services.get? d = some m)
    (phase : Phase) (taken : List PromiseId) :
    view (s.clearDependencies d) current phase taken = (view s current phase taken).clear d := by
  unfold clearDependencies
  obtain ⟨m', hm'⟩ := get?_forget (d := d) (s.dependenciesOf d) d hd
  rw [view_dropDependencies hm', view_forget]
  rfl

/-! ## Leaving the table -/

theorem path_removeInternalService (u : UserCode) (h : Inv (view s current (.removing d) []))
    (hs : s.removeInternalService u d = some s') :
    Path o (view s current (.removing d) []) (view s' current .idle []) := by
  obtain ⟨m, s1, hm, ⟨hdees, hdeps⟩, _, hkeep, rfl⟩ := removeInternalService_cases hs
  have hserv := hkeep.services
  have hm1 : s1.services.get? d = some m := by rw [hserv, hm]
  have hpath : Path o (view s current (.removing d) []) (view s1 current (.removing d) []) :=
    path_housekeeping hkeep h
  have hinv := h.path hpath
  refine hpath.tail (.stop ?_)
  have hv := view_uninstall { s1 with
    dependencyRequestTrackers := s1.dependencyRequestTrackers.mapFilter
      (fun infos => infos.filter fun info => decide (info ≠ d)) fun infos => !infos.isEmpty
    trace := .erased d :: s1.trace } current .idle [] d
  have hstep := StopStep.remove (o := o) (c := view s1 current (.removing d) []) d rfl hinv.phase
    (fun hd => (view_hasDependee s1 current (.removing d) [] hm1).mp hd hdees) (fun p hp => by
      have hmem := (view_dep s1 current (.removing d) [] hm1).mp hp
      rw [hdeps] at hmem
      cases hmem)
  exact hv.symm ▸ hstep

/-- The released entries leave the table of deferred stops. -/
def forgetPending (s : DependencyManager) (d : ServiceId) : DependencyManager :=
  { s with pendingStopsDueToDependencies := s.pendingStopsDueToDependencies.erase d }

theorem path_finishStop (u : UserCode) (e : Event)
    (h : Inv (view s current (.finishing d remove) [])) (hs : s.finishStop u e d remove = some s') :
    Path o (view s current (.finishing d remove) []) (view s' current .idle []) := by
  unfold finishStop at hs
  obtain ⟨s1, hs1, hrest⟩ := bind_eq_some_iff.mp hs
  have hself := setPending_self (view s current (.finishing d remove) []) d
  have hstart : (view s current (.finishing d remove) []).setPending d
      ((s.pendingStopsDueToDependencies.get? d).getD []) =
        view s current (.finishing d remove) [] := hself
  have hrel := path_finishPendingStops e _ (hstart.symm ▸ h) hs1 (o := o)
  rw [hstart] at hrel
  have hinv := h.path hrel
  have hinst : s1.stateOf d = .installed := hinv.phase.1
  obtain ⟨m, hm⟩ : ∃ m, s1.services.get? d = some m :=
    (hinv.links.inTable d).mpr (show s1.stateOf d ≠ .uninstalled by simp [hinst])
  have hm' : (forgetPending s1 d).services.get? d = some m := hm
  have hclear : ∀ phase, view ((forgetPending s1 d).clearDependencies d) current phase [] =
      ((view s1 current phase []).setPending d []).clear d := by
    intro phase
    rw [view_clearDependencies hm', ← view_erasePending]
    rfl
  have hstep : Path o (view s current (.finishing d remove) [])
      ((((view s1 current (.finishing d remove) []).setPending d []).clear d).setPhase
        (if remove then .removing d else .idle)) :=
    hrel.tail (.stop (.clear d remove rfl (update_self ..)))
  have hquiet := same_clearServiceRegistrations ((forgetPending s1 d).clearDependencies d) d
  have hpath : ∀ phase, Path o (((view s1 current phase []).setPending d []).clear d)
      (view (((forgetPending s1 d).clearDependencies d).clearServiceRegistrations d) current phase
        []) := by
    intro phase
    rw [← hclear]
    exact path_same hquiet
  cases remove with
  | false =>
    cases hrest
    exact hstep.trans (hpath .idle)
  | true =>
    have hall := hstep.trans (hpath (.removing d))
    exact hall.trans (path_removeInternalService u (h.path hall) hrest)

/-! ## StopServiceEvent -/

theorem ignored_stop (hb : e.body = .stopService d remove)
    (h : s.stateOf d = .uninstalled ∨ s.stateOf d = .installed ∨ s.stateOf d = .stopping ∨
      (s.stateOf d = .uninjecting ∧ (view s [e] .idle []).HasDependee d) ∨
      (s.stateOf d ≠ .uninjecting ∧ (view s [e] .idle []).entry d)) :
    Ignored (view s [e] .idle []) e := by
  unfold Ignored
  rw [hb]
  exact h

theorem path_callStop (u : UserCode)
    (h : Inv (view s [e] .idle [])) (hat : AtStop o (view s [e] .idle []) e s.queue d remove)
    (hg : ¬(view s [e] .idle []).HasCoroutine d) (hm : s.services.get? d = some m)
    (hst : m.state = .uninjecting) (hd : m.serviceIdsOfDependees = [])
    (hs : s.carryOutStop u e d remove = some out) :
    Path o (view s [e] .idle []) (view out.manager [] .idle []) := by
  have hstate : (view s [e] .idle []).state d = .uninjecting :=
    (view_state s [e] .idle [] hm).trans hst
  have hdee : ¬(view s [e] .idle []).HasDependee d := fun hx =>
    (view_hasDependee s [e] .idle [] hm).mp hx hd
  have hkind := view_kind s [e] .idle [] hm
  have hm1 : s.takePromiseId.services.get? d = some m := hm
  unfold carryOutStop at hs
  rw [hm] at hs
  dsimp only at hs
  rw [if_pos (by simp [hd, hst])] at hs
  by_cases hk : m.kind = .internal
  · have hstop : s.takePromiseId.stop u d m =
        some (s.takePromiseId.setState d .installed, some .done) := by
      unfold DependencyManager.stop
      rw [hk]
    rw [hstop] at hs
    obtain ⟨s2, hs2, rfl⟩ := map_eq_some_iff.mp hs
    have hv := view_setState s.takePromiseId [] (.finishing d remove) [] hm1 .installed
    have hstep : Path o (view s [e] .idle [])
        (view (s.takePromiseId.setState d .installed) [] (.finishing d remove) []) := by
      rw [hv]
      exact .single (.stop (.internal e s.queue d remove hat hg (hkind.trans hk) hstate hdee))
    exact hstep.trans (path_finishStop u e (h.path hstep) hs2)
  · have hk' : (view s [e] .idle []).kind d ≠ .internal := by rwa [hkind]
    have hcalled : ((s.takePromiseId.setState d .stopping).call (.stop d true)).services.get? d =
        some { m with state := .stopping } := get?_setState (s := s.takePromiseId) hm .stopping
    have hstop : s.takePromiseId.stop u d m =
        if u.stop ((s.takePromiseId.setState d .stopping).call (.stop d true)).trace.length then
          some ((s.takePromiseId.setState d .stopping).call (.stop d true), none)
        else some ((((s.takePromiseId.setState d .stopping).call (.stop d true)).setState d
          .installed).call (.stopped d), some .done) := by
      unfold DependencyManager.stop
      cases hkind' : m.kind with
      | internal => exact absurd hkind' hk
      | dependency => simp [hst, hd]
      | plain => simp [hst, hd]
    by_cases hsus : u.stop ((s.takePromiseId.setState d .stopping).call (.stop d true)).trace.length = true
    · rw [hstop, if_pos hsus] at hs
      cases hs
      have hnone : ((s.takePromiseId.setState d .stopping).call
          (.stop d true)).scopedGenerators.get? s.nextPromiseId = none := get?_next h
      have hv := view_setState s.takePromiseId [] .idle [] hm1 .stopping
      dsimp only
      rw [view_scopeGenerator _ _ _ _ _ _ hnone, view_call, hv]
      exact .single (.stop (.suspended e s.queue d remove _ hat hg hk' hstate hdee rfl rfl rfl rfl))
    · rw [hstop, if_neg hsus] at hs
      obtain ⟨s2, hs2, rfl⟩ := map_eq_some_iff.mp hs
      have hv := view_setState s.takePromiseId [] (.finishing d remove) [] hm1 .stopping
      have hv2 := view_setState _ [] (.finishing d remove) [] hcalled .installed
      have hstep : Path o (view s [e] .idle [])
          (view ((((s.takePromiseId.setState d .stopping).call (.stop d true)).setState d
            .installed).call (.stopped d)) [] (.finishing d remove) []) := by
        rw [view_call, hv2, view_call, hv]
        have heq := setState_setState (view s.takePromiseId [] (.finishing d remove) []) d .stopping
          .installed
        have hsync := StopStep.sync e s.queue d remove hat hg hk' hstate hdee
        refine .single (.stop ?_)
        exact (congrArg (Core.record · [.stopped d, .stop d true]) heq) ▸ hsync
      exact hstep.trans (path_finishStop u e (h.path hstep) hs2)

theorem not_hasOfflineWaiter_of {c : Core} (h : c.waitingFor d .dependencyOffline = []) :
    ¬c.HasOfflineWaiter d := by
  rintro ⟨q, hq⟩
  have hmem : q ∈ c.waitingFor d .dependencyOffline :=
    mem_map.mpr ⟨_, mem_filter.mpr ⟨hq, decide_eq_true rfl⟩, rfl⟩
  rw [h] at hmem
  cases hmem

/-- The stop is put off until a coroutine of the service has ended. -/
def putOff (s : DependencyManager) (d : ServiceId) (w : WaitingStopService) : DependencyManager :=
  { s with pendingStopsDueToCoroutine := s.pendingStopsDueToCoroutine.emplace d w }

theorem path_carryOutStop (u : UserCode)
    (h : Inv (view s [e] .idle [])) (hat : AtStop o (view s [e] .idle []) e s.queue d remove)
    (hm : s.services.get? d = some m) (hidle : m.state ≠ .installed ∧ m.state ≠ .stopping)
    (hs : (if s.existingCoroutineFor d then
        some (putOff s d ⟨e.originatingService, e.priority, remove, []⟩).asHandled
      else s.carryOutStop u e d remove) = some out) :
    Path o (view s [e] .idle []) (view out.manager [] .idle []) := by
  have hstate := view_state s [e] .idle [] hm
  have hpres : m.state ≠ .uninstalled := hstate ▸ (h.links.inTable d).mp ⟨m, hm⟩
  have hco := view_hasCoroutine s [e] .idle [] d
  by_cases hex : s.existingCoroutineFor d = true
  · rw [if_pos hex] at hs
    cases hs
    refine .single (.stop ?_)
    have hpark := view_park s [] .idle [] d ⟨e.originatingService, e.priority, remove, []⟩
    have hstep := StopStep.park e s.queue d remove ⟨e.originatingService, e.priority, remove, []⟩
      hat (hco.mpr hex) rfl (hstate.symm ▸ ⟨hpres, hidle⟩)
    exact hpark.symm ▸ hstep
  · rw [if_neg hex] at hs
    have hg : ¬(view s [e] .idle []).HasCoroutine d := fun hc => hex (hco.mp hc)
    by_cases hst : m.state = .uninjecting
    · by_cases hd : m.serviceIdsOfDependees = []
      · exact path_callStop u h hat hg hm hst hd hs
      · unfold carryOutStop at hs
        rw [hm] at hs
        dsimp only at hs
        rw [if_neg (by simp [hd]), if_neg (not_not_intro hst)] at hs
        cases hs
        have hdee := (view_hasDependee s [e] .idle [] hm).mpr hd
        exact path_ignore hat.event (ignored_stop hat.body
          (.inr (.inr (.inr (.inl ⟨hstate.trans hst, hdee⟩)))))
    · unfold carryOutStop at hs
      rw [hm] at hs
      dsimp only at hs
      rw [if_neg (by simp [hst]), if_pos hst] at hs
      cases hs
      have hrun : (view s [e] .idle []).state d = .injecting ∨
          (view s [e] .idle []).state d = .starting ∨ (view s [e] .idle []).state d = .active := by
        rw [hstate]
        obtain ⟨h1, h2⟩ := hidle
        cases hms : m.state <;> simp_all
      refine .single (.stop ?_)
      have hstep := StopStep.toOffline e ⟨s.nextEventId, d, e.priority, .dependencyOffline remove⟩
        s.queue d remove hat hg ⟨rfl, rfl⟩ hrun
      exact (view_push s [] .idle [] d e.priority (.dependencyOffline remove)).symm ▸ hstep

theorem path_handleStopService (u : UserCode)
    (h : Inv (view s [e] .idle [])) (ho : o.event = some e)
    (hb : e.body = .stopService d remove) (hsame : WakeFrame o.core (core s))
    (hs : s.handleStopService u e d remove = some out) :
    Path o (view s [e] .idle []) (view out.manager [] .idle []) := by
  unfold handleStopService at hs
  cases hm : s.services.get? d with
  | none =>
    rw [hm] at hs
    cases hs
    exact path_ignore ho (ignored_stop hb (.inl (Services.view_none _ _ _ _ hm)))
  | some m =>
    have hstate : s.stateOf d = m.state := Services.view_some _ _ _ _ hm
    rw [hm] at hs
    dsimp only at hs
    by_cases hidle : (decide (m.state = .installed) || decide (m.state = .stopping)) = true
    · rw [if_pos hidle] at hs
      cases hs
      refine path_ignore ho (ignored_stop hb ?_)
      rw [hstate]
      rcases (Bool.or_eq_true _ _).mp hidle with hi | hi
      · exact .inr (.inl (of_decide_eq_true hi))
      · exact .inr (.inr (.inl (of_decide_eq_true hi)))
    rw [if_neg hidle] at hs
    have hrun : m.state ≠ .installed ∧ m.state ≠ .stopping := by
      simpa using hidle
    have hentry : s.dependencyWaiters.contains d = true ↔ (view s [e] .idle []).entry d :=
      isSome_iff_exists
    by_cases hearly : (s.dependencyWaiters.contains d && (!m.serviceIdsOfDependees.isEmpty ||
        decide (m.state ≠ .uninjecting))) = true
    · rw [if_pos hearly] at hs
      cases hs
      refine path_ignore ho (ignored_stop hb ?_)
      obtain ⟨hw, hwhy⟩ := (Bool.and_eq_true _ _).mp hearly
      by_cases hun : m.state = .uninjecting
      · have hd : m.serviceIdsOfDependees ≠ [] := by simpa [hun] using hwhy
        exact .inr (.inr (.inr (.inl ⟨hstate.trans hun,
          (view_hasDependee s [e] .idle [] hm).mpr hd⟩)))
      · exact .inr (.inr (.inr (.inr ⟨hstate.symm ▸ hun, hentry.mp hw⟩)))
    rw [if_neg hearly] at hs
    by_cases hw : s.dependencyWaiters.contains d = true
    · rw [if_pos hw] at hs
      obtain ⟨s1, hs1, hrest⟩ := bind_eq_some_iff.mp hs
      have hcond : m.serviceIdsOfDependees = [] ∧ m.state = .uninjecting := by
        simpa [hw] using hearly
      have hdee : ¬(view s [e] .idle []).HasDependee d := fun hx =>
        (view_hasDependee s [e] .idle [] hm).mp hx hcond.1
      have hwake : Path o (view s [e] .idle [])
          (((view s [e] .idle []).wake d .dependencyOffline).setPhase (.stopWake d)) :=
        .single (.stop (.wake e s.queue d remove rfl ho hb (hstate.trans hcond.2) hdee rfl rfl))
      obtain ⟨s2, hpath, hwoken, hnone, hframe⟩ := path_finishWaitingService
        (resumes_offline o [e] d (.stopWake d) (.inr rfl)) (h.path hwake) hs1
      have hpath1 : Path o (view s [e] .idle []) (view s1 [e] .idle []) := by
        refine (hwake.trans hpath).tail (.stop ?_)
        rw [hwoken .idle []]
        exact .woken d rfl rfl
      have hinv := h.path hpath1
      have hsame1 := hsame.trans hframe
      have hst1 : s1.stateOf d = .uninjecting :=
        (congrFun hframe.state d).trans (hstate.trans hcond.2)
      obtain ⟨m1, hm1⟩ : ∃ m1, s1.services.get? d = some m1 :=
        (hinv.links.inTable d).mpr (show s1.stateOf d ≠ .uninstalled by simp [hst1])
      have hm1st : m1.state = .uninjecting :=
        (Services.view_some LifecycleManager.state _ _ _ hm1).symm.trans hst1
      have hat : AtStop o (view s1 [e] .idle []) e s1.queue d remove := {
        queue := rfl
        event := ho
        body := hb
        idle := rfl
        noneTaken := rfl
        noneWaiting := fun _ _ => not_hasOfflineWaiter_of hnone
        noEntry := fun hne => absurd hst1 hne
        sameState := congrFun hsame1.state d
        sameDep := fun x => iff_of_eq (congrFun (congrFun hsame1.dep d) x)
        samePending := hsame1.pending
        sameKind := hsame1.kind
        sameCoroutine := hsame1.coroutine d
        sameDependee := hsame1.dependee d }
      exact hpath1.trans (path_carryOutStop u hinv hat hm1 (by simp [hm1st]) hrest)
    · rw [if_neg hw, bind_some] at hs
      have hno : ¬(view s [e] .idle []).entry d := fun hx => hw (hentry.mpr hx)
      have hat : AtStop o (view s [e] .idle []) e s.queue d remove := {
        queue := rfl
        event := ho
        body := hb
        idle := rfl
        noneTaken := rfl
        noneWaiting := fun _ _ hx =>
          hno (h.waiting.entries d (ne_nil_of_mem hx.choose_spec))
        noEntry := fun _ => hno
        sameState := congrFun hsame.state d
        sameDep := fun x => iff_of_eq (congrFun (congrFun hsame.dep d) x)
        samePending := hsame.pending
        sameKind := hsame.kind
        sameCoroutine := hsame.coroutine d
        sameDependee := hsame.dependee d }
      exact path_carryOutStop u h hat hm hrun hs

/-! ## The continuation of a `stop()` -/

/-- Stored generators stay where they are, and the deferred stops too. -/
structure KeepsGenerators (s s' : DependencyManager) : Prop where
  generators : ∀ q g, s.scopedGenerators.get? q = some g → s'.scopedGenerators.get? q = some g
  pending : s'.pendingStopsDueToDependencies = s.pendingStopsDueToDependencies

theorem KeepsGenerators.refl (s : DependencyManager) : KeepsGenerators s s :=
  ⟨fun _ _ h => h, rfl⟩

theorem KeepsGenerators.trans {t : DependencyManager} (h : KeepsGenerators s t)
    (h' : KeepsGenerators t s') : KeepsGenerators s s' :=
  ⟨fun q g hg => h'.generators q g (h.generators q g hg), h'.pending.trans h.pending⟩

theorem keepsGenerators_housekeeping {u : UserCode} (h : Housekeeping u s s') : KeepsGenerators s s' := by
  induction h with
  | quiet hq => exact ⟨fun q g hg => hq.scopedGenerators ▸ hg, hq.pendingStopsDueToDependencies⟩
  | generator s c svc priority e ref _ =>
    have hkeep : ∀ x v q g, s.scopedGenerators.get? q = some g →
        (s.scopedGenerators.emplace x v).get? q = some g := by
      intro x v q g hg
      rw [Table.get?_emplace]
      split
      · rw [hg]
        rfl
      · exact hg
    have hran := ran_runGenerator s u c svc priority e ref
    generalize s.runGenerator u c svc priority e ref = out at hran
    cases hran with
    | done => exact ⟨fun _ _ h => h, rfl⟩
    | suspended | yielded => exact ⟨fun q g hg => hkeep _ _ q g hg, rfl⟩
  | trans _ _ ih1 ih2 => exact ih1.trans ih2

theorem keepsGenerators_finishDependencyOffline (s : DependencyManager) (d p : ServiceId)
    (deps : List ℕ) : KeepsGenerators s (s.finishDependencyOffline d p deps) := by
  have hfold : KeepsGenerators s (deps.foldl (removeSelfIntoDoubleDispatch d p) s) :=
    Loops.rel_foldl KeepsGenerators .refl .trans _ deps s fun _ _ _ => ⟨fun _ _ h => h, rfl⟩
  exact hfold.trans ⟨fun _ _ h => h, rfl⟩

theorem keepsGenerators_finishPendingStops (e : Event) (l : List WaitingStopService)
    (hs : l.foldlM (finishPendingStop e d) s = some s') : KeepsGenerators s s' := by
  refine Loops.rel_foldlM KeepsGenerators .refl .trans _ l ?_ hs
  intro t w _ t' ht
  unfold finishPendingStop at ht
  split at ht
  · cases ht
  · cases ht
    refine (keepsGenerators_finishDependencyOffline t d w.originatingServiceId w.deps).trans ?_
    split <;> exact ⟨fun _ _ h => h, rfl⟩

theorem keepsGenerators_clearDependencies (s : DependencyManager) (d : ServiceId) :
    KeepsGenerators s (s.clearDependencies d) := by
  unfold clearDependencies
  refine .trans (Loops.rel_foldl KeepsGenerators .refl .trans _ _ s ?_) ⟨fun _ _ h => h, rfl⟩
  exact fun _ _ _ => ⟨fun _ _ h => h, rfl⟩

theorem finishStop_frame (u : UserCode) (e : Event) (hs : s.finishStop u e d remove = some s') :
    (∀ q g, s.scopedGenerators.get? q = some g → s'.scopedGenerators.get? q = some g) ∧
      s'.pendingStopsDueToDependencies.get? d = none := by
  unfold finishStop at hs
  obtain ⟨s1, hs1, hrest⟩ := bind_eq_some_iff.mp hs
  have hrel := keepsGenerators_finishPendingStops e _ hs1
  have hclear := keepsGenerators_clearDependencies (forgetPending s1 d) d
  have hcleared : (((forgetPending s1 d).clearDependencies d).clearServiceRegistrations
      d).pendingStopsDueToDependencies.get? d = none := by
    show ((forgetPending s1 d).clearDependencies d).pendingStopsDueToDependencies.get? d = none
    rw [hclear.pending]
    show (s1.pendingStopsDueToDependencies.erase d).get? d = none
    rw [Table.get?_erase, if_pos rfl]
  have hgens : ∀ q g, s.scopedGenerators.get? q = some g →
      (((forgetPending s1 d).clearDependencies d).clearServiceRegistrations
        d).scopedGenerators.get? q = some g := fun q g hg =>
    hclear.generators q g (hrel.generators q g hg)
  cases remove with
  | false =>
    cases hrest
    exact ⟨hgens, hcleared⟩
  | true =>
    have hremove : removeInternalService (((forgetPending s1 d).clearDependencies
      d).clearServiceRegistrations d) u d = some s' := hrest
    obtain ⟨_, s2, _, _, _, hundo, rfl⟩ := removeInternalService_cases hremove
    have hkeep : KeepsGenerators _ s2 := keepsGenerators_housekeeping hundo
    refine ⟨fun q g hg => hkeep.generators q g (hgens q g hg), ?_⟩
    show s2.pendingStopsDueToDependencies.get? d = none
    rw [hkeep.pending]
    exact hcleared

theorem path_continueStop {q : PromiseId} {g : ScopedGenerator} {v : StartBehaviour}
    (u : UserCode) (h : Inv (view s [e] .idle [])) (ho : o.event = some e)
    (hb : e.body = .continuableStart q) (hsame : WakeFrame o.core (core s))
    (hg : s.scopedGenerators.get? q = some g) (hgen : o.core.generator q = some g)
    (hst : g.generator.state = .finished v) (hc : g.generator.coroutine = .stop)
    (hbody : g.event.body = .stopService g.generator.serviceId remove)
    (hs : s.continueStop u q g.event g.generator.serviceId remove = some s') :
    Path o (view s [e] .idle []) (view s' [] .idle []) := by
  have hat : AtContinuation o (view s [e] .idle []) e s.queue q g (.continuableStart q) :=
    ⟨rfl, ho, hb, rfl, hg⟩
  unfold continueStop at hs
  cases hm : s.services.get? g.generator.serviceId with
  | none => simp [hm] at hs
  | some m =>
    rw [hm] at hs
    dsimp only at hs
    split at hs
    · cases hs
    rename_i hcond
    obtain ⟨hinst, hdees⟩ : m.state = .installed ∧ m.serviceIdsOfDependees = [] := by
      simpa using hcond
    obtain ⟨s1, hs1, rfl⟩ := map_eq_some_iff.mp hs
    have hstep : Path o (view s [e] .idle [])
        (view s [e] (.finishing g.generator.serviceId remove) []) :=
      .single (.stop (.continueStop q g e s.queue g.generator.serviceId remove v hat hst hc hbody
        ((view_state s [e] .idle [] hm).trans hinst)
        (fun hx => (view_hasDependee s [e] .idle [] hm).mp hx hdees) hsame.pending
        (fun x => iff_of_eq (congrFun (congrFun hsame.dep _) x)) hsame.kind hgen))
    have hpath := hstep.trans (path_finishStop u g.event (h.path hstep) hs1)
    obtain ⟨hgens, hpend⟩ := finishStop_frame u g.event hs1
    refine path_completed u q g.event (hpath.tail (.stop ?_))
    rw [view_eraseGenerator]
    refine .forget q g e s1.queue v ⟨rfl, ho, hb, rfl, hgens q g hg⟩ hst hc ?_
    show (s1.pendingStopsDueToDependencies.get? g.generator.serviceId).getD [] = []
    rw [hpend]
    rfl

end

end Ichor.Lifecycle
