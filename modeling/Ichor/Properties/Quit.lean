import Ichor.Abstract.Bookkeeping
import Ichor.Desk.Serving
import Ichor.Model.Script

/-! Quitting: the manager records that it is done only when everything has
stopped, and whenever everything has stopped it has recorded it, except after
the failed asynchronous start of the last service or a vetoed continuation. -/
namespace Ichor.DependencyManager
open FiniteTable

variable {s s' : DependencyManager}

/-! ## The two flags -/

/-- Both flags for quitting are as they were. -/
def SameFlags (s s' : DependencyManager) : Prop :=
  s'.quitDone = s.quitDone ∧ s'.quitEventReceived = s.quitEventReceived

theorem SameFlags.trans {t : DependencyManager} (h : SameFlags s t) (h' : SameFlags t s') :
    SameFlags s s' := ⟨h'.1.trans h.1, h'.2.trans h.2⟩

theorem Moves.flags (h : Moves s s') : SameFlags s s' :=
  ⟨congrArg Desk.quitDone h.desk, congrArg Desk.quitEventReceived h.desk⟩

theorem SameLifecycles.flags (h : SameLifecycles s s') : SameFlags s s' := ⟨h.quitDone, h.quitEventReceived⟩

variable {u : UserCode}

theorem Housekeeping.flags (h : Housekeeping u s s') : SameFlags s s' := by
  induction h with
  | quiet hq => exact hq.flags
  | generator s c svc priority e ref _ =>
    have hran := ran_runGenerator s u c svc priority e ref
    generalize s.runGenerator u c svc priority e ref = out at hran
    cases hran <;> exact ⟨rfl, rfl⟩
  | trans _ _ ih1 ih2 => exact ih1.trans ih2

theorem flags_removeInternalService (u : UserCode) (d : ServiceId)
    (h : s.removeInternalService u d = some s') : SameFlags s s' := by
  obtain ⟨_, t, _, _, _, hkeep, rfl⟩ := removeInternalService_cases h
  exact hkeep.flags

variable {d : ServiceId} {removeAfter : Bool}

theorem EndsStop.flags (h : EndsStop s u d removeAfter s') : SameFlags s s' :=
  h.rel SameFlags.trans Moves.flags ⟨rfl, rfl⟩ (flags_removeInternalService u d)

theorem Completes.flags (h : Completes s s') : SameFlags s s' := by
  cases h
  exact ⟨rfl, rfl⟩

theorem handle_flags {e : Event} {out : Handled} (h : s.handle u e = some out) :
    out.manager.quitDone = s.quitDone ∧
      (e.body ≠ .quit → out.manager.quitEventReceived = s.quitEventReceived) := by
  have hsame : SameFlags s out.manager ∨ e.body = .quit ∧ out = s.handleQuit e := by
    cases handling_handle h with
    | quit hb => exact .inr ⟨hb, rfl⟩
    | lifecycle t hb hm | insert m t hb hm | started d t hb hm
    | startSuspended d t priority hb hm => exact .inl hm.flags
    | request hash r hb =>
      exact .inl (housekeeping_handleDependencyRequest s u e hash r).flags
    | stop d removeAfter _ hb hend =>
      left
      cases hend with
      | moved _ hm => exact hm.toMoves.flags
      | suspended t q priority hm => exact hm.flags
      | ended t hend => exact hend.flags
    | remove d t hb hr => exact .inl (flags_removeInternalService u d hr)
    | addTracker hash hb => exact .inl (housekeeping_handleAddTracker s u e hash).flags
    | removeTracker hash hb => exact .inl (same_handleRemoveTracker s e hash).flags
    | continuable q hb => exact .inl ((completes_handleContinuable s u q).flags)
    | continuableStart q _ hb hend =>
      left
      cases hend with
      | stale => exact ⟨rfl, rfl⟩
      | moved g v t _ _ _ hm =>
        exact hm.toMoves.flags.trans (same_handleEventCompletion t u g.event).flags
      | ended g d remove t _ _ hend =>
        exact hend.flags.trans (same_handleEventCompletion t u g.event).flags
    | function hb => exact .inl (same_handleRunFunction s e).flags
    | functionAsync hb => exact .inl (housekeeping_handleRunFunctionAsync s u e).flags
    | broadcast hb => exact .inl (housekeeping_broadcastEvent s u e).flags
    | _ => exact .inl ⟨rfl, rfl⟩
  rcases hsame with ⟨hdone, hquit⟩ | ⟨hb, rfl⟩
  · exact ⟨hdone, fun _ => hquit⟩
  · exact ⟨(calm_handleQuit s e).toMoves.flags.1, fun hne => absurd hb hne⟩

theorem UserMove.flags (h : UserMove s s') : SameFlags s s' := by
  cases h with
  | created desc =>
    rw [createServiceManager_eq]
    exact ⟨rfl, rfl⟩
  | _ => exact ⟨rfl, rfl⟩

theorem flags_preIntercept (s : DependencyManager) (u : UserCode) (e : Event) :
    SameFlags s (s.preIntercept u e).1 := (same_preIntercept s u e).flags

theorem flags_finishEvent (s : DependencyManager) (u : UserCode) (e : Event) (h : Handled)
    (allow : Bool) : SameFlags s (s.finishEvent u e h allow) := (same_finishEvent s u e h allow).flags

theorem Processed.received {e : Event} (h : Processed s u e s')
    (hs : s.quitEventReceived = false) (hs' : s'.quitEventReceived = true) :
    e.body = .quit ∧ (s.preIntercept u e).2 = true := by
  have hpre : (s.preIntercept u e).1.quitEventReceived = false :=
    (flags_preIntercept s u e).2.trans hs
  cases h with
  | dead hq => exact absurd (hs.symm.trans hs') Bool.false_ne_true
  | vetoed hq ha =>
    rw [(flags_finishEvent _ u e _ false).2, hpre] at hs'
    cases hs'
  | handled out hq ha hh hc =>
    refine ⟨?_, ha⟩
    by_contra hne
    rw [(flags_finishEvent _ u e _ true).2, (handle_flags hh).2 hne, hpre] at hs'
    cases hs'
  | quits out hq ha hh hc can =>
    refine ⟨?_, ha⟩
    by_contra hne
    have hsame := (handle_flags hh).2 hne
    rw [hpre, can.received] at hsame
    cases hsame

/-! ## Quitting is never premature -/

/-- The step processes a QuitEvent that no interceptor vetoes. -/
def ProcessesQuit (s : DependencyManager) : Action → Prop
  | .processEvent index u =>
    ∃ e, s.queue[index]? = some e ∧ e.body = .quit ∧ (s.preIntercept u e).2 = true
  | _ => False

/-- The manager as the check for quitting sees it at the end of the step. -/
def atCheck (s : DependencyManager) : Action → Option DependencyManager
  | .processEvent index u =>
    match s.queue[index]? with
    | none => none
    | some e =>
      let (t, allowProcessing) := (s.dequeue index).preIntercept u e
      if allowProcessing then
        (t.handle u e).bind fun out => if out.check then some out.manager else none
      else none
  | _ => none

variable {a : Action}

theorem processesQuit_of_received (h : next a s = some s')
    (hs : s.quitEventReceived = false) (hs' : s'.quitEventReceived = true) : ProcessesQuit s a := by
  rcases next_cases h with ⟨index, u, e, rfl, he, hp⟩ | ⟨_, hm⟩
  · exact ⟨e, he, hp.received hs hs'⟩
  · rw [hm.flags.2, hs] at hs'
    cases hs'

section Run
variable {order : QueueOrder} {condition : DependencyManager → Action → Prop}
  {origin : DependencyManager}

/-- Some step of a run to `s` processes a QuitEvent. -/
def QuitProcessed (order : QueueOrder) (condition : DependencyManager → Action → Prop)
    (origin s : DependencyManager) : Prop :=
  ∃ t b t', RunWhere order condition origin t ∧ ProcessesQuit t b ∧ next b t = some t' ∧
    RunWhere order condition t' s

theorem quitProcessed_of_received (h : RunWhere order condition origin s)
    (h0 : origin.quitEventReceived = false) (hs : s.quitEventReceived = true) :
    QuitProcessed order condition origin s := by
  induction h with
  | refl => exact absurd (h0.symm.trans hs) Bool.false_ne_true
  | @tail t s hrun hstep ih =>
    obtain ⟨a, hg, hn⟩ := hstep
    cases hr : t.quitEventReceived with
    | true =>
      obtain ⟨x, b, x', hx, hb, hx', hrest⟩ := ih hr
      exact ⟨x, b, x', hx, hb, hx', hrest.tail ⟨a, hg, hn⟩⟩
    | false => exact ⟨t, a, s, hrun, processesQuit_of_received hn hr hs, hn, .refl⟩

theorem quitDone_of_run (h : RunWhere order condition s s') (hs : s.quitDone = true) :
    s'.quitDone = true := by
  refine GuardedRuns.Run.invariant h (fun x => x.quitDone = true) hs ?_
  intro x a y hx _ hn
  rcases next_cases hn with ⟨index, u, e, rfl, he, hp⟩ | ⟨_, hm⟩
  · cases hp with
    | dead hq => exact hq
    | vetoed hq | handled out hq => exact absurd (hq.symm.trans hx) Bool.false_ne_true
    | quits => rfl
  · rw [hm.flags.1]
    exact hx

theorem quitEventReceived_initial (internals : List NameHash) :
    (initial internals).quitEventReceived = false := by
  rw [(Lifecycle.booted_initial internals).rest]
  rfl

theorem processEvent_of_quitDone {index : ℕ}
    (h : next (.processEvent index u) s = some s') (hs : s.quitDone = true) :
    s' = s.dequeue index := by
  obtain ⟨e, he, hp⟩ := processNext_eq_some h
  cases hp with
  | dead hq => rfl
  | vetoed hq | handled out hq | quits out hq => exact absurd (hq.symm.trans hs) Bool.false_ne_true

theorem atCheck_of_quitDone (h : next a s = some s') (h0 : s.quitDone = false)
    (h1 : s'.quitDone = true) : ∃ m, s.atCheck a = some m ∧ CanQuit m ∧ s' = m.quitted := by
  rcases next_cases h with ⟨index, u, e, rfl, he, hp⟩ | ⟨_, hm⟩
  · cases hp with
    | dead hq => exact absurd (h0.symm.trans hq) Bool.false_ne_true
    | vetoed hq ha =>
      rw [(flags_finishEvent _ u e _ false).1, (flags_preIntercept _ u e).1] at h1
      exact absurd (h0.symm.trans h1) Bool.false_ne_true
    | handled out hq ha hh hc =>
      rw [(flags_finishEvent _ u e _ true).1, (handle_flags hh).1,
        (flags_preIntercept _ u e).1] at h1
      exact absurd (h0.symm.trans h1) Bool.false_ne_true
    | quits out hq ha hh hc can =>
      refine ⟨out.manager, ?_, can, rfl⟩
      simp only [atCheck, he]
      rw [if_pos ha, hh]
      simp [hc]
  · rw [hm.flags.1] at h1
    exact absurd (h0.symm.trans h1) Bool.false_ne_true

/-- Whenever quitting is recorded as done a QuitEvent has been processed, the
check saw only stopped services and no coroutine or waiter, and every event
processed afterwards only leaves the queue. -/
theorem quit_never_premature (order : QueueOrder) (internals : List NameHash)
    (s s' : DependencyManager) (a : Action)
    (hrun : RunWhere order (fun _ _ => True) (initial internals) s)
    (hr : respects order s a = true) (hstep : next a s = some s') (h0 : s.quitDone = false)
    (h1 : s'.quitDone = true) :
    QuitProcessed order (fun _ _ => True) (initial internals) s' ∧
    (∃ m, s.atCheck a = some m ∧
      (∀ d v, m.services.get? d = some v → v.isInternalManager = true ∨ v.state = .installed) ∧
      (∀ q, m.scopedGenerators.get? q = none) ∧ (∀ d, m.dependencyWaiters.get? d = none) ∧
      (∀ id, m.eventWaiters.get? id = none) ∧ s' = m.quitted) ∧
    ∀ r r' index u, RunWhere order (fun _ _ => True) s' r →
      next (.processEvent index u) r = some r' →
      r' = r.dequeue index := by
  obtain ⟨m, hm, can, rfl⟩ := atCheck_of_quitDone hstep h0 h1
  refine ⟨?_, ⟨m, hm, ?_, ?_, ?_, ?_, rfl⟩, ?_⟩
  · have hrun' : RunWhere order (fun _ _ => True) (initial internals) m.quitted :=
      hrun.tail ⟨a, ⟨hr, trivial⟩, hstep⟩
    exact quitProcessed_of_received hrun' (quitEventReceived_initial internals) can.received
  · intro d v hv
    have hall := can.stopped
    unfold allServicesStopped at hall
    rw [List.all_eq_true] at hall
    have hd := hall (d, v) ((Table.mem_entries_iff _ _ _).mpr hv)
    rw [Bool.or_eq_true, decide_eq_true_eq] at hd
    exact hd
  · exact (Table.isEmpty_iff _).mp can.generators
  · exact (Table.isEmpty_iff _).mp can.dependencyWaiters
  · exact (Table.isEmpty_iff _).mp can.eventWaiters
  · intro r r' index u hlater hprocess
    exact processEvent_of_quitDone hprocess (quitDone_of_run hlater rfl)

/-- One service has been stopped for the quit, another one waits for a provider, and an event is
still queued. -/
theorem quit_recorded_before_event : ∃ s s' m v index,
    RunWhere orderedPriorityQueue (fun _ _ => True) (initial [0]) s ∧
    next (.processEvent index .prompt) s = some s' ∧
    QuitProcessed orderedPriorityQueue (fun _ _ => True) (initial [0]) s' ∧
    s.atCheck (.processEvent index .prompt) = some m ∧ m.services.get? 3 = some v ∧
    v.state = .installed ∧ ∃ r, next (.processEvent 0 .prompt) s' = some r ∧ r = s'.dequeue 0 := by
  have hend : (play (fun _ _ => true) [.act (.createServiceManager (.simple [] [])),
      .act (.createServiceManager (.simple [] [(5, true)])), .drain 9 .prompt,
      .act (.pushEvent 0 5000 (.user 7)), .act (.pushEvent 0 internalEventPriority .quit),
      .drain 3 .prompt] (initial [0])).any (fun s =>
        let a := .processEvent (firstIndex s.queue) .prompt
        !s.quitDone && respects orderedPriorityQueue s a &&
        ((next a s).any fun s' => s'.quitDone && (next (.processEvent 0 .prompt) s').isSome) &&
        (s.atCheck a).any fun m => (m.services.get? 3).any fun v => !v.isInternalManager) = true := by
    decide +kernel
  obtain ⟨s, hrun, hs⟩ := reaches hend
  simp only [Bool.and_eq_true, Bool.not_eq_true', Option.any_eq_true, Option.isSome_iff_exists] at hs
  obtain ⟨⟨⟨h0, hr⟩, s', hstep, h1, r, hlater⟩, m, hm, v, hv, hint⟩ := hs
  obtain ⟨hquit, ⟨m', hm', hall, _⟩, hdead⟩ :=
    quit_never_premature orderedPriorityQueue [0] s s' _ hrun hr hstep h0 h1
  obtain rfl : m = m' := Option.some.inj (hm.symm.trans hm')
  exact ⟨s, s', m, v, _, hrun, hstep, hquit, hm, hv, (hall 3 v hv).resolve_left (by simp [hint]),
    r, hlater, hdead s' r 0 .prompt .refl hlater⟩

end Run

/-! ## Quitting is reached -/

section
open Lifecycle

theorem allServicesStopped_iff : s.allServicesStopped = true ↔ ∀ d m, s.services.get? d = some m →
      m.isInternalManager = true ∨ m.state = .installed := by
  unfold allServicesStopped
  rw [List.all_eq_true]
  constructor
  · intro h d m hm
    have hd := h (d, m) ((Table.mem_entries_iff _ _ _).mpr hm)
    rwa [Bool.or_eq_true, decide_eq_true_eq] at hd
  · rintro h ⟨d, m⟩ hmem
    rw [Bool.or_eq_true, decide_eq_true_eq]
    exact h d m ((Table.mem_entries_iff _ _ _).mp hmem)

/-- Everything the check for quitting scans for has come to rest. -/
def AtRest (s : DependencyManager) : Prop :=
  (∀ q, s.scopedGenerators.get? q = none) ∧
    ∀ d m, s.services.get? d = some m → m.isInternalManager = true ∨ m.state = .installed

theorem busy_iff_not_atRest (h : Inv (core s)) : (core s).Busy ↔ ¬s.AtRest := by
  constructor
  · rintro (⟨q, g, hg⟩ | ⟨d, hd, hk, hi⟩) ⟨hgen, hall⟩
    · have hnone := hgen q
      have hg : s.scopedGenerators.get? q = some g := hg
      rw [hg] at hnone
      cases hnone
    · cases hm : s.services.get? d with
      | none => exact hd (Services.view_none _ _ _ _ hm)
      | some m =>
        rcases hall d m hm with hint | hinst
        · exact hk ((view_kind s [] .idle [] hm).trans (of_decide_eq_true hint))
        · exact hi ((view_state s [] .idle [] hm).trans hinst)
  · intro hrest
    by_contra hidle
    refine hrest ⟨fun q => ?_, fun d m hm => ?_⟩
    · cases hg : s.scopedGenerators.get? q with
      | none => rfl
      | some g => exact absurd (.inl ⟨q, g, hg⟩) hidle
    · by_contra hno
      rw [not_or] at hno
      refine hidle (.inr ⟨d, ?_, ?_, ?_⟩)
      · exact (h.links.inTable d).mp ⟨m, hm⟩
      · exact fun hk => hno.1 (decide_eq_true ((view_kind s [] .idle [] hm).symm.trans hk))
      · exact fun hi => hno.2 ((view_state s [] .idle [] hm).symm.trans hi)

/-- A QuitEvent was processed, everything is at rest, and nobody noticed. -/
def QuitMissed (s : DependencyManager) : Prop :=
  s.quitEventReceived = true ∧ s.quitDone = false ∧ s.AtRest

theorem QuitMissed.of_same (hq : SameLifecycles s s') (h : QuitMissed s') : QuitMissed s := by
  obtain ⟨hr, hd, hgen, hall⟩ := h
  rw [hq.scopedGenerators] at hgen
  rw [hq.services] at hall
  exact ⟨hq.quitEventReceived ▸ hr, hq.quitDone ▸ hd, hgen, hall⟩

theorem not_quitMissed_of_check (h : s.checkIfCanQuit = some s) : ¬QuitMissed s := by
  rintro ⟨hr, hd, hgen, hall⟩
  have hcond : (s.quitEventReceived && !s.quitDone && s.scopedGenerators.isEmpty &&
      s.allServicesStopped) = true := by
    rw [hr, hd, (Table.isEmpty_iff _).mpr hgen, allServicesStopped_iff.mpr hall]
    rfl
  unfold checkIfCanQuit at h
  rw [if_pos hcond] at h
  split at h
  · cases h
  · have hdone : true = s.quitDone := congrArg DependencyManager.quitDone (Option.some.inj h)
    exact absurd (hdone.trans hd) (by simp)

variable {q : PromiseId} {e : Event} {out : Handled} {u : UserCode}

theorem Wakes.stopped (hm : Wakes s s')
    (h : ∀ d m, s'.services.get? d = some m → m.isInternalManager = true ∨ m.state = .installed)
    (d : ServiceId) (m : LifecycleManager) (hget : s.services.get? d = some m) :
    m.isInternalManager = true ∨ m.state = .installed := by
  have hfixed : s'.fixedOf d = some m.fixed := by
    rw [hm.fixed d]
    unfold fixedOf
    rw [hget]
    rfl
  obtain ⟨m', hget', hm'⟩ := Option.map_eq_some_iff.mp hfixed
  have hkind : m'.kind = m.kind := congrArg Fixed.kind hm'
  have hstate : m'.state = m.state := by
    have hsame : Services.view LifecycleManager.state .uninstalled s'.services d =
        Services.view LifecycleManager.state .uninstalled s.services d := hm.states d
    rwa [Services.view_some _ _ _ _ hget', Services.view_some _ _ _ _ hget] at hsame
  rcases h d m' hget' with hint | hinst
  · left
    unfold LifecycleManager.isInternalManager at hint ⊢
    rw [← hkind]
    exact hint
  · exact .inr (hstate ▸ hinst)

theorem AtRest.of_wakes (hm : Wakes s s') (h : s'.AtRest) : s.AtRest :=
  ⟨fun q => hm.kept q (h.1 q), hm.stopped h.2⟩

/-- The failed asynchronous start of a service ends as the last activity of a
manager that is quitting. -/
def FailedStartEndsLast (s : DependencyManager) : Action → Prop
  | .processEvent index _ => s.quitEventReceived = true ∧ s.allServicesStopped = true ∧
      ∃ e q g, s.queue[index]? = some e ∧ e.body = .continuableStart q ∧
        s.scopedGenerators.get? q = some g ∧ g.generator.state = .finished .stopped ∧
        ∀ q', q' ≠ q → s.scopedGenerators.get? q' = none
  | _ => False

theorem quitMissed_userMove (h : UserMove s s') (hm : QuitMissed s') : QuitMissed s := by
  obtain ⟨hr, hd, hgen, hall⟩ := hm
  have hr : s.quitEventReceived = true := h.flags.2 ▸ hr
  have hd : s.quitDone = false := h.flags.1 ▸ hd
  have hgen' : ∀ q, s.scopedGenerators.get? q = none := by
    intro q
    cases hg : s.scopedGenerators.get? q with
    | none => rfl
    | some g =>
      obtain ⟨st, hst⟩ := h.kept hg
      rw [hgen q] at hst
      cases hst
  have hno : ∀ {q : PromiseId} {g : ScopedGenerator} {P : Prop},
      s.suspendedUserCode q = some g → P := by
    intro q g P hg
    have hstored := (suspendedUserCode_eq_some hg).1
    rw [hgen' q] at hstored
    cases hstored
  refine ⟨hr, hd, hgen', ?_⟩
  cases h with
  | created desc =>
    rw [createServiceManager_eq] at hall
    exact hall
  | startReturns q g success v hg => exact hno hg
  | stopReturns q g hg => exact hno hg
  | _ => exact hall

theorem quitMissed_stopEnd (h : StopEnd s u e d removeAfter out) (hc : out.check = false)
    (hm : QuitMissed out.manager) : QuitMissed s := by
  cases h with
  | moved _ hmoves =>
    obtain ⟨hr, hd, hrest⟩ := hm
    exact ⟨hmoves.toMoves.flags.2 ▸ hr, hmoves.toMoves.flags.1 ▸ hd, hrest.of_wakes hmoves⟩
  | suspended t q priority hmoves =>
    have hnone : (t.scopedGenerators.emplace q _).get? q = none := hm.2.2.1 q
    rw [Table.get?_emplace, if_pos rfl] at hnone
    exact absurd hnone (by simp)
  | ended => cases hc

theorem not_stopped {st : ServiceState} (hs : (core s).state d = st)
    (hk : (core s).kind d ≠ .internal) (h1 : st ≠ .uninstalled) (h2 : st ≠ .installed)
    (h : ∀ d m, s.services.get? d = some m → m.isInternalManager = true ∨ m.state = .installed) :
    False := by
  cases hm : s.services.get? d with
  | none => exact h1 (hs.symm.trans (Services.view_none _ _ _ _ hm))
  | some m =>
    rcases h d m hm with hint | hinst
    · exact hk ((view_kind s [] .idle [] hm).trans (of_decide_eq_true hint))
    · exact h2 (hs.symm.trans ((view_state s [] .idle [] hm).trans hinst))

theorem failed_of_continuationEnd
    (h : ContinuationEnd s u q out) (hc : out.check = false) (hm : QuitMissed out.manager)
    (hco : Coroutines (core s).kind (core s).state (core s).dee (core s).generator)
    (huser : ∀ g, s.scopedGenerators.get? q = some g → g.generator.coroutine ≠ .user) :
    QuitMissed s ∨ s.quitEventReceived = true ∧ s.allServicesStopped = true ∧
      ∃ g, s.scopedGenerators.get? q = some g ∧ g.generator.state = .finished .stopped ∧
        ∀ q', q' ≠ q → s.scopedGenerators.get? q' = none := by
  cases h with
  | stale => exact .inl hm
  | ended => cases hc
  | moved g v t hg hv hb hw =>
    right
    have hquiet := same_handleEventCompletion t u g.event
    obtain ⟨hr, _, hgen, hall⟩ := hm
    have hr : s.quitEventReceived = true := by
      rw [← hw.toMoves.flags.2, ← hquiet.quitEventReceived]
      exact hr
    have hothers : ∀ q', q' ≠ q → s.scopedGenerators.get? q' = none := by
      intro q' hne
      have hnone : ((t.handleEventCompletion u g.event).scopedGenerators.erase q).get? q' = none :=
        hgen q'
      rw [Table.get?_erase, if_neg hne, hquiet.scopedGenerators] at hnone
      exact hw.kept _ hnone
    have hstopped : ∀ d m, s.services.get? d = some m →
        m.isInternalManager = true ∨ m.state = .installed := by
      refine hw.stopped fun d m hget => hall d m ?_
      show (t.handleEventCompletion u g.event).services.get? d = some m
      rw [hquiet.services]
      exact hget
    refine ⟨hr, allServicesStopped_iff.mpr hstopped, g, hg, ?_, hothers⟩
    have hfits := hco.fits q g hg
    have hshaped := hco.shaped q g hg
    rw [hv] at hfits ⊢
    unfold Shaped at hshaped
    generalize hcog : g.generator.coroutine = co at hfits hshaped
    cases hfits with
    | user => exact absurd hcog (huser g hg)
    | startFailed => rfl
    | startedUp _ _ _ _ hk hs =>
      rcases hs with hs | hs | hs
      all_goals exact (not_stopped hs hk (by simp) (by simp) hstopped).elim
    | stopped =>
      obtain ⟨remove, hbody⟩ := hshaped
      exact absurd hbody (hb _ remove)
    | leaving _ _ hk hs =>
      exact (not_stopped hs hk (by simp) (by simp) hstopped).elim

theorem handleContinuable_of_unchecked
    (hc : (s.handleContinuable u q).check = false) : (s.handleContinuable u q).manager = s := by
  unfold handleContinuable at hc ⊢
  split at hc
  · rfl
  · split at hc
    · cases hc
    · cases hc
    · split at hc <;> cases hc

theorem failed_of_settles (hset : Settles e.body)
    (hh : s.handle u e = some out) (hc : out.check = false) (hm : QuitMissed out.manager)
    (hco : Coroutines (core s).kind (core s).state (core s).dee (core s).generator)
    (huser : ∀ q g, e.body = .continuableStart q → s.scopedGenerators.get? q = some g →
      g.generator.coroutine ≠ .user) :
    QuitMissed s ∨ s.quitEventReceived = true ∧ s.allServicesStopped = true ∧
      ∃ q g, e.body = .continuableStart q ∧ s.scopedGenerators.get? q = some g ∧
        g.generator.state = .finished .stopped ∧
        ∀ q', q' ≠ q → s.scopedGenerators.get? q' = none := by
  unfold Settles at hset
  split at hset
  · rename_i d removeAfter hb
    simp only [handle, hb] at hh
    exact .inl (quitMissed_stopEnd (stopEnd_handleStopService u e d removeAfter out hh) hc hm)
  · rename_i q hb
    simp only [handle, hb] at hh
    cases hh
    rw [handleContinuable_of_unchecked hc] at hm
    exact .inl hm
  · rename_i q hb
    simp only [handle, hb] at hh
    have hend := continuationEnd_handleContinuableStart u e q out hh
    rcases failed_of_continuationEnd hend hc hm hco fun g hg => huser q g hb hg with
      hmissed | ⟨hr, hall, g, hg, hv, hothers⟩
    · exact .inl hmissed
    · exact .inr ⟨hr, hall, q, g, hb, hg, hv, hothers⟩
  · exact hset.elim

theorem not_quitMissed_step (hinv : Inv (core s)) (hinv' : Inv (core s'))
    (hn : next a s = some s') (hs : ¬QuitMissed s) (hcond : ¬FailedStartEndsLast s a) :
    ¬QuitMissed s' := by
  intro hm
  have hpath := path_next a hinv hn
  rcases next_cases hn with ⟨index, u, e, rfl, he, hp⟩ | ⟨_, hmove⟩
  swap
  · exact hs (quitMissed_userMove hmove hm)
  have hpre := same_preIntercept (s.dequeue index) u e
  cases hp with
  | dead hq => exact absurd (hq.symm.trans hm.2.1) (by simp)
  | quits => exact absurd hm.2.1 (by simp [quitted])
  | vetoed hq ha =>
    have hveto := QuitMissed.of_same (hpre.trans (same_finishEvent _ _ _ _ _)) hm
    exact hs hveto
  | handled out hq ha hh hc =>
    have hout : QuitMissed out.manager := QuitMissed.of_same (same_finishEvent _ _ _ _ _) hm
    cases hcheck : out.check with
    | true => exact not_quitMissed_of_check (hc hcheck) hout
    | false =>
      by_cases hset : Settles e.body
      · obtain ⟨calls, _, hview⟩ := view_same hpre [] .idle []
        have hcore : core ((s.dequeue index).preIntercept u e).1 =
            (core (s.dequeue index)).record calls := hview
        have hco := hinv.coroutines
        have huser : ∀ q g, e.body = .continuableStart q →
            ((s.dequeue index).preIntercept u e).1.scopedGenerators.get? q = some g →
            g.generator.coroutine ≠ .user := by
          intro q g hb hg
          rw [hpre.scopedGenerators] at hg
          exact hinv.fresh.ofManager e (List.mem_of_getElem? he) q g hb hg
        rcases failed_of_settles hset hh hcheck hout (by rw [hcore]; exact hco) huser with
          hmissed | ⟨hr, hall, q, g, hb, hg, hv, hothers⟩
        · have hbefore := QuitMissed.of_same hpre hmissed
          exact hs hbefore
        · rw [hpre.scopedGenerators] at hg hothers
          rw [hpre.quitEventReceived] at hr
          unfold allServicesStopped at hall
          rw [hpre.services] at hall
          exact hcond ⟨hr, hall, e, q, g, he, hb, hg, hv, hothers⟩
      · have hnq : e.body ≠ .quit := by
          intro hb
          simp only [handle, hb] at hh
          cases hh
          cases hcheck
        have hr : s.quitEventReceived = true := by
          have hsame := ((handle_flags hh).2 hnq).trans hpre.quitEventReceived
          exact hsame.symm.trans hout.1
        have hbusy : (core s).Busy := (busy_iff_not_atRest hinv).mpr fun hrest => hs ⟨hr, hq, hrest⟩
        have ho : (origin s (.processEvent index u)).event = some e := by
          simp only [origin, he]
        exact (busy_iff_not_atRest hinv').mp (busy_path ho hset hbusy hpath hm.2.1) hm.2.2

/-- An interceptor vetoes the event that would go on with a stored coroutine. -/
def VetoesContinuation (s : DependencyManager) : Action → Prop
  | .processEvent index u => ∃ e q, s.queue[index]? = some e ∧ continues q e.body ∧
      (s.preIntercept u e).2 = false
  | _ => False

/-- The end of every coroutine is noticed. -/
def EndsNoticed (s : DependencyManager) (a : Action) : Prop :=
  ¬FailedStartEndsLast s a ∧ ¬VetoesContinuation s a

theorem allowed_of_endsNoticed (h : EndsNoticed s a) {q : PromiseId}
    (he : (origin s a).event = some e) (hc : continues q e.body) : (origin s a).allowed = true := by
  cases a with
  | processEvent index u =>
    unfold origin at he ⊢
    dsimp only at he ⊢
    cases hidx : s.queue[index]? with
    | none => rfl
    | some e' =>
      rw [hidx] at he
      obtain rfl : e' = e := Option.some.inj he
      by_contra hno
      exact h.2 ⟨e', q, hidx, hc, by simpa using hno⟩
  | _ => rfl

section
variable {order : QueueOrder} {internals : List NameHash}
  (h : RunWhere order EndsNoticed (initial internals) s)
include h

theorem not_quitMissed_of_run : ¬QuitMissed s := by
  induction h with
  | refl =>
    rintro ⟨hr, _⟩
    exact absurd ((quitEventReceived_initial internals).symm.trans hr) Bool.false_ne_true
  | @tail t s hrun hstep ih =>
    obtain ⟨a, ⟨hg, hcond⟩, hn⟩ := hstep
    exact not_quitMissed_step (inv_of_reachable ⟨internals, hrun⟩)
      (inv_of_reachable ⟨internals, hrun.tail ⟨a, ⟨hg, hcond⟩, hn⟩⟩) hn ih hcond.1

/-- As long as the manager has not quit, a stored coroutine is suspended or its continuation is
queued. -/
theorem booked_of_run (hd : s.quitDone = false) : Booked (core s) := by
  induction h with
  | refl =>
    rw [(booted_initial internals).rest]
    intro q g hg
    cases hg
  | @tail t s hrun hstep ih =>
    obtain ⟨a, ⟨hg, hcond⟩, hn⟩ := hstep
    have hdone : t.quitDone = false := by
      by_contra hno
      have hlater := quitDone_of_run (.single ⟨a, ⟨hg, hcond⟩, hn⟩) (by simpa using hno)
      exact Bool.false_ne_true (hd.symm.trans hlater)
    have hinv := inv_of_reachable ⟨internals, hrun⟩
    exact ((ih hdone).path hinv (fun _ _ => allowed_of_endsNoticed hcond)
      (path_next a hinv hn) hd).2

end

theorem handle_received (h : s.handle u e = some out)
    (hs : e.body = .quit ∨ s.quitEventReceived = true) : out.manager.quitEventReceived = true := by
  by_cases hb : e.body = .quit
  · simp only [handle, hb] at h
    cases h
    exact (calm_handleQuit s e).toMoves.flags.2
  · rw [(handle_flags h).2 hb]
    exact hs.resolve_left hb

theorem Processed.noted (h : Processed s u e s')
    (hs : e.body = .quit ∧ (s.preIntercept u e).2 = true ∨ s.quitEventReceived = true) :
    s'.quitDone = true ∨ s'.quitEventReceived = true := by
  have hpre := (flags_preIntercept s u e).2
  cases h with
  | dead hq => exact .inl hq
  | vetoed hq ha =>
    right
    rw [(flags_finishEvent _ u e _ false).2, hpre]
    exact hs.resolve_left fun hquit => absurd (ha.symm.trans hquit.2) Bool.false_ne_true
  | handled out hq ha hh hc =>
    right
    rw [(flags_finishEvent _ u e _ true).2]
    exact handle_received hh (hs.imp And.left hpre.trans)
  | quits => exact .inl rfl

theorem noted_of_run {order : QueueOrder} {condition : DependencyManager → Action → Prop}
    (h : RunWhere order condition s s') (hs : s.quitDone = true ∨ s.quitEventReceived = true) :
    s'.quitDone = true ∨ s'.quitEventReceived = true := by
  refine GuardedRuns.Run.invariant h (fun x => x.quitDone = true ∨ x.quitEventReceived = true) hs ?_
  intro x a y hx hg hn
  rcases hx with hx | hx
  · exact .inl (quitDone_of_run (.single ⟨a, hg, hn⟩) hx)
  · rcases next_cases hn with ⟨index, u, e, rfl, he, hp⟩ | ⟨_, hm⟩
    · exact hp.noted (.inr hx)
    · exact .inr (hm.flags.2.trans hx)

theorem noted_of_quitProcessed {order : QueueOrder}
    {condition : DependencyManager → Action → Prop} {origin : DependencyManager}
    (h : QuitProcessed order condition origin s) :
    s.quitDone = true ∨ s.quitEventReceived = true := by
  obtain ⟨t, b, t', _, hb, hn, hrun⟩ := h
  refine noted_of_run hrun ?_
  rcases next_cases hn with ⟨index, u, e, rfl, he, hp⟩ | ⟨hno, _⟩
  · obtain ⟨e', he', hquit⟩ := hb
    have heq : e = e' := Option.some.inj (he.symm.trans he')
    subst heq
    exact hp.noted (.inl hquit)
  · cases b with
    | processEvent index u => exact absurd rfl (hno index u)
    | _ => exact hb.elim

/-- In a run in which the end of every coroutine is noticed, quitting is done as soon as a QuitEvent
was processed, nothing is queued or suspended and every service has stopped. -/
theorem quit_is_reached (order : QueueOrder) (internals : List NameHash) (s : DependencyManager)
    (hrun : RunWhere order EndsNoticed (initial internals) s)
    (hquit : QuitProcessed order EndsNoticed (initial internals) s) (hqueue : s.queue = [])
    (hgen : ∀ q g, s.scopedGenerators.get? q = some g → g.generator.state ≠ .suspended)
    (hall : ∀ d m, s.services.get? d = some m → m.isInternalManager = true ∨ m.state = .installed) :
    s.quitDone = true := by
  rcases noted_of_quitProcessed hquit with hdone | hr
  · exact hdone
  · by_contra hno
    have hd : s.quitDone = false := by simpa using hno
    refine not_quitMissed_of_run hrun ⟨hr, hd, fun q => ?_, hall⟩
    cases hg : s.scopedGenerators.get? q with
    | none => rfl
    | some g =>
      have hbooked : continuations q s.queue = expected q g := booked_of_run hrun hd q g hg
      rw [hqueue, expected_of_ne (hgen q g hg)] at hbooked
      cases hbooked

/-- The step continues no stored coroutine. -/
def continuesNothing (s : DependencyManager) : Action → Bool
  | .processEvent index _ =>
    match s.queue[index]? with
    | some ⟨_, _, _, .continuableStart _⟩ | some ⟨_, _, _, .continuable _⟩ => false
    | _ => true
  | _ => true

theorem endsNoticed_of_continuesNothing (s : DependencyManager) (a : Action)
    (h : continuesNothing s a = true) : EndsNoticed s a := by
  cases a with
  | processEvent index u =>
    constructor
    · rintro ⟨_, _, ⟨id, o, priority, body⟩, q, g, he, hb, _⟩
      dsimp only at hb
      subst hb
      simp only [continuesNothing, he] at h
      cases h
    · rintro ⟨⟨id, o, priority, body⟩, q, he, hc, _⟩
      simp only [continuesNothing, he] at h
      cases body <;> first | exact hc | cases h
  | _ => exact ⟨id, id⟩

theorem quit_reached_after_start :
    ∃ s, RunWhere orderedPriorityQueue EndsNoticed (initial [0]) s ∧ s.quitDone = true := by
  have hend : (play continuesNothing [.act (.createServiceManager (.simple [] [])),
      .drain 9 .prompt, .act (.pushEvent 0 internalEventPriority .quit), .drain 9 .prompt]
      (initial [0])).any (fun s => s.quitEventReceived && s.queue.isEmpty &&
        s.scopedGenerators.isEmpty && s.allServicesStopped) = true := by
    decide +kernel
  obtain ⟨s, hs, hP⟩ := ends_of_play hend
  simp only [Bool.and_eq_true, List.isEmpty_iff] at hP
  obtain ⟨⟨⟨hr, hqueue⟩, hempty⟩, hall⟩ := hP
  have hrun := run_play endsNoticed_of_continuesNothing hs
  refine ⟨s, hrun, quit_is_reached orderedPriorityQueue [0] s hrun
    (quitProcessed_of_received hrun rfl hr) hqueue (fun q g hg => ?_)
    (allServicesStopped_iff.mp hall)⟩
  rw [(Table.isEmpty_iff _).mp hempty q] at hg
  cases hg

/-- The manager quits while the only service is still starting, and the start fails. -/
def failedStartScript : List Instruction :=
  [.act (.createServiceManager (.simple [] [])), .drain 9 .slow,
    .act (.pushEvent 0 internalEventPriority .quit), .drain 9 .prompt,
    .act (.finishStart 1 false), .drain 9 .prompt]

theorem quit_missed_after_failed_start :
    ∃ s, RunWhere orderedPriorityQueue (fun _ _ => True) (initial [0]) s ∧
      QuitProcessed orderedPriorityQueue (fun _ _ => True) (initial [0]) s ∧
      s.queue = [] ∧ s.scopedGenerators.isEmpty = true ∧ s.allServicesStopped = true ∧
      s.eventWaiters.isEmpty = true ∧ s.dependencyWaiters.isEmpty = true ∧
      s.pendingStopsDueToCoroutine.isEmpty = true ∧
      s.pendingStopsDueToDependencies.isEmpty = true ∧ s.quitDone = false := by
  have hend : (play (fun _ _ => true) failedStartScript (initial [0])).any (fun s =>
      s.quitEventReceived && s.queue.isEmpty && s.scopedGenerators.isEmpty &&
      s.allServicesStopped && s.eventWaiters.isEmpty && s.dependencyWaiters.isEmpty &&
      s.pendingStopsDueToCoroutine.isEmpty && s.pendingStopsDueToDependencies.isEmpty &&
      !s.quitDone) = true := by
    decide +kernel
  obtain ⟨s, hrun, hs⟩ := reaches hend
  simp only [Bool.and_eq_true, Bool.not_eq_true', List.isEmpty_iff] at hs
  obtain ⟨⟨⟨⟨⟨⟨⟨⟨hr, hq⟩, hg⟩, hall⟩, hew⟩, hdw⟩, hpc⟩, hpd⟩, hd⟩ := hs
  exact ⟨s, hrun, quitProcessed_of_received hrun rfl hr, hq, hg, hall, hew, hdw, hpc, hpd, hd⟩

end
end Ichor.DependencyManager
