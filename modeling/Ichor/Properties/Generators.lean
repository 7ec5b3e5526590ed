import Ichor.Abstract.Bookkeeping
import Ichor.Properties.Quit

/-! The table of suspended generators. Its entries are suspended, or have ended and wait for one
continuation event; they leave the table when that event is processed, and never come back. -/
namespace Ichor.DependencyManager
open FiniteTable Lifecycle

variable {s s' t : DependencyManager}

/-- The step processes no QuitEvent, no interceptor vetoes its event, and no user code yields. -/
def NoQuitVetoOrYield (s : DependencyManager) : Action → Prop
  | .processEvent index u => (∀ n, u.generator n ≠ .yielded) ∧
      ∀ e, s.queue[index]? = some e → e.body ≠ .quit ∧ (s.preIntercept u e).2 = true
  | .yieldGenerator _ => False
  | _ => True

/-! ## Yielding -/

/-- User code under this promise has yielded. -/
def Yielded (s : DependencyManager) (q : PromiseId) : Prop :=
  ∃ g, s.scopedGenerators.get? q = some g ∧ g.generator.coroutine = .user ∧
    g.generator.state = .yielded

/-- Whatever has yielded had done so before. -/
def NoYield (s s' : DependencyManager) : Prop := ∀ q, s'.Yielded q → s.Yielded q

namespace NoYield

theorem of_eq (h : s'.scopedGenerators = s.scopedGenerators) : NoYield s s' := by
  rintro q ⟨g, hg, hy⟩
  rw [h] at hg
  exact ⟨g, hg, hy⟩

theorem trans (h : NoYield s t) (h' : NoYield t s') : NoYield s s' := fun q hq => h q (h' q hq)

theorem of_moves (h : Moves s s') : NoYield s s' := by
  rintro q ⟨g, hg, hc, hy⟩
  exact ⟨g, h.users q g hc hg, hc, hy⟩

theorem of_same (h : SameLifecycles s s') : NoYield s s' := of_eq h.scopedGenerators

theorem scope (s : DependencyManager) (q : PromiseId) (g : ScopedGenerator)
    (hs : g.generator.state = .suspended) : NoYield s (s.scopeGenerator q g) := by
  rintro x ⟨g', hg', hc, hy⟩
  unfold scopeGenerator at hg'
  dsimp only at hg'
  rw [Table.get?_emplace] at hg'
  split at hg'
  · next hx =>
    subst hx
    cases hold : s.scopedGenerators.get? x with
    | none =>
      rw [hold] at hg'
      cases hg'
      rw [hs] at hy
      cases hy
    | some old =>
      rw [hold] at hg'
      exact ⟨g', hold.trans hg', hc, hy⟩
  · exact ⟨g', hg', hc, hy⟩

theorem erase (s : DependencyManager) (q : PromiseId) : NoYield s (s.eraseGenerator q) := by
  rintro x ⟨g, hg, hy⟩
  unfold eraseGenerator at hg
  dsimp only at hg
  rw [Table.get?_erase] at hg
  split at hg
  · cases hg
  · exact ⟨g, hg, hy⟩

variable {u : UserCode}

theorem runGenerator (s : DependencyManager) (hu : ∀ n, u.generator n ≠ .yielded)
    (c : Call) (svc : ServiceId) (priority : ℕ) (e : Event) (ref : Option ℕ) :
    NoYield s (s.runGenerator u c svc priority e ref).1 := by
  unfold DependencyManager.runGenerator beginGenerator
  dsimp only
  cases hanswer : u.generator ((s.call c).takePromiseId).trace.length with
  | done => exact of_eq rfl
  | suspended =>
    have hcall : NoYield s ((s.call c).takePromiseId) := of_eq rfl
    exact hcall.trans (scope _ _ _ rfl)
  | yielded => exact absurd hanswer (hu _)

section
variable (hu : ∀ n, u.generator n ≠ .yielded)
include hu

theorem housekeeping (h : Housekeeping u s s') : NoYield s s' := by
  induction h with
  | quiet hq => exact of_same hq
  | generator s c svc priority e ref _ => exact runGenerator s hu c svc priority e ref
  | trans _ _ ih ih' => exact ih.trans ih'

theorem removeInternalService (d : ServiceId)
    (h : s.removeInternalService u d = some s') : NoYield s s' := by
  obtain ⟨_, t, _, _, _, hkeep, rfl⟩ := removeInternalService_cases h
  exact (housekeeping hu hkeep).trans (of_eq rfl)

theorem endsStop {d : ServiceId}
    {removeAfter : Bool} (h : EndsStop s u d removeAfter s') : NoYield s s' :=
  h.rel NoYield.trans of_moves (of_eq rfl) (removeInternalService hu d)

end

theorem completed (u : UserCode) (e : Event) (q : PromiseId) :
    NoYield s ((s.handleEventCompletion u e).eraseGenerator q) :=
  (of_same (same_handleEventCompletion s u e)).trans (erase _ q)

theorem finishGenerator (u : UserCode) (q : PromiseId) (g : ScopedGenerator) :
    NoYield s (s.finishGenerator u q g) :=
  finishGenerator_rel (fun _ => of_eq rfl) NoYield.trans (fun _ _ _ _ => of_eq rfl)
    (fun t => erase t q) (of_same (same_handleEventCompletion s u g.event))

theorem handleContinuable (q : PromiseId) (hs : ∀ q, ¬s.Yielded q)
    (huser : ∀ g, s.scopedGenerators.get? q = some g → g.generator.coroutine = .user) :
    NoYield s (s.handleContinuable u q).manager := by
  unfold DependencyManager.handleContinuable
  cases hg : s.scopedGenerators.get? q with
  | none => exact of_eq rfl
  | some g =>
    dsimp only
    cases hst : g.generator.state with
    | finished v => exact finishGenerator u q g
    | suspended => exact of_eq rfl
    | yielded => exact absurd ⟨g, hg, huser g hg, hst⟩ (hs q)

end NoYield

variable {e : Event} {u : UserCode} {a : Action} {g : ScopedGenerator} {q : PromiseId}

variable {out : Handled}

theorem noYield_handling (hu : ∀ n, u.generator n ≠ .yielded) (hs : ∀ q, ¬s.Yielded q)
    (huser : ∀ q g, e.body = .continuable q → s.scopedGenerators.get? q = some g →
      g.generator.coroutine = .user) (h : Handling s u e out) : NoYield s out.manager := by
  cases h with
  | lifecycle t hb hm => exact .of_moves hm
  | request hash r hb => exact .housekeeping hu (housekeeping_handleDependencyRequest s u e hash r)
  | quit hb =>
    have hflag : NoYield s { s with quitEventReceived := true } := .of_eq rfl
    exact hflag.trans (.of_moves (calm_handleQuit s e).toMoves)
  | insert m t hb hm =>
    have hinsert : NoYield s (s.insert e.originatingService m) := .of_eq rfl
    exact hinsert.trans (.of_moves hm)
  | stop d removeAfter _ hb hend =>
    cases hend with
    | moved _ hm => exact .of_moves hm.toMoves
    | suspended t q priority hm => exact (NoYield.of_moves hm).trans (.scope t q _ rfl)
    | ended t hend => exact .endsStop hu hend
  | started d t hb hm => exact .of_moves hm
  | startSuspended d t priority hb hm => exact (NoYield.of_moves hm).trans (.scope t _ _ rfl)
  | remove d t hb hr => exact .removeInternalService hu d hr
  | addTracker hash hb => exact .housekeeping hu (housekeeping_handleAddTracker s u e hash)
  | removeTracker hash hb => exact .of_same (same_handleRemoveTracker s e hash)
  | continuable q hb => exact .handleContinuable q hs fun g hg => huser q g hb hg
  | continuableStart q _ hb hend =>
    cases hend with
    | stale => exact .of_eq rfl
    | moved g v t _ _ _ hm => exact (NoYield.of_moves hm.toMoves).trans (.completed u g.event q)
    | ended g d remove t _ _ hend =>
      exact (NoYield.endsStop hu hend).trans (.completed u g.event q)
  | function hb => exact .of_same (same_handleRunFunction s e)
  | functionAsync hb => exact .housekeeping hu (housekeeping_handleRunFunctionAsync s u e)
  | broadcast hb => exact .housekeeping hu (housekeeping_broadcastEvent s u e)
  | removeIgnored | removeHandler | removeInterceptor => exact .of_eq rfl

theorem noYield_returnValue (s : DependencyManager) (q : PromiseId) (g : ScopedGenerator)
    (v : StartBehaviour) (body : EventBody) : NoYield s (s.returnValue q g v body) := by
  rintro x ⟨g', hg', hc, hy⟩
  unfold returnValue modifyGenerator pushPrioritisedEvent at hg'
  dsimp only at hg'
  rw [Table.get?_modify] at hg'
  split at hg'
  · obtain ⟨old, hold, rfl⟩ := Option.map_eq_some_iff.mp hg'
    cases hy
  · exact ⟨g', hg', hc, hy⟩

theorem noYield_userCode (hp : ∀ index u, a ≠ .processEvent index u)
    (hy : ∀ q, a ≠ .yieldGenerator q) (h : next a s = some s') : NoYield s s' := by
  have hreturns : ∀ (t : DependencyManager) q g v body,
      t.scopedGenerators = s.scopedGenerators → NoYield s (t.returnValue q g v body) :=
    fun t q g v body ht => (NoYield.of_eq ht).trans (noYield_returnValue t q g v body)
  cases a with
  | processEvent index u => exact absurd rfl (hp index u)
  | yieldGenerator q => exact absurd rfl (hy q)
  | pushEvent o priority body
  | registerEventHandler d type target | registerEventInterceptor d type =>
    simp only [next] at h
    split at h <;> cases h
    exact .of_eq rfl
  | pushEventAsync q o priority coalesce body =>
    simp only [next, pushEventAsync] at h
    split at h
    · split at h
      · cases h
      · split at h
        · cases h
        · split at h <;> cases h <;> exact .of_eq rfl
    · cases h
  | waitForServiceStarted q d | waitForServiceStopped q d =>
    simp only [next, waitForServiceEvent] at h
    split at h
    · cases h
    · split at h <;> cases h
      exact .of_eq rfl
  | createServiceManager desc =>
    cases h
    rw [createServiceManager_eq]
    exact .of_eq rfl
  | registerDependencyTracker d hash =>
    simp only [next, registerDependencyTracker] at h
    split at h
    · cases h
    · split at h <;> cases h
      exact .of_eq rfl
  | finishStart q success =>
    simp only [next, finishStart] at h
    split at h
    · cases h
    · next g hg =>
      split at h <;> cases h <;> exact hreturns (s.setState _ _) q g _ _ rfl
  | finishStop q =>
    simp only [next, finishStopCoroutine] at h
    split at h
    · cases h
    · next g hg =>
      split at h <;> cases h
      exact hreturns ((s.setState _ _).call _) q g _ _ rfl
  | finishGenerator q =>
    simp only [next, finishUserGenerator] at h
    split at h
    · cases h
    · next g hg =>
      split at h <;> cases h
      exact hreturns s q g _ _ rfl

/-! ## Runs without a quit, a veto or a `co_yield` -/

/-- What holds between two events of such a run. -/
structure BetweenEvents (s : DependencyManager) : Prop where
  inv : Inv (core s)
  notReceived : s.quitEventReceived = false
  notDone : s.quitDone = false
  noYield : ∀ q, ¬s.Yielded q
  booked : Booked (core s)

theorem BetweenEvents.initial (internals : List NameHash) : BetweenEvents (initial internals) := by
  have hinv := (booted_initial internals).inv
  have hboot := (booted_initial internals).rest
  generalize DependencyManager.initial internals = s at hboot hinv
  rw [hboot] at hinv ⊢
  refine ⟨hinv, rfl, rfl, ?_, ?_⟩
  · rintro q ⟨_, hg, _⟩
    cases hg
  · intro q g hg
    cases hg

theorem allowed_origin (h : NoQuitVetoOrYield s a) : (origin s a).allowed = true := by
  cases a with
  | processEvent index u =>
    unfold origin
    dsimp only
    cases he : s.queue[index]? with
    | none => rfl
    | some e => exact (h.2 e he).2
  | _ => rfl

theorem notQuit_step (hr : s.quitEventReceived = false) (hd : s.quitDone = false)
    (hu : NoQuitVetoOrYield s a) (hn : next a s = some s') :
    s'.quitEventReceived = false ∧ s'.quitDone = false := by
  have hreceived : s'.quitEventReceived = false := by
    by_contra hne
    have hquit := processesQuit_of_received hn hr (by simpa using hne)
    cases a with
    | processEvent index u =>
      obtain ⟨e, he, hb, _⟩ := hquit
      exact (hu.2 e he).1 hb
    | _ => exact hquit
  refine ⟨hreceived, ?_⟩
  by_contra hne
  obtain ⟨m, _, hcan, rfl⟩ := atCheck_of_quitDone hn hd (by simpa using hne)
  have hflag : m.quitEventReceived = false := hreceived
  rw [hcan.received] at hflag
  cases hflag

theorem BetweenEvents.noYield_step (h : BetweenEvents s) (hu : NoQuitVetoOrYield s a)
    (hn : next a s = some s') (q : PromiseId) : ¬s'.Yielded q := by
  have hback : NoYield s s' := by
    rcases next_cases hn with ⟨index, u, e, rfl, he, hproc⟩ | ⟨hp, _⟩
    · have hgen : ((s.dequeue index).preIntercept u e).1.scopedGenerators = s.scopedGenerators :=
        (same_preIntercept (s.dequeue index) u e).scopedGenerators
      have hpre : NoYield s ((s.dequeue index).preIntercept u e).1 := .of_eq hgen
      cases hproc with
      | dead => exact .of_eq rfl
      | vetoed _ ha => exact absurd ((hu.2 e he).2.symm.trans ha) (by decide)
      | handled out _ _ hh _ =>
        have huser : ∀ q g, e.body = .continuable q →
            ((s.dequeue index).preIntercept u e).1.scopedGenerators.get? q = some g →
            g.generator.coroutine = .user := by
          intro q g hb hg
          rw [hgen] at hg
          exact h.inv.fresh.ofUser e (List.mem_of_getElem? he) q g hb hg
        have hhandled := noYield_handling hu.1 (fun q hq => h.noYield q (hpre q hq)) huser
          (handling_handle hh)
        exact (hpre.trans hhandled).trans (.of_same (same_finishEvent out.manager u e out true))
      | quits out hq ha hh hc can =>
        have hflag := (notQuit_step h.notReceived h.notDone hu hn).2
        cases hflag
    · cases a with
      | yieldGenerator q => exact hu.elim
      | _ => exact noYield_userCode hp (fun _ => Action.noConfusion) hn
  exact fun hq => h.noYield q (hback q hq)

theorem BetweenEvents.step (h : BetweenEvents s) (hu : NoQuitVetoOrYield s a)
    (hn : next a s = some s') : BetweenEvents s' := by
  obtain ⟨hr, hd⟩ := notQuit_step h.notReceived h.notDone hu hn
  obtain ⟨hi, hb⟩ := h.booked.path h.inv (fun _ _ _ _ => allowed_origin hu)
    (path_next a h.inv hn) hd
  exact ⟨hi, hr, hd, h.noYield_step hu hn, hb⟩

variable {order : QueueOrder}

theorem BetweenEvents.run (hs : BetweenEvents s) (h : RunWhere order NoQuitVetoOrYield s s') :
    BetweenEvents s' :=
  GuardedRuns.Run.invariant h BetweenEvents hs fun _ _ _ ht hu hn => ht.step hu.2 hn

/-! ## Entries that end -/

theorem BetweenEvents.entry (h : BetweenEvents s) (hg : s.scopedGenerators.get? q = some g) :
    (g.generator.state = .suspended ∧ continuations q s.queue = []) ∨
      ∃ v, g.generator.state = .finished v ∧ continuations q s.queue = [continuation q g] := by
  have hbooked : continuations q s.queue = expected q g := h.booked q g hg
  by_cases hs : g.generator.state = .suspended
  · exact .inl ⟨hs, hbooked.trans (expected_suspended hs)⟩
  · right
    rw [expected_of_ne hs] at hbooked
    by_cases hc : g.generator.coroutine = .user
    · cases hst : g.generator.state with
      | suspended => exact absurd hst hs
      | yielded => exact absurd ⟨g, hg, hc, hst⟩ (h.noYield q)
      | finished v => exact ⟨v, rfl, hbooked⟩
    · obtain ⟨v, hv⟩ := Booked.finished_of_manager h.inv hg hc hs
      exact ⟨v, hv, hbooked⟩

theorem get?_eraseGenerator (s : DependencyManager) (q : PromiseId) :
    (s.eraseGenerator q).scopedGenerators.get? q = none := by
  unfold eraseGenerator
  dsimp only
  rw [Table.get?_erase, if_pos rfl]

theorem erased_of_handling {v : StartBehaviour} (hg : s.scopedGenerators.get? q = some g)
    (hv : g.generator.state = .finished v) (he : continues q e.body) (h : Handling s u e out) :
    out.manager.scopedGenerators.get? q = none := by
  cases h with
  | continuable q' hb =>
    rw [hb] at he
    obtain rfl : q' = q := he
    unfold handleContinuable
    rw [hg]
    dsimp only
    rw [hv]
    exact get?_eraseGenerator _ q'
  | continuableStart q' _ hb hend =>
    rw [hb] at he
    obtain rfl : q' = q := he
    cases hend with
    | stale hno => exact absurd hv (hno g v hg)
    | moved | ended => exact get?_eraseGenerator _ q'
  | lifecycle t hb => rcases hb with hb | ⟨_, hb⟩ <;> exact (hb ▸ he).elim
  | broadcast hb => rcases hb with ⟨_, hb⟩ | ⟨_, _, _, hb⟩ | ⟨_, hb⟩ <;> exact (hb ▸ he).elim
  | request _ _ hb | quit hb | insert _ _ hb | stop _ _ _ hb | started _ _ hb
  | startSuspended _ _ _ hb | removeIgnored _ hb | remove _ _ hb | removeHandler _ _ hb
  | removeInterceptor _ _ hb | addTracker _ hb | removeTracker _ hb | function hb
  | functionAsync hb => exact (hb ▸ he).elim

variable {index : ℕ}

theorem BetweenEvents.erased (h : BetweenEvents s) (hu : NoQuitVetoOrYield s (.processEvent index u))
    (he : s.queue[index]? = some e) (hg : s.scopedGenerators.get? q = some g)
    (hb : e.body = continuation q g) (hn : next (.processEvent index u) s = some s') :
    s'.scopedGenerators.get? q = none := by
  have hcont : isContinuation q e.body = true := by
    rw [hb]
    unfold continuation
    split <;> simp [isContinuation]
  have hmem : e.body ∈ continuations q s.queue :=
    List.mem_filter.mpr ⟨List.mem_map_of_mem (List.mem_of_getElem? he), hcont⟩
  rcases h.entry hg with ⟨_, hnone⟩ | ⟨v, hv, _⟩
  · rw [hnone] at hmem
    cases hmem
  · have hgen : ((s.dequeue index).preIntercept u e).1.scopedGenerators = s.scopedGenerators :=
      (same_preIntercept (s.dequeue index) u e).scopedGenerators
    obtain ⟨e', he', hproc⟩ := processNext_eq_some hn
    obtain rfl : e = e' := Option.some.inj (he.symm.trans he')
    cases hproc with
    | dead hq => exact absurd (h.notDone.symm.trans hq) (by decide)
    | vetoed _ ha => exact absurd ((hu.2 e he).2.symm.trans ha) (by decide)
    | handled out _ _ hh _ =>
      rw [(same_finishEvent out.manager u e out true).scopedGenerators]
      exact erased_of_handling (by rw [hgen]; exact hg) hv (isContinuation_iff.mp hcont)
        (handling_handle hh)
    | quits out =>
      have hflag := (notQuit_step h.notReceived h.notDone hu hn).2
      cases hflag

theorem BetweenEvents.entry_step (h : BetweenEvents s) (q : PromiseId) (hn : next a s = some s') :
    Entry (origin s a) q (core s) (core s') :=
  .path (path_next a h.inv hn)

theorem BetweenEvents.continued (h : BetweenEvents s)
    (hg : s.scopedGenerators.get? q = some g) (hn : next a s = some s')
    (hnone : s'.scopedGenerators.get? q = none) :
    ∃ index u e, a = .processEvent index u ∧ s.queue[index]? = some e ∧
      e.body = continuation q g := by
  have hsome : (core s).generator q ≠ none := by
    intro hno
    cases hg.symm.trans hno
  obtain ⟨e, he, hcont⟩ := (h.entry_step q hn).erased hsome hnone
  cases a with
  | processEvent index u =>
    unfold origin at he
    dsimp only at he
    cases hidx : s.queue[index]? with
    | none =>
      rw [hidx] at he
      cases he
    | some e' =>
      rw [hidx] at he
      obtain rfl : e' = e := Option.some.inj he
      refine ⟨index, u, e', rfl, hidx, ?_⟩
      have hmem : e'.body ∈ continuations q s.queue :=
        List.mem_filter.mpr ⟨List.mem_map_of_mem (List.mem_of_getElem? hidx),
          isContinuation_iff.mpr hcont⟩
      rcases h.entry hg with ⟨_, hempty⟩ | ⟨v, _, hone⟩
      · rw [hempty] at hmem
        cases hmem
      · rw [hone] at hmem
        exact List.mem_singleton.mp hmem
  | _ => cases he

theorem BetweenEvents.absent (hs : BetweenEvents s) (h : RunWhere order NoQuitVetoOrYield s s')
    (hlt : q < s.nextPromiseId) : q < s'.nextPromiseId ∧
      (s.scopedGenerators.get? q = none → s'.scopedGenerators.get? q = none) := by
  have hrun := GuardedRuns.Run.invariant h (fun t => BetweenEvents t ∧ q < t.nextPromiseId ∧
    (s.scopedGenerators.get? q = none → t.scopedGenerators.get? q = none)) ⟨hs, hlt, id⟩ ?_
  · exact hrun.2
  · rintro x a y ⟨ht, hx, hno⟩ ⟨_, hu⟩ hn
    have hentry := ht.entry_step q hn
    exact ⟨ht.step hu hn, Nat.lt_of_lt_of_le hx hentry.counter,
      fun hnone => hentry.fresh (hno hnone) hx⟩

/-- The bookkeeping of stored generators in a run without a quit, a veto or a `co_yield`. -/
theorem generators_booked (order : QueueOrder) (s : DependencyManager)
    (h : ReachableWhere order NoQuitVetoOrYield s) :
    (∀ q g, s.scopedGenerators.get? q = some g →
      (g.generator.state = .suspended ∧ continuations q s.queue = []) ∨
        ∃ v, g.generator.state = .finished v ∧ continuations q s.queue = [continuation q g]) ∧
    s.scopedGenerators.keys.Nodup ∧
    (∀ q g, s.scopedGenerators.get? q = some g → q < s.nextPromiseId) ∧
    (∀ a s' q, respects order s a = true → NoQuitVetoOrYield s a → next a s = some s' →
      s.scopedGenerators.get? q = none → s'.scopedGenerators.get? q ≠ none →
      s.nextPromiseId ≤ q) ∧
    (∀ a s' q g, respects order s a = true → NoQuitVetoOrYield s a → next a s = some s' →
      s.scopedGenerators.get? q = some g →
      (s'.scopedGenerators.get? q = none ↔
        ∃ index u e, a = .processEvent index u ∧ s.queue[index]? = some e ∧
          e.body = continuation q g)) ∧
    ∀ t t' q g, s.scopedGenerators.get? q = some g → RunWhere order NoQuitVetoOrYield s t →
      t.scopedGenerators.get? q = none → RunWhere order NoQuitVetoOrYield t t' →
      t'.scopedGenerators.get? q = none := by
  obtain ⟨internals, hrun⟩ := h
  have ht : BetweenEvents s := (BetweenEvents.initial internals).run hrun
  refine ⟨fun q g hg => ht.entry hg, s.scopedGenerators.nodup, ht.inv.fresh.promise, ?_, ?_, ?_⟩
  · intro a s' q _ _ hn hnone hsome
    by_contra hlt
    exact hsome ((ht.entry_step q hn).fresh hnone (Nat.lt_of_not_le hlt))
  · intro a s' q g _ hu hn hg
    refine ⟨fun hnone => ht.continued hg hn hnone, ?_⟩
    rintro ⟨index, u, e, rfl, he, hb⟩
    exact ht.erased hu he hg hb hn
  · intro t t' q g hg hst hnone htt'
    have hlt := (ht.absent hst (ht.inv.fresh.promise q g hg)).1
    exact ((ht.run hst).absent htt' hlt).2 hnone

theorem calm_slow (he : s.queue[index]? = some e)
    (hb : e.body ≠ .quit) : NoQuitVetoOrYield s (.processEvent index .slow) := by
  refine ⟨fun n => nofun, fun e' he' => ?_⟩
  obtain rfl : e = e' := Option.some.inj (he.symm.trans he')
  refine ⟨hb, ?_⟩
  show ((_ : List EventInterceptInfo).all fun info => true) = true
  exact List.all_eq_true.mpr fun _ _ => rfl

/-- A service whose `start()` suspended and has returned: its continuation is queued. -/
theorem generators_booked_start : ∃ s g,
    ReachableWhere orderedPriorityQueue NoQuitVetoOrYield s ∧ s.scopedGenerators.get? 1 = some g ∧
      g.generator.state = .finished .done ∧ continuations 1 s.queue = [.continuableStart 1] := by
  have hrun : ∃ s, RunWhere orderedPriorityQueue NoQuitVetoOrYield (DependencyManager.initial [0]) s ∧
      ∃ g, s.scopedGenerators.get? 1 = some g ∧ g.generator.state = .finished .done ∧
        continuation 1 g = .continuableStart 1 :=
    ⟨_, .tail (.tail (.tail (.tail .refl
      ⟨.createServiceManager (.simple [] []), ⟨rfl, trivial⟩, rfl⟩)
      ⟨.processEvent 0 .slow, ⟨rfl, calm_slow rfl nofun⟩, rfl⟩)
      ⟨.processEvent 0 .slow, ⟨rfl, calm_slow rfl nofun⟩, rfl⟩)
      ⟨.finishStart 1 true, ⟨rfl, trivial⟩, rfl⟩, _, rfl, rfl, rfl⟩
  obtain ⟨s, hs, g, hg, hv, hc⟩ := hrun
  rcases (generators_booked orderedPriorityQueue s ⟨[0], hs⟩).1 1 g hg with
    ⟨hsus, _⟩ | ⟨_, _, hone⟩
  · rw [hv] at hsus
    cases hsus
  · exact ⟨s, g, ⟨[0], hs⟩, hg, hv, hone.trans (by rw [hc])⟩

end Ichor.DependencyManager
