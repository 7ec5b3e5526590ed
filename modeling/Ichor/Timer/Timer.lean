import Ichor.Lib.Runs
import Mathlib.Data.List.Perm.Basic
import Mathlib.Logic.Function.Iterate

/-! `Timer`: a thread that pushes an event for each expiry, steered from the event loop through a
state and a list of callbacks. The steps are those under the timer's lock; between an expiry and the
next sleep the thread keeps the lock. -/
namespace Ichor
open List

inductive TimerState where
  | stopped | starting | running | stopping
  deriving DecidableEq

/-- A callback given to `stopTimer`, and the number of starts before that call. -/
structure StopCallback where
  id : ℕ
  start : ℕ
  deriving DecidableEq

/-- Where the insertion thread stands in `insertEventLoop`. -/
inductive InsertionThread where
  | none
  | entering (fireImmediately : Bool)
  | looping (now next : ℕ)
  | sleeping (next : ℕ)
  /-- The loop is left, and the scope guard has not run. -/
  | leaving
  deriving DecidableEq

/-- What the event loop is doing with the timer. -/
inductive TimerCaller where
  | idle
  /-- `startTimer` joins the thread of the last start. -/
  | joining (fireImmediately : Bool)
  | destroying
  deriving DecidableEq

inductive TimerEvent where
  | fire (start : ℕ)
  | quit (quitCbs : List StopCallback)

def TimerEvent.callbacks : TimerEvent → List StopCallback
  | .fire _ => []
  | .quit quitCbs => quitCbs

/-- What has happened: a firing was pushed, a callback ran. -/
inductive TimerRecord where
  | fired (start : ℕ)
  | ran (cb : StopCallback)
  deriving DecidableEq

def TimerRecord.callback : TimerRecord → Option StopCallback
  | .fired _ => none
  | .ran cb => some cb

structure Timer where
  fireOnce : Bool
  intervalNanosec : ℕ
  state : TimerState
  quitCbs : List StopCallback
  thread : InsertionThread
  caller : TimerCaller
  queue : List TimerEvent
  /-- The number of starts, all callbacks given so far, and the history, the last first. -/
  starts : ℕ
  given : List StopCallback
  trace : List TimerRecord

namespace Timer

def initial (fireOnce : Bool) (intervalNanosec : ℕ) : Timer :=
  ⟨fireOnce, intervalNanosec, .stopped, [], .none, .idle, [], 0, [], []⟩

/-- The thread holds the lock. -/
def locked (s : Timer) : Bool :=
  match s.thread with
  | .looping _ _ => true
  | _ => false

/-- The thread runs up to the next point where the lock changes hands or an event is pushed. -/
def threadStep (clock : ℕ) (s : Timer) : Timer :=
  match s.thread with
  | .none => s
  | .entering fireImmediately =>
    if s.state ≠ .starting then { s with thread := .leaving }
    else { s with
      state := .running
      thread := .looping clock (if fireImmediately then clock else clock + s.intervalNanosec) }
  | .looping now next =>
    if s.state ≠ .running then { s with thread := .leaving }
    else if now < next then { s with thread := .sleeping next }
    else
      let s := { s with
        queue := s.queue ++ [TimerEvent.fire s.starts], trace := .fired s.starts :: s.trace }
      if s.fireOnce then { s with state := .stopping, thread := .leaving }
      else { s with thread := .looping now (next + s.intervalNanosec) }
  | .sleeping next =>
    if s.state ≠ .running then { s with thread := .leaving }
    else { s with thread := .looping clock next }
  | .leaving => { s with
      queue := s.queue ++ [.quit s.quitCbs], state := .stopped, quitCbs := [], thread := .none }

/-- The end of `startTimer`, with the old thread joined. -/
def launch (s : Timer) (fireImmediately : Bool) : Timer :=
  { s with
    state := .starting, thread := .entering fireImmediately, quitCbs := [], caller := .idle
    starts := s.starts + 1 }

def stopTimer (s : Timer) (cb : Option ℕ) : Timer :=
  let given := (cb.map fun id => (⟨id, s.starts⟩ : StopCallback)).toList
  if s.state = .running ∨ s.state = .stopping then
    { s with quitCbs := s.quitCbs ++ given, given := given ++ s.given, state := .stopping }
  else { s with given := given ++ s.given, trace := given.map .ran ++ s.trace }

/-- The destructor up to the join. -/
def destroy (s : Timer) : Timer :=
  { s with caller := .destroying, state := if s.state = .running then .stopping else s.state }

inductive Act where
  | startTimer (fireImmediately : Bool)
  | joined
  | stopTimer (cb : Option ℕ)
  | destroy
  | thread (clock : ℕ)
  /-- The event loop runs an event of the queue. -/
  | process (index : ℕ)

def act : Act → Timer → Option Timer
  | .startTimer fireImmediately, s =>
    if s.caller ≠ .idle ∨ s.locked then none
    else if s.state = .stopped ∨ s.state = .stopping then
      some { s with caller := .joining fireImmediately }
    else some s
  | .joined, s =>
    match s.caller with
    | .joining fireImmediately => if s.thread = .none then some (s.launch fireImmediately) else none
    | _ => none
  | .stopTimer cb, s => if s.caller ≠ .idle ∨ s.locked then none else some (s.stopTimer cb)
  | .destroy, s => if s.caller ≠ .idle ∨ s.locked then none else some s.destroy
  | .thread clock, s => if s.thread = .none then none else some (s.threadStep clock)
  | .process index, s =>
    if s.caller = .idle ∨ s.thread = .none then
      (s.queue[index]?).map fun e => { s with
        queue := s.queue.eraseIdx index
        trace := (e.callbacks.map TimerRecord.ran).reverse ++ s.trace }
    else none

def Reaches (fireOnce : Bool) (intervalNanosec : ℕ) (condition : Timer → Act → Prop) (s : Timer) :
    Prop :=
  GuardedRuns.Run act condition (initial fireOnce intervalNanosec) s

/-- The timer is neither stopped nor destroyed while its thread has not begun. -/
def StopsAfterBegin (s : Timer) : Act → Prop
  | .stopTimer _ | .destroy => s.state ≠ .starting
  | _ => True

instance (s : Timer) : DecidablePred s.StopsAfterBegin
  | .startTimer _ | .joined | .thread _ | .process _ => inferInstanceAs (Decidable True)
  | .stopTimer _ | .destroy => inferInstanceAs (Decidable (_ ≠ _))

def queued (s : Timer) : List StopCallback := s.queue.flatMap TimerEvent.callbacks

def ran (s : Timer) : List StopCallback := s.trace.filterMap TimerRecord.callback

/-! ## One step -/

variable {s s' : Timer}

/-- The timer is stopped or on its way to a stop. -/
def Halted (s : Timer) : Prop := s.state = .stopping ∨ s.state = .stopped

/-- The state and the callbacks that fit to the position of the thread. -/
def Shape (s : Timer) : Prop :=
  match s.thread with
  | .none => s.state = .stopped ∧ s.quitCbs = []
  | .entering _ => s.state = .starting ∧ s.quitCbs = []
  | .looping _ _ => s.state = .running ∧ s.quitCbs = []
  | .sleeping _ => s.state = .stopping ∨ (s.state = .running ∧ s.quitCbs = [])
  | .leaving => s.state = .stopping

/-- What only firings, callbacks and starts change. -/
def books (s : Timer) :=
  (s.quitCbs, s.queue, s.trace, s.given, s.starts, s.fireOnce, s.intervalNanosec)

/-- What a step does to the books. -/
inductive Move (s : Timer) : Timer → Prop where
  | quiet {s' : Timer} (hbooks : s'.books = s.books) (hhalted : s.Halted → s'.Halted) : Move s s'
  | launch (fireImmediately : Bool) (hcbs : s.quitCbs = []) : Move s (s.launch fireImmediately)
  | fire {s' : Timer} (hrun : ¬s.Halted) (hbooks : s'.books = { s with
      queue := s.queue ++ [TimerEvent.fire s.starts], trace := .fired s.starts :: s.trace }.books)
      (honce : s.fireOnce = true → s'.Halted) : Move s s'
  | quit : Move s { s with
      queue := s.queue ++ [.quit s.quitCbs], state := .stopped, quitCbs := [], thread := .none }
  | given (cbs : List StopCallback) (hcbs : ∀ c ∈ cbs, c.start = s.starts) : Move s { s with
      quitCbs := s.quitCbs ++ cbs, given := cbs ++ s.given, state := .stopping }
  | ran (cbs : List StopCallback) (hcbs : ∀ c ∈ cbs, c.start = s.starts) (hhalted : s.Halted) :
      Move s { s with given := cbs ++ s.given, trace := cbs.map .ran ++ s.trace }
  | process (index : ℕ) (e : TimerEvent) (he : s.queue[index]? = some e) : Move s { s with
      queue := s.queue.eraseIdx index
      trace := (e.callbacks.map .ran).reverse ++ s.trace }

/-- A destructor that waits has halted the timer. -/
def Ending (s : Timer) : Prop := s.caller = .destroying → s.Halted

theorem move_threadStep (h : s.Shape) (he : s.Ending) (clock : ℕ) :
    (s.threadStep clock).Shape ∧ (s.threadStep clock).Ending ∧ Move s (s.threadStep clock) := by
  unfold Shape at h
  unfold threadStep
  cases hthread : s.thread with
  | none =>
    refine ⟨?_, he, .quiet rfl id⟩
    unfold Shape
    rw [hthread] at h ⊢
    exact h
  | entering fireImmediately =>
    rw [hthread] at h
    have hnot : ¬s.Halted := by simp [Halted, h.1]
    dsimp only
    rw [if_neg (not_not.mpr h.1)]
    exact ⟨⟨rfl, h.2⟩, fun hc => absurd (he hc) hnot, .quiet rfl fun hh => absurd hh hnot⟩
  | looping now next =>
    rw [hthread] at h
    have hnot : ¬s.Halted := by simp [Halted, h.1]
    dsimp only at h ⊢
    rw [if_neg (not_not.mpr h.1)]
    split
    · exact ⟨.inr h, he, .quiet rfl id⟩
    split
    · exact ⟨rfl, fun _ => .inl rfl, .fire hnot rfl fun _ => .inl rfl⟩
    · next hf => exact ⟨h, he, .fire hnot rfl fun hf' => absurd hf' hf⟩
  | sleeping next =>
    rw [hthread] at h
    dsimp only at h ⊢
    rcases h with hstop | hrun
    · rw [if_pos (hstop ▸ nofun)]
      exact ⟨hstop, he, .quiet rfl id⟩
    · rw [if_neg (not_not.mpr hrun.1)]
      exact ⟨hrun, he, .quiet rfl id⟩
  | leaving => exact ⟨⟨rfl, rfl⟩, fun _ => .inr rfl, .quit⟩

theorem Shape.stopping (h : s.Shape) (hfree : s.locked = false)
    (hs : s.state = .running ∨ s.state = .stopping) {x : Timer} (hx : x.thread = s.thread)
    (hst : x.state = .stopping) : x.Shape := by
  unfold Shape at h ⊢
  unfold locked at hfree
  rw [hx]
  cases hthread : s.thread with
  | none | entering _ | looping _ _ => simp_all
  | sleeping next => exact .inl hst
  | leaving => exact hst

theorem move_stopTimer (h : s.Shape) (hfree : s.locked = false) (hbegun : s.state ≠ .starting)
    (cb : Option ℕ) :
    (s.stopTimer cb).Shape ∧ (s.stopTimer cb).Ending ∧ Move s (s.stopTimer cb) := by
  have hcbs : ∀ c ∈ (cb.map fun id => (⟨id, s.starts⟩ : StopCallback)).toList,
      c.start = s.starts := by
    cases cb <;> simp
  unfold Timer.stopTimer
  dsimp only
  split
  · next hs => exact ⟨h.stopping hfree hs rfl rfl, fun _ => .inl rfl, .given _ hcbs⟩
  · next hs =>
    have hhalted : s.Halted := by
      cases hstate : s.state <;> simp_all [Halted]
    exact ⟨h, fun _ => hhalted, .ran _ hcbs hhalted⟩

theorem move_destroy (h : s.Shape) (hfree : s.locked = false) (hbegun : s.state ≠ .starting) :
    s.destroy.Shape ∧ s.destroy.Ending ∧ Move s s.destroy := by
  have hhalted : s.destroy.Halted := by
    cases hstate : s.state <;> simp_all [Halted, Timer.destroy]
  refine ⟨?_, fun _ => hhalted, .quiet rfl fun _ => hhalted⟩
  by_cases hrun : s.state = .running
  · exact h.stopping hfree (.inl hrun) rfl (by simp [Timer.destroy, hrun])
  · simpa [Timer.destroy, Shape, hrun] using h

theorem move_of_act (h : s.Shape) (he : s.Ending) {a : Act} (hbegun : s.StopsAfterBegin a)
    (hs : act a s = some s') : s'.Shape ∧ s'.Ending ∧ Move s s' := by
  cases a with
  | startTimer fireImmediately =>
    simp only [act] at hs
    split_ifs at hs
    · cases hs
      exact ⟨h, nofun, .quiet rfl id⟩
    · cases hs
      exact ⟨h, he, .quiet rfl id⟩
  | joined =>
    simp only [act] at hs
    split at hs
    · split_ifs at hs with hthread
      cases hs
      unfold Shape at h
      rw [hthread] at h
      exact ⟨⟨rfl, rfl⟩, nofun, .launch _ h.2⟩
    · cases hs
  | stopTimer cb =>
    simp only [act] at hs
    split_ifs at hs with hfree
    cases hs
    exact move_stopTimer h (by simpa using (not_or.mp hfree).2) hbegun cb
  | destroy =>
    simp only [act] at hs
    split_ifs at hs with hfree
    cases hs
    exact move_destroy h (by simpa using (not_or.mp hfree).2) hbegun
  | thread clock =>
    simp only [act] at hs
    split_ifs at hs
    cases hs
    exact move_threadStep h he clock
  | process index =>
    simp only [act] at hs
    split_ifs at hs
    obtain ⟨e, hget, rfl⟩ := Option.map_eq_some_iff.mp hs
    exact ⟨h, he, .process index e hget⟩

/-! ## Whole runs -/

/-- No firing behind a callback belongs to the start before it. -/
def NoFiringBehind (trace : List TimerRecord) : Prop :=
  trace.Pairwise fun later earlier => ∀ g c, later = .fired g → earlier = .ran c → c.start < g

/-- What both kinds of timer keep: a callback waits or has run, and no firing follows one that has run
before the next start. `halted` says that the timer will not fire. -/
structure Contract (waiting given : List StopCallback) (starts : ℕ) (halted : Prop)
    (trace : List TimerRecord) : Prop where
  place : (waiting ++ trace.filterMap TimerRecord.callback).Perm given
  halted : ∀ c ∈ given, c.start ≤ starts ∧ (c.start = starts → halted)
  quiet : NoFiringBehind trace

namespace Contract

variable {waiting given : List StopCallback} {starts : ℕ} {halted halted' : Prop}
  {trace : List TimerRecord}

section
variable (h : Contract waiting given starts halted trace)
include h

theorem imp (hh : halted → halted') : Contract waiting given starts halted' trace :=
  ⟨h.place, fun c hc => ⟨(h.halted c hc).1, fun heq => hh ((h.halted c hc).2 heq)⟩, h.quiet⟩

theorem start : Contract waiting given (starts + 1) halted' trace := by
  refine ⟨h.place, fun c hc => ?_, h.quiet⟩
  have hle := (h.halted c hc).1
  exact ⟨Nat.le_succ_of_le hle, fun heq => absurd hle (heq ▸ Nat.not_succ_le_self _)⟩

theorem fire (hrun : ¬halted) : Contract waiting given starts halted' (.fired starts :: trace) := by
  refine ⟨?_, fun c hc => ?_, pairwise_cons.mpr ⟨?_, h.quiet⟩⟩
  · rw [filterMap_cons_none rfl]
    exact h.place
  · exact ⟨(h.halted c hc).1, fun heq => absurd ((h.halted c hc).2 heq) hrun⟩
  · rintro earlier hmem g c hg rfl
    cases hg
    have hc : c ∈ given :=
      h.place.subset (mem_append_right _ (mem_filterMap.mpr ⟨_, hmem, rfl⟩))
    obtain ⟨hle, heq⟩ := h.halted c hc
    exact Nat.lt_of_le_of_ne hle fun hstart => hrun (heq hstart)

theorem give {cbs : List StopCallback} (hcbs : ∀ c ∈ cbs, c.start = starts) (hh : halted') :
    Contract (cbs ++ waiting) (cbs ++ given) starts halted' trace := by
  refine ⟨?_, fun c hc => ⟨?_, fun _ => hh⟩, h.quiet⟩
  · rw [append_assoc]
    exact h.place.append_left cbs
  · rcases mem_append.mp hc with hc | hc
    · exact Nat.le_of_eq (hcbs c hc)
    · exact (h.halted c hc).1

theorem perm {waiting' : List StopCallback} (hp : waiting'.Perm waiting) :
    Contract waiting' given starts halted trace :=
  ⟨(hp.append_right _).trans h.place, h.halted, h.quiet⟩

end

theorem ran {cbs : List StopCallback} (h : Contract (cbs ++ waiting) given starts halted trace)
    {records : List TimerRecord} (hr : records.Perm (cbs.map .ran)) :
    Contract waiting given starts halted (records ++ trace) := by
  have hran : (records.filterMap TimerRecord.callback).Perm cbs := by
    refine (hr.filterMap _).trans (List.Perm.of_eq ?_)
    rw [filterMap_map]
    exact filterMap_some
  have hfired : ∀ g, .fired g ∉ records := fun g hg => by simpa using hr.subset hg
  refine ⟨?_, h.halted, pairwise_append.mpr ⟨pairwise_of_forall_mem_list ?_, h.quiet, ?_⟩⟩
  · rw [filterMap_append, ← append_assoc]
    refine (List.Perm.append_right _ ?_).trans h.place
    exact perm_append_comm.trans (hran.append_right waiting)
  all_goals
    rintro later hl earlier - g c rfl
    exact absurd hl (hfired g)

end Contract

/-- The books are in order. -/
structure InContract (interval : ℕ) (s : Timer) : Prop where
  interval_eq : s.intervalNanosec = interval
  kept : Contract (s.quitCbs ++ s.queued) s.given s.starts s.Halted s.trace
  once : s.fireOnce = true → ∀ g, s.trace.count (.fired g) ≤ 1 ∧
    (s.starts < g ∨ g = s.starts ∧ ¬s.Halted → .fired g ∉ s.trace)

variable {interval : ℕ}

theorem InContract.move (h : InContract interval s) (hm : Move s s') : InContract interval s' := by
  -- Records of callbacks change neither how often the timer fired nor whether it did.
  have hrecords : ∀ (cbs : List StopCallback) (records : List TimerRecord),
      records.Perm (cbs.map .ran) → s.fireOnce = true → ∀ g,
      (records ++ s.trace).count (.fired g) ≤ 1 ∧
        (s.starts < g ∨ g = s.starts ∧ ¬s.Halted → .fired g ∉ records ++ s.trace) := by
    intro cbs records hr hf g
    have hfired : records.count (.fired g) = 0 := by
      rw [hr.count_eq]
      exact count_eq_zero.mpr (by simp)
    rw [← count_eq_zero, count_append, hfired, Nat.zero_add, count_eq_zero]
    exact h.once hf g
  cases hm with
  | quiet hbooks hhalted =>
    simp only [books, Prod.mk.injEq] at hbooks
    obtain ⟨hcbs, hqueue, htrace, hgiven, hstarts, honce, hinterval⟩ := hbooks
    refine ⟨hinterval.trans h.interval_eq, ?_, ?_⟩
    · unfold queued
      rw [hcbs, hqueue, htrace, hgiven, hstarts]
      exact h.kept.imp hhalted
    · intro hf g
      rw [htrace, hstarts]
      refine ⟨(h.once (honce ▸ hf) g).1, fun hg => (h.once (honce ▸ hf) g).2 ?_⟩
      exact hg.imp_right fun hg => ⟨hg.1, fun hh => hg.2 (hhalted hh)⟩
  | launch fireImmediately hcbs =>
    refine ⟨h.interval_eq, ?_, ?_⟩
    · have hcontract : Contract _ _ _ (s.launch fireImmediately).Halted _ := h.kept.start
      rw [hcbs] at hcontract
      exact hcontract
    · intro hf g
      refine ⟨(h.once hf g).1, fun hg => (h.once hf g).2 (.inl ?_)⟩
      have hlt : s.starts + 1 < g ∨ g = s.starts + 1 ∧ _ := hg
      omega
  | fire hrun hbooks honce =>
    simp only [books, Prod.mk.injEq] at hbooks
    obtain ⟨hcbs, hqueue, htrace, hgiven, hstarts, honce', hinterval⟩ := hbooks
    refine ⟨hinterval.trans h.interval_eq, ?_, ?_⟩
    · unfold queued
      rw [hcbs, hqueue, htrace, hgiven, hstarts]
      simpa [TimerEvent.callbacks, queued] using h.kept.fire hrun
    · intro hf g
      rw [honce'] at hf
      rw [htrace, hstarts]
      have hg := h.once hf g
      by_cases heq : g = s.starts
      · have hnew := (h.once hf s.starts).2 (.inr ⟨rfl, hrun⟩)
        subst heq
        refine ⟨by simp [count_eq_zero.mpr hnew], fun hlate => ?_⟩
        rcases hlate with hlt | ⟨-, hnot⟩
        · exact absurd hlt (Nat.lt_irrefl _)
        · exact absurd (honce hf) hnot
      · have hne : TimerRecord.fired s.starts ≠ .fired g := fun hx => heq (TimerRecord.fired.inj hx).symm
        rw [count_cons_of_ne hne]
        refine ⟨hg.1, fun hlate hmem => ?_⟩
        rcases mem_cons.mp hmem with hx | hmem
        · exact hne hx.symm
        · exact hg.2 (hlate.imp_right fun hx => absurd hx.1 heq) hmem
  | quit =>
    refine ⟨h.interval_eq, ?_, ?_⟩
    · refine (h.kept.imp fun _ => .inr rfl).perm ?_
      simp only [queued, flatMap_append, flatMap_cons, flatMap_nil, append_nil,
        TimerEvent.callbacks, nil_append]
      exact perm_append_comm
    · intro hf g
      refine ⟨(h.once hf g).1, fun hg => (h.once hf g).2 (.inl ?_)⟩
      exact hg.resolve_right fun hx => hx.2 (.inr rfl)
  | given cbs hcbs =>
    refine ⟨h.interval_eq, ?_, ?_⟩
    · refine (h.kept.give hcbs (.inl rfl)).perm ?_
      show (s.quitCbs ++ cbs ++ s.queued).Perm _
      rw [append_assoc]
      exact perm_append_comm_assoc _ _ _
    · intro hf g
      refine ⟨(h.once hf g).1, fun hg => (h.once hf g).2 (.inl ?_)⟩
      exact hg.resolve_right fun hx => hx.2 (.inl rfl)
  | ran cbs hcbs hhalted =>
    have hcontract := (h.kept.give hcbs hhalted).ran (.refl _)
    exact ⟨h.interval_eq, hcontract, hrecords cbs _ (.refl _)⟩
  | process index e he =>
    obtain ⟨hlt, rfl⟩ := List.getElem?_eq_some_iff.mp he
    refine ⟨h.interval_eq, (h.kept.perm ?_).ran (List.reverse_perm _),
      hrecords _ _ (List.reverse_perm _)⟩
    have hperm := (List.getElem_cons_eraseIdx_perm hlt).flatMap_right TimerEvent.callbacks
    rw [flatMap_cons] at hperm
    exact (perm_append_comm_assoc _ _ _).trans (hperm.append_left s.quitCbs)

theorem timely_of_reaches {fireOnce : Bool} (h : Reaches fireOnce interval StopsAfterBegin s) :
    s.Shape ∧ s.Ending ∧ InContract interval s := by
  refine h.invariant (fun s => s.Shape ∧ s.Ending ∧ InContract interval s) ?_ ?_
  · refine ⟨⟨rfl, rfl⟩, nofun, rfl, ⟨List.Perm.refl _, fun _ hc => ?_, List.Pairwise.nil⟩, ?_⟩
    · cases hc
    · exact fun _ g => ⟨Nat.zero_le 1, fun _ => not_mem_nil⟩
  · rintro x a y ⟨hshape, hending, htidy⟩ hg hs
    obtain ⟨hshape', hending', hmove⟩ := move_of_act hshape hending hg hs
    exact ⟨hshape', hending', htidy.move hmove⟩

/-! ## The contract -/

/-- The steps after which a thread that holds the lock has given it up. -/
def lockSteps (s : Timer) : ℕ :=
  match s.thread with
  | .looping now next => now + 1 - next + 1
  | _ => 0

theorem unlocks (clock now late : ℕ) : ∀ (next : ℕ) (s : Timer), now + 1 - next = late →
    0 < s.intervalNanosec → s.thread = .looping now next →
    ∃ n ≤ now + 1 - next + 1, ((threadStep clock)^[n] s).locked = false := by
  induction late using Nat.strongRecOn with
  | ind late ih =>
    intro next s hlate hpos hthread
    by_cases hrun : s.state ≠ .running
    · exact ⟨1, by omega, by simp [threadStep, hthread, hrun, locked]⟩
    by_cases hlt : now < next
    · exact ⟨1, by omega, by simp [threadStep, hthread, hrun, hlt, locked]⟩
    by_cases hf : s.fireOnce = true
    · exact ⟨1, by omega, by simp [threadStep, hthread, hrun, hlt, hf, locked]⟩
    obtain ⟨n, hn, hfree⟩ := ih (now + 1 - (next + s.intervalNanosec)) (by omega)
      (next + s.intervalNanosec) (s.threadStep clock) rfl
      (by simpa [threadStep, hthread, hrun, hlt, hf] using hpos)
      (by simp [threadStep, hthread, hrun, hlt, hf])
    refine ⟨n + 1, by omega, ?_⟩
    rw [Function.iterate_succ_apply]
    exact hfree

theorem Shape.ends (h : s.Shape) (hhalted : s.Halted) (clock clock' : ℕ) :
    ((s.threadStep clock).threadStep clock').thread = .none := by
  unfold Shape at h
  have hrun : s.state ≠ .running := by rcases hhalted with hs | hs <;> simp [hs]
  have hstart : s.state ≠ .starting := by rcases hhalted with hs | hs <;> simp [hs]
  cases hthread : s.thread with
  | none | leaving => simp [threadStep, hthread]
  | entering _ =>
    rw [hthread] at h
    exact absurd h.1 hstart
  | looping _ _ =>
    rw [hthread] at h
    exact absurd h.1 hrun
  | sleeping next => simp [threadStep, hthread, hrun]

end Timer

end Ichor
