import Ichor.Properties.Interceptors

/-! What the interceptors are told after an event: whether it was processed. For an event that the
manager has no branch for, this is the number of registered listeners and not of those called; for
any other event the answer is yes, whether its branch did something or broke off. -/
namespace Ichor.DependencyManager
open List

/-- The manager has no branch of its own for the event. -/
def broadcasts (e : Event) : Bool :=
  match e.body with
  | .dependencyUndoRequest _ | .continuableDependencyOffline _ _ _ | .user _ => true
  | _ => false

/-- The checks of `broadcastEvent` for one listener. -/
def passes (services : Services) (e : Event) (info : EventCallbackInfo) : Bool :=
  match services.get? info.listeningServiceId with
  | none => false
  | some m => !((m.state ≠ .active && m.state ≠ .injecting) ||
      (info.filterServiceId.any fun svc => decide (svc ≠ e.originatingService)))

/-- What the switch made of the event: a listener was called, or the branch for the event has not
handed the manager back as it was. -/
def Acted (before : DependencyManager) (e : Event) (handling : List Call) (out : Handled) : Prop :=
  if broadcasts e then ∃ listener, .handler listener e.id ∈ handling else out ≠ before.asHandled

/-- No interceptor vetoes the event. -/
def allowed (s : DependencyManager) (u : UserCode) (e : Event) : Bool :=
  (s.audience e).all fun info => u.preIntercept info.interceptorId

/-- Listeners are registered for the event, but none of them may be called. -/
def Passed (s : DependencyManager) (e : Event) : Prop :=
  broadcasts e = true ∧ s.callbacksOf e.body.type ≠ [] ∧
    ∀ info ∈ s.callbacksOf e.body.type, passes s.services e info = false

/-- The manager has a branch for the event, which leaves it as it is. -/
def LeavesAlone (s : DependencyManager) (u : UserCode) (e : Event) : Prop :=
  broadcasts e = false ∧ s.handle u e = some s.asHandled

/-- The checks at the head of the branch send the event away. -/
def ignores (s : DependencyManager) (e : Event) : Bool :=
  match e.body with
  | .dependencyOnline => (s.services.get? e.originatingService).all (·.state ≠ .injecting)
  | .dependencyOffline _ => (s.services.get? e.originatingService).all (·.state ≠ .active)
  | .dependencyRequest hash _ => ((s.dependencyRequestTrackers.get? hash).getD []).isEmpty
  | .stopService d _ => (s.services.get? d).all fun m => m.state = .installed || m.state = .stopping
  | .startService d => (s.services.get? d).all fun m =>
      m.state = .active || m.state = .starting || m.state = .injecting
  | .removeService d => (s.services.get? d).all fun m => m.state ≠ .installed ||
      !m.serviceIdsOfDependees.isEmpty || !m.serviceIdsOfInjectedDependencies.isEmpty
  | .addTracker hash => e.originatingService ∉ (s.dependencyRequestTrackers.get? hash).getD []
  | .removeTracker hash => (s.dependencyRequestTrackers.get? hash).isNone
  | .continuable q => (s.scopedGenerators.get? q).isNone
  | .continuableStart q => (s.scopedGenerators.get? q).all fun g =>
      g.generator.state = .suspended || g.generator.state = .yielded
  | .runFunction | .runFunctionAsync => s.staleFunction e
  | _ => false

variable {s s' : DependencyManager} {u : UserCode} {e : Event}

theorem broadcastTo_trace (u : UserCode) (e : Event) (ref : ℕ) (acc : DependencyManager × Bool)
    (info : EventCallbackInfo) : (broadcastTo u e ref acc info).1.services = acc.1.services ∧
    (broadcastTo u e ref acc info).1.trace = (if passes acc.1.services e info then
      [.handler info.listeningServiceId e.id] else []) ++ acc.1.trace := by
  cases hm : acc.1.services.get? info.listeningServiceId with
  | none => simp [broadcastTo, passes, hm]
  | some m =>
    simp only [broadcastTo, passes, hm]
    split
    · rename_i hskip
      rw [hskip]
      exact ⟨rfl, rfl⟩
    · rename_i hcall
      rw [Bool.not_eq_true] at hcall
      rw [hcall]
      have hran := ran_runGenerator acc.1 u (.handler info.listeningServiceId e.id)
        info.listeningServiceId m.priority e (some ref)
      generalize acc.1.runGenerator u (.handler info.listeningServiceId e.id)
        info.listeningServiceId m.priority e (some ref) = out at hran
      cases hran <;> exact ⟨rfl, rfl⟩

/-- The listeners that pass the checks are called, in their order. -/
theorem broadcastEvent_trace (s : DependencyManager) (u : UserCode) (e : Event) :
    (s.broadcastEvent u e).handlerAmount = (s.callbacksOf e.body.type).length ∧
    (s.broadcastEvent u e).manager.trace =
      (((s.callbacksOf e.body.type).filter (passes s.services e)).map
        fun info => .handler info.listeningServiceId e.id).reverse ++ s.trace := by
  have hfold : ∀ (callbacks : List EventCallbackInfo) (ref : ℕ) (acc : DependencyManager × Bool),
      (callbacks.foldl (broadcastTo u e ref) acc).1.trace =
        ((callbacks.filter (passes acc.1.services e)).map
          fun info => .handler info.listeningServiceId e.id).reverse ++ acc.1.trace := by
    intro callbacks ref
    induction callbacks with
    | nil => exact fun acc => rfl
    | cons info callbacks ih =>
      intro acc
      obtain ⟨hservices, htrace⟩ := broadcastTo_trace u e ref acc info
      rw [foldl_cons, ih, hservices, htrace, filter_cons]
      split <;> simp
  unfold broadcastEvent callbacksOf
  split
  · rename_i hnone
    simp [hnone]
  · rename_i callbacks hsome
    rw [hsome]
    exact ⟨rfl, hfold callbacks _ _⟩

theorem leavesAlone_of_ignores (u : UserCode) (h : s.ignores e = true) : s.LeavesAlone u e := by
  unfold ignores at h
  unfold LeavesAlone broadcasts handle
  cases hb : e.body <;> simp only [hb, true_and] at h ⊢ <;> try cases h
  case dependencyOnline | dependencyOffline | stopService | startService | removeService =>
    simp only [handleDependencyOnline, handleDependencyOffline, handleStopService, handleStartService,
      handleRemoveService]
    split
    · rfl
    · rename_i m hm
      rw [hm] at h
      split
      · rfl
      · rename_i hno
        exact absurd (by simpa using h) hno
  case dependencyRequest hash r =>
    rw [handleDependencyRequest, isEmpty_iff.mp h]
    rfl
  case addTracker hash =>
    rw [handleAddTracker, if_neg (of_decide_eq_true h)]
  case removeTracker hash =>
    rw [handleRemoveTracker, Option.isNone_iff_eq_none.mp h]
  case continuable q =>
    rw [handleContinuable, Option.isNone_iff_eq_none.mp h]
  case continuableStart q =>
    unfold handleContinuableStart
    split
    · rfl
    · rename_i g hg
      rw [hg] at h
      cases hstate : g.generator.state with
      | finished v => simp [hstate] at h
      | _ => rfl
  case runFunction =>
    rw [handleRunFunction, if_pos h]
  case runFunctionAsync =>
    rw [handleRunFunctionAsync, if_pos h]

variable {out : Handled}

theorem handle_amount (h : Handling s u e out) (hb : broadcasts e = false) :
    out.handlerAmount = 1 := by
  cases h with
  | stop d removeAfter out hb h =>
    cases h with
    | moved _ _ hamount => exact hamount
    | _ => rfl
  | continuable q hb =>
    unfold handleContinuable
    repeat' split
    all_goals rfl
  | continuableStart q out hb h => cases h <;> rfl
  | functionAsync hb =>
    unfold handleRunFunctionAsync
    split <;> rfl
  | broadcast hbody =>
    unfold broadcasts at hb
    rcases hbody with ⟨_, h⟩ | ⟨_, _, _, h⟩ | ⟨_, h⟩ <;> simp [h] at hb
  | _ => rfl

theorem handle_broadcasts (h : Handling s u e out) (hb : broadcasts e = true) :
    out = s.broadcastEvent u e := by
  unfold broadcasts at hb
  cases h with
  | broadcast => rfl
  | lifecycle t hbody hm => rcases hbody with h | ⟨remove, h⟩ <;> simp [h] at hb
  | _ => simp_all

/-- The number of handlers that the switch reports is right unless nobody did anything. -/
theorem handle_acted {handling : List Call} (hh : s.handle u e = some out)
    (htrace : out.manager.trace = handling ++ s.trace) :
    (decide (out.handlerAmount > 0) = true ↔ Acted s e handling out) ↔
      ¬(Passed s e ∨ s.LeavesAlone u e) := by
  have h := handling_handle hh
  unfold Acted
  by_cases hb : broadcasts e = true
  · obtain rfl := handle_broadcasts h hb
    obtain ⟨hamount, hcalls⟩ := broadcastEvent_trace s u e
    have hhandling := append_cancel_right (htrace.symm.trans hcalls)
    have hacted : (∃ listener, .handler listener e.id ∈ handling) ↔
        ∃ info ∈ s.callbacksOf e.body.type, passes s.services e info = true := by
      rw [hhandling]
      constructor
      · rintro ⟨listener, hcall⟩
        obtain ⟨info, hinfo, -⟩ := mem_map.mp (mem_reverse.mp hcall)
        exact ⟨info, mem_filter.mp hinfo⟩
      · rintro ⟨info, hinfo⟩
        exact ⟨info.listeningServiceId, mem_reverse.mpr (mem_map_of_mem (mem_filter.mpr hinfo))⟩
    have halone : ¬s.LeavesAlone u e := fun halone => Bool.false_ne_true (halone.1.symm.trans hb)
    rw [if_pos hb, hamount, hacted, decide_eq_true_iff, gt_iff_lt, length_pos_iff,
      or_iff_left halone]
    unfold Passed
    constructor
    · rintro htrue ⟨-, hne, hnone⟩
      obtain ⟨info, hinfo, hpasses⟩ := htrue.mp hne
      rw [hnone info hinfo] at hpasses
      cases hpasses
    · intro hno
      constructor
      · intro hne
        by_contra hnone
        refine hno ⟨hb, hne, fun info hinfo => ?_⟩
        exact Bool.eq_false_iff.mpr fun hpasses => hnone ⟨info, hinfo, hpasses⟩
      · rintro ⟨info, hinfo, -⟩
        exact ne_nil_of_mem hinfo
  · have hb' : broadcasts e = false := by simpa using hb
    simp [hb', handle_amount h hb', Passed, LeavesAlone, hh]

/-- Nothing that the switch calls tells an interceptor about the event itself: the undo requests of a
removal have later ids. -/
theorem no_post_in_handling {handling : List Call} {removed : Option ServiceId}
    {requests : List (EventId × Bool)} {infos : List EventInterceptInfo} (hid : e.id < s.nextEventId)
    (hnoted : handling.filter Call.isNoted =
      removed.toList.map .erased ++ requests.reverse.flatMap (undoCalls infos))
    (hfresh : ∀ r ∈ requests, s.nextEventId ≤ r.1) (i : ℕ) (type : EventType) (flag : Bool) :
    .postIntercept i e.id type flag ∉ handling := by
  intro hmem
  have hin : .postIntercept i e.id type flag ∈ handling.filter Call.isNoted :=
    mem_filter.mpr ⟨hmem, rfl⟩
  rw [hnoted, mem_append] at hin
  rcases hin with hin | hin
  · obtain ⟨d, -, hd⟩ := mem_map.mp hin
    cases hd
  · obtain ⟨request, hrequest, hcall⟩ := mem_flatMap.mp hin
    obtain ⟨info, -, hx⟩ := intercepts_undoCalls hcall
    have hsame : e.id = request.1 := congrArg (·.2.1) (Option.some.inj hx)
    exact Nat.not_lt.mpr (hfresh request (mem_reverse.mp hrequest)) (hsame ▸ hid)

variable {hash : NameHash} {d : ServiceId} {acc acc' : DependencyManager × ℕ}

theorem untrack_trace {svc : ServiceId} (h : untrack u hash d acc svc = some acc') :
    ∃ calls, acc'.1.trace = calls ++ acc.1.trace ∧ acc.2 ≤ acc'.2 ∧
      (acc.2 < acc'.2 ↔ ∃ svc, .untracker svc hash d ∈ calls) := by
  unfold untrack at h
  split at h
  · cases h
  split at h
  · cases h
    exact ⟨[], rfl, Nat.le_refl _, by simp⟩
  -- the tracker is called, and its generator is done or suspended
  refine ⟨[.untracker svc hash d], ?_⟩
  unfold beginGenerator at h
  dsimp only at h
  cases hrun : u.generator (acc.1.call (.untracker svc hash d)).takePromiseId.trace.length <;>
    rw [hrun] at h <;> cases h <;> exact ⟨rfl, Nat.le_succ _, by simp⟩

/-- The trackers of an undo request: the count is that of the calls. -/
theorem untracks_trace (trackers : List ServiceId)
    (h : trackers.foldlM (untrack u hash d) acc = some acc') :
    ∃ handling, acc'.1.trace = handling ++ acc.1.trace ∧ acc.2 ≤ acc'.2 ∧
      (acc.2 < acc'.2 ↔ ∃ svc, .untracker svc hash d ∈ handling) := by
  induction trackers generalizing acc with
  | nil =>
    cases h
    exact ⟨[], rfl, Nat.le_refl _, by simp⟩
  | cons svc trackers ih =>
    obtain ⟨mid, hmid, hrest⟩ := Option.bind_eq_some_iff.mp h
    obtain ⟨later, hlater, hle, hcount⟩ := ih hrest
    obtain ⟨calls, htrace, hle', hcount'⟩ := untrack_trace hmid
    refine ⟨later ++ calls, by rw [hlater, htrace, append_assoc], by omega, ?_⟩
    simp only [mem_append, exists_or, ← hcount, ← hcount']
    omega

/-- What the interceptors are told about the event: `told` are those of the audience that are left,
and only they are told anything. -/
structure Told (s : DependencyManager) (u : UserCode) (e : Event) (s' : DependencyManager) (out : Handled)
    (told : List EventInterceptInfo) (handling : List Call) (processed : Bool) : Prop where
  switch : (if s.allowed u e then (s.intercepted e).handle u e
    else some (s.intercepted e).asHandled) = some out
  calls : out.manager.trace = handling ++ (preCalls (s.audience e) e.id e.body.type ++ s.trace)
  trace : ∃ completions, completions.filter Call.isNoted = [] ∧
    s'.trace = completions ++ (postCalls told e.id e.body.type processed ++ out.manager.trace)
  apart : ∀ i type flag, .postIntercept i e.id type flag ∉ handling
  sublist : told.Sublist (s.audience e)
  left : s'.quitDone = false → ∀ info ∈ s.audience e, info ∈ s'.audience e → info ∈ told

theorem told_of_handled {out : Handled} (s' : DependencyManager) (processed : Bool)
    (completions : List Call) (hid : e.id < s.nextEventId) (ha : s.allowed u e = true)
    (hh : (s.intercepted e).handle u e = some out) (hcompletions : completions.filter Call.isNoted = [])
    (htrace : s'.trace = completions ++ (postCalls (if s'.quitDone then [] else out.manager.copies) e.id
      e.body.type processed ++ out.manager.trace))
    (htable : s'.eventInterceptors = out.manager.eventInterceptors) :
    ∃ handling, Told s u e s' out (if s'.quitDone then [] else out.manager.copies) handling processed := by
  obtain ⟨removed, requests, hd, -⟩ := (handling_handle hh).dispatch
  obtain ⟨keep, hall, hown, htables⟩ := hd.pruned
  obtain ⟨handling, hcalls, hnoted⟩ := hd.notes
  have hcopies : out.manager.copies = (s.audience e).filter keep := by
    unfold copies audience
    rw [hall, hown, filter_append]
    rfl
  refine ⟨handling, by rw [if_pos ha, hh], hcalls, ⟨completions, hcompletions, htrace⟩,
    no_post_in_handling hid hnoted hd.fresh, ?_, fun hopen info hinfo hleft => ?_⟩
  · split
    · exact nil_sublist _
    · exact hcopies ▸ filter_sublist
  · rw [hopen, if_neg Bool.false_ne_true, hcopies]
    obtain ⟨key, -, hkey⟩ := mem_audience.mp hleft
    have hkeys := htables key
    unfold interceptorsFor at hkey hkeys
    rw [htable] at hkey
    exact mem_filter.mpr ⟨hinfo, (mem_filter.mp (hkeys.subset hkey)).2⟩

/-- An interceptor for all events, and a service that listens to the events of service 1 only. -/
def filteredListener : List Instruction :=
  [.act (.registerEventInterceptor 0 none), .act (.createServiceManager (.simple [] [])),
    .act (.registerEventHandler 2 (.user 7) (some 1)), .drain 9 .prompt]

/-- A service that tracks the requests for an interface, and one that has requested it. -/
def trackedRequest : List Instruction :=
  [.act (.registerEventInterceptor 0 none), .act (.createServiceManager (.simple [] [])),
    .drain 9 .prompt, .act (.registerDependencyTracker 2 5),
    .act (.createServiceManager (.simple [] [(5, false)])), .drain 9 .prompt]

end Ichor.DependencyManager
