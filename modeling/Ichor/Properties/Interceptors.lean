import Ichor.Desk.Dispatch
import Ichor.Properties.Quit

/-! Interceptors hear of every event of their kind once before and once after it, as
long as no service with dependency registrations is removed by an event that has
interceptors of its own type. -/
namespace Ichor.DependencyManager
open FiniteTable List

variable {s s' t : DependencyManager}

/-! ## The course of one event -/

/-- The calls of one event, oldest last: the audience before it, the handling with the
undo requests of a removal, those of the audience that are left after it, and the
coroutines that waited for the event. A manager that quits drops the audience. -/
inductive Course (s : DependencyManager) (e : Event) (s' : DependencyManager) : Prop
  | mk (keep : EventInterceptInfo → Bool) (removed : Option ServiceId)
      (requests : List (EventId × Bool)) (processed : Bool) (handling completions : List Call)
      (htrace : s'.trace = completions ++
        (postCalls (if s'.quitDone then [] else (s.audience e).filter keep) e.id e.body.type
          processed ++ (handling ++ (preCalls (s.audience e) e.id e.body.type ++ s.trace))))
      (hcompletions : completions.filter Call.isNoted = [])
      (hhandling : handling.filter Call.isNoted = removed.toList.map .erased ++
        requests.reverse.flatMap (undoCalls ((s.audience e).filter keep)))
      (htables : ∀ key, (s'.interceptorsFor key).Sublist ((s.interceptorsFor key).filter keep))
      (hcounter : s'.nextInterceptorId = s.nextInterceptorId)
      (hremoved : ∀ d, removed = some d → s.removal e = some d)
      (hamount : requests.length = removed.elim 0 s.undoCount)
      (hnodup : (requests.map Prod.fst).Nodup) (hfresh : ∀ r ∈ requests, s.nextEventId ≤ r.1) :
      Course s e s'

theorem keeps_finishEvent (s : DependencyManager) (u : UserCode) (e : Event) (h : Handled)
    (allow : Bool) : ∃ completions, (s.finishEvent u e h allow).trace = completions ++
        (postCalls s.copies e.id e.body.type (allow && decide (h.handlerAmount > 0)) ++ s.trace) ∧
      completions.filter Call.isNoted = [] ∧
      (s.finishEvent u e h allow).eventInterceptors = s.eventInterceptors ∧
      (s.finishEvent u e h allow).nextInterceptorId = s.nextInterceptorId := by
  unfold finishEvent
  dsimp only
  rw [postInterceptCopies_eq]
  split
  · exact ⟨[], rfl, rfl, rfl, rfl⟩
  · have hdone := (completes_handleEventCompletion { s with
      trace := postCalls s.copies e.id e.body.type (allow && decide (h.handlerAmount > 0)) ++
        s.trace } u e).silent
    obtain ⟨completions, htrace, hnoted⟩ := hdone.notes
    exact ⟨completions, htrace, hnoted, hdone.table, hdone.counter⟩

variable {e : Event} {u : UserCode} {c : Call} {a : Action}

theorem course_of_handled {out : Handled} (hh : (s.preIntercept u e).1.handle u e = some out)
    {posts : List Call} {processed : Bool} {completions : List Call}
    (htrace : s'.trace = completions ++ (posts ++ out.manager.trace))
    (hposts : posts = postCalls (if s'.quitDone then [] else out.manager.copies) e.id e.body.type
      processed)
    (hcompletions : completions.filter Call.isNoted = [])
    (htable : s'.eventInterceptors = out.manager.eventInterceptors)
    (hcounter : s'.nextInterceptorId = out.manager.nextInterceptorId) : Course s e s' := by
  rw [preIntercept_eq] at hh
  obtain ⟨removed, requests, hd, hremoved⟩ := (handling_handle hh).dispatch
  obtain ⟨keep, hall, hown, htables⟩ := hd.pruned
  obtain ⟨handling, hcalls, hnoted⟩ := hd.notes
  have hcopies : out.manager.copies = (s.audience e).filter keep := by
    unfold copies audience
    rw [hall, hown, filter_append]
    rfl
  refine .mk keep removed requests processed handling completions ?_ hcompletions ?_ ?_ ?_ hremoved
    hd.amount hd.nodup hd.fresh
  · rw [htrace, hposts, hcopies, hcalls]
    rfl
  · rw [hnoted, hcopies]
  · intro key
    have hsub := htables key
    unfold interceptorsFor at hsub ⊢
    rw [htable]
    exact hsub
  · exact hcounter.trans hd.counter

theorem Processed.course (h : Processed s u e s') (hq : s.quitDone = false) : Course s e s' := by
  cases h with
  | dead hdead =>
    rw [hq] at hdead
    cases hdead
  | vetoed _ _ =>
    rw [preIntercept_eq]
    have hflag := (same_finishEvent (s.intercepted e) u e (s.intercepted e).asHandled false).quitDone
    obtain ⟨completions, htrace, hnoted, htable, hcounter⟩ :=
      keeps_finishEvent (s.intercepted e) u e (s.intercepted e).asHandled false
    have hopen : ((s.intercepted e).finishEvent u e (s.intercepted e).asHandled false).quitDone =
        false := hflag.trans hq
    refine .mk (fun _ => true) none [] false [] completions ?_ hnoted rfl ?_ hcounter (by simp) rfl
      nodup_nil (by simp)
    · rw [hopen, htrace]
      simp [copies, audience, intercepted]
    · intro key
      unfold interceptorsFor
      rw [htable, filter_true]
      exact List.Sublist.refl _
  | handled out _ ha hh hc =>
    obtain ⟨completions, htrace, hnoted, htable, hcounter⟩ :=
      keeps_finishEvent out.manager u e out true
    have hopen : (out.manager.finishEvent u e out true).quitDone = false :=
      ((same_finishEvent out.manager u e out true).quitDone.trans (handle_flags hh).1).trans
        ((same_preIntercept s u e).quitDone.trans hq)
    have hposts : postCalls out.manager.copies e.id e.body.type
        (true && decide (out.handlerAmount > 0)) =
        postCalls (if (out.manager.finishEvent u e out true).quitDone then []
          else out.manager.copies) e.id e.body.type (true && decide (out.handlerAmount > 0)) := by
      rw [hopen]
      rfl
    exact course_of_handled hh htrace hposts hnoted htable hcounter
  | quits out _ ha hh hc can =>
    have hposts : [] = postCalls (if out.manager.quitted.quitDone then []
        else out.manager.copies) e.id e.body.type true := rfl
    exact course_of_handled hh (nil_append _).symm hposts rfl rfl rfl

/-! ## Who is called how often -/

variable {i : ℕ} {request : EventId × Bool}

section Once
variable {infos : List EventInterceptInfo} {info : EventInterceptInfo} {id : EventId}
  {type : EventType}

section
variable (f : EventInterceptInfo → Call) (hf : ∀ x, (f x).intercepts = some
  (x.interceptorId, id, type))
include f hf

theorem filter_calls_once
    (hnodup : (infos.map EventInterceptInfo.interceptorId).Nodup) (hinfo : info ∈ infos) :
    ((infos.map f).reverse).filter (Call.about info.interceptorId id) = [f info] := by
  have habout : ∀ x, Call.about info.interceptorId id (f x) =
      decide (x.interceptorId = info.interceptorId) := by
    intro x
    simp [Call.about, hf x]
  rw [filter_reverse, filter_map]
  have hone : infos.filter (Call.about info.interceptorId id ∘ f) = [info] := by
    clear hf
    induction infos with
    | nil => cases hinfo
    | cons x rest ih =>
      rw [map_cons, nodup_cons] at hnodup
      rw [filter_cons, Function.comp_apply, habout]
      rcases mem_cons.mp hinfo with rfl | hrest
      · have hnone : rest.filter (Call.about info.interceptorId id ∘ f) = [] := by
          refine filter_eq_nil_iff.mpr fun y hy => ?_
          rw [Function.comp_apply, habout, decide_eq_true_eq]
          intro heq
          exact hnodup.1 (heq ▸ mem_map_of_mem hy)
        simp [hnone]
      · have hne : x.interceptorId ≠ info.interceptorId := fun heq =>
          hnodup.1 (heq ▸ mem_map_of_mem hrest)
        simp [hne, ih hnodup.2 hrest]
  rw [hone]
  rfl

theorem filter_calls_other {id' : EventId} (hne : id ≠ id') :
    ((infos.map f).reverse).filter (Call.about i id') = [] := by
  refine filter_eq_nil_iff.mpr fun c hc => ?_
  rw [mem_reverse, mem_map] at hc
  obtain ⟨x, _, rfl⟩ := hc
  simp [Call.about, hf x, hne]

end

theorem filter_about (l : List Call) (i : ℕ) (id : EventId) :
    l.filter (Call.about i id) = (l.filter Call.isNoted).filter (Call.about i id) := by
  rw [filter_filter]
  refine filter_congr fun c _ => ?_
  cases h : Call.about i id c with
  | false => rfl
  | true =>
    cases hx : c.intercepts with
    | none => simp [Call.about, hx] at h
    | some x => simp [Call.noted_of_intercepts hx]

theorem filter_erased (l : List ServiceId) (i : ℕ) :
    (l.map Call.erased).filter (Call.about i id) = [] := by
  refine filter_eq_nil_iff.mpr fun c hc => ?_
  obtain ⟨d, _, rfl⟩ := mem_map.mp hc
  exact Bool.false_ne_true

theorem filter_undoCalls (request : EventId × Bool) (hne : request.1 ≠ id) :
    (undoCalls infos request).filter (Call.about i id) = [] := by
  unfold undoCalls preCalls postCalls
  rw [filter_append, filter_calls_other _ (fun _ => rfl) hne,
    filter_calls_other _ (fun _ => rfl) hne]
  rfl

theorem filter_undoRequests {requests : List (EventId × Bool)}
    (hnodup : (infos.map EventInterceptInfo.interceptorId).Nodup) (hinfo : info ∈ infos)
    (hids : (requests.map Prod.fst).Nodup) (hmem : request ∈ requests) :
    (requests.flatMap (undoCalls infos)).filter (Call.about info.interceptorId request.1) =
      [.postIntercept info.interceptorId request.1 .dependencyUndoRequest request.2,
        .preIntercept info.interceptorId request.1 .dependencyUndoRequest] := by
  induction requests with
  | nil => cases hmem
  | cons r rest ih =>
    rw [map_cons, nodup_cons] at hids
    rw [flatMap_cons, filter_append]
    rcases mem_cons.mp hmem with rfl | hrest
    · have hnone : (rest.flatMap (undoCalls infos)).filter
          (Call.about info.interceptorId request.1) = [] := by
        rw [filter_flatMap, flatMap_eq_nil_iff]
        intro r hr
        refine filter_undoCalls r fun heq => hids.1 ?_
        exact heq ▸ mem_map_of_mem hr
      rw [hnone, append_nil]
      unfold undoCalls preCalls postCalls
      rw [filter_append, filter_calls_once _ (fun _ => rfl) hnodup hinfo,
        filter_calls_once _ (fun _ => rfl) hnodup hinfo]
      rfl
    · have hne : r.1 ≠ request.1 := fun heq => hids.1 (heq ▸ mem_map_of_mem hrest)
      rw [filter_undoCalls r hne, ih hids.2 hrest]
      rfl

end Once

/-! ## The registered interceptors -/

/-- All calls of the interceptor are about events of one type. -/
def CalledWith (s : DependencyManager) (i : ℕ) (type : EventType) : Prop :=
  ∀ c ∈ s.trace, ∀ x, c.intercepts = some x → x.1 = i → x.2.2 = type

/-- Ids of interceptors are used once. -/
structure Distinct (s : DependencyManager) : Prop where
  bound : ∀ key, ∀ info ∈ s.interceptorsFor key, info.interceptorId < s.nextInterceptorId
  nodup : ∀ key, ((s.interceptorsFor key).map EventInterceptInfo.interceptorId).Nodup
  apart : ∀ key key', ∀ info ∈ s.interceptorsFor key, ∀ info' ∈ s.interceptorsFor key',
    info.interceptorId = info'.interceptorId → key = key'
  called : ∀ c ∈ s.trace, ∀ x, c.intercepts = some x → x.1 < s.nextInterceptorId
  queued : ∀ e ∈ s.queue, e.id < s.nextEventId

/-- An id that was given to an interceptor for one type, which may be gone. -/
structure GivenFor (s : DependencyManager) (i : ℕ) (type : EventType) : Prop where
  given : i < s.nextInterceptorId
  key : ∀ key, ∀ info ∈ s.interceptorsFor key, info.interceptorId = i → key = some type
  calledWith : CalledWith s i type

/-- An interceptor for one type has only been called with events of that type. -/
def Typed (s : DependencyManager) : Prop :=
  ∀ type, ∀ info ∈ s.interceptorsFor (some type), CalledWith s info.interceptorId type

theorem Typed.givenFor (h : s.Typed) (hd : s.Distinct) {type : EventType} {info : EventInterceptInfo}
    (hinfo : info ∈ s.interceptorsFor (some type)) : GivenFor s info.interceptorId type :=
  ⟨hd.bound _ info hinfo, fun key info' hinfo' heq => hd.apart key _ info' hinfo' info hinfo heq,
    h type info hinfo⟩

theorem distinct_initial (internals : List NameHash) : (initial internals).Distinct := by
  refine List.foldlRecOn internals addInternalServiceManager ⟨?_, ?_, ?_, ?_, ?_⟩
    fun s hs _ _ => { hs with }
  all_goals simp [constructed, interceptorsFor]

theorem typed_initial (internals : List NameHash) : (initial internals).Typed := by
  refine List.foldlRecOn (motive := Typed) internals addInternalServiceManager ?_ fun s hs _ _ => hs
  simp [Typed, constructed, interceptorsFor]

theorem Distinct.audience_nodup (h : s.Distinct) (e : Event) :
    ((s.audience e).map EventInterceptInfo.interceptorId).Nodup := by
  unfold audience
  rw [map_append, nodup_append]
  refine ⟨h.nodup none, h.nodup _, ?_⟩
  intro i hi j hj heq
  obtain ⟨info, hinfo, rfl⟩ := mem_map.mp hi
  obtain ⟨info', hinfo', rfl⟩ := mem_map.mp hj
  cases h.apart none _ info hinfo info' hinfo' heq

theorem mem_audience {info : EventInterceptInfo} :
    info ∈ s.audience e ↔ ∃ key, (key = none ∨ key = some e.body.type) ∧
      info ∈ s.interceptorsFor key := by
  unfold audience
  rw [mem_append]
  constructor
  · rintro (h | h)
    · exact ⟨none, .inl rfl, h⟩
    · exact ⟨_, .inr rfl, h⟩
  · rintro ⟨key, rfl | rfl, h⟩
    · exact .inl h
    · exact .inr h

/-! ## Steps -/

/-- After the step the removal of `d` is on record. -/
def erases (s : DependencyManager) (a : Action) (d : ServiceId) : Bool :=
  (next a s).any fun s' => s'.trace.contains (.erased d)

/-- Processing this event removes a service with dependency registrations while an
interceptor is registered for the type of the event, or for undo requests. -/
def misdirects (s : DependencyManager) : Action → Bool
  | .processEvent index u =>
    match s.queue[index]? with
    | none => false
    | some e =>
      match s.removal e with
      | none => false
      | some d => decide (0 < s.undoCount d) && s.erases (.processEvent index u) d &&
          (!(s.interceptorsFor (some e.body.type)).isEmpty ||
            !(s.interceptorsFor (some .dependencyUndoRequest)).isEmpty)
  | _ => false

variable {index : ℕ} {d : ServiceId}

theorem not_misdirects
    (h : s.misdirects (.processEvent index u) = false) (he : s.queue[index]? = some e)
    (hstep : next (.processEvent index u) s = some s') (hr : s.removal e = some d)
    (hd : 0 < s.undoCount d) (hgone : .erased d ∈ s'.trace) :
    s.interceptorsFor (some e.body.type) = [] ∧
      s.interceptorsFor (some .dependencyUndoRequest) = [] := by
  unfold misdirects erases at h
  simpa [he, hr, hd, hstep, hgone] using h

theorem intercepts_undoCalls {infos : List EventInterceptInfo}
    (h : c ∈ undoCalls infos request) : ∃ info ∈ infos,
      c.intercepts = some (info.interceptorId, request.1, .dependencyUndoRequest) := by
  unfold undoCalls at h
  rcases mem_append.mp h with h | h
  · obtain ⟨info, hinfo, rfl⟩ := mem_postCalls.mp h
    exact ⟨info, hinfo, rfl⟩
  · obtain ⟨info, hinfo, rfl⟩ := mem_preCalls.mp h
    exact ⟨info, hinfo, rfl⟩

/-- Whom a call during the event is for. -/
def HeardBy (s s' : DependencyManager) (e : Event) (x : ℕ × EventId × EventType) : Prop :=
  ∃ info ∈ s.audience e, x.1 = info.interceptorId ∧ (x.2.2 = e.body.type ∨
    ∃ d, s.removal e = some d ∧ 0 < s.undoCount d ∧ .erased d ∈ s'.trace)

theorem mem_trace_of_handling {removed : Option ServiceId} {handling later earlier : List Call}
    {requests : List (EventId × Bool)} {infos : List EventInterceptInfo}
    (htrace : s'.trace = later ++ (handling ++ earlier))
    (hhandling : handling.filter Call.isNoted = removed.toList.map .erased ++
      requests.flatMap (undoCalls infos)) (hd : removed = some d) : .erased d ∈ s'.trace := by
  have hmem : .erased d ∈ handling.filter Call.isNoted := by
    rw [hhandling, hd]
    exact mem_append_left _ (mem_singleton_self _)
  rw [htrace]
  exact mem_append_right _ (mem_append_left _ (mem_filter.mp hmem).1)

theorem Course.newCalls (h : Course s e s') : ∃ calls, s'.trace = calls ++ s.trace ∧
    ∀ c ∈ calls, ∀ x, c.intercepts = some x → HeardBy s s' e x := by
  obtain ⟨keep, removed, requests, processed, handling, completions, htrace, hcompletions,
    hhandling, _, _, hremoved, hamount, _, _⟩ := h
  have hgone : ∀ d, removed = some d → .erased d ∈ s'.trace := fun d hd =>
    mem_trace_of_handling (htrace.trans (append_assoc _ _ _).symm) hhandling hd
  refine ⟨_, by rw [htrace, ← append_assoc, ← append_assoc, ← append_assoc], ?_⟩
  intro c hc x hx
  have hnoted := Call.noted_of_intercepts hx
  rw [mem_append, mem_append, mem_append] at hc
  rcases hc with ((hc | hc) | hc) | hc
  · have hnone : c ∈ completions.filter Call.isNoted := mem_filter.mpr ⟨hc, hnoted⟩
    rw [hcompletions] at hnone
    cases hnone
  · obtain ⟨info, hinfo, rfl⟩ := mem_postCalls.mp hc
    cases hx
    refine ⟨info, ?_, rfl, .inl rfl⟩
    split at hinfo
    · cases hinfo
    · exact (mem_filter.mp hinfo).1
  · have hmem : c ∈ handling.filter Call.isNoted := mem_filter.mpr ⟨hc, hnoted⟩
    rw [hhandling] at hmem
    rcases mem_append.mp hmem with hmem | hmem
    · obtain ⟨d, _, rfl⟩ := mem_map.mp hmem
      cases hx
    · obtain ⟨request, hrequest, hmem⟩ := mem_flatMap.mp hmem
      obtain ⟨info, hinfo, hcall⟩ := intercepts_undoCalls hmem
      rw [hx] at hcall
      cases hcall
      refine ⟨info, (mem_filter.mp hinfo).1, rfl, .inr ?_⟩
      have hlen : 0 < requests.length :=
        length_pos_of_mem (mem_reverse.mp hrequest)
      cases removed with
      | none => simp [hamount] at hlen
      | some d => exact ⟨d, hremoved d rfl, by simpa [hamount] using hlen, hgone d rfl⟩
  · obtain ⟨info, hinfo, rfl⟩ := mem_preCalls.mp hc
    cases hx
    exact ⟨info, hinfo, rfl, .inl rfl⟩

variable {x : ℕ × EventId × EventType}

theorem Course.calls (h : Course s e s') (hc : c ∈ s'.trace)
    (hx : c.intercepts = some x) : c ∈ s.trace ∨ HeardBy s s' e x := by
  obtain ⟨calls, htrace, hcalls⟩ := h.newCalls
  rw [htrace, mem_append] at hc
  rcases hc with hc | hc
  · exact .inr (hcalls c hc x hx)
  · exact .inl hc

theorem Course.tables (h : Course s e s') (key : Option EventType) :
    (s'.interceptorsFor key).Sublist (s.interceptorsFor key) := by
  obtain ⟨keep, _, _, _, _, _, _, _, _, htables, _⟩ := h
  exact (htables key).trans filter_sublist

theorem Course.counter (h : Course s e s') : s'.nextInterceptorId = s.nextInterceptorId := by
  obtain ⟨_, _, _, _, _, _, _, _, _, _, hcounter, _⟩ := h
  exact hcounter

theorem UserMove.interceptors (h : UserMove s s') :
    (s'.eventInterceptors = s.eventInterceptors ∧ s'.nextInterceptorId = s.nextInterceptorId ∧
      Notes s s' []) ∨ ∃ d type, s' = s.registerEventInterceptor d type := by
  have hsame : ∀ {t : DependencyManager}, t.eventInterceptors = s.eventInterceptors →
      t.nextInterceptorId = s.nextInterceptorId → t.trace = s.trace →
      (t.eventInterceptors = s.eventInterceptors ∧ t.nextInterceptorId = s.nextInterceptorId ∧
        Notes s t []) ∨ ∃ d type, t = s.registerEventInterceptor d type :=
    fun htable hcounter htrace => .inl ⟨htable, hcounter, [], htrace, rfl⟩
  cases h with
  | created desc =>
    rw [createServiceManager_eq]
    exact hsame rfl rfl rfl
  | interceptor d type => exact .inr ⟨d, type, rfl⟩
  | stopReturns q g => exact .inl ⟨rfl, rfl, [.stopped g.generator.serviceId], rfl, rfl⟩
  | _ => exact hsame rfl rfl rfl

theorem mem_registerEventInterceptor {type key : Option EventType} {info : EventInterceptInfo} :
    info ∈ (s.registerEventInterceptor d type).interceptorsFor key ↔
      info ∈ s.interceptorsFor key ∨ key = type ∧ info = ⟨d, s.nextInterceptorId⟩ := by
  unfold interceptorsFor registerEventInterceptor
  dsimp only
  rw [Table.get?_put]
  by_cases hkey : key = type
  · simp [hkey]
  · simp [hkey]

theorem next_interceptors (h : next a s = some s') :
    (∃ index u e, a = .processEvent index u ∧ s.queue[index]? = some e ∧
      Course (s.dequeue index) e s') ∨
    (s'.eventInterceptors = s.eventInterceptors ∧ s'.nextInterceptorId = s.nextInterceptorId ∧
      Notes s s' []) ∨
    ∃ d type, s' = s.registerEventInterceptor d type := by
  rcases next_cases h with ⟨index, u, e, rfl, he, hp⟩ | ⟨_, hm⟩
  · cases hq : s.quitDone with
    | false => exact .inl ⟨index, u, e, rfl, he, hp.course hq⟩
    | true =>
      rw [processEvent_of_quitDone h hq]
      exact .inr (.inl ⟨rfl, rfl, [], rfl, rfl⟩)
  · exact .inr hm.interceptors

theorem Notes.mem_of_intercepts (h : Notes s s' []) (hc : c ∈ s'.trace)
    (hx : c.intercepts = some x) : c ∈ s.trace := by
  obtain ⟨calls, htrace, hnoted⟩ := h
  rw [htrace] at hc
  rcases mem_append.mp hc with hc | hc
  · have hmem : c ∈ calls.filter Call.isNoted :=
      mem_filter.mpr ⟨hc, Call.noted_of_intercepts hx⟩
    rw [hnoted] at hmem
    cases hmem
  · exact hc

theorem GivenFor.step {type : EventType} (h : GivenFor s i type)
    (hc : s.misdirects a = false) (hstep : next a s = some s') : GivenFor s' i type := by
  rcases next_interceptors hstep with ⟨index, u, e, rfl, he, hcourse⟩ | ⟨htable, hcounter, hnotes⟩ |
    ⟨d, key, rfl⟩
  · refine ⟨?_, ?_, ?_⟩
    · rw [hcourse.counter]
      exact h.given
    · intro key info hinfo
      exact h.key key info ((hcourse.tables key).subset hinfo)
    · intro c hmem x hx hi
      rcases hcourse.calls hmem hx with hold | ⟨info, hinfo, hid, htype⟩
      · exact h.calledWith c hold x hx hi
      · obtain ⟨key, hkey, hin⟩ := mem_audience.mp hinfo
        have hgiven : key = some type := h.key key info hin (hid.symm.trans hi)
        have hown : e.body.type = type := by
          rcases hkey with rfl | rfl
          · cases hgiven
          · exact Option.some.inj hgiven
        rcases htype with htype | ⟨d, hr, hd, hgone⟩
        · exact htype.trans hown
        · -- an interceptor for the type of the event excludes that the event removes a service
          have hnone := (not_misdirects hc he hstep hr hd hgone).1
          rw [hown, ← hgiven] at hnone
          have hin : info ∈ s.interceptorsFor key := hin
          rw [hnone] at hin
          cases hin
  · refine ⟨by rw [hcounter]; exact h.given, ?_, ?_⟩
    · intro key info hinfo
      unfold interceptorsFor at hinfo
      rw [htable] at hinfo
      exact h.key key info hinfo
    · intro c hmem x hx hi
      exact h.calledWith c (hnotes.mem_of_intercepts hmem hx) x hx hi
  · refine ⟨Nat.lt_succ_of_lt h.given, ?_, h.calledWith⟩
    intro key' info hinfo hid
    rcases mem_registerEventInterceptor.mp hinfo with hinfo | ⟨rfl, rfl⟩
    · exact h.key key' info hinfo hid
    · have hlt := h.given
      simp only at hid
      omega

theorem Distinct.step (h : s.Distinct) (hstep : next a s = some s') : s'.Distinct := by
  have hqueued : s'.QueueBounded := QueueBounded.step h.queued hstep
  rcases next_interceptors hstep with ⟨index, u, e, rfl, he, hcourse⟩ | ⟨htable, hcounter, hnotes⟩ |
    ⟨d, key, rfl⟩
  · have hsub : ∀ key, ∀ info ∈ s'.interceptorsFor key, info ∈ s.interceptorsFor key :=
      fun key info hinfo => (hcourse.tables key).subset hinfo
    refine ⟨?_, ?_, ?_, ?_, hqueued⟩
    · intro key info hinfo
      rw [hcourse.counter]
      exact h.bound key info (hsub key info hinfo)
    · intro key
      exact (h.nodup key).sublist ((hcourse.tables key).map _)
    · intro key key' info hinfo info' hinfo'
      exact h.apart key key' info (hsub key info hinfo) info' (hsub key' info' hinfo')
    · intro c hmem x hx
      rw [hcourse.counter]
      rcases hcourse.calls hmem hx with hold | ⟨info, hinfo, hid, _⟩
      · exact h.called c hold x hx
      · obtain ⟨key, _, hin⟩ := mem_audience.mp hinfo
        rw [hid]
        exact h.bound key info hin
  · have hsame : ∀ key, s'.interceptorsFor key = s.interceptorsFor key := by
      intro key
      unfold interceptorsFor
      rw [htable]
    refine ⟨?_, ?_, ?_, ?_, hqueued⟩
    · intro key info hinfo
      rw [hcounter]
      exact h.bound key info (hsame key ▸ hinfo)
    · intro key
      rw [hsame key]
      exact h.nodup key
    · intro key key' info hinfo info' hinfo'
      exact h.apart key key' info (hsame key ▸ hinfo) info' (hsame key' ▸ hinfo')
    · intro c hmem x hx
      rw [hcounter]
      exact h.called c (hnotes.mem_of_intercepts hmem hx) x hx
  · refine ⟨?_, ?_, ?_, ?_, hqueued⟩
    · intro key' info hinfo
      rcases mem_registerEventInterceptor.mp hinfo with hinfo | ⟨_, rfl⟩
      · exact Nat.lt_succ_of_lt (h.bound key' info hinfo)
      · exact Nat.lt_succ_self _
    · intro key'
      unfold interceptorsFor registerEventInterceptor
      dsimp only
      rw [Table.get?_put]
      split
      · have hold := h.nodup key
        have hlt := h.bound key
        unfold interceptorsFor at hold hlt
        simp only [Option.getD_some, map_append, map_cons, map_nil]
        rw [nodup_append]
        refine ⟨hold, nodup_singleton _, ?_⟩
        intro i hi j hj heq
        obtain ⟨info, hinfo, rfl⟩ := mem_map.mp hi
        have hbound := hlt info hinfo
        rw [mem_singleton] at hj
        omega
      · exact h.nodup key'
    · intro key1 key2 info hinfo info' hinfo' hid
      rcases mem_registerEventInterceptor.mp hinfo with hold | ⟨rfl, rfl⟩ <;>
        rcases mem_registerEventInterceptor.mp hinfo' with hold' | ⟨rfl, rfl⟩
      · exact h.apart key1 key2 info hold info' hold' hid
      · have hlt := h.bound key1 info hold
        simp only at hid
        omega
      · have hlt := h.bound key2 info' hold'
        simp only at hid
        omega
      · rfl
    · intro c hmem x hx
      exact Nat.lt_succ_of_lt (h.called c hmem x hx)

theorem Typed.step (h : s.Typed) (hd : s.Distinct) (hc : s.misdirects a = false)
    (hstep : next a s = some s') : s'.Typed := by
  -- an interceptor that was there before keeps to its type
  have hkept : ∀ type, ∀ info ∈ s.interceptorsFor (some type),
      CalledWith s' info.interceptorId type := fun type info hinfo =>
    ((h.givenFor hd hinfo).step hc hstep).calledWith
  intro type info hinfo
  rcases next_interceptors hstep with ⟨index, u, e, rfl, he, hcourse⟩ | ⟨htable, hcounter, hnotes⟩ |
    ⟨d, key, rfl⟩
  · exact hkept type info ((hcourse.tables _).subset hinfo)
  · unfold interceptorsFor at hinfo
    rw [htable] at hinfo
    exact hkept type info hinfo
  · rcases mem_registerEventInterceptor.mp hinfo with hinfo | ⟨_, rfl⟩
    · exact hkept type info hinfo
    · -- nobody has called the id that is given out now
      intro c hmem x hx hi
      have hlt := hd.called c hmem x hx
      simp only at hi
      omega

/-! ## Every event is heard once before and once after -/

/-- One call before the event, one after it, none in between: the calls of one event
are those before it, its handling, those after it, and the coroutines that waited. -/
def HeardOnce (s : DependencyManager) (e : Event) (s' : DependencyManager) : Prop :=
  ∃ before handling after completions,
    s'.trace = completions ++ (after ++ (handling ++ (before ++ s.trace))) ∧
    (∀ c ∈ before, ∃ i, c = .preIntercept i e.id e.body.type) ∧
    (∀ c ∈ after, ∃ i processed, c = .postIntercept i e.id e.body.type processed) ∧
    (∀ c ∈ completions, c.intercepts = none) ∧
    (∀ key, key = none ∨ key = some e.body.type → ∀ info ∈ s.interceptorsFor key,
      info ∈ s'.interceptorsFor key → before.filter (Call.about info.interceptorId e.id) =
          [.preIntercept info.interceptorId e.id e.body.type] ∧
        handling.filter (Call.about info.interceptorId e.id) = [] ∧
        ∃ processed, after.filter (Call.about info.interceptorId e.id) =
          [.postIntercept info.interceptorId e.id e.body.type processed]) ∧
    ∀ d, .erased d ∈ handling → ∃ ids : List EventId, ids.Nodup ∧ ids.length = s.undoCount d ∧
      ∀ id ∈ ids, ∀ key, key = none ∨ key = some .dependencyUndoRequest →
        ∀ info ∈ s.interceptorsFor key, info ∈ s'.interceptorsFor key →
          ∃ processed, handling.filter (Call.about info.interceptorId id) =
            [.postIntercept info.interceptorId id .dependencyUndoRequest processed,
              .preIntercept info.interceptorId id .dependencyUndoRequest]

theorem Course.heardOnce (hs : s.Distinct)
    (hc : s.misdirects (.processEvent index u) = false) (he : s.queue[index]? = some e)
    (hstep : next (.processEvent index u) s = some s')
    (h : Course (s.dequeue index) e s') (hq : s'.quitDone = false) : HeardOnce s e s' := by
  have hid : e.id < s.nextEventId := hs.queued e (mem_of_getElem? he)
  have hnodup : ((s.audience e).map EventInterceptInfo.interceptorId).Nodup := hs.audience_nodup e
  obtain ⟨keep, removed, requests, processed, handling, completions, htrace, hcompletions,
    hhandling, htables, _, hremoved, hamount, hids, hfresh⟩ := h
  rw [hq, if_neg Bool.false_ne_true] at htrace
  have hstays : ∀ key, ∀ info ∈ s.interceptorsFor key, info ∈ s'.interceptorsFor key →
      info ∈ s.audience e → info ∈ (s.audience e).filter keep := by
    intro key info _ hinfo' haud
    have hkeep := (mem_filter.mp ((htables key).subset hinfo')).2
    exact mem_filter.mpr ⟨haud, hkeep⟩
  have hkept : (((s.audience e).filter keep).map EventInterceptInfo.interceptorId).Nodup :=
    hnodup.sublist (filter_sublist.map _)
  refine ⟨_, handling, _, completions, htrace, ?_, ?_, ?_, ?_, ?_⟩
  · intro c hmem
    obtain ⟨info, _, rfl⟩ := mem_preCalls.mp hmem
    exact ⟨_, rfl⟩
  · intro c hmem
    obtain ⟨info, _, rfl⟩ := mem_postCalls.mp hmem
    exact ⟨_, _, rfl⟩
  · intro c hmem
    cases hx : c.intercepts with
    | none => rfl
    | some x =>
      have hnoted : c ∈ completions.filter Call.isNoted :=
        mem_filter.mpr ⟨hmem, Call.noted_of_intercepts hx⟩
      rw [hcompletions] at hnoted
      cases hnoted
  · intro key hkey info hinfo hinfo'
    have haud : info ∈ s.audience e := mem_audience.mpr ⟨key, hkey, hinfo⟩
    refine ⟨filter_calls_once _ (fun _ => rfl) hnodup haud, ?_, processed,
      filter_calls_once _ (fun _ => rfl) hkept (hstays key info hinfo hinfo' haud)⟩
    -- the undo requests have ids that the queued event cannot have
    rw [filter_about, hhandling, filter_append]
    rw [filter_erased, nil_append, filter_flatMap, flatMap_eq_nil_iff]
    intro request hrequest
    have hlow : s.nextEventId ≤ request.1 := hfresh request (mem_reverse.mp hrequest)
    exact filter_undoCalls request (Nat.ne_of_gt (Nat.lt_of_lt_of_le hid hlow))
  · intro d hmem
    have hnoted : Call.erased d ∈ handling.filter Call.isNoted :=
      mem_filter.mpr ⟨hmem, rfl⟩
    have hd : removed = some d := by
      rw [hhandling] at hnoted
      rcases mem_append.mp hnoted with hnoted | hnoted
      · simpa using hnoted
      · obtain ⟨request, _, hcall⟩ := mem_flatMap.mp hnoted
        obtain ⟨info, _, hx⟩ := intercepts_undoCalls hcall
        cases hx
    subst hd
    refine ⟨requests.map Prod.fst, hids, (length_map _).trans hamount, ?_⟩
    intro id hmemid key hkey info hinfo hinfo'
    obtain ⟨request, hrequest, rfl⟩ := mem_map.mp hmemid
    have hpos : 0 < s.undoCount d := by
      have hlen := length_pos_of_mem hrequest
      rw [hamount] at hlen
      exact hlen
    have hgone := mem_trace_of_handling (htrace.trans (append_assoc _ _ _).symm) hhandling rfl
    have hnone := not_misdirects hc he hstep (hremoved d rfl) hpos hgone
    have haud : info ∈ s.audience e := by
      rcases hkey with rfl | rfl
      · exact mem_audience.mpr ⟨none, .inl rfl, hinfo⟩
      · rw [hnone.2] at hinfo
        cases hinfo
    refine ⟨request.2, ?_⟩
    rw [filter_about, hhandling, filter_append, filter_erased, nil_append]
    have hreverse : (requests.reverse.map Prod.fst).Nodup := by
      rw [map_reverse, nodup_reverse]
      exact hids
    exact filter_undoRequests hkept (hstays key info hinfo hinfo' haud) hreverse
      (mem_reverse.mpr hrequest)

variable {order : QueueOrder} {internals : List NameHash}

theorem distinct_of_run {condition : DependencyManager → Action → Prop}
    (h : RunWhere order condition (initial internals) s) : s.Distinct :=
  GuardedRuns.Run.invariant h Distinct (distinct_initial internals)
    fun _ _ _ hx _ hstep => hx.step hstep

theorem typed_of_run
    (h : RunWhere order (fun s a => s.misdirects a = false) (initial internals) s) : s.Typed :=
  (GuardedRuns.Run.invariant h (fun x => x.Distinct ∧ x.Typed)
    ⟨distinct_initial internals, typed_initial internals⟩
    fun _ _ _ hx hguard hstep => ⟨hx.1.step hstep, hx.2.step hx.1 hguard.2 hstep⟩).2

/-- An interceptor for all events, one for StartServiceEvents, and a service with a
dependency that nobody provides, about to be removed. -/
def interceptedRemoval : List Instruction :=
  [.act (.registerEventInterceptor 0 none), .act (.registerEventInterceptor 0 (some .startService)),
    .act (.createServiceManager (.simple [] [(5, true)])), .drain 9 .prompt,
    .act (.pushEvent 0 internalEventPriority (.removeService 2))]

/-- The same removal with interceptors for RemoveServiceEvents and for undo requests. -/
def misdirectedRemoval : List Instruction :=
  [.act (.registerEventInterceptor 0 (some .removeService)),
    .act (.registerEventInterceptor 0 (some .dependencyUndoRequest)),
    .act (.createServiceManager (.simple [] [(5, true)])), .drain 9 .prompt,
    .act (.pushEvent 0 internalEventPriority (.removeService 2)), .drain 9 .prompt]

end Ichor.DependencyManager
