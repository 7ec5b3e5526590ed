import Ichor.Desk.Serving

/-! What an event does with the interceptors: who is called, with which event, and who
is dropped. The undo requests of a removed service go to the copies of the event that
removes it. -/
namespace Ichor
open FiniteTable List

/-- The interceptor that is called, with the event and its type. -/
def Call.intercepts : Call → Option (ℕ × EventId × EventType)
  | .preIntercept i id type => some (i, id, type)
  | .postIntercept i id type _ => some (i, id, type)
  | _ => none

/-- The call of interceptor `i` for the event `id`. -/
def Call.about (i : ℕ) (id : EventId) (c : Call) : Bool :=
  c.intercepts.any fun x => decide (x.1 = i) && decide (x.2.1 = id)

/-- The calls of interceptors and the marks of removals. -/
def Call.isNoted : Call → Bool
  | .preIntercept _ _ _ | .postIntercept _ _ _ _ | .erased _ => true
  | _ => false

variable {c : Call}

theorem Call.noted_of_intercepts {x : ℕ × EventId × EventType}
    (h : c.intercepts = some x) : c.isNoted = true := by
  cases c <;> first | rfl | cases h

namespace DependencyManager

variable {s s' t : DependencyManager}

def interceptorsFor (s : DependencyManager) (key : Option EventType) : List EventInterceptInfo :=
  (s.eventInterceptors.get? key).getD []

/-- The interceptors that hear of the event at hand. -/
def copies (s : DependencyManager) : List EventInterceptInfo :=
  s.allEventInterceptorsCopy ++ s.eventInterceptorsCopy

/-! ## Steps that keep the interceptors -/

/-- The noted calls of a step, newest first. -/
def Notes (s s' : DependencyManager) (noted : List Call) : Prop :=
  ∃ calls, s'.trace = calls ++ s.trace ∧ calls.filter Call.isNoted = noted

variable {l : List Call} {d : ServiceId} {u : UserCode} {l' : List Call}

theorem Notes.trans (h : Notes s t l) (h' : Notes t s' l') : Notes s s' (l' ++ l) := by
  obtain ⟨calls, htrace, hfilter⟩ := h
  obtain ⟨calls', htrace', hfilter'⟩ := h'
  exact ⟨calls' ++ calls, by rw [htrace', htrace, append_assoc],
    by rw [filter_append, hfilter, hfilter']⟩

/-- The interceptors stay, in the tables and in the copies. -/
structure Keeps (s s' : DependencyManager) (noted : List Call) : Prop where
  all : s'.allEventInterceptorsCopy = s.allEventInterceptorsCopy
  own : s'.eventInterceptorsCopy = s.eventInterceptorsCopy
  table : s'.eventInterceptors = s.eventInterceptors
  counter : s'.nextInterceptorId = s.nextInterceptorId
  notes : Notes s s' noted

/-- The interceptors stay and none is called. -/
abbrev Silent (s s' : DependencyManager) : Prop := Keeps s s' []

theorem Keeps.trans (h : Keeps s t l) (h' : Keeps t s' l') : Keeps s s' (l' ++ l) :=
  ⟨h'.all.trans h.all, h'.own.trans h.own, h'.table.trans h.table, h'.counter.trans h.counter,
    h.notes.trans h'.notes⟩

theorem Keeps.copies (h : Keeps s s' l) : s'.copies = s.copies := by
  unfold DependencyManager.copies
  rw [h.all, h.own]

theorem silent_refl (s : DependencyManager) : Silent s s := ⟨rfl, rfl, rfl, rfl, [], rfl, rfl⟩

theorem Moves.silent (h : Moves s s') : Silent s s' where
  all := congrArg Desk.allEventInterceptorsCopy h.desk
  own := congrArg Desk.eventInterceptorsCopy h.desk
  table := congrArg Desk.eventInterceptors h.desk
  counter := congrArg Desk.nextInterceptorId h.desk
  notes := by
    obtain ⟨calls, htrace, hcalls⟩ := h.calls
    refine ⟨calls, htrace, filter_eq_nil_iff.mpr fun c hc => ?_⟩
    have hlife := hcalls c hc
    cases c <;> first | exact Bool.false_ne_true | cases hlife

theorem silent_runGenerator (s : DependencyManager) (u : UserCode) (c : Call) (svc : ServiceId)
    (priority : ℕ) (e : Event) (ref : Option ℕ) (hc : c.isNoted = false) :
    Silent s (s.runGenerator u c svc priority e ref).1 := by
  have hran := ran_runGenerator s u c svc priority e ref
  generalize s.runGenerator u c svc priority e ref = out at hran
  cases hran <;> exact ⟨rfl, rfl, rfl, rfl, [c], rfl, by simp [hc]⟩

theorem Serves.silent {P : Call → Event → Option ℕ → Prop} (h : Serves P s s')
    (hP : ∀ c e ref, P c e ref → c.isNoted = false) : Silent s s' :=
  h.rel Silent silent_refl (fun h h' => h.trans h') fun t u c svc priority e ref hc =>
    silent_runGenerator t u c svc priority e ref (hP c e ref hc)

theorem Completes.silent (h : Completes s s') : Silent s s' := by
  obtain ⟨calls, _, _, _, _, _, hcalls⟩ := h
  refine ⟨rfl, rfl, rfl, rfl, calls, rfl, filter_eq_nil_iff.mpr fun c hc => ?_⟩
  obtain ⟨id, q, rfl⟩ := hcalls c hc
  exact Bool.false_ne_true

/-! ## Calls of the copies -/

section
variable (s : DependencyManager) (id : EventId) (type : EventType) (processed : Bool)

/-- The calls before an event, newest first. -/
def preCalls (infos : List EventInterceptInfo) (id : EventId) (type : EventType) : List Call :=
  (infos.map fun info => .preIntercept info.interceptorId id type).reverse

/-- The calls after an event, newest first. -/
def postCalls (infos : List EventInterceptInfo) (id : EventId) (type : EventType)
    (processed : Bool) : List Call :=
  (infos.map fun info => .postIntercept info.interceptorId id type processed).reverse

theorem foldl_call {α : Type} (l : List α) (f : α → Call) (s : DependencyManager) :
    l.foldl (fun s a => s.call (f a)) s = { s with trace := (l.map f).reverse ++ s.trace } := by
  induction l generalizing s with
  | nil => rfl
  | cons a rest ih =>
    rw [foldl_cons, ih]
    simp [call]

theorem preInterceptCopies_eq :
    s.preInterceptCopies id type = { s with trace := preCalls s.copies id type ++ s.trace } :=
  foldl_call s.copies (fun info => .preIntercept info.interceptorId id type) s

theorem postInterceptCopies_eq : s.postInterceptCopies id type processed =
      { s with trace := postCalls s.copies id type processed ++ s.trace } :=
  foldl_call s.copies (fun info => .postIntercept info.interceptorId id type processed) s

variable {infos : List EventInterceptInfo}

theorem mem_preCalls {id : EventId} {type : EventType} : c ∈ preCalls infos id type ↔
      ∃ info ∈ infos, .preIntercept info.interceptorId id type = c := by
  unfold preCalls
  rw [mem_reverse, mem_map]

theorem mem_postCalls {id : EventId} {type : EventType}
    {processed : Bool} : c ∈ postCalls infos id type processed ↔
      ∃ info ∈ infos, .postIntercept info.interceptorId id type processed = c := by
  unfold postCalls
  rw [mem_reverse, mem_map]

theorem keeps_preInterceptCopies :
    Keeps s (s.preInterceptCopies id type) (preCalls s.copies id type) := by
  rw [preInterceptCopies_eq]
  refine ⟨rfl, rfl, rfl, rfl, _, rfl, filter_eq_self.mpr fun c hc => ?_⟩
  obtain ⟨info, _, rfl⟩ := mem_preCalls.mp hc
  rfl

theorem keeps_postInterceptCopies : Keeps s (s.postInterceptCopies id type processed)
      (postCalls s.copies id type processed) := by
  rw [postInterceptCopies_eq]
  refine ⟨rfl, rfl, rfl, rfl, _, rfl, filter_eq_self.mpr fun c hc => ?_⟩
  obtain ⟨info, _, rfl⟩ := mem_postCalls.mp hc
  rfl

/-- The interceptors that are registered for an event. -/
def audience (e : Event) : List EventInterceptInfo :=
  s.interceptorsFor none ++ s.interceptorsFor (some e.body.type)

/-- The manager when the switch is reached. -/
def intercepted (e : Event) : DependencyManager :=
  { s with
    allEventInterceptorsCopy := s.interceptorsFor none
    eventInterceptorsCopy := s.interceptorsFor (some e.body.type)
    trace := preCalls (s.audience e) e.id e.body.type ++ s.trace }

theorem preIntercept_eq (u : UserCode) (e : Event) : (s.preIntercept u e).1 = s.intercepted e :=
  preInterceptCopies_eq _ e.id e.body.type

/-! ## The undo requests of a removal -/

/-- The number of undo requests that the removal of a service makes. -/
def undoCount (d : ServiceId) : ℕ :=
  match s.services.get? d with
  | none => 0
  | some m => if m.kind = .dependency then m.registry.length else 0

end

theorem undoCount_of_fixed (h : s'.fixedOf d = s.fixedOf d) : s'.undoCount d = s.undoCount d := by
  have hview : ∀ t : DependencyManager, t.undoCount d = match t.fixedOf d with
      | none => 0
      | some f => if f.kind = .dependency then f.registrations.length else 0 := by
    intro t
    unfold undoCount fixedOf
    cases t.services.get? d with
    | none => rfl
    | some m => simp [LifecycleManager.fixed]
  rw [hview, hview, h]

variable {hash : NameHash} {removed : ServiceId} {acc acc' : DependencyManager × ℕ}

theorem silent_untrack {svc : ServiceId} (h : untrack u hash removed acc svc = some acc') :
    Silent acc.1 acc'.1 := by
  rcases untrack_cases h with heq | ⟨e, _, _, ⟨heq, _⟩ | ⟨_, heq⟩⟩
  · rw [heq]
    exact silent_refl _
  · rw [heq]
    exact silent_runGenerator _ u _ _ _ e none rfl
  · rw [heq]
    exact { silent_runGenerator acc.1 u (.untracker svc hash removed) svc
      internalDependencyEventPriority e none rfl with }

theorem silent_untracks (l : List ServiceId)
    (h : l.foldlM (untrack u hash removed) acc = some acc') : Silent acc.1 acc'.1 :=
  Loops.rel_foldlM (fun x y : DependencyManager × ℕ => Silent x.1 y.1) (fun x => silent_refl x.1)
    (fun h h' => h.trans h') _ l (fun _ _ _ _ hb => silent_untrack hb) h

/-- The interceptor calls for one undo request, newest first. -/
def undoCalls (infos : List EventInterceptInfo) (request : EventId × Bool) : List Call :=
  postCalls infos request.1 .dependencyUndoRequest request.2 ++
    preCalls infos request.1 .dependencyUndoRequest

theorem undoRequest_calls {dep : Registration} (h : undoRequest u d s dep = some s') :
    s.nextEventId < s'.nextEventId ∧
      ∃ processed, Keeps s s' (undoCalls s.copies (s.nextEventId, processed)) := by
  unfold undoRequest at h
  obtain ⟨out, hout, rfl⟩ := Option.map_eq_some_iff.mp h
  have hpre := keeps_preInterceptCopies s.takeEventId s.nextEventId .dependencyUndoRequest
  have hloop := silent_untracks _ hout
  have hpost := keeps_postInterceptCopies out.1 s.nextEventId .dependencyUndoRequest
    (decide (out.2 > 0))
  constructor
  · have hid : (s.takeEventId.preInterceptCopies s.nextEventId
        .dependencyUndoRequest).nextEventId = s.nextEventId + 1 := by
      rw [preInterceptCopies_eq]
      rfl
    have hmore := (housekeeping_foldlM Prod.fst _ _ _ _
      (fun b a b' hb => housekeeping_untrack u dep.interfaceNameHash d b b' a hb) hout).grows.eventId
    rw [postInterceptCopies_eq]
    show s.nextEventId < out.1.nextEventId
    rw [hid] at hmore
    exact hmore
  · refine ⟨decide (out.2 > 0), ?_⟩
    have hcopies : out.1.copies = s.copies := (hpre.trans hloop).copies
    rw [hcopies] at hpost
    exact { (hpre.trans hloop).trans hpost with }

/-- The undo requests of a removal: their ids, in the order of the registrations, and
whether a tracker heard of them. -/
theorem undoRequests_calls (reg : List Registration)
    (h : reg.foldlM (undoRequest u d) s = some s') :
    ∃ requests : List (EventId × Bool), requests.length = reg.length ∧
      (requests.map Prod.fst).Nodup ∧ (∀ r ∈ requests, s.nextEventId ≤ r.1) ∧
      Keeps s s' (requests.reverse.flatMap (undoCalls s.copies)) := by
  induction reg generalizing s with
  | nil =>
    cases h
    exact ⟨[], rfl, nodup_nil, by simp, silent_refl _⟩
  | cons dep rest ih =>
    rw [foldlM_cons] at h
    obtain ⟨b, hb, hrest⟩ := Option.bind_eq_some_iff.mp h
    obtain ⟨hlt, processed, hcalls⟩ := undoRequest_calls hb
    obtain ⟨requests, hlen, hnodup, hids, hcalls'⟩ := ih hrest
    refine ⟨(s.nextEventId, processed) :: requests, by simp [hlen], ?_, ?_, ?_⟩
    · rw [map_cons, nodup_cons]
      refine ⟨fun hmem => ?_, hnodup⟩
      obtain ⟨r, hr, heq⟩ := mem_map.mp hmem
      have hlow := hids r hr
      rw [heq] at hlow
      exact absurd hlt (Nat.not_lt.mpr hlow)
    · intro r hr
      rcases mem_cons.mp hr with rfl | hr
      · exact Nat.le_refl _
      · exact Nat.le_trans (Nat.le_of_lt hlt) (hids r hr)
    · rw [hcalls.copies] at hcalls'
      have hall := hcalls.trans hcalls'
      rw [reverse_cons, flatMap_append]
      simpa using hall

theorem removeInternalService_calls (h : s.removeInternalService u d = some s') :
    ∃ requests : List (EventId × Bool), requests.length = s.undoCount d ∧
      (requests.map Prod.fst).Nodup ∧ (∀ r ∈ requests, s.nextEventId ≤ r.1) ∧
      Keeps s s' (.erased d :: requests.reverse.flatMap (undoCalls s.copies)) := by
  obtain ⟨m, t, hm, _, ht, _, rfl⟩ := removeInternalService_cases h
  obtain ⟨requests, hlen, hnodup, hids, hkeeps⟩ := undoRequests_calls _ ht
  have hcount : s.undoCount d = (if m.kind = .dependency then m.registry else []).length := by
    unfold undoCount
    rw [hm]
    dsimp only
    split <;> rfl
  refine ⟨requests, hlen.trans hcount.symm, hnodup, hids, hkeeps.all, hkeeps.own, hkeeps.table,
    hkeeps.counter, ?_⟩
  obtain ⟨calls, htrace, hfilter⟩ := hkeeps.notes
  exact ⟨.erased d :: calls, by simp [eraseService, htrace], by rw [← hfilter]; rfl⟩

/-! ## The handling of an event -/

/-- The copies lose what the tables lose. -/
def Pruned (s s' : DependencyManager) : Prop :=
  ∃ keep : EventInterceptInfo → Bool,
    s'.allEventInterceptorsCopy = s.allEventInterceptorsCopy.filter keep ∧
    s'.eventInterceptorsCopy = s.eventInterceptorsCopy.filter keep ∧
    ∀ key, (s'.interceptorsFor key).Sublist ((s.interceptorsFor key).filter keep)

theorem Keeps.pruned (h : Keeps s s' l) : Pruned s s' := by
  refine ⟨fun _ => true, by rw [h.all, filter_true], by rw [h.own, filter_true], ?_⟩
  intro key
  rw [filter_true]
  unfold interceptorsFor
  rw [h.table]

theorem Pruned.keeps (h : Pruned s t) (h' : Keeps t s' l) : Pruned s s' := by
  obtain ⟨keep, hall, hown, htable⟩ := h
  refine ⟨keep, h'.all.trans hall, h'.own.trans hown, fun key => ?_⟩
  unfold interceptorsFor
  rw [h'.table]
  exact htable key

theorem Keeps.prunes (h : Keeps s t l) (h' : Pruned t s') : Pruned s s' := by
  obtain ⟨keep, hall, hown, htable⟩ := h'
  refine ⟨keep, h.all ▸ hall, h.own ▸ hown, fun key => ?_⟩
  have hsub := htable key
  unfold interceptorsFor at hsub ⊢
  rwa [h.table] at hsub

theorem pruned_clearServiceRegistrations (s : DependencyManager) (d : ServiceId) :
    Pruned s (s.clearServiceRegistrations d) := by
  refine ⟨fun info => decide (info.listeningServiceId ≠ d), rfl, rfl, fun key => ?_⟩
  cases hget : (s.clearServiceRegistrations d).eventInterceptors.get? key with
  | none =>
    unfold interceptorsFor
    rw [hget]
    exact nil_sublist _
  | some infos =>
    obtain ⟨old, hold, rfl, _⟩ := (Table.get?_mapFilter _ _ _ _ _).mp hget
    unfold interceptorsFor
    rw [hget, hold]
    exact List.Sublist.refl _

theorem pruned_handleRemoveEventInterceptor (s : DependencyManager) (id : ℕ)
    (type : Option EventType) : Pruned s (s.handleRemoveEventInterceptor id type) := by
  refine ⟨fun _ => true, by rw [filter_true]; rfl, by rw [filter_true]; rfl, fun key => ?_⟩
  rw [filter_true]
  unfold interceptorsFor handleRemoveEventInterceptor
  dsimp only
  rw [Table.get?_modify]
  split
  · cases s.eventInterceptors.get? key with
    | none => exact List.Sublist.refl _
    | some infos => exact filter_sublist
  · exact List.Sublist.refl _

/-- The handling of an event, seen by the interceptors: some are dropped, and when a
service is removed those that are left hear of its undo requests. -/
structure Dispatch (s s' : DependencyManager) (removed : Option ServiceId)
    (requests : List (EventId × Bool)) : Prop where
  pruned : Pruned s s'
  counter : s'.nextInterceptorId = s.nextInterceptorId
  notes : Notes s s' (removed.toList.map .erased ++ requests.reverse.flatMap (undoCalls s'.copies))
  amount : requests.length = removed.elim 0 s.undoCount
  nodup : (requests.map Prod.fst).Nodup
  fresh : ∀ r ∈ requests, s.nextEventId ≤ r.1

theorem Keeps.dispatch (h : Silent s s') : Dispatch s s' none [] :=
  ⟨h.pruned, h.counter, h.notes, rfl, nodup_nil, by simp⟩

theorem Dispatch.silent {removed : Option ServiceId} {requests : List (EventId × Bool)}
    (h : Dispatch s t removed requests) (h' : Silent t s') : Dispatch s s' removed requests := by
  refine ⟨h.pruned.keeps h', h'.counter.trans h.counter, ?_, h.amount, h.nodup, h.fresh⟩
  have hnotes := h.notes.trans h'.notes
  rw [← h'.copies] at hnotes
  exact hnotes

theorem EndsStop.dispatch {removeAfter : Bool} (h : EndsStop s u d removeAfter s') :
    ∃ requests, Dispatch s s' (if removeAfter then some d else none) requests := by
  obtain ⟨t, hm, hend⟩ := h
  have hpruned : Pruned s (t.clearServiceRegistrations d) :=
    hm.silent.prunes (pruned_clearServiceRegistrations t d)
  have hquiet : Notes s (t.clearServiceRegistrations d) [] := hm.silent.notes
  cases removeAfter with
  | false =>
    have hend : s' = t.clearServiceRegistrations d := hend
    rw [hend]
    exact ⟨[], hpruned, hm.silent.counter, hquiet, rfl, nodup_nil, by simp⟩
  | true =>
    obtain ⟨requests, hlen, hnodup, hids, hkeeps⟩ := removeInternalService_calls hend
    refine ⟨requests, hpruned.keeps hkeeps, hkeeps.counter.trans hm.silent.counter, ?_, ?_, hnodup,
      fun r hr => ?_⟩
    · have hnotes := hquiet.trans hkeeps.notes
      rw [← hkeeps.copies, append_nil] at hnotes
      exact hnotes
    · exact hlen.trans (undoCount_of_fixed (hm.fixed d))
    · exact Nat.le_trans hm.eventId (hids r hr)

/-- The service that a stop with removal, also one whose `stop()` had suspended, or a
RemoveServiceEvent takes out of the table. -/
def removal (s : DependencyManager) (e : Event) : Option ServiceId :=
  match e.body with
  | .removeService d => some d
  | .stopService d true => some d
  | .continuableStart q =>
    match s.scopedGenerators.get? q with
    | none => none
    | some g =>
      match g.event.body with
      | .stopService d true => some d
      | _ => none
  | _ => none

theorem Handling.dispatch {e : Event} {out : Handled} (h : Handling s u e out) :
    ∃ removed requests, Dispatch s out.manager removed requests ∧
      ∀ d, removed = some d → s.removal e = some d := by
  have hsilent : ∀ {t : DependencyManager}, Silent s t → ∃ removed requests,
      Dispatch s t removed requests ∧ ∀ d, removed = some d → s.removal e = some d :=
    fun ht => ⟨none, [], ht.dispatch, by simp⟩
  have hsame : ∀ {t : DependencyManager}, t.allEventInterceptorsCopy = s.allEventInterceptorsCopy →
      t.eventInterceptorsCopy = s.eventInterceptorsCopy →
      t.eventInterceptors = s.eventInterceptors →
      t.nextInterceptorId = s.nextInterceptorId → t.trace = s.trace → ∃ removed requests,
      Dispatch s t removed requests ∧ ∀ d, removed = some d → s.removal e = some d :=
    fun hall hown htable hcount htrace => hsilent ⟨hall, hown, htable, hcount, [], htrace, rfl⟩
  cases h with
  | lifecycle t hb hm | started d t hb hm => exact hsilent hm.silent
  | request hash r hb =>
    refine hsilent ((serves_handleDependencyRequest s u e hash r).silent ?_)
    rintro c e' ref ⟨⟨svc, _, rfl⟩, _⟩
    rfl
  | quit hb => exact hsilent { (calm_handleQuit s e).toMoves.silent with }
  | insert m t hb hm | startSuspended d t priority hb hm => exact hsilent { hm.silent with }
  | stop d removeAfter _ hb hend =>
    cases hend with
    | moved _ hm => exact hsilent hm.toMoves.silent
    | suspended t q priority hm => exact hsilent { hm.silent with }
    | ended t hend =>
      obtain ⟨requests, hdispatch⟩ := hend.dispatch
      refine ⟨_, requests, hdispatch, fun x hx => ?_⟩
      cases removeAfter with
      | false => cases hx
      | true =>
        cases hx
        simp [removal, hb]
  | removeIgnored d hb => exact hsilent (silent_refl s)
  | remove d t hb hr =>
    obtain ⟨requests, hlen, hnodup, hids, hkeeps⟩ := removeInternalService_calls hr
    refine ⟨some d, requests, ⟨hkeeps.pruned, hkeeps.counter, ?_, hlen, hnodup, hids⟩,
      fun x hx => ?_⟩
    · have hnotes := hkeeps.notes
      rw [← hkeeps.copies] at hnotes
      exact hnotes
    · cases hx
      simp [removal, hb]
  | removeHandler listener type hb => exact hsame rfl rfl rfl rfl rfl
  | removeInterceptor id type hb =>
    exact ⟨none, [], ⟨pruned_handleRemoveEventInterceptor s id type, rfl, ⟨[], rfl, rfl⟩, rfl,
      nodup_nil, by simp⟩, by simp⟩
  | addTracker hash hb =>
    refine hsilent ((serves_handleAddTracker s u e hash).silent ?_)
    rintro c e' ref ⟨_, d, priority, r, rfl, _⟩
    rfl
  | removeTracker hash hb =>
    show ∃ removed requests, Dispatch s (s.handleRemoveTracker e hash) removed requests ∧ _
    unfold handleRemoveTracker
    split
    · exact hsilent (silent_refl s)
    · exact hsame rfl rfl rfl rfl rfl
  | continuable q hb => exact hsilent (completes_handleContinuable s u q).silent
  | continuableStart q _ hb hend =>
    cases hend with
    | stale => exact hsilent (silent_refl s)
    | moved g v t _ _ _ hm =>
      exact hsilent
        { hm.toMoves.silent.trans (completes_handleEventCompletion t u g.event).silent with }
    | ended g d remove t hg hbody hend =>
      obtain ⟨requests, hdispatch⟩ := hend.dispatch
      have hdone : Completes t ((t.handleEventCompletion u g.event).eraseGenerator q) :=
        (completes_handleEventCompletion t u g.event).trans (.mk [] _ _ _ _ _ (by simp))
      refine ⟨_, requests, hdispatch.silent hdone.silent, fun x hx => ?_⟩
      cases remove with
      | false => cases hx
      | true =>
        cases hx
        simp [removal, hb, hg, hbody]
  | function hb =>
    show ∃ removed requests, Dispatch s (s.handleRunFunction e) removed requests ∧ _
    unfold handleRunFunction
    split
    · exact hsilent (silent_refl s)
    · exact hsilent ⟨rfl, rfl, rfl, rfl, [.function e.id], rfl, rfl⟩
  | functionAsync hb =>
    refine hsilent ((serves_handleRunFunctionAsync s u e).silent ?_)
    rintro c e' ref ⟨rfl, _⟩
    rfl
  | broadcast hb =>
    refine hsilent ((serves_broadcastEvent s u e).silent ?_)
    rintro c e' ref ⟨⟨info, _, rfl⟩, _⟩
    rfl

end DependencyManager

end Ichor
