import Ichor.Desk.Growth

/-! Calls of user code that may leave a generator behind: trackers, handlers and
functions. A branch that only makes such calls is described by which calls it makes
and which event the generators keep. -/
namespace Ichor.DependencyManager
open FiniteTable

variable {s s' t : DependencyManager}

/-- A sequence of calls of user code, each for an event and a reference that `P` admits. -/
inductive Serves (P : Call → Event → Option ℕ → Prop) (s : DependencyManager) :
    DependencyManager → Prop
  | refl : Serves P s s
  | tail {t : DependencyManager} (h : Serves P s t) (u : UserCode) (c : Call) (svc : ServiceId)
      (priority : ℕ) (e : Event) (ref : Option ℕ) (hP : P c e ref) :
      Serves P s (t.runGenerator u c svc priority e ref).1

variable {P : Call → Event → Option ℕ → Prop}

theorem Serves.rel (h : Serves P s s')
    (R : DependencyManager → DependencyManager → Prop) (hrefl : ∀ s, R s s)
    (htrans : ∀ {a b c}, R a b → R b c → R a c) (hrun : ∀ t u c svc priority e ref, P c e ref →
      R t (t.runGenerator u c svc priority e ref).1) : R s s' := by
  induction h with
  | refl => exact hrefl s
  | tail _ u c svc priority e ref hP ih => exact htrans ih (hrun _ u c svc priority e ref hP)

theorem serves_foldl {α β : Type}
    (proj : β → DependencyManager) (f : β → α → β) (l : List α) (b : β)
    (hf : ∀ b, ∀ a ∈ l, proj (f b a) = proj b ∨ ∃ u c svc priority e ref, P c e ref ∧
      proj (f b a) = ((proj b).runGenerator u c svc priority e ref).1) :
    Serves P (proj b) (proj (l.foldl f b)) := by
  refine List.foldlRecOn (motive := fun x => Serves P (proj b) (proj x)) l f .refl fun x hx a ha => ?_
  rcases hf x a ha with heq | ⟨u, c, svc, priority, e, ref, hP, heq⟩
  · rw [heq]
    exact hx
  · rw [heq]
    exact hx.tail u c svc priority e ref hP

/-! ## The branches -/

section
variable (s : DependencyManager) (u : UserCode) (e : Event) (hash : NameHash)

def trackersOf : List ServiceId :=
  (s.dependencyRequestTrackers.get? hash).getD []

def callbacksOf (type : EventType) : List EventCallbackInfo :=
  (s.eventCallbacks.get? type).getD []

theorem serves_handleDependencyRequest (r : ℕ) : Serves (fun c e' ref => (∃ svc ∈ s.trackersOf hash,
      c = .tracker svc hash e.originatingService r) ∧ e' = e ∧ ref = some s.nextPromiseId) s
      (s.handleDependencyRequest u e hash r).manager :=
  serves_foldl Prod.fst _ _ (s, false) fun _ svc hsvc =>
    .inr ⟨u, .tracker svc hash e.originatingService r, svc, e.priority, e, some s.nextPromiseId,
      ⟨⟨svc, hsvc, rfl⟩, rfl, rfl⟩, rfl⟩

theorem serves_handleAddTracker :
    Serves (fun c e' ref => e.originatingService ∈ s.trackersOf hash ∧ ∃ d priority r,
      c = .tracker e.originatingService hash d r ∧
        e' = ⟨0, d, priority, .dependencyRequest hash r⟩ ∧ ref = none) s
      (s.handleAddTracker u e hash) := by
  unfold handleAddTracker
  split
  · rename_i hin
    exact serves_foldl id _ _ s fun _ request _ =>
      .inr ⟨u, _, _, _, _, none, ⟨hin, request.1, request.2.1, request.2.2, rfl, rfl, rfl⟩, rfl⟩
  · exact .refl

theorem serves_broadcastEvent : Serves (fun c e' ref => (∃ info ∈ s.callbacksOf e.body.type,
      c = .handler info.listeningServiceId e.id) ∧ e' = e ∧ ref = some s.nextPromiseId) s
      (s.broadcastEvent u e).manager := by
  unfold broadcastEvent
  split
  · exact .refl
  · rename_i callbacks hcallbacks
    refine serves_foldl Prod.fst _ _ (s, false) fun b info hinfo => ?_
    have hinfo : info ∈ s.callbacksOf e.body.type := by
      unfold callbacksOf
      rw [hcallbacks]
      exact hinfo
    unfold broadcastTo
    split
    · exact .inl rfl
    · split
      · exact .inl rfl
      · exact .inr ⟨u, _, _, _, e, some s.nextPromiseId, ⟨⟨info, hinfo, rfl⟩, rfl, rfl⟩, rfl⟩

theorem serves_handleRunFunctionAsync :
    Serves (fun c e' ref => c = .function e.id ∧ e' = e ∧ ref = none) s
      (s.handleRunFunctionAsync u e).manager := by
  unfold handleRunFunctionAsync
  split
  · exact .refl
  · exact Serves.refl.tail u _ _ _ e none ⟨rfl, rfl, rfl⟩

end

/-- A tracker that hears of an undo request is skipped or called; a stored generator
keeps an event of its own, with an id that is taken after the call. -/
theorem untrack_cases {u : UserCode} {hash : NameHash} {removed svc : ServiceId}
    {acc acc' : DependencyManager × ℕ} (h : untrack u hash removed acc svc = some acc') :
    acc'.1 = acc.1 ∨ ∃ e : Event, acc.1.nextEventId ≤ e.id ∧ e.body = .dependencyUndoRequest hash ∧
      (acc'.1 = (acc.1.runGenerator u (.untracker svc hash removed) svc
          internalDependencyEventPriority e none).1 ∧
        acc'.1.scopedGenerators = acc.1.scopedGenerators ∨
      e.id < acc'.1.nextEventId ∧
        acc'.1 = ((acc.1.runGenerator u (.untracker svc hash removed) svc
          internalDependencyEventPriority e none).1).takeEventId) := by
  unfold untrack at h
  split at h
  · cases h
  · split at h
    · cases h
      exact .inl rfl
    · right
      dsimp only at h
      have hbegun := begun_beginGenerator acc.1 u (.untracker svc hash removed) svc
        internalDependencyEventPriority
      let e : Event := ⟨(acc.1.beginGenerator u (.untracker svc hash removed) svc
        internalDependencyEventPriority).1.nextEventId, svc, internalDependencyEventPriority,
        .dependencyUndoRequest hash⟩
      refine ⟨e, ?_, rfl, ?_⟩
      · show acc.1.nextEventId ≤ (acc.1.beginGenerator u _ _ _).1.nextEventId
        generalize acc.1.beginGenerator u (.untracker svc hash removed) svc
          internalDependencyEventPriority = out at hbegun
        cases hbegun with
        | done | suspended => exact Nat.le_refl _
        | yielded => exact Nat.le_succ _
      · unfold runGenerator
        dsimp only
        split at h
        · rename_i t' hbegin
          cases h
          rw [hbegin] at hbegun
          cases hbegun
          exact .inl ⟨rfl, rfl⟩
        · rename_i t' st hbegin
          cases h
          have he : e = ⟨t'.nextEventId, svc, internalDependencyEventPriority,
              .dependencyUndoRequest hash⟩ := by
            simp only [e, hbegin]
          rw [he]
          exact .inr ⟨Nat.lt_succ_self _, rfl⟩

/-! ## Completed events and finished generators -/

/-- Coroutines that waited for an event go on, generators end or are put off: nothing but
the fields named here changes. -/
inductive Completes (s : DependencyManager) : DependencyManager → Prop
  | mk (calls : List Call) (abandoned : List PromiseId) (eventWaiters : Table EventId EventWaiter)
      (queue : List Event) (nextEventId : EventId)
      (scopedGenerators : Table PromiseId ScopedGenerator)
      (hcalls : ∀ c ∈ calls, ∃ id q, c = .completed id q) :
      Completes s { s with
        trace := calls ++ s.trace, abandoned := abandoned, eventWaiters := eventWaiters,
        queue := queue, nextEventId := nextEventId, scopedGenerators := scopedGenerators }

theorem Completes.refl (s : DependencyManager) : Completes s s :=
  .mk [] s.abandoned s.eventWaiters s.queue s.nextEventId s.scopedGenerators (by simp)

theorem Completes.trans (h : Completes s t) (h' : Completes t s') : Completes s s' := by
  obtain ⟨calls, _, _, _, _, _, hcalls⟩ := h
  obtain ⟨calls', abandoned, waiters, queue, id, generators, hcalls'⟩ := h'
  have hall : ∀ c ∈ calls' ++ calls, ∃ id q, c = .completed id q := by
    intro c hc
    rcases List.mem_append.mp hc with hc | hc
    · exact hcalls' c hc
    · exact hcalls c hc
  have hmk := Completes.mk (s := s) (calls' ++ calls) abandoned waiters queue id generators hall
  rw [List.append_assoc] at hmk
  exact hmk

section
variable (s : DependencyManager) (u : UserCode) (q : PromiseId)

theorem completes_completeWaiter (id : EventId) (s : DependencyManager)
    (w : EventType × PromiseId) : Completes s (completeWaiter u id s w) := by
  unfold completeWaiter
  dsimp only
  split <;> exact .mk [.completed id w.2] _ _ _ _ _ (by simp)

theorem completes_handleEventCompletion (e : Event) :
    Completes s (s.handleEventCompletion u e) := by
  have hall : ∀ (l : List (EventType × PromiseId)) (t : DependencyManager),
      Completes t (l.foldl (completeWaiter u e.id) t) := fun l t =>
    Loops.rel_foldl Completes .refl Completes.trans _ l t fun t w _ =>
      completes_completeWaiter u e.id t w
  unfold handleEventCompletion
  split
  · exact .refl s
  · rename_i w _
    exact (hall w.events s).trans (.mk [] _ _ _ _ _ (by simp))

theorem completes_handleContinuable : Completes s (s.handleContinuable u q).manager :=
  handleContinuable_rel .refl .trans (fun _ _ _ _ => .mk [] _ _ _ _ _ (by simp))
    (fun _ => .mk [] _ _ _ _ _ (by simp))
    (fun g t _ _ => completes_handleEventCompletion t u g.event)
    fun _ => .mk [] _ _ _ _ _ (by simp)

end

end Ichor.DependencyManager
