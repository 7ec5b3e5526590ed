import Ichor.Properties.Creation
import Ichor.Desk.Dispatch

/-! Trackers see every request for their interface: one that is registered when the
request event comes sees the event, and one that comes later sees the services that
are in the table when its AddTrackerEvent is handled. Between the two nothing is lost
as long as a service enters the table before its request events are handled. -/
namespace Ichor.DependencyManager
open FiniteTable List

variable {s s' t : DependencyManager} {order : QueueOrder}

/-! ## The services in the table -/

variable {u : UserCode} {d svc : ServiceId} {e : Event} {c : Call} {a : Action} {r index : ℕ}

theorem services_removeInternalService
    (h : s.removeInternalService u d = some s') : s'.services = s.services.erase d := by
  obtain ⟨_, t, _, _, _, hkeep, rfl⟩ := removeInternalService_cases h
  exact congrArg (·.erase d) hkeep.services

/-- Nothing but its absence or what it was registered with. -/
def KeepsFixed (s s' : DependencyManager) : Prop :=
  ∀ d f, s'.fixedOf d = some f → s.fixedOf d = some f

theorem KeepsFixed.of_eq (h : s'.services = s.services) : KeepsFixed s s' := by
  intro d f hf
  unfold fixedOf at hf ⊢
  rwa [h] at hf

theorem Moves.keepsFixed (h : Moves s s') : KeepsFixed s s' := fun d _ hf => h.fixed d ▸ hf

theorem KeepsFixed.trans (h : KeepsFixed s t) (h' : KeepsFixed t s') : KeepsFixed s s' :=
  fun d f hf => h d f (h' d f hf)

theorem keepsFixed_removeInternalService
    (h : s.removeInternalService u d = some s') : KeepsFixed s s' := by
  intro x f hf
  unfold fixedOf at hf ⊢
  rw [services_removeInternalService h, Table.get?_erase] at hf
  split at hf
  · cases hf
  · exact hf

theorem EndsStop.keepsFixed {removeAfter : Bool}
    (h : EndsStop s u d removeAfter s') : KeepsFixed s s' :=
  h.rel KeepsFixed.trans Moves.keepsFixed (.of_eq rfl) keepsFixed_removeInternalService

theorem Completes.services (h : Completes s s') : s'.services = s.services := by
  cases h
  rfl

theorem Handling.fixed {out : Handled} (h : Handling s u e out) :
    KeepsFixed s out.manager ∨ ∃ m, e.body = .insertService m ∧
      ∀ d f, out.manager.fixedOf d = some f →
        s.fixedOf d = some f ∨ e.originatingService = d ∧ f = m.fixed := by
  cases h with
  | lifecycle t hb hm | started d t hb hm => exact .inl hm.keepsFixed
  | request hash r hb => exact .inl (.of_eq (housekeeping_handleDependencyRequest s u e hash r).services)
  | quit hb =>
    have hcalm := (calm_handleQuit s e).toMoves.keepsFixed
    exact .inl fun d f hf => hcalm d f hf
  | insert m t hb hm =>
    refine .inr ⟨m, hb, fun d f hf => ?_⟩
    have hin : ((s.insert e.originatingService m).services.get? d).map LifecycleManager.fixed =
        some f := hm.keepsFixed d f hf
    show (s.services.get? d).map LifecycleManager.fixed = some f ∨ _
    simp only [DependencyManager.insert, Table.get?_emplace] at hin
    split at hin
    · rename_i hd
      cases hold : s.services.get? d with
      | none =>
        rw [hold] at hin
        exact .inr ⟨hd.symm, (Option.some.inj hin).symm⟩
      | some m' =>
        rw [hold] at hin
        exact .inl hin
    · exact .inl hin
  | stop d removeAfter out hb h =>
    left
    cases h with
    | moved _ hm => exact hm.toMoves.keepsFixed
    | suspended t q priority hm => exact hm.keepsFixed.trans (.of_eq rfl)
    | ended t h => exact h.keepsFixed
  | startSuspended d t priority hb hm => exact .inl (hm.keepsFixed.trans (.of_eq rfl))
  | removeIgnored d hb | removeHandler listener type hb | removeInterceptor id type hb =>
    exact .inl (.of_eq rfl)
  | remove d t hb hr => exact .inl (keepsFixed_removeInternalService hr)
  | addTracker hash hb => exact .inl (.of_eq (housekeeping_handleAddTracker s u e hash).services)
  | removeTracker hash hb => exact .inl (.of_eq (same_handleRemoveTracker s e hash).services)
  | continuable q hb => exact .inl (.of_eq (completes_handleContinuable s u q).services)
  | continuableStart q out hb h =>
    left
    have hdone : ∀ (t : DependencyManager) (g : ScopedGenerator), KeepsFixed t
        ((t.handleEventCompletion u g.event).eraseGenerator q) := fun t g =>
      .of_eq (same_handleEventCompletion t u g.event).services
    cases h with
    | stale => exact .of_eq rfl
    | moved g v t hg hv hb hm => exact hm.toMoves.keepsFixed.trans (hdone t g)
    | ended g d remove t hg hb h => exact h.keepsFixed.trans (hdone t g)
  | function hb => exact .inl (.of_eq (same_handleRunFunction s e).services)
  | functionAsync hb => exact .inl (.of_eq (housekeeping_handleRunFunctionAsync s u e).services)
  | broadcast hb => exact .inl (.of_eq (housekeeping_broadcastEvent s u e).services)

theorem Processed.fixed (h : Processed s u e s') :
    KeepsFixed s s' ∨ ∃ m, e.body = .insertService m ∧ ∀ d f, s'.fixedOf d = some f →
      s.fixedOf d = some f ∨ e.originatingService = d ∧ f = m.fixed := by
  have hpre : KeepsFixed s (s.preIntercept u e).1 := .of_eq (same_preIntercept s u e).services
  cases h with
  | dead hq => exact .inl (.of_eq rfl)
  | vetoed hq ha =>
    exact .inl (hpre.trans (.of_eq (same_finishEvent _ u e _ false).services))
  | handled out hq ha hh hc =>
    have hpost : KeepsFixed out.manager (out.manager.finishEvent u e out true) :=
      .of_eq (same_finishEvent _ u e out true).services
    rcases (handling_handle hh).fixed with hkeeps | ⟨m, hm, hin⟩
    · exact .inl ((hpre.trans hkeeps).trans hpost)
    · refine .inr ⟨m, hm, fun d f hf => ?_⟩
      exact (hin d f (hpost d f hf)).imp_left (hpre d f)
  | quits out hq ha hh hc can =>
    left
    intro d f hf
    cases hf

theorem UserMove.keepsFixed (h : UserMove s s') : KeepsFixed s s' := by
  have hstate : ∀ (d : ServiceId) (st : ServiceState), KeepsFixed s (s.setState d st) := by
    intro d st x f hf
    have hsame := fixedOf_modifyService s d x (fun m => { m with state := st }) fun _ => rfl
    rwa [← hsame]
  cases h with
  | created desc =>
    rw [createServiceManager_eq]
    exact .of_eq rfl
  | startReturns q g success v hg | stopReturns q g hg =>
    exact (hstate _ _).trans (.of_eq rfl)
  | _ => exact .of_eq rfl

/-! ## Calls of trackers -/

/-- The call is made between the two states. -/
def Calls (c : Call) (s s' : DependencyManager) : Prop :=
  ∃ calls, s'.trace = calls ++ s.trace ∧ c ∈ calls

theorem Calls.after (h : Calls c s t) (hg : Grows t s') : Calls c s s' := by
  obtain ⟨calls, ht, hc⟩ := h
  obtain ⟨calls', ht'⟩ := hg.trace
  exact ⟨calls' ++ calls, by rw [ht', ht, append_assoc], mem_append_right _ hc⟩

theorem Calls.before (hg : ∃ calls, t.trace = calls ++ s.trace) (h : Calls c t s') :
    Calls c s s' := by
  obtain ⟨calls, ht⟩ := hg
  obtain ⟨calls', ht', hc⟩ := h
  exact ⟨calls' ++ calls, by rw [ht', ht, append_assoc], mem_append_left _ hc⟩

theorem calls_runGenerator (s : DependencyManager) (u : UserCode) (c : Call) (svc : ServiceId)
    (priority : ℕ) (e : Event) (ref : Option ℕ) :
    Calls c s (s.runGenerator u c svc priority e ref).1 := by
  have hran := ran_runGenerator s u c svc priority e ref
  generalize s.runGenerator u c svc priority e ref = out at hran
  cases hran <;> exact ⟨[c], rfl, mem_singleton_self c⟩

theorem extends_step (h : ∃ calls, s.trace = calls ++ t.trace)
    (hstep : next a s = some s') : ∃ calls, s'.trace = calls ++ t.trace := by
  obtain ⟨calls, ht⟩ := h
  have hgrown : ∃ calls', s'.trace = calls' ++ s.trace := by
    rcases next_grows hstep with ⟨_, _, _, _, _, hg⟩ | ⟨_, hg⟩
    · exact hg.trace
    · exact hg.trace
  obtain ⟨calls', ht'⟩ := hgrown
  exact ⟨calls' ++ calls, by rw [ht', ht, append_assoc]⟩

theorem calls_foldl {α β : Type} (proj : β → DependencyManager) (f : β → α → β) (l : List α) (b : β)
    (hf : ∀ b a, Grows (proj b) (proj (f b a))) {a : α} (ha : a ∈ l)
    (hc : ∀ b, Calls c (proj b) (proj (f b a))) : Calls c (proj b) (proj (l.foldl f b)) := by
  induction l generalizing b with
  | nil => cases ha
  | cons x rest ih =>
    rcases mem_cons.mp ha with rfl | hrest
    · have hgrows : Grows (proj (f b a)) (proj (rest.foldl f (f b a))) :=
        Loops.rel_foldl (fun x y => Grows (proj x) (proj y)) (fun x => .refl (proj x))
          (fun h h' => h.trans h') f rest (f b a) fun b a _ => hf b a
      exact (hc b).after hgrows
    · exact Calls.before (hf b x).trace (ih (f b x) hrest)

theorem calls_handleDependencyRequest (s : DependencyManager) (u : UserCode) (e : Event)
    (hash : NameHash) (r : ℕ) (hsvc : svc ∈ s.trackersOf hash) :
    Calls (.tracker svc hash e.originatingService r) s
      (s.handleDependencyRequest u e hash r).manager :=
  calls_foldl Prod.fst (fun (acc : DependencyManager × Bool) (svc : ServiceId) =>
      let out := acc.1.runGenerator u (.tracker svc hash e.originatingService r) svc e.priority e
        (some s.nextPromiseId)
      (out.1, acc.2 || out.2)) (s.trackersOf hash) (s, false)
    (fun b a => (Housekeeping.generator (u := u) b.1 _ a e.priority e _ rfl).grows) hsvc
    fun b => calls_runGenerator b.1 u _ svc e.priority e _

variable {dep : Registration}

theorem calls_handleAddTracker (s : DependencyManager) (u : UserCode) (e : Event) (hash : NameHash)
    (hsvc : e.originatingService ∈ s.trackersOf hash) {m : LifecycleManager}
    (hm : s.services.get? d = some m) (hk : m.kind = .dependency)
    (hr : m.registry[r]? = some dep) (hdep : dep.interfaceNameHash = hash) :
    Calls (.tracker e.originatingService hash d r) s (s.handleAddTracker u e hash) := by
  have hrequest : (d, min m.priority internalDependencyEventPriority, r) ∈
      s.services.entries.flatMap fun entry =>
        ((if entry.2.kind = .dependency then entry.2.registry.zipIdx else []).filter fun dep =>
          dep.1.interfaceNameHash == hash).map fun dep =>
            (entry.1, min entry.2.priority internalDependencyEventPriority, dep.2) := by
    refine mem_flatMap.mpr ⟨(d, m), (Table.mem_entries_iff _ _ _).mpr hm, ?_⟩
    rw [if_pos hk]
    refine mem_map.mpr ⟨(dep, r), mem_filter.mpr ⟨?_, ?_⟩, rfl⟩
    · exact mk_mem_zipIdx_iff_getElem?.mpr hr
    · exact beq_iff_eq.mpr hdep
  have hloop := calls_foldl id (fun (s : DependencyManager) (request : ServiceId × ℕ × ℕ) =>
      (s.runGenerator u (.tracker e.originatingService hash request.1 request.2.2)
        e.originatingService e.priority
        ⟨0, request.1, request.2.1, .dependencyRequest hash request.2.2⟩ none).1) _ s
    (fun b a => (Housekeeping.generator (u := u) b _ _ _ _ _ rfl).grows) hrequest
    fun b => calls_runGenerator b u _ _ _ _ _
  unfold handleAddTracker
  split
  · exact hloop
  · exact absurd hsvc ‹_›

/-! ## Creations -/

/-- The event is neither vetoed nor dropped by a manager that is done. -/
def undisturbed (s : DependencyManager) : Action → Bool
  | .processEvent index u => !s.quitDone &&
      s.queue[index]?.all fun e => ((s.dequeue index).preIntercept u e).2
  | _ => true

/-- No event is disturbed, and services are inserted before their request events are handled. -/
def Tracking (order : QueueOrder) (s : DependencyManager) (a : Action) : Prop :=
  s.undisturbed a = true ∧ ∀ desc, a = .createServiceManager desc → InsertsFirst order desc

theorem undisturbed_processEvent
    (h : s.undisturbed (.processEvent index u) = true) (he : s.queue[index]? = some e) :
    s.quitDone = false ∧ ((s.dequeue index).preIntercept u e).2 = true := by
  simpa only [undisturbed, he, Option.all_some, Bool.and_eq_true, Bool.not_eq_true'] using h

def Requests (e : Event) (d : ServiceId) (hash : NameHash) (r : ℕ) : Prop :=
  e.originatingService = d ∧ e.body = .dependencyRequest hash r

/-- The request events of a service that is not in the table yet are all still queued. -/
def Announced (order : QueueOrder) (s : DependencyManager) : Prop :=
  ∀ i ∈ s.queue, ∀ m, i.body = .insertService m → ∃ desc, InsertsFirst order desc ∧
    m = createdManager i.originatingService desc ∧
    i.priority = min internalInsertServiceEventPriority desc.priority ∧
    ∀ r dep, m.registry[r]? = some dep → ∃ e ∈ s.queue,
      Requests e i.originatingService dep.interfaceNameHash r ∧
      e.priority = min internalDependencyEventPriority desc.priority ∧ i.id < e.id

theorem queue_of_action (hp : ∀ index u, a ≠ .processEvent index u)
    (hc : ∀ desc, a ≠ .createServiceManager desc) (h : next a s = some s') :
    ∃ events, s'.queue = s.queue ++ events ∧ ∀ e ∈ events, ∀ m, e.body ≠ .insertService m := by
  have hnone : s'.queue = s.queue → ∃ events, s'.queue = s.queue ++ events ∧
      ∀ e ∈ events, ∀ m, e.body ≠ .insertService m := fun h => ⟨[], by rw [h, append_nil], nofun⟩
  have hone : ∀ e : Event, s'.queue = s.queue ++ [e] → (∀ m, e.body ≠ .insertService m) →
      ∃ events, s'.queue = s.queue ++ events ∧ ∀ e ∈ events, ∀ m, e.body ≠ .insertService m :=
    fun e h he => ⟨[e], h, fun x hx => mem_singleton.mp hx ▸ he⟩
  cases a with
  | processEvent index u => exact absurd rfl (hp index u)
  | createServiceManager desc => exact absurd rfl (hc desc)
  | pushEvent o priority body =>
    simp only [next] at h
    split at h
    · rename_i hb
      cases h
      refine hone _ rfl ?_
      rintro m rfl
      cases hb
    · cases h
  | pushEventAsync q o priority coalesce body =>
    simp only [next] at h
    split at h
    · rename_i hb
      obtain ⟨_, rfl⟩ | rfl := pushEventAsync_eq_some h
      · exact hnone rfl
      · refine hone _ rfl ?_
        rintro m rfl
        cases hb
    · cases h
  | waitForServiceStarted q d | waitForServiceStopped q d =>
    obtain ⟨_, -, rfl⟩ := waitForServiceEvent_eq_some h
    exact hnone rfl
  | registerEventHandler d type target | registerEventInterceptor d type =>
    simp only [next] at h
    split at h
    · cases h
      exact hnone rfl
    · cases h
  | registerDependencyTracker d hash =>
    obtain ⟨_, rfl⟩ := registerDependencyTracker_eq_some h
    exact hone _ rfl (by rintro _ ⟨⟩)
  | finishStart q success =>
    obtain ⟨_, _, -, -, rfl⟩ := finishStart_eq_some h
    exact hone _ rfl (by rintro _ ⟨⟩)
  | finishStop q =>
    obtain ⟨_, -, -, rfl⟩ := finishStopCoroutine_eq_some h
    exact hone _ rfl (by rintro _ ⟨⟩)
  | finishGenerator q =>
    obtain ⟨_, -, -, rfl⟩ := finishUserGenerator_eq_some h
    exact hone _ rfl (by rintro _ ⟨⟩)
  | yieldGenerator q =>
    obtain ⟨_, -, -, rfl⟩ := yieldUserGenerator_eq_some h
    exact hone _ rfl (by rintro _ ⟨⟩)

theorem exists_request (desc : ServiceDescription)
    (hr : (createdManager s.nextServiceId desc).registry[r]? = some dep) :
    ∃ e ∈ s.followUpEvents desc, Requests e s.nextServiceId dep.interfaceNameHash r := by
  refine ⟨⟨s.nextEventId + 1 + r, s.nextServiceId,
    min internalDependencyEventPriority desc.priority,
    .dependencyRequest dep.interfaceNameHash r⟩, ?_, rfl, rfl⟩
  unfold followUpEvents
  refine mem_append_left _ (mem_mapIdx.mpr ?_)
  have hlt := (List.getElem?_eq_some_iff.mp hr).1
  refine ⟨r, by simpa using hlt, ?_⟩
  have hdep := (List.getElem?_eq_some_iff.mp hr).2
  simp [hdep]

theorem Announced.append (h : Announced order s) {events : List Event}
    (hq : s'.queue = s.queue ++ events)
    (hevents : ∀ e ∈ events, ∀ m, e.body ≠ .insertService m) : Announced order s' := by
  intro i hi m hm
  rw [hq, mem_append] at hi
  rcases hi with hi | hi
  · obtain ⟨desc, hfirst, hcreated, hpriority, hrequests⟩ := h i hi m hm
    refine ⟨desc, hfirst, hcreated, hpriority, fun r dep hr => ?_⟩
    obtain ⟨e, he, hrest⟩ := hrequests r dep hr
    exact ⟨e, hq ▸ mem_append_left events he, hrest⟩
  · exact absurd hm (hevents i hi m)

theorem Announced.create (h : Announced order s) {desc : ServiceDescription}
    (hfirst : InsertsFirst order desc) : Announced order (s.createServiceManager desc) := by
  have hq : (s.createServiceManager desc).queue =
      s.queue ++ s.insertEvent desc :: s.followUpEvents desc := by
    rw [createServiceManager_eq]
  have hmem : ∀ e ∈ s.insertEvent desc :: s.followUpEvents desc,
      e ∈ (s.createServiceManager desc).queue := fun e he => hq ▸ mem_append_right _ he
  intro i hi m hm
  rw [hq, mem_append, mem_cons] at hi
  rcases hi with hi | rfl | hi
  · obtain ⟨desc', hfirst', hcreated, hpriority, hrequests⟩ := h i hi m hm
    refine ⟨desc', hfirst', hcreated, hpriority, fun r dep hr => ?_⟩
    obtain ⟨e, he, hrest⟩ := hrequests r dep hr
    exact ⟨e, hq ▸ mem_append_left _ he, hrest⟩
  · have hm' : createdManager s.nextServiceId desc = m := by cases hm; rfl
    subst hm'
    refine ⟨desc, hfirst, rfl, rfl, fun r dep hr => ?_⟩
    obtain ⟨e, he, hrequest⟩ := exists_request desc hr
    obtain ⟨_, hpriority, hid, _⟩ := mem_followUpEvents he
    exact ⟨e, hmem e (mem_cons_of_mem _ he), hrequest, hpriority, hid⟩
  · obtain ⟨_, _, _, _, ⟨dep, r, _, hb⟩ | hb⟩ := mem_followUpEvents hi <;> rw [hb] at hm <;> cases hm

theorem Announced.process (hmin : ∀ queue index, order queue index = true →
      priorityQueue queue index = true) (h : Announced order s)
    (hpop : order s.queue index = true) (hp : Processed (s.dequeue index) u e s')
    (hqueue : ∀ e' ∈ s'.queue, e' ∈ (s.dequeue index).queue ∨ e'.body.ofManager = true) :
    Announced order s' := by
  intro i hi m hm
  have hin : i ∈ (s.dequeue index).queue := by
    rcases hqueue i hi with hin | hown
    · exact hin
    · rw [hm] at hown
      cases hown
  have hold : i ∈ s.queue := mem_of_mem_eraseIdx hin
  obtain ⟨desc, hfirst, hcreated, hpriority, hrequests⟩ := h i hold m hm
  refine ⟨desc, hfirst, hcreated, hpriority, fun r dep hr => ?_⟩
  obtain ⟨e', he', hrequest, hpriority', hid⟩ := hrequests r dep hr
  rcases mem_eraseIdx_or s.queue index e' he' with hleft | hpopped
  · exact ⟨e', hp.grows.mem hleft, hrequest, hpriority', hid⟩
  · exact absurd hold (not_mem_of_insertsFirst hmin hfirst hpopped hpop hpriority' hpriority hid)

/-- What the runs keep before and after a tracker is registered. -/
structure Traceable (order : QueueOrder) (s : DependencyManager) : Prop where
  inv : Lifecycle.Inv (Lifecycle.core s)
  bounded : s.QueueBounded
  announced : Announced order s
  /-- Only a dependency manager has registrations. -/
  kinds : ∀ d f, s.fixedOf d = some f → f.registrations ≠ [] → f.kind = .dependency

theorem registrations_createdManager (d : ServiceId) (desc : ServiceDescription)
    (h : (createdManager d desc).fixed.registrations ≠ []) :
    (createdManager d desc).fixed.kind = .dependency := by
  cases hreq : desc.requestsDependencies with
  | true => simp [createdManager, LifecycleManager.fixed, hreq]
  | false => simp [createdManager, LifecycleManager.fixed, hreq] at h

theorem traceable_initial (internals : List NameHash) : Traceable order (initial internals) where
  inv := by
    have hreach : Reachable order (initial internals) := ⟨internals, .refl⟩
    exact Lifecycle.inv_of_reachable hreach
  bounded := queueBounded_initial internals
  announced := by
    intro i hi
    rw [queue_initial] at hi
    cases hi
  kinds := by
    have hkeep : ∀ d f, (initial internals).fixedOf d = some f → f.registrations = [] := by
      refine List.foldlRecOn (motive := fun s : DependencyManager =>
        ∀ d f, s.fixedOf d = some f → f.registrations = []) internals _ (by rintro d f ⟨⟩) ?_
      intro s hs hash _ d f hf
      simp only [fixedOf, addInternalServiceManager, Table.get?_emplace] at hf
      split at hf
      · cases hold : s.services.get? d with
        | none =>
          rw [hold] at hf
          cases hf
          rfl
        | some m =>
          rw [hold] at hf
          exact hs d f (by rw [fixedOf, hold]; exact hf)
      · exact hs d f hf
    intro d f hf hne
    exact absurd (hkeep d f hf) hne

theorem Traceable.step (hmin : ∀ queue index, order queue index = true →
      priorityQueue queue index = true) (h : Traceable order s)
    (hpop : respects order s a = true) (hc : Tracking order s a) (hstep : next a s = some s') :
    Traceable order s' := by
  refine ⟨h.inv.path (Lifecycle.path_next a h.inv hstep), h.bounded.step hstep, ?_, ?_⟩
  · rcases next_cases hstep with ⟨index, u, e, rfl, he, hp⟩ | ⟨hnot, _⟩
    · exact h.announced.process hmin hpop hp (queue_of_processed h.inv h.bounded he hp hstep)
    · by_cases hcreate : ∃ desc, a = .createServiceManager desc
      · obtain ⟨desc, rfl⟩ := hcreate
        cases hstep
        exact h.announced.create (hc.2 desc rfl)
      · obtain ⟨events, hq, hevents⟩ :=
          queue_of_action hnot (fun desc ha => hcreate ⟨desc, ha⟩) hstep
        exact h.announced.append hq hevents
  · intro d f hf hne
    rcases next_cases hstep with ⟨index, u, e, rfl, he, hp⟩ | ⟨_, hm⟩
    · rcases hp.fixed with hkeeps | ⟨m, hb, hin⟩
      · exact h.kinds d f (hkeeps d f hf) hne
      · rcases hin d f hf with hold | ⟨_, rfl⟩
        · exact h.kinds d f hold hne
        · obtain ⟨desc, _, rfl, _⟩ := h.announced e (mem_of_getElem? he) m hb
          exact registrations_createdManager _ _ hne
    · exact h.kinds d f (hm.keepsFixed d f hf) hne

/-! ## No request is lost -/

/-- The tracker has been called for the registration, or will see it with its
AddTrackerEvent or with the request event. -/
def Pursued (svc : ServiceId) (hash : NameHash) (t s : DependencyManager) (d : ServiceId) (r : ℕ) :
    Prop :=
  Calls (.tracker svc hash d r) t s ∨
    (∃ e ∈ s.queue, e.originatingService = svc ∧ e.body = .addTracker hash) ∨
    ∃ e ∈ s.queue, Requests e d hash r

def Tracked (svc : ServiceId) (hash : NameHash) (t s : DependencyManager) : Prop :=
  ∀ d f r x, s.fixedOf d = some f → f.registrations[r]? = some x → x.1 = hash →
    Pursued svc hash t s d r

variable {hash : NameHash} {t0 : DependencyManager}

theorem Pursued.grows
    (h : Pursued svc hash t0 s d r) (hg : Grows s s') : Pursued svc hash t0 s' d r := by
  rcases h with hcall | ⟨e, he, hb⟩ | ⟨e, he, hb⟩
  · exact .inl (hcall.after hg)
  · exact .inr (.inl ⟨e, hg.mem he, hb⟩)
  · exact .inr (.inr ⟨e, hg.mem he, hb⟩)

theorem Processed.calls (hp : Processed s u e s')
    (hq : s.quitDone = false) (ha : (s.preIntercept u e).2 = true)
    (hc : ∀ out, (s.preIntercept u e).1.handle u e = some out →
      Calls c (s.preIntercept u e).1 out.manager) : Calls c s s' := by
  have hpre := (same_preIntercept s u e).grows.trace
  cases hp with
  | dead hd =>
    rw [hq] at hd
    cases hd
  | vetoed _ hv =>
    rw [ha] at hv
    cases hv
  | handled out _ _ hh _ =>
    exact (Calls.before hpre (hc out hh)).after (same_finishEvent _ u e out true).grows
  | quits out _ _ hh _ can =>
    obtain ⟨calls, ht, hmem⟩ := Calls.before hpre (hc out hh)
    exact ⟨calls, ht, hmem⟩

theorem trackersOf_preIntercept (s : DependencyManager) (u : UserCode) (e : Event) (hash : NameHash) :
    (s.preIntercept u e).1.trackersOf hash = s.trackersOf hash := by
  rw [preIntercept_eq]
  rfl

theorem registration_of_fixed {m : LifecycleManager} {x} (h : m.fixed.registrations[r]? = some x) :
    ∃ dep, m.registry[r]? = some dep ∧ (dep.interfaceNameHash, dep.flags, dep.properties) = x := by
  rw [LifecycleManager.fixed, getElem?_map] at h
  exact Option.map_eq_some_iff.mp h

theorem Tracked.process
    (h : Tracked svc hash t0 s) (ht : Traceable order s) (hgrown : ∃ calls, s.trace = calls ++ t0.trace)
    (he : s.queue[index]? = some e)
    (hc : Tracking order s (.processEvent index u)) (hsvc : svc ∈ s.trackersOf hash)
    (hp : Processed (s.dequeue index) u e s') : Tracked svc hash t0 s' := by
  obtain ⟨hq, hallowed⟩ := undisturbed_processEvent hc.1 he
  have hpre := same_preIntercept (s.dequeue index) u e
  have hsvc' : svc ∈ ((s.dequeue index).preIntercept u e).1.trackersOf hash := by
    rw [trackersOf_preIntercept]
    exact hsvc
  intro d f r x hf hr hx
  -- a service that was there before the event, or one that the event inserts
  have hcases : s.fixedOf d = some f ∨ ∃ m, e.body = .insertService m ∧
      e.originatingService = d ∧ f = m.fixed := by
    rcases hp.fixed with hkeeps | ⟨m, hb, hin⟩
    · exact .inl (hkeeps d f hf)
    · exact (hin d f hf).imp_right fun hd => ⟨m, hb, hd⟩
  rcases hcases with hold | ⟨m, hb, hd, rfl⟩
  · rcases h d f r x hold hr hx with hcall | ⟨e', he', ho, hb⟩ | ⟨e', he', ho, hb⟩
    · have hcall' : Calls (.tracker svc hash d r) t0 (s.dequeue index) := hcall
      exact .inl (hcall'.after hp.grows)
    · rcases mem_eraseIdx_or s.queue index e' he' with hleft | hpopped
      · exact .inr (.inl ⟨e', hp.grows.mem hleft, ho, hb⟩)
      · -- the AddTrackerEvent is being handled
        have heq : e' = e := Option.some.inj (hpopped.symm.trans he)
        subst heq
        refine .inl (Calls.before hgrown (hp.calls hq hallowed ?_))
        intro out hh
        simp only [handle, hb] at hh
        cases hh
        obtain ⟨m, hm, rfl⟩ := Option.map_eq_some_iff.mp hold
        obtain ⟨dep, hdep, rfl⟩ := registration_of_fixed hr
        have hkind : m.kind = .dependency := by
          refine ht.kinds d m.fixed hold ?_
          intro hnil
          rw [hnil] at hr
          cases hr
        have hm' : ((s.dequeue index).preIntercept u e').1.services.get? d = some m := by
          rw [hpre.services]
          exact hm
        rw [← ho]
        exact calls_handleAddTracker _ u e' hash (ho ▸ hsvc') hm' hkind hdep hx
    · rcases mem_eraseIdx_or s.queue index e' he' with hleft | hpopped
      · exact .inr (.inr ⟨e', hp.grows.mem hleft, ho, hb⟩)
      · -- the request event is being handled
        have heq : e' = e := Option.some.inj (hpopped.symm.trans he)
        subst heq
        refine .inl (Calls.before hgrown (hp.calls hq hallowed ?_))
        intro out hh
        simp only [handle, hb] at hh
        cases hh
        rw [← ho]
        exact calls_handleDependencyRequest _ u e' hash r hsvc'
  · -- the request events of the new service are still queued
    obtain ⟨desc, _, _, _, hrequests⟩ := ht.announced e (mem_of_getElem? he) m hb
    obtain ⟨dep, hdep, rfl⟩ := registration_of_fixed hr
    obtain ⟨e', he', hrequest, _⟩ := hrequests r dep hdep
    rw [hd, show dep.interfaceNameHash = hash from hx] at hrequest
    rcases mem_eraseIdx_or s.queue index e' he' with hleft | hpopped
    · exact .inr (.inr ⟨e', hp.grows.mem hleft, hrequest⟩)
    · have heq : e' = e := Option.some.inj (hpopped.symm.trans he)
      rw [heq, Requests, hb] at hrequest
      cases hrequest.2

/-- A service becomes ACTIVE, ready to register a tracker. -/
def trackerStarts : List Action :=
  [.createServiceManager (.simple [] []), .processEvent 0 .prompt, .processEvent 0 .prompt,
    .processEvent 0 .prompt]

/-- The unordered queue may hand over this event next, and the step is as in `Tracking`. -/
def tracks (s : DependencyManager) (a : Action) : Bool :=
  respects priorityQueue s a && s.undisturbed a &&
    match a with
    | .createServiceManager desc => decide (internalInsertServiceEventPriority < desc.priority)
    | _ => true

theorem tracking_of_tracks (h : s.tracks a = true) :
    respects priorityQueue s a = true ∧ Tracking priorityQueue s a := by
  unfold tracks at h
  simp only [Bool.and_eq_true] at h
  refine ⟨h.1.1, h.1.2, ?_⟩
  rintro desc rfl
  exact .inl (of_decide_eq_true h.2)

/-- A service that registers a dependency on interface 7 is created after the tracker. -/
def requestFollows : List Action :=
  [.createServiceManager (.simple [] [(7, false)]), .processEvent 0 .prompt, .processEvent 0 .prompt,
    .processEvent 0 .prompt, .processEvent 0 .prompt, .processEvent 0 .prompt]

def functionCalled : Action := .pushEvent 2 internalInsertServiceEventPriority .runFunction

/-- A service that registers a dependency on interface 7 and whose events all have the priority of an
insertion, created between functions of service 2. Of events of one priority the heap of the unordered
queue prefers the right one of two children, so the request is handled before the insertion. -/
def requestPrecedes : List Action :=
  [functionCalled, .createServiceManager { ServiceDescription.simple [] [(7, false)] with
      priority := internalInsertServiceEventPriority },
    functionCalled, functionCalled, functionCalled, .processEvent 0 .prompt, .processEvent 1 .prompt,
    .processEvent 3 .prompt]

/-- The AddTrackerEvent of the last function is handled before the service is inserted. -/
def insertFollows : List Action :=
  [.processEvent 3 .prompt, .processEvent 2 .prompt, .processEvent 2 .prompt, .processEvent 0 .prompt,
    .processEvent 0 .prompt, .processEvent 0 .prompt]

end Ichor.DependencyManager
